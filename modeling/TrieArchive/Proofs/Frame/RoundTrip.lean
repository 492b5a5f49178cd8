import TrieArchive.Frame.Basic
import TrieArchive.Proofs.Readers

/-! What is written as a frame of stored blocks is decoded to itself. The decoder's buffer is wide enough for a
block wherever it has come to stand, and it takes blocks piece by piece as they arrive. -/
namespace TrieArchive

namespace Bytes

theorem flatten_pieces_go {size : Nat} (positive : 0 < size) {fuel s : Bytes} (enough : s.length ≤ fuel.length) :
    (pieces.go size fuel s).flatten = s := by
  induction fuel generalizing s with
  | nil =>
    cases s with
    | nil => rfl
    | cons b rest => contradiction
  | cons f fuel ih =>
    cases s with
    | nil => rfl
    | cons b rest =>
      have shorter : ((b :: rest).drop size).length ≤ fuel.length := by
        rw [List.length_drop]
        simp only [List.length_cons] at enough ⊢
        omega
      rw [pieces.go, List.flatten_cons, ih shorter, List.take_append_drop]

theorem flatten_pieces {size : Nat} (positive : 0 < size) (s : Bytes) : (pieces size s).flatten = s :=
  flatten_pieces_go positive (Nat.le_refl _)

theorem length_le_of_mem_pieces_go {size : Nat} {fuel s piece : Bytes} (member : piece ∈ pieces.go size fuel s) :
    piece.length ≤ size := by
  induction fuel generalizing s with
  | nil => nomatch member
  | cons f fuel ih =>
    cases s with
    | nil => nomatch member
    | cons b rest =>
      rw [pieces.go] at member
      rcases List.mem_cons.mp member with rfl | later
      · exact List.length_take_le size _
      · exact ih later

end Bytes

namespace Frame

open Reading

section Input

variable (front rest : Bytes) (offset : Nat)

theorem run_take : (take front.length).run ⟨front ++ rest, offset⟩ = .ok (front, ⟨rest, offset + front.length⟩) := by
  simp only [StateT.run, take, Bytes.split?_append rfl]

theorem run_word {width n : Nat} (bounded : n < 256 ^ width) :
    (word width).run ⟨Bytes.word width n ++ rest, offset⟩ = .ok (n, ⟨rest, offset + width⟩) := by
  have read := run_map_of_ok (run_take (Bytes.word width n) rest offset) Bytes.value
  rwa [Bytes.length_word, Bytes.value_word, Nat.mod_eq_of_lt bounded] at read

/-- Of the bytes asked for, some are at hand. -/
theorem run_takePart {n : Nat} (positive : 0 < n) {s : Bytes} (some : s ≠ []) : ∃ k, 0 < k ∧ k ≤ n ∧ k ≤ s.length ∧
    (takePart n).run ⟨s, offset⟩ = .ok (s.take k, ⟨s.drop k, offset + k⟩) := by
  have ahead : 0 < partSize - offset % partSize := Nat.sub_pos_of_lt (Nat.mod_lt _ (by decide))
  have there : 0 < s.length := List.length_pos_iff.mpr some
  have stop : offset + (partSize - offset % partSize) - offset = partSize - offset % partSize := by omega
  set k := min (min n (partSize - offset % partSize)) s.length
  have least : k ≤ s.length := Nat.min_le_right _ _
  have length : (s.take k).length = k := List.length_take_of_le least
  refine ⟨k, by omega, by omega, least, ?_⟩
  simp only [StateT.run, takePart, Input.partEnd, stop]
  rw [List.take_eq_take_min]
  split
  · next empty =>
    rw [empty] at length
    exact absurd length (by simp only [List.length_nil]; omega)
  · rw [length]

end Input

section Blocks

theorem run_blockHead (last : Bool) {size : Nat} (small : size ≤ Header.largestBlock) (rest : Bytes) (offset : Nat) :
    BlockHead.read.run ⟨Bytes.word 3 (size * 8 + if last then 1 else 0) ++ rest, offset⟩ =
      .ok (⟨last, .stored, size⟩, ⟨rest, offset + 3⟩) := by
  have limit : size ≤ 2 ^ 17 := small
  have bounded : size * 8 + (if last then 1 else 0) < 256 ^ 3 := by
    split <;> omega
  have coding : (size * 8 + (if last then 1 else 0)) / 2 % 4 = 0 := by
    split <;> omega
  have whole : (size * 8 + (if last then 1 else 0)) / 8 = size := by
    split <;> omega
  have mark : decide ((size * 8 + (if last then 1 else 0)) % 2 = 1) = last := by
    cases last <;> simp <;> omega
  rw [BlockHead.read, run_bind_of_ok (run_word _ _ bounded), coding, whole, mark]
  rfl

end Blocks

namespace Progress

variable {h : Header} {capacity : Nat}

/-- The buffer has room for another block where writing goes on. -/
def Roomy (h : Header) (capacity : Nat) (p : Progress) : Prop := p.start + h.blockLimit ≤ capacity

variable {p : Progress}

/-- A buffer that is filled from the front again in time has room for every block. -/
theorem wrap_add_le (unstated : h.contentSize = none) (wide : h.blockLimit ≤ capacity) (next : Nat) :
    wrap h capacity next + h.blockLimit ≤ capacity := by
  rw [wrap, unstated]
  split
  · omega
  · next fits =>
    simp only [Option.all_none, true_and] at fits
    omega

/-- Writing a piece appends it to the content. -/
theorem run_add (unstated : h.contentSize = none) (wide : h.blockLimit ≤ capacity) (piece : Bytes)
    (small : piece.length ≤ h.blockLimit) (room : p.Roomy h capacity) (i : Input) :
    ∃ q : Progress, (p.add h capacity piece).run i = .ok (q, i) ∧ q.content = p.content ++ piece ∧
      q.Roomy h capacity := by
  have fits : ¬capacity - p.start < piece.length := by
    simp only [Roomy] at room
    omega
  refine ⟨⟨wrap h capacity (p.start + piece.length), p.size + piece.length, piece :: p.pieces⟩, ?_, ?_, ?_⟩
  · rw [add, if_neg fits]
    rfl
  · simp [content]
  · exact wrap_add_le unstated wide _

/-- A stored block is appended, however it is cut by the parts in which it arrives. -/
theorem run_addStored (unstated : h.contentSize = none) (wide : h.blockLimit ≤ capacity) (content : Bytes)
    (small : content.length ≤ h.blockLimit) (room : p.Roomy h capacity) {bound : Nat}
    (enough : content.length ≤ bound) (rest : Bytes) (offset : Nat) :
    ∃ (q : Progress) (stop : Nat), (p.addStored h capacity bound content.length).run ⟨content ++ rest, offset⟩ =
        .ok (q, ⟨rest, stop⟩) ∧ q.content = p.content ++ content ∧ q.Roomy h capacity := by
  induction bound generalizing p content offset with
  | zero =>
    obtain rfl : content = [] := List.length_eq_zero_iff.mp (Nat.le_zero.mp enough)
    exact ⟨p, offset, rfl, (List.append_nil _).symm, room⟩
  | succ bound ih =>
    by_cases empty : content = []
    · subst empty
      exact ⟨p, offset, rfl, (List.append_nil _).symm, room⟩
    · have some : content ++ rest ≠ [] := fun none => empty (List.append_eq_nil_iff.mp none).1
      obtain ⟨n, positive, least, -, taken⟩ := run_takePart offset (List.length_pos_iff.mpr empty) some
      rw [List.take_append_of_le_length least, List.drop_append_of_le_length least] at taken
      have piece : (content.take n).length = n := List.length_take_of_le least
      have left : (content.drop n).length = content.length - n := List.length_drop
      obtain ⟨next, added, grown, roomy⟩ := run_add unstated wide (content.take n) (by omega) room
        ⟨content.drop n ++ rest, offset + n⟩
      obtain ⟨q, stop, later, whole, room⟩ := ih (content.drop n) (by omega) roomy (by omega) (offset + n)
      refine ⟨q, stop, ?_, ?_, room⟩
      · rw [addStored, run_bind_of_ok taken, run_bind_of_ok added, piece, ← left]
        · exact later
        · exact List.length_eq_zero_iff.not.mpr empty
      · rw [whole, grown, List.append_assoc, List.take_append_drop]

/-- A stored block is taken, and the others from where it ends. -/
theorem run_addBlocks_step (unstated : h.contentSize = none) (wide : h.blockLimit ≤ capacity)
    (limit : h.blockLimit ≤ Header.largestBlock) (last : Bool) (content : Bytes)
    (small : content.length ≤ h.blockLimit) (room : p.Roomy h capacity) (n : UInt8) (bound rest : Bytes)
    (offset : Nat) :
    ∃ (q : Progress) (stop : Nat), q.content = p.content ++ content ∧ q.Roomy h capacity ∧
      (p.addBlocks h capacity (n :: bound)).run ⟨block last content ++ rest, offset⟩ =
        (if last then pure q else q.addBlocks h capacity bound).run ⟨rest, stop⟩ := by
  have head := run_blockHead last (Nat.le_trans small limit) (content ++ rest) offset
  rw [block, List.append_assoc]
  by_cases empty : content = []
  · subst empty
    refine ⟨p, offset + 3, (List.append_nil _).symm, room, ?_⟩
    rw [addBlocks, run_bind_of_ok head]
    cases last <;> rfl
  · obtain ⟨q, stop, added, whole, roomy⟩ := run_addStored unstated wide content small room (Nat.le_refl _) rest
      (offset + 3)
    refine ⟨q, stop, whole, roomy, ?_⟩
    have stored : (p.addBlock h capacity ⟨last, .stored, content.length⟩).run ⟨content ++ rest, offset + 3⟩ =
        .ok (q, ⟨rest, stop⟩) := added
    have length : (BlockHead.mk last .stored content.length).length = content.length := rfl
    rw [addBlocks, run_bind_of_ok head, length, if_neg (Nat.not_lt.mpr small)]
    dsimp only
    rw [if_neg (List.length_eq_zero_iff.not.mpr empty), run_bind_of_ok stored, unstated]
    cases last <;> rfl

/-- All blocks are taken, one after another. -/
theorem run_addBlocks (unstated : h.contentSize = none) (wide : h.blockLimit ≤ capacity)
    (limit : h.blockLimit ≤ Header.largestBlock) {contents : List Bytes}
    (small : ∀ content ∈ contents, content.length ≤ h.blockLimit) (room : p.Roomy h capacity) {bound : Bytes}
    (enough : contents.length < bound.length) (offset : Nat) :
    ∃ (q : Progress) (stop : Nat), q.content = p.content ++ contents.flatten ∧
      (p.addBlocks h capacity bound).run ⟨storeBlocks contents, offset⟩ = .ok (q, ⟨[], stop⟩) := by
  obtain ⟨n, bound, rfl⟩ := List.exists_cons_of_length_pos (Nat.zero_lt_of_lt enough)
  induction contents using storeBlocks.induct generalizing p n bound offset with
  | case1 =>
    obtain ⟨q, stop, whole, -, step⟩ :=
      run_addBlocks_step unstated wide limit true [] (Nat.zero_le _) room n bound [] offset
    rw [List.append_nil] at step
    exact ⟨q, stop, whole, step⟩
  | case2 content =>
    have fits := small content (List.mem_singleton_self content)
    obtain ⟨q, stop, whole, -, step⟩ :=
      run_addBlocks_step unstated wide limit true content fits room n bound [] offset
    rw [List.append_nil] at step
    exact ⟨q, stop, whole.trans (by simp), step⟩
  | case3 content rest more ih =>
    obtain ⟨next, start, grown, roomy, step⟩ :=
      run_addBlocks_step unstated wide limit false content (small content List.mem_cons_self) room n bound
        (storeBlocks rest) offset
    have fewer : rest.length < bound.length := Nat.lt_of_succ_lt_succ enough
    obtain ⟨m, bound, rfl⟩ := List.exists_cons_of_length_pos (Nat.zero_lt_of_lt fewer)
    obtain ⟨q, stop, whole, later⟩ :=
      ih (fun content member => small content (List.mem_cons_of_mem _ member)) roomy start m bound fewer
    refine ⟨q, stop, ?_, ?_⟩
    · rw [whole, grown, List.flatten_cons, List.append_assoc]
    · rw [storeBlocks, step]
      · exact later
      · exact more

end Progress

theorem length_lt_storeBlocks (contents : List Bytes) : contents.length < (storeBlocks contents).length := by
  induction contents using storeBlocks.induct with
  | case1 => decide
  | case2 content =>
    rw [storeBlocks, block, List.length_append, Bytes.length_word, List.length_singleton]
    omega
  | case3 content rest more ih =>
    rw [storeBlocks, block, List.length_append, List.length_append, Bytes.length_word, List.length_cons]
    · omega
    · exact more

/-- Buffers that were fitted to a frame hold what it needs. -/
theorem Workspace.le_output_fit (w : Workspace) (input output : Nat) : output ≤ (w.fit input output).output := by
  grind [fit]

/-- The header of all frames that are written: the window is one block wide and no size is stated. -/
def Header.written : Header := ⟨2 ^ 17, none, false⟩

theorem run_header (rest : Bytes) (offset : Nat) :
    Header.read.run ⟨0x00 :: 0x38 :: rest, offset⟩ = .ok (Header.written, ⟨rest, offset + 2⟩) := by
  have descriptor : (word 1).run ⟨0x00 :: 0x38 :: rest, offset⟩ = .ok (0, ⟨0x38 :: rest, offset + 1⟩) :=
    run_word (0x38 :: rest) offset (by decide)
  have window : (word 1).run ⟨0x38 :: rest, offset + 1⟩ = .ok (0x38, ⟨rest, offset + 2⟩) :=
    run_word rest (offset + 1) (by decide)
  have none : (word 0).run ⟨rest, offset + 2⟩ = .ok (0, ⟨rest, offset + 2⟩) :=
    run_word rest (offset + 2) (by decide)
  refine (run_bind_of_ok descriptor _).trans ((run_bind_of_ok window _).trans ((run_bind_of_ok none _).trans
    ((run_bind_of_ok none _).trans ?_)))
  rw [if_neg (by decide)]
  rfl

/-- A frame of stored blocks gives their content, whatever buffers the decoder brings. -/
theorem run_frame (contents : List Bytes) (small : ∀ content ∈ contents, content.length ≤ Header.largestBlock)
    (w : Workspace) :
    ∃ w' stop, (frame w).run ⟨Header.magic ++ [0x00, 0x38] ++ storeBlocks contents, 0⟩ =
      .ok ((contents.flatten, w'), ⟨[], stop⟩) := by
  have room : 2 ^ 17 + 2 ^ 17 ≤ (w.fitFrame Header.written).output :=
    Nat.le_trans (by decide) (w.le_output_fit _ _)
  obtain ⟨q, stop, whole, blocks⟩ := Progress.run_addBlocks (h := Header.written) (p := .initial) rfl
    (Nat.le_trans (by decide) room) (Nat.le_refl _) small (show 0 + 2 ^ 17 ≤ _ by omega)
    (length_lt_storeBlocks contents) 6
  refine ⟨w.fitFrame Header.written, stop, ?_⟩
  have starts : startsLike (Header.magic ++ [0x00, 0x38] ++ storeBlocks contents) = true := rfl
  have magic : (take 4).run ⟨Header.magic ++ [0x00, 0x38] ++ storeBlocks contents, 0⟩ =
      .ok (Header.magic, ⟨0x00 :: 0x38 :: storeBlocks contents, 4⟩) :=
    run_take Header.magic (0x00 :: 0x38 :: storeBlocks contents) 0
  have streamed : (stream w Header.written).run ⟨storeBlocks contents, 6⟩ =
      .ok ((contents.flatten, w.fitFrame Header.written), ⟨[], stop⟩) := by
    rw [stream, if_neg (by decide), run_get_bind, run_bind_of_ok blocks]
    dsimp only
    rw [whole]
    rfl
  rw [frame, run_get_bind, starts, if_pos rfl, run_bind_of_ok magic, run_bind_of_ok (run_header _ 4)]
  exact streamed

/-- What was written is decoded to itself. -/
theorem decode_encode (s : Bytes) : decode (encode s) = .ok s := by
  obtain ⟨w, stop, read⟩ := run_frame (Bytes.pieces Header.largestBlock s)
    (fun _ member => Bytes.length_le_of_mem_pieces_go member) .empty
  rw [Bytes.flatten_pieces (by decide)] at read
  have shape : encode s = 0x28 :: ([0xb5, 0x2f, 0xfd, 0x00, 0x38] ++ storeBlocks (Bytes.pieces Header.largestBlock s)) :=
    rfl
  have all : (frames (encode s) .empty []).run ⟨encode s, 0⟩ = .ok (s, ⟨[], stop⟩) := by
    rw [shape, frames, ← shape]
    refine (run_bind_of_ok read _).trans ?_
    dsimp only
    rw [run_get_bind, if_pos List.isEmpty_nil, run_pure, List.reverse_singleton, List.flatten_singleton]
  rw [decode, all]
  rfl

instance : LawfulCompression where
  decompress_compress _ s := congrArg (Except.mapError Fault.toIoFault) (decode_encode s)

end Frame

end TrieArchive
