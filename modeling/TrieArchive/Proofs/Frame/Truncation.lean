import TrieArchive.Proofs.Frame.RoundTrip

/-! A frame that was cut short is never decoded: its bytes run out in the magic number, in the header, in the head of a
block or in the bytes that the head announces. Nothing is decoded of the blocks before the cut. -/
namespace TrieArchive.Frame

open Reading

section Input

variable {s : Bytes} (offset : Nat)

theorem run_take_short {n : Nat} (short : s.length < n) : (take n).run ⟨s, offset⟩ = .error .truncated := by
  have split : Bytes.split? n s = none := if_neg (by rw [List.length_take]; omega)
  simp only [StateT.run, take, split]

theorem run_word_short {width : Nat} (short : s.length < width) : (word width).run ⟨s, offset⟩ = .error .truncated := by
  rw [word, StateT.run_map, run_take_short offset short]
  rfl

theorem run_takePart_nil (n : Nat) : (takePart n).run ⟨[], offset⟩ = .error .truncated := by
  simp only [StateT.run, takePart, List.take_nil]

end Input

namespace Progress

variable {h : Header} {capacity : Nat} {p : Progress}

/-- A stored block of which bytes are missing takes those that are there, and fails. -/
theorem run_addStored_short (unstated : h.contentSize = none) (wide : h.blockLimit ≤ capacity)
    (room : p.Roomy h capacity) {bound left : Nat} (small : left ≤ h.blockLimit) {s : Bytes} (short : s.length < left)
    (offset : Nat) : (p.addStored h capacity bound left).run ⟨s, offset⟩ = .error .truncated := by
  induction bound generalizing p left s offset with
  | zero =>
    rw [addStored]
    · rfl
    · omega
  | succ bound ih =>
    rw [addStored]
    · by_cases none : s = []
      · rw [none]
        exact run_bind_of_error (run_takePart_nil offset left) _
      · obtain ⟨n, positive, least, there, taken⟩ := run_takePart offset (show 0 < left by omega) none
        have piece : (s.take n).length = n := List.length_take_of_le there
        obtain ⟨next, added, -, roomy⟩ := run_add unstated wide (s.take n) (by omega) room ⟨s.drop n, offset + n⟩
        have rest : (s.drop n).length < left - n := by rw [List.length_drop]; omega
        rw [run_bind_of_ok taken, run_bind_of_ok added, piece]
        exact ih roomy (by omega) rest (offset + n)
    · omega

/-- A stored block that was cut short is not taken. -/
theorem run_addBlocks_of_part (unstated : h.contentSize = none) (wide : h.blockLimit ≤ capacity)
    (limit : h.blockLimit ≤ Header.largestBlock) {last : Bool} {content front : Bytes}
    (small : content.length ≤ h.blockLimit) (room : p.Roomy h capacity) (part : front <+: block last content)
    (cut : front ≠ block last content) (bound : Bytes) (offset : Nat) :
    (p.addBlocks h capacity bound).run ⟨front, offset⟩ = .error .truncated := by
  rcases bound with _ | ⟨n, bound⟩
  · rfl
  rw [addBlocks]
  rcases prefix_append_cases part with ⟨inside, other⟩ | ⟨rest, rfl, behind⟩
  · -- the head of the block ends early
    have short : front.length < 3 := by
      have length := inside.length_le
      rw [Bytes.length_word] at length
      refine Nat.lt_of_le_of_ne length fun same => other (inside.eq_of_length ?_)
      rw [same, Bytes.length_word]
    exact run_bind_of_error (run_bind_of_error (run_word_short offset short) _) _
  · -- the head announces more bytes than there are
    have short : rest.length < content.length :=
      Nat.lt_of_le_of_ne behind.length_le fun same => cut (by rw [behind.eq_of_length same]; rfl)
    have head := run_blockHead last (Nat.le_trans small limit) rest offset
    have stored : (p.addBlock h capacity ⟨last, .stored, content.length⟩).run ⟨rest, offset + 3⟩ = .error .truncated :=
      run_addStored_short unstated wide room small short (offset + 3)
    have length : (BlockHead.mk last .stored content.length).length = content.length := rfl
    rw [run_bind_of_ok head, length, if_neg (Nat.not_lt.mpr small)]
    dsimp only
    rw [if_neg (by omega)]
    exact run_bind_of_error stored _

/-- Blocks that were cut short are taken up to the cut, where they fail. -/
theorem run_addBlocks_of_front (unstated : h.contentSize = none) (wide : h.blockLimit ≤ capacity)
    (limit : h.blockLimit ≤ Header.largestBlock) {contents : List Bytes}
    (small : ∀ content ∈ contents, content.length ≤ h.blockLimit) (room : p.Roomy h capacity) {front : Bytes}
    (part : front <+: storeBlocks contents) (cut : front ≠ storeBlocks contents) (bound : Bytes) (offset : Nat) :
    (p.addBlocks h capacity bound).run ⟨front, offset⟩ = .error .truncated := by
  induction contents using storeBlocks.induct generalizing p front bound offset with
  | case1 => exact run_addBlocks_of_part unstated wide limit (Nat.zero_le _) room part cut bound offset
  | case2 content =>
    exact run_addBlocks_of_part unstated wide limit (small content (List.mem_singleton_self content)) room part cut
      bound offset
  | case3 content rest more ih =>
    have shape : storeBlocks (content :: rest) = block false content ++ storeBlocks rest := storeBlocks.eq_3 _ _ more
    rw [shape] at part cut
    have fits := small content List.mem_cons_self
    rcases prefix_append_cases part with ⟨inside, other⟩ | ⟨later, rfl, behind⟩
    · exact run_addBlocks_of_part unstated wide limit fits room inside other bound offset
    · rcases bound with _ | ⟨n, bound⟩
      · rfl
      · obtain ⟨next, stop, -, roomy, step⟩ :=
          run_addBlocks_step unstated wide limit false content fits room n bound later offset
        rw [step]
        exact ih (fun content member => small content (List.mem_cons_of_mem _ member)) roomy behind
          (fun whole => cut (by rw [whole])) bound stop

end Progress

/-- Part of a magic number may still become one. -/
theorem startsLike_of_prefix {front rest : Bytes} (part : front <+: Header.magic ++ rest) : startsLike front = true := by
  have first : front.take 4 <+: Header.magic :=
    List.prefix_of_prefix_length_le ((List.take_prefix 4 front).trans part) (List.prefix_append _ _)
      (List.length_take_le 4 front)
  exact beq_iff_eq.mpr (List.prefix_iff_eq_take.mp first)

/-- The blocks behind a header have to be there in full. -/
theorem run_stream_of_front (w : Workspace) {contents : List Bytes}
    (small : ∀ content ∈ contents, content.length ≤ Header.largestBlock) {front : Bytes}
    (part : front <+: storeBlocks contents) (cut : front ≠ storeBlocks contents) (offset : Nat) :
    (stream w Header.written).run ⟨front, offset⟩ = .error .truncated := by
  have room : 2 ^ 17 + 2 ^ 17 ≤ (w.fitFrame Header.written).output := Nat.le_trans (by decide) (w.le_output_fit _ _)
  have missing := Progress.run_addBlocks_of_front (h := Header.written) (p := .initial) rfl
    (Nat.le_trans (by decide) room) (Nat.le_refl _) small (show 0 + 2 ^ 17 ≤ _ by omega) part cut front offset
  rw [stream, if_neg (by decide), run_get_bind]
  exact run_bind_of_error missing _

/-- A frame of stored blocks that was cut short is not decoded, whatever buffers the decoder brings. -/
theorem run_frame_of_front {contents : List Bytes} (small : ∀ content ∈ contents, content.length ≤ Header.largestBlock)
    (w : Workspace) {front : Bytes} (part : front <+: Header.magic ++ ([0x00, 0x38] ++ storeBlocks contents))
    (cut : front ≠ Header.magic ++ ([0x00, 0x38] ++ storeBlocks contents)) :
    (frame w).run ⟨front, 0⟩ = .error .truncated := by
  rw [frame, run_get_bind, startsLike_of_prefix part, if_pos rfl]
  rcases prefix_append_cases part with ⟨inside, other⟩ | ⟨rest, rfl, behind⟩
  · -- the magic number ends early
    have short : front.length < 4 := Nat.lt_of_le_of_ne inside.length_le fun same => other (inside.eq_of_length same)
    exact run_bind_of_error (run_take_short 0 short) _
  · have magic : (take 4).run ⟨Header.magic ++ rest, 0⟩ = .ok (Header.magic, ⟨rest, 4⟩) := run_take Header.magic rest 0
    rw [run_bind_of_ok magic]
    rcases prefix_append_cases behind with ⟨inside, other⟩ | ⟨rest, rfl, blocks⟩
    · -- the header ends early
      have short : Header.read.run ⟨rest, 4⟩ = .error .truncated := by
        rcases List.prefix_cons_iff.mp inside with rfl | ⟨rest, rfl, window⟩
        · rfl
        · rcases List.prefix_cons_iff.mp window with rfl | ⟨rest, rfl, none⟩
          · rfl
          · exact absurd (by rw [List.prefix_nil.mp none]) other
      exact run_bind_of_error short _
    · have header : Header.read.run ⟨[0x00, 0x38] ++ rest, 4⟩ = .ok (Header.written, ⟨rest, 6⟩) := run_header rest 4
      rw [run_bind_of_ok header]
      exact run_stream_of_front w small blocks (fun whole => cut (by rw [whole])) 6

/-- What was written is not decoded when its end is missing. -/
theorem decode_of_front {content front : Bytes} (part : front <+: encode content) (cut : front ≠ encode content) :
    decode front = .error .truncated := by
  have shape : encode content =
      Header.magic ++ ([0x00, 0x38] ++ storeBlocks (Bytes.pieces Header.largestBlock content)) := rfl
  rw [shape] at part cut
  have missing := run_frame_of_front (fun _ member => Bytes.length_le_of_mem_pieces_go member) .empty part cut
  cases front with
  | nil => rfl
  | cons b rest =>
    have none : (frames (b :: rest) .empty []).run ⟨b :: rest, 0⟩ = .error .truncated := run_bind_of_error missing _
    rw [decode, none]
    rfl

instance : StrictCompression where
  decompress_of_front part cut := ⟨_, congrArg (Except.mapError Fault.toIoFault) (decode_of_front part cut)⟩

end TrieArchive.Frame
