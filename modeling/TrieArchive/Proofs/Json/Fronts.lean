import Mathlib.Data.List.Infix
import TrieArchive.Proofs.Json.Form

/-! JSON texts that end early. Inside strings, lists, objects and words a reader misses the bytes that were cut off. Only a
number may be taken for a shorter one, but then nothing is left of the text for what has to stand behind it. -/
namespace TrieArchive.Json

open Reader Reading

theorem Ends.of_prefix {rest part : Bytes} (ends : Ends rest) (front : part <+: rest) : Ends part := by
  cases part with
  | nil => exact ends_nil
  | cons b part =>
    obtain ⟨more, rfl⟩ := front
    exact ends

namespace Reader

variable {α β σ : Type} {r : Reader α} {text : Bytes} {a : α}

/-- However much of the text is there from its front, bytes are missing. -/
def Starves (r : Reader α) (text : Bytes) : Prop := ∀ front, front <+: text → r.run front = .error .truncated

/-- However much of the text is there from its front, bytes are missing or all are taken. -/
def Exhausts (r : Reader α) (text : Bytes) : Prop :=
  ∀ front, front <+: text → r.run front = .error .truncated ∨ ∃ a, r.run front = .ok (a, [])

theorem Starves.bind (starves : Starves r text) (f : α → Reader β) : Starves (r >>= f) text :=
  fun front part => run_bind_of_error (starves front part) f

theorem starves_nil (missing : r.run [] = .error .truncated) : Starves r [] := fun front part => by
  rw [List.prefix_nil.mp part, missing]

theorem starves_singleton {b : UInt8} (missing : r.run [] = .error .truncated) (alone : r.run [b] = .error .truncated) :
    Starves r [b] := by
  intro front part
  rcases List.prefix_cons_iff.mp part with rfl | ⟨rest, rfl, behind⟩
  · exact missing
  · rw [List.prefix_nil.mp behind, alone]

/-- The text is read where it may end, and no part of it from its front leaves bytes over. -/
structure Guards (r : Reader α) (text : Bytes) : Prop where
  reads : ∃ a, Reads r text a
  exhausts : Exhausts r text

/-- What misses bytes up to the last one takes all of them when that one is there. -/
theorem Starves.guards {b : UInt8} (starves : Starves r text) (reads : Reads r (text ++ [b]) a) :
    Guards r (text ++ [b]) := by
  refine ⟨⟨a, reads⟩, fun front part => ?_⟩
  rcases List.prefix_concat_iff.mp part with rfl | inside
  · have whole := reads [] ends_nil
    rw [List.append_nil] at whole
    exact .inr ⟨a, whole⟩
  · exact .inl (starves front inside)

theorem Exhausts.bind_pure (exhausts : Exhausts r text) (f : α → β) : Exhausts (r >>= fun a => pure (f a)) text := by
  intro front part
  rcases exhausts front part with missing | ⟨a, taken⟩
  · exact .inl (run_bind_of_error missing _)
  · exact .inr ⟨f a, run_bind_of_ok taken _⟩

theorem Guards.bind_pure (guards : Guards r text) (f : α → β) : Guards (r >>= fun a => pure (f a)) text := by
  obtain ⟨a, read⟩ := guards.reads
  exact ⟨⟨f a, read.bind_pure f⟩, guards.exhausts.bind_pure f⟩

theorem Guards.map (guards : Guards r text) (f : α → β) : Guards (f <$> r) text := by
  rw [← bind_pure_comp]
  exact guards.bind_pure f

/-- A document cut short is missed. -/
theorem Starves.document {front : Bytes} (starves : Starves r text) (part : front <+: text) :
    Reader.document r front = .error .truncated := by
  rw [Reader.document, starves front part]
  rfl

section Sequence

variable {f : α → Reader β} {tail : Bytes}

/-- A step whose own text shows where it ends. -/
theorem Starves.step {b : UInt8} (starves : Starves r text) (whole : ∀ rest, r.run (text ++ b :: rest) = .ok (a, rest))
    (later : Starves (f a) tail) : Starves (r >>= f) (text ++ b :: tail) := by
  intro front part
  rw [← List.singleton_append, ← List.append_assoc] at part
  rcases prefix_append_cases part with ⟨inside, short⟩ | ⟨rest, rfl, behind⟩
  · exact run_bind_of_error (starves front ((List.prefix_concat_iff.mp inside).resolve_left short)) f
  · have taken := whole rest
    rw [← List.singleton_append, ← List.append_assoc] at taken
    rw [run_bind_of_ok taken]
    exact later rest behind

/-- A step that looks at the next byte and leaves it. -/
theorem Starves.sight {b : UInt8} (starves : Starves r text)
    (sees : ∀ rest, r.run (text ++ b :: rest) = .ok (a, b :: rest)) (later : Starves (f a) (b :: tail)) :
    Starves (r >>= f) (text ++ b :: tail) := by
  intro front part
  rcases prefix_append_cases part with ⟨inside, -⟩ | ⟨rest, rfl, behind⟩
  · exact run_bind_of_error (starves front inside) f
  · rcases List.prefix_cons_iff.mp behind with rfl | ⟨rest, rfl, -⟩
    · exact run_bind_of_error (starves _ (by simp)) f
    · rw [run_bind_of_ok (sees rest)]
      exact later _ behind

/-- A step that may end early where what follows needs another byte. -/
theorem Exhausts.step (exhausts : Exhausts r text) (reads : Reads r text a)
    (hungry : ∀ b, (f b).run [] = .error .truncated) (ends : Ends tail) (later : Starves (f a) tail) :
    Starves (r >>= f) (text ++ tail) := by
  intro front part
  rcases prefix_append_cases part with ⟨inside, -⟩ | ⟨rest, rfl, behind⟩
  · rcases exhausts front inside with missing | ⟨b, taken⟩
    · exact run_bind_of_error missing f
    · rw [run_bind_of_ok taken]
      exact hungry b
  · rw [run_bind_of_ok (reads rest (ends.of_prefix behind))]
    exact later rest behind

/-- A guarded value before a step that needs another byte. -/
theorem Guards.step (guards : Guards r text) (ends : Ends tail)
    (hungry : ∀ a, (f a).run [] = .error .truncated) (later : ∀ a, Starves (f a) tail) :
    Starves (r >>= f) (text ++ tail) := by
  obtain ⟨a, read⟩ := guards.reads
  exact guards.exhausts.step read hungry ends (later a)

/-- What is looked at first without taking it may be a part of what follows. -/
theorem Starves.get {f : Bytes → Reader α} (later : ∀ bound, Starves (f bound) text) : Starves (get >>= f) text :=
  fun front part => by rw [run_get_bind]; exact later front front part

/-- A first byte that is looked at and left there. -/
theorem Starves.sighted {b : UInt8} {next : UInt8 → Reader α} (printed : isBlank b = false)
    (later : ∀ front, front <+: text → (next b).run (b :: front) = .error .truncated) :
    Starves (Reader.start >>= next) (b :: text) := by
  intro front part
  rcases List.prefix_cons_iff.mp part with rfl | ⟨rest, rfl, behind⟩
  · rfl
  · rw [run_start_bind _ _ printed]
    exact later rest behind

/-- A first byte that only decides how to go on. -/
theorem Starves.start {b : UInt8} {next : UInt8 → Reader α} (printed : isBlank b = false)
    (goes : ∀ rest, (next b).run (b :: rest) = r.run rest) (later : Starves r text) :
    Starves (Reader.start >>= next) (b :: text) :=
  .sighted printed fun front part => (goes front).trans (later front part)

end Sequence

section Words

/-- A word is missed in part or taken. -/
theorem exhausts_word (w : Bytes) : Exhausts (word w) w := by
  induction w with
  | nil =>
    intro front part
    obtain rfl := List.prefix_nil.mp part
    exact .inr ⟨(), rfl⟩
  | cons b w ih =>
    intro front part
    rcases List.prefix_cons_iff.mp part with rfl | ⟨rest, rfl, behind⟩
    · exact .inl rfl
    · rw [word, run_next_bind, if_neg (not_not.mpr rfl)]
      exact ih rest behind

theorem guards_word (w : Bytes) : Guards (word w) w := ⟨⟨(), fun rest _ => run_word w rest⟩, exhausts_word w⟩

theorem Guards.skip {b : UInt8} (guards : Guards r text) : Guards (Reader.skip >>= fun _ => r) (b :: text) := by
  obtain ⟨a, read⟩ := guards.reads
  refine ⟨⟨a, read⟩, fun front part => ?_⟩
  rcases List.prefix_cons_iff.mp part with rfl | ⟨rest, rfl, behind⟩
  · exact guards.exhausts [] List.nil_prefix
  · exact guards.exhausts rest behind

/-- A first byte that is left in place and decides how to go on. -/
theorem Guards.start {b : UInt8} {next : UInt8 → Reader α} (printed : isBlank b = false)
    (guards : Guards (next b) (b :: text)) : Guards (Reader.start >>= next) (b :: text) := by
  obtain ⟨a, read⟩ := guards.reads
  refine ⟨⟨a, fun rest ends => ?_⟩, fun front part => ?_⟩
  · rw [List.cons_append, run_start_bind _ _ printed]
    exact read rest ends
  · rcases List.prefix_cons_iff.mp part with rfl | ⟨rest, rfl, -⟩
    · exact .inl rfl
    · rw [run_start_bind _ _ printed]
      exact guards.exhausts _ part

theorem guards_null : Guards null Json.null.compact := .start rfl (guards_word ull).skip

theorem guards_bool (b : Bool) : Guards bool (Json.bool b).compact := by
  cases b
  · exact .start (b := 0x66) rfl ((guards_word alse).bind_pure fun _ => false).skip
  · exact .start (b := 0x74) rfl ((guards_word rue).bind_pure fun _ => true).skip

end Words

end Reader

namespace Text

/-- A byte is written as itself, by a letter or by its code. -/
theorem escape_cases (b : UInt8) : escape b = [b] ∨ (∃ letter, escape b = [0x5c, letter]) ∨
    ∃ high low, escape b = [0x5c, 0x75, 0x30, 0x30, high, low] := by
  rw [escape]
  split_ifs
  iterate 7 exact .inr (.inl ⟨_, rfl⟩)
  · obtain ⟨high, low, text, -⟩ := Bytes.ofText_hex_cons b []
    exact .inr (.inr ⟨high, low, by rw [text]; rfl⟩)
  · exact .inl rfl

/-- Part of how a byte is written shows that more is missing. -/
theorem content_of_part {b : UInt8} {front : Bytes} (part : front <+: escape b) (short : front ≠ escape b) :
    content front = .error .truncated := by
  rw [← List.mem_inits] at part
  rcases escape_cases b with plain | ⟨letter, written⟩ | ⟨high, low, written⟩
  · rw [plain] at part short
    simp only [List.inits, List.mem_cons, List.map_cons, List.map_nil, List.not_mem_nil, or_false, short] at part
    exact part ▸ rfl
  · rw [written] at part short
    simp only [List.inits, List.mem_cons, List.map_cons, List.map_nil, List.not_mem_nil, or_false, short] at part
    rcases part with rfl | rfl <;> rfl
  · rw [written] at part short
    simp only [List.inits, List.mem_cons, List.map_cons, List.map_nil, List.not_mem_nil, or_false, short] at part
    rcases part with rfl | rfl | rfl | rfl | rfl | rfl <;> rfl

/-- A string without its closing quote goes on, wherever it is cut. -/
theorem content_of_front {bytes front : Bytes} (part : front <+: bytes.flatMap escape) :
    content front = .error .truncated := by
  induction bytes generalizing front with
  | nil => rw [List.prefix_nil.mp part, content]
  | cons b later ih =>
    rw [List.flatMap_cons] at part
    rcases prefix_append_cases part with ⟨inside, short⟩ | ⟨rest, rfl, rest_part⟩
    · exact content_of_part inside short
    · rw [content_escape, ih rest_part]
      rfl

theorem starves_body (text : String) : Starves body ((Bytes.ofText text).flatMap escape) := by
  intro front part
  simp only [StateT.run, body, content_of_front part, bind, Except.bind]

end Text

namespace Number

/-- The first digits of a number spell a number that is not larger. -/
theorem Spells.of_prefix {n : Nat} {first : UInt8} {later front : Bytes} (spells : Spells n first later)
    (part : front <+: later) : ∃ m ≤ n, Spells m first front := by
  obtain ⟨more, rfl⟩ := part
  refine ⟨_, ?_, spells.digit, fun b member => spells.digits b (List.mem_append_left more member), rfl,
    fun zero => (List.append_eq_nil_iff.mp (spells.zero zero)).1⟩
  rw [← spells.value, continued, continued, List.foldl_append]
  exact le_continued _ more

/-- Only a number that is zero starts with a zero. -/
theorem Spells.pos {n : Nat} {first : UInt8} {later : Bytes} (spells : Spells n first later) (other : first ≠ 0x30) :
    1 ≤ n := by
  have digit : 0x30 ≤ first.toNat := by
    have low := spells.digit
    simp only [isDigit, Bool.and_eq_true, decide_eq_true_eq, UInt8.le_iff_toNat_le] at low
    exact low.1
  have apart : first.toNat ≠ 0x30 := fun same => other (UInt8.toNat_inj.mp same)
  rw [← spells.value]
  refine Nat.le_trans ?_ (le_continued _ later)
  simp only [digitValue]
  omega

/-- Cut short, a number is missed or taken for a smaller one. -/
theorem run_anyNumber_of_front {n : Nat} (bounded : n < 2 ^ 64) {front : Bytes}
    (part : front <+: (Json.num n).compact) :
    anyNumber.run front = .error .truncated ∨ ∃ m ≤ n, anyNumber.run front = .ok (.whole m, []) := by
  obtain ⟨first, later, text, spells⟩ := exists_spells n
  have written : (Json.num n).compact = first :: later := text
  have sign : first ≠ 0x2d := by
    rintro rfl
    exact absurd spells.digit (by decide)
  rw [written] at part
  rcases List.prefix_cons_iff.mp part with rfl | ⟨front, rfl, inside⟩
  · exact .inl rfl
  · obtain ⟨m, small, spells⟩ := spells.of_prefix inside
    refine .inr ⟨m, small, ?_⟩
    have read : (unsigned true).run (first :: (front ++ [])) = _ :=
      run_unsigned spells (Nat.lt_of_le_of_lt small bounded) ends_nil (.inl rfl)
    rw [List.append_nil] at read
    rw [anyNumber, run_start_bind _ _ (isBlank_of_isDigit spells.digit), if_pos (.inr spells.digit), number,
      if_neg sign, read]
    rfl

theorem run_anyNumber_of_front_neg {n : Nat} (bounded : n < 2 ^ 63) {front : Bytes}
    (part : front <+: (Json.num (.negSucc n)).compact) :
    anyNumber.run front = .error .truncated ∨ ∃ m ≤ n + 1, anyNumber.run front = .ok (.negative m, []) := by
  obtain ⟨first, later, text, spells⟩ := exists_spells (n + 1)
  have written : (Json.num (.negSucc n)).compact = 0x2d :: first :: later := by
    rw [← text]
    exact Bytes.ofText_append "-" (n + 1).repr
  have other : first ≠ 0x30 := by
    rintro rfl
    have value := spells.value
    rw [spells.zero rfl] at value
    exact absurd value (Nat.succ_ne_zero n).symm
  rw [written] at part
  rcases List.prefix_cons_iff.mp part with rfl | ⟨front, rfl, inside⟩
  · exact .inl rfl
  rcases List.prefix_cons_iff.mp inside with rfl | ⟨front, rfl, digits⟩
  · exact .inl rfl
  · obtain ⟨m, small, spells⟩ := spells.of_prefix digits
    refine .inr ⟨m, small, ?_⟩
    have read : (unsigned false).run (first :: (front ++ [])) = _ :=
      run_unsigned spells (by omega) ends_nil (.inr ⟨spells.pos other, by omega⟩)
    rw [List.append_nil] at read
    rw [anyNumber, run_start_bind _ _ rfl, if_pos (.inl rfl), number, if_pos rfl, run_skip_bind, List.tail_cons, read]
    rfl

end Number

namespace Reader

theorem exhausts_whole {n max : Nat} (fits : n ≤ max) (bounded : max < 2 ^ 64) :
    Exhausts (whole max) (Json.num n).compact := by
  intro front part
  rcases Number.run_anyNumber_of_front (Nat.lt_of_le_of_lt fits bounded) part with missing | ⟨m, small, taken⟩
  · exact .inl (run_bind_of_error missing _)
  · refine .inr ⟨m, ?_⟩
    rw [whole, run_bind_of_ok taken]
    dsimp only
    rw [if_pos (Nat.le_trans small fits)]
    rfl

theorem exhausts_signed {i : Int} {max : Nat} (low : -(max + 1 : Int) ≤ i) (high : i ≤ max) (bounded : max < 2 ^ 63) :
    Exhausts (signed max) (Json.num i).compact := by
  intro front part
  cases i with
  | ofNat n =>
    have fits : n ≤ max := Int.ofNat_le.mp high
    rcases Number.run_anyNumber_of_front (show n < 2 ^ 64 by omega) part with missing | ⟨m, small, taken⟩
    · exact .inl (run_bind_of_error missing _)
    · refine .inr ⟨m, ?_⟩
      rw [signed, run_bind_of_ok taken]
      dsimp only
      rw [if_pos (Nat.le_trans small fits)]
      rfl
  | negSucc n =>
    have fits : n ≤ max := by omega
    rcases Number.run_anyNumber_of_front_neg (show n < 2 ^ 63 by omega) part with missing | ⟨m, small, taken⟩
    · exact .inl (run_bind_of_error missing _)
    · refine .inr ⟨-m, ?_⟩
      rw [signed, run_bind_of_ok taken]
      dsimp only
      rw [if_pos (by omega)]
      rfl

end Reader

end TrieArchive.Json
