import TrieArchive.Json.Form
import TrieArchive.Proofs.Element.HexText
import TrieArchive.Proofs.Json.Reader

/-! Whole numbers of up to 64 bits are read back from their digits. What follows must not go on with a number. -/
namespace TrieArchive.Json

open Reader Reading

theorem Ends.not_digit {rest : Bytes} (ends : Ends rest) : ∀ b ∈ rest.head?, isDigit b = false := by
  intro b member
  rcases ends b member with rfl | rfl | rfl <;> rfl

theorem Ends.takeWhile_digits {rest : Bytes} (ends : Ends rest) : rest.takeWhile isDigit = [] := by
  cases rest with
  | nil => rfl
  | cons b rest => exact List.takeWhile_cons_of_neg (by simp [ends.not_digit b rfl])

theorem Ends.dropWhile_digits {rest : Bytes} (ends : Ends rest) : rest.dropWhile isDigit = rest := by
  cases rest with
  | nil => rfl
  | cons b rest => exact List.dropWhile_cons_of_neg (by simp [ends.not_digit b rfl])

theorem Ends.not_number {rest : Bytes} (ends : Ends rest) :
    (rest.head? == some 0x2e) = false ∧ Number.isExponentMark rest.head? = false := by
  cases rest with
  | nil => exact ⟨rfl, rfl⟩
  | cons b rest => rcases ends b rfl with rfl | rfl | rfl <;> exact ⟨rfl, rfl⟩

namespace Number

/-- The number that digits add up to behind others that make `n`. -/
def continued (n : Nat) (digits : Bytes) : Nat := digits.foldl (fun n b => n * 10 + digitValue b) n

theorem le_continued (n : Nat) (digits : Bytes) : n ≤ continued n digits := by
  induction digits generalizing n with
  | nil => exact Nat.le_refl n
  | cons b later ih => exact Nat.le_trans (by omega) (ih (n * 10 + digitValue b))

/-- The first digit of a number and those behind it. A zero stands alone. -/
structure Spells (n : Nat) (first : UInt8) (later : Bytes) : Prop where
  digit : isDigit first
  digits : ∀ b ∈ later, isDigit b
  value : continued (digitValue first) later = n
  zero : first = 0x30 → later = []

theorem utf8EncodeChar_digitChar {n : Nat} (h : n < 10) :
    ∃ b, String.utf8EncodeChar n.digitChar = [b] ∧ isDigit b ∧ digitValue b = n := by
  have ascii : ∀ n < 10, n.digitChar.toNat < 128 ∧ isDigit (UInt8.ofNat n.digitChar.toNat) ∧
      digitValue (UInt8.ofNat n.digitChar.toNat) = n := by decide
  exact ⟨_, Bytes.utf8EncodeChar_of_ascii (ascii n h).1, (ascii n h).2⟩

theorem ofText_singleton (c : Char) : Bytes.ofText (String.singleton c) = String.utf8EncodeChar c := by
  simp [Bytes.ofText, List.utf8Encode_singleton]

theorem exists_spells (n : Nat) : ∃ first later, Bytes.ofText n.repr = first :: later ∧ Spells n first later := by
  induction n using Nat.strongRecOn with
  | _ n ih =>
    by_cases small : n < 10
    · obtain ⟨b, text, digit, value⟩ := utf8EncodeChar_digitChar small
      refine ⟨b, [], ?_, digit, by simp, value, fun _ => rfl⟩
      rw [Nat.repr_of_lt small, ofText_singleton, text]
    · obtain ⟨first, later, front, spells⟩ := ih (n / 10) (by omega)
      obtain ⟨b, text, digit, value⟩ := utf8EncodeChar_digitChar (show n % 10 < 10 by omega)
      refine ⟨first, later ++ [b], ?_, spells.digit, fun d member => ?_, ?_, fun zero => ?_⟩
      · rw [Nat.repr_of_ge (by omega), Bytes.ofText_append, front, ofText_singleton, text, List.cons_append]
      · rcases List.mem_append.mp member with before | last
        · exact spells.digits d before
        · rwa [List.mem_singleton.mp last]
      · have front := spells.value
        rw [continued] at front ⊢
        rw [List.foldl_append, front, List.foldl_cons, List.foldl_nil, value]
        omega
      · -- only a number below ten starts with a zero
        have value : n / 10 = 0 := by
          rw [← spells.value, spells.zero zero, zero]
          rfl
        omega

theorem absorb_digits {digits rest : Bytes} (n taken : Nat) (all : ∀ b ∈ digits, isDigit b)
    (bounded : continued n digits < 2 ^ 64) (ends : ∀ b ∈ rest.head?, isDigit b = false) :
    absorb n taken (digits ++ rest) = (continued n digits, taken + digits.length, rest) := by
  induction digits generalizing n taken with
  | nil =>
    cases rest with
    | nil => rfl
    | cons b rest => simp [absorb, ends b rfl, continued]
  | cons b later ih =>
    have fits : n * 10 + digitValue b < 2 ^ 64 := Nat.lt_of_le_of_lt (le_continued _ later) bounded
    rw [List.cons_append, absorb, if_pos ⟨all b List.mem_cons_self, fits⟩,
      ih _ _ (fun d member => all d (List.mem_cons_of_mem b member)) bounded]
    simp only [continued, List.foldl_cons, List.length_cons]
    congr 2
    omega

theorem run_unsigned {n : Nat} {first : UInt8} {later rest : Bytes} (spells : Spells n first later)
    (bounded : n < 2 ^ 64) (ends : Ends rest) {positive : Bool} (signed : positive ∨ 1 ≤ n ∧ n ≤ 2 ^ 63) :
    (unsigned positive).run (first :: (later ++ rest)) =
      .ok (if positive then .whole n else .negative n, rest) := by
  have alone : ¬(first = 0x30 ∧ (later ++ rest).head?.any isDigit) := by
    rintro ⟨zero, more⟩
    rw [spells.zero zero, List.nil_append, Option.any_eq_true] at more
    obtain ⟨b, member, digit⟩ := more
    exact Bool.noConfusion (digit.symm.trans (ends.not_digit b member))
  have absorbed := absorb_digits (digitValue first) 0 spells.digits (spells.value.symm ▸ bounded) ends.not_digit
  rw [spells.value] at absorbed
  have long : rest.takeWhile isDigit = [] := ends.takeWhile_digits
  have left : rest.dropWhile isDigit = rest := ends.dropWhile_digits
  obtain ⟨point, mark⟩ := ends.not_number
  rw [unsigned, run_next_bind, spells.digit]
  simp only [Bool.not_true, Bool.false_eq_true, if_false, run_peek_bind]
  rw [if_neg alone]
  simp only [run_get_bind, absorbed, run_set_bind, skipDigits, run_modify_bind, long, left, run_peek_bind, point, mark]
  cases positive with
  | true => rfl
  | false =>
    simp only [Bool.false_eq_true, if_false, if_pos (signed.resolve_left Bool.false_ne_true)]
    rfl

theorem isBlank_of_isDigit {b : UInt8} (digit : isDigit b) : isBlank b = false := by
  simp only [isDigit, Bool.and_eq_true, decide_eq_true_eq, UInt8.le_iff_toNat_le] at digit
  simp only [isBlank, Bool.or_eq_false_iff, beq_eq_false_iff_ne]
  refine ⟨⟨⟨?_, ?_⟩, ?_⟩, ?_⟩ <;> rintro rfl <;> exact absurd digit.1 (by decide)

theorem reads_anyNumber {n : Nat} (bounded : n < 2 ^ 64) :
    Reads anyNumber (Json.num n).compact (.whole n) := by
  intro rest ends
  obtain ⟨first, later, text, spells⟩ := exists_spells n
  have sign : first ≠ 0x2d := by
    rintro rfl
    exact absurd spells.digit (by decide)
  have written : (Json.num n).compact = first :: later := text
  rw [written, List.cons_append, anyNumber, run_start_bind _ _ (isBlank_of_isDigit spells.digit),
    if_pos (.inr spells.digit), number, if_neg sign, run_unsigned spells bounded ends (.inl rfl)]
  rfl

theorem reads_anyNumber_neg {n : Nat} (bounded : n < 2 ^ 63) :
    Reads anyNumber (Json.num (.negSucc n)).compact (.negative (n + 1)) := by
  intro rest ends
  obtain ⟨first, later, text, spells⟩ := exists_spells (n + 1)
  have written : (Json.num (.negSucc n)).compact = 0x2d :: first :: later := by
    rw [← text]
    exact Bytes.ofText_append "-" (n + 1).repr
  rw [written, List.cons_append, List.cons_append, anyNumber, run_start_bind _ _ rfl, if_pos (.inl rfl), number,
    if_pos rfl, run_skip_bind, List.tail_cons, run_unsigned spells (by omega) ends (.inr ⟨by omega, bounded⟩)]
  rfl

end Number

namespace Reader

theorem reads_whole {n max : Nat} (fits : n ≤ max) (bounded : max < 2 ^ 64) :
    Reads (whole max) (Json.num n).compact n := by
  intro rest ends
  rw [whole, run_bind_of_ok (Number.reads_anyNumber (Nat.lt_of_le_of_lt fits bounded) rest ends)]
  dsimp only
  rw [if_pos fits]
  rfl

theorem reads_signed {i : Int} {max : Nat} (low : -(max + 1 : Int) ≤ i) (high : i ≤ max) (bounded : max < 2 ^ 63) :
    Reads (signed max) (Json.num i).compact i := by
  intro rest ends
  cases i with
  | ofNat n =>
    have fits : n ≤ max := Int.ofNat_le.mp high
    have read := Number.reads_anyNumber (show n < 2 ^ 64 by omega) rest ends
    rw [Int.ofNat_eq_natCast, signed, run_bind_of_ok read]
    dsimp only
    rw [if_pos fits]
    rfl
  | negSucc n =>
    have fits : n ≤ max := by omega
    have read := Number.reads_anyNumber_neg (show n < 2 ^ 63 by omega) rest ends
    rw [signed, run_bind_of_ok read]
    dsimp only
    rw [if_pos (Nat.succ_le_succ fits)]
    rfl

end Reader

end TrieArchive.Json
