import Mathlib.Tactic.SplitIfs
import TrieArchive.Element.ChosenHash
import TrieArchive.Element.Tag
import TrieArchive.Proofs.Readers

/-! Values are read back as they were written, whatever follows them. Lengths are written in eight bytes, so
texts and lists have to be short enough for that. -/
namespace TrieArchive

/-- What can be said of values that are read back from their bytes. -/
class LawfulBinary (α : Type) [Binary α] where
  /-- All lengths in a value fit in eight bytes, as those of values in memory do. -/
  Fits : α → Prop
  run_decode (a : α) (fits : Fits a) (rest : Bytes) :
    (Binary.decode : Binary.Reader α).run (Binary.encode a ++ rest) = .ok (a, rest)

namespace Binary

open Reading

section Readers

variable {α β : Type}

theorem run_take {front : Bytes} {n : Nat} (length : front.length = n) (rest : Bytes) :
    (take n).run (front ++ rest) = .ok (front, rest) := by
  simp [StateT.run, take, Bytes.split?_append length]

theorem run_word {w n : Nat} (bounded : n < 256 ^ w) (rest : Bytes) :
    (word w).run (Bytes.word w n ++ rest) = .ok (n, rest) := by
  have read := run_map_of_ok (run_take (Bytes.length_word w n) rest) Bytes.value
  rwa [Bytes.value_word, Nat.mod_eq_of_lt bounded] at read

theorem run_number {width n : Nat} (bounded : n < 256 ^ width) {ofNat : Nat → β} {b : β} (back : ofNat n = b)
    (rest : Bytes) : (ofNat <$> word width).run (Bytes.word width n ++ rest) = .ok (b, rest) := by
  rw [run_map_of_ok (run_word bounded rest), back]

/-- Values in a row are read back if each of them is. -/
theorem run_many [Binary α] {values : List α}
    (each : ∀ v ∈ values, ∀ rest, (decode : Reader α).run (encode v ++ rest) = .ok (v, rest)) (rest : Bytes) :
    (many (decode : Reader α) values.length).run (values.flatMap encode ++ rest) = .ok (values, rest) := by
  induction values with
  | nil => rfl
  | cons v later ih =>
    have others := ih fun w member => each w (List.mem_cons_of_mem v member)
    rw [List.length_cons, many, List.flatMap_cons, List.append_assoc,
      run_bind_of_ok (each v List.mem_cons_self _), run_bind_of_ok others]
    rfl

/-- A value on its own is read back. -/
theorem read_encode [Binary α] [LawfulBinary α] {a : α} (fits : LawfulBinary.Fits a) : read α (encode a) = .ok a := by
  have back := LawfulBinary.run_decode a fits []
  rw [List.append_nil] at back
  rw [read, back]
  rfl

end Readers

instance : LawfulBinary UInt8 where
  Fits _ := True
  run_decode n _ := run_number n.toNat_lt UInt8.ofNat_toNat

instance : LawfulBinary UInt16 where
  Fits _ := True
  run_decode n _ := run_number n.toNat_lt UInt16.ofNat_toNat

instance : LawfulBinary UInt32 where
  Fits _ := True
  run_decode n _ := run_number n.toNat_lt UInt32.ofNat_toNat

instance : LawfulBinary UInt64 where
  Fits _ := True
  run_decode n _ := run_number n.toNat_lt UInt64.ofNat_toNat

instance : LawfulBinary Int8 where
  Fits _ := True
  run_decode n _ rest := run_map_of_ok (LawfulBinary.run_decode n.toUInt8 trivial rest) UInt8.toInt8

instance : LawfulBinary Int16 where
  Fits _ := True
  run_decode n _ rest := run_map_of_ok (LawfulBinary.run_decode n.toUInt16 trivial rest) UInt16.toInt16

instance : LawfulBinary Int32 where
  Fits _ := True
  run_decode n _ rest := run_map_of_ok (LawfulBinary.run_decode n.toUInt32 trivial rest) UInt32.toInt32

instance : LawfulBinary Int64 where
  Fits _ := True
  run_decode n _ rest := run_map_of_ok (LawfulBinary.run_decode n.toUInt64 trivial rest) UInt64.toInt64

instance : LawfulBinary Unit where
  Fits _ := True
  run_decode _ _ _ := rfl

instance : LawfulBinary Bool where
  Fits _ := True
  run_decode b _ rest := by cases b <;> rfl

section Text

theorem text?_ofText (s : String) : Bytes.text? (Bytes.ofText s) = some s := by
  have same : (⟨s.toUTF8.data.toList.toArray⟩ : ByteArray) = s.toByteArray := by simp
  rw [Bytes.text?, Bytes.ofText, same, String.fromUTF8?, dif_pos s.isValidUTF8]
  rfl

instance : LawfulBinary String where
  Fits s := (Bytes.ofText s).length < 2 ^ 64
  run_decode s short rest := by
    have length : (word 8).run _ = _ := run_word short (Bytes.ofText s ++ rest)
    have text := run_take (n := (Bytes.ofText s).length) rfl rest
    simp only [encode, decode, List.append_assoc]
    rw [run_bind_of_ok length, run_bind_of_ok text, text?_ofText]
    rfl

theorem ofText_char (c : Char) : Bytes.ofText c.toString = String.utf8EncodeChar c := by
  have bytes : c.toString.toUTF8 = (String.utf8EncodeChar c).toByteArray := by
    rw [String.toUTF8_eq_toByteArray, Char.toString, String.toByteArray_singleton, List.utf8Encode_singleton]
  rw [Bytes.ofText, bytes]
  simp

theorem charWidth_ofNat {n : Nat} (h : n < 256) : charWidth (UInt8.ofNat n) =
    if n < 0x80 then 1 else if n < 0xc2 then 0 else if n < 0xe0 then 2 else if n < 0xf0 then 3
    else if n < 0xf5 then 4 else 0 := by
  have lt (m : UInt8) : UInt8.ofNat n < m ↔ n < m.toNat := by
    rw [UInt8.lt_iff_toNat_lt, UInt8.toNat_ofNat_of_lt' h]
  simp only [charWidth, lt]
  rfl

/-- The first byte of a character tells how many follow. -/
theorem exists_utf8EncodeChar (c : Char) :
    ∃ first rest, String.utf8EncodeChar c = first :: rest ∧ charWidth first = rest.length + 1 := by
  have limit : c.val.toNat < 0x110000 := by
    have := c.valid
    simp only [UInt32.isValidChar, Nat.isValidChar] at this
    omega
  rw [String.utf8EncodeChar]
  split_ifs
  all_goals
    refine ⟨_, _, rfl, ?_⟩
    rw [charWidth_ofNat (by omega)]
    simp only [List.length_cons, List.length_nil]
    split_ifs <;> omega

instance : LawfulBinary Char where
  Fits _ := True
  run_decode c _ rest := by
    obtain ⟨first, later, bytes, width⟩ := exists_utf8EncodeChar c
    have front : (take 1).run ([first] ++ (later ++ rest)) = .ok ([first], later ++ rest) :=
      run_take List.length_singleton _
    have back : Bytes.split? later.length (later ++ rest) = some (later, rest) := Bytes.split?_append rfl rest
    simp only [encode, decode, ofText_char, bytes]
    rw [List.cons_append, ← List.singleton_append, run_bind_of_ok front]
    have text : (Bytes.text? (first :: later)).map String.toList = some [c] := by
      rw [← bytes, ← ofText_char, text?_ofText]
      simp
    simp only [width]
    rw [run_bind_of_ok (r := rest) (a := later) (by simp [StateT.run, back]), text]
    rfl

end Text

variable {α β : Type} [Binary α] [Binary β] [LawfulBinary α] [LawfulBinary β]

instance : LawfulBinary (List α) where
  Fits l := l.length < 2 ^ 64 ∧ ∀ a ∈ l, LawfulBinary.Fits a
  run_decode l fits rest := by
    have length : (word 8).run _ = _ := run_word fits.1 (l.flatMap encode ++ rest)
    simp only [encode, decode, List.append_assoc]
    rw [run_bind_of_ok length]
    exact run_many (fun a member rest => LawfulBinary.run_decode a (fits.2 a member) rest) rest

instance : LawfulBinary (α × β) where
  Fits p := LawfulBinary.Fits p.1 ∧ LawfulBinary.Fits p.2
  run_decode p fits rest := by
    simp only [encode, decode, List.append_assoc]
    rw [run_bind_of_ok (LawfulBinary.run_decode p.1 fits.1 _),
      run_bind_of_ok (LawfulBinary.run_decode p.2 fits.2 _)]
    rfl

instance : LawfulBinary (Option α) where
  Fits o := ∀ a ∈ o, LawfulBinary.Fits a
  run_decode o fits rest := by
    cases o with
    | none => rfl
    | some a =>
      have index : (word 1).run ([1] ++ (encode a ++ rest)) = .ok (1, encode a ++ rest) := run_word (by decide) _
      simp only [encode, decode]
      rw [List.cons_append, ← List.singleton_append]
      exact (run_bind_of_ok index _).trans (run_bind_of_ok (LawfulBinary.run_decode a (fits a rfl) rest) _)

instance : LawfulBinary ChosenHash where
  Fits _ := True
  run_decode k _ rest := by
    simp only [encode, decode, List.append_assoc]
    exact (run_bind_of_ok (LawfulBinary.run_decode k.id trivial _) _).trans
      (run_bind_of_ok (LawfulBinary.run_decode k.forcedHash trivial rest) _)

instance : LawfulBinary Tag where
  Fits t := LawfulBinary.Fits t.note
  run_decode t fits rest := by
    simp only [encode, decode, List.append_assoc]
    exact (run_bind_of_ok (LawfulBinary.run_decode t.id trivial _) _).trans
      (run_bind_of_ok (LawfulBinary.run_decode t.note fits rest) _)

end Binary

end TrieArchive
