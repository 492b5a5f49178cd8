import Mathlib.Data.List.Basic
import TrieArchive.Archive.JsonForm
import TrieArchive.Proofs.Element.HexText

/-! Which texts are read as ids, and in which order the texts of ids stand. Exactly the texts of 64 digits are read, of
either case; for any other the first of three faults is told: an odd number of bytes, a wrong number, a byte that is no
digit. Texts stand in the order of their ids, so what is sorted by id is sorted by text. -/
namespace TrieArchive

namespace Bytes

/-- The digits that are read. -/
def digitText : String := "0123456789abcdefABCDEF"

theorem hexValue?_isSome_iff (b : UInt8) : (hexValue? b).isSome ↔ b ∈ ofText digitText := by
  have each : ∀ n < 256, ((hexValue? (UInt8.ofNat n)).isSome ↔ UInt8.ofNat n ∈ ofText digitText) := by decide +kernel
  have here := each b.toNat b.toNat_lt
  rwa [UInt8.ofNat_toNat] at here

theorem hexValue?_eq_none {b : UInt8} (bad : b ∉ ofText digitText) : hexValue? b = none := by
  rwa [← hexValue?_isSome_iff, Option.not_isSome_iff_eq_none] at bad

/-- A digit is one byte, and its value is written by the same digit in lower case. -/
theorem digit_spec {c : Char} (digit : c ∈ digitText.toList) :
    c.toNat < 128 ∧ ∃ n, hexValue? (UInt8.ofNat c.toNat) = some n ∧ n < 16 ∧ hexDigit n = c.toLower := by
  have each : digitText.toList.all fun c => c.toNat < 128 ∧ (hexValue? (UInt8.ofNat c.toNat)).isSome ∧
      ∀ n ∈ hexValue? (UInt8.ofNat c.toNat), n < 16 ∧ hexDigit n = c.toLower := by decide +kernel
  obtain ⟨ascii, valued, read⟩ := of_decide_eq_true (List.all_eq_true.mp each c digit)
  obtain ⟨n, value⟩ := Option.isSome_iff_exists.mp valued
  exact ⟨ascii, n, value, read n value⟩

theorem ofText_eq_flatMap (s : String) : ofText s = s.toList.flatMap String.utf8EncodeChar := by
  rw [← ofText_ofList, String.ofList_toList]

theorem length_ofText (s : String) : (ofText s).length = s.utf8ByteSize := by simp [ofText]

/-- Digits are as many bytes as characters. -/
theorem flatMap_digits {cs : List Char} (digits : ∀ c ∈ cs, c ∈ digitText.toList) :
    cs.flatMap String.utf8EncodeChar = cs.map fun c => UInt8.ofNat c.toNat := by
  rw [List.map_eq_flatMap]
  exact List.flatMap_congr fun c member => utf8EncodeChar_of_ascii (digit_spec (digits c member)).1

theorem mem_ofText_digitText {b : UInt8} :
    b ∈ ofText digitText ↔ ∃ c ∈ digitText.toList, UInt8.ofNat c.toNat = b := by
  rw [ofText_eq_flatMap, flatMap_digits fun _ member => member, List.mem_map]

/-- Longer characters have a byte that is not ASCII. -/
theorem exists_wide_byte {c : Char} (wide : 128 ≤ c.toNat) : ∃ b ∈ String.utf8EncodeChar c, 128 ≤ b.toNat := by
  have wide' : ¬c.val.toNat ≤ 127 := Nat.not_le_of_lt wide
  have last : 128 ≤ (UInt8.ofNat (c.val.toNat % 64 + 128)).toNat := by
    rw [UInt8.toNat_ofNat']
    omega
  refine ⟨UInt8.ofNat (c.val.toNat % 64 + 128), ?_, last⟩
  rw [String.utf8EncodeChar, if_neg wide']
  split
  · simp
  · split <;> simp

/-- A character is a digit if its bytes are. -/
theorem mem_digitText_of_bytes {c : Char} (bytes : ∀ b ∈ String.utf8EncodeChar c, b ∈ ofText digitText) :
    c ∈ digitText.toList := by
  rcases Nat.lt_or_ge c.toNat 128 with ascii | wide
  · rw [utf8EncodeChar_of_ascii ascii] at bytes
    obtain ⟨d, digit, same⟩ := mem_ofText_digitText.mp (bytes _ (List.mem_singleton_self _))
    have narrow := (digit_spec digit).1
    have numbers := congrArg UInt8.toNat same
    rw [UInt8.toNat_ofNat', UInt8.toNat_ofNat', Nat.mod_eq_of_lt (by omega), Nat.mod_eq_of_lt (by omega)] at numbers
    rwa [← Char.toNat_inj.mp numbers]
  · obtain ⟨b, member, high⟩ := exists_wide_byte wide
    obtain ⟨d, digit, rfl⟩ := mem_ofText_digitText.mp (bytes b member)
    have narrow := (digit_spec digit).1
    rw [UInt8.toNat_ofNat', Nat.mod_eq_of_lt (by omega)] at high
    omega

end Bytes

namespace Id

open Bytes

/-- The texts that are ids: 64 digits and nothing else. -/
def IsText (s : String) : Prop := s.toList.length = 64 ∧ ∀ c ∈ s.toList, c ∈ digitText.toList

/-- The first byte of a text that is no digit. -/
def Offends (s : String) (b : UInt8) (position : Nat) : Prop :=
  ∃ front rest, ofText s = front ++ b :: rest ∧ front.length = position ∧ front ⊆ ofText digitText ∧
    b ∉ ofText digitText

theorem isText_iff (s : String) : IsText s ↔ s.utf8ByteSize = 64 ∧ ofText s ⊆ ofText digitText := by
  rw [← length_ofText, ofText_eq_flatMap s]
  constructor
  · rintro ⟨length, digits⟩
    rw [flatMap_digits digits, List.length_map]
    refine ⟨length, fun b member => ?_⟩
    obtain ⟨c, inside, rfl⟩ := List.mem_map.mp member
    exact mem_ofText_digitText.mpr ⟨c, digits c inside, rfl⟩
  · rintro ⟨length, bytes⟩
    have digits : ∀ c ∈ s.toList, c ∈ digitText.toList := fun c member =>
      mem_digitText_of_bytes fun b inside => bytes (List.mem_flatMap.mpr ⟨c, member, inside⟩)
    rw [flatMap_digits digits, List.length_map] at length
    exact ⟨length, digits⟩

section Digits

/-- Digits in pairs are read as bytes, whose text is the same digits in lower case. -/
theorem digits_of_chars {cs : List Char} {n : Nat} (pairs : cs.length = 2 * n)
    (digit : ∀ c ∈ cs, c ∈ digitText.toList) (position : Nat) :
    ∃ bytes, digits position (cs.map fun c => UInt8.ofNat c.toNat) = .ok bytes ∧ bytes.length = n ∧
      Bytes.hex bytes = String.ofList (cs.map Char.toLower) := by
  induction n generalizing cs position with
  | zero =>
    obtain rfl := List.eq_nil_of_length_eq_zero pairs
    exact ⟨[], rfl, rfl, rfl⟩
  | succ n ih =>
    match cs, pairs with
    | c :: d :: rest, pairs =>
      have shorter : rest.length = 2 * n := by
        rw [List.length_cons, List.length_cons] at pairs
        omega
      obtain ⟨high, upper, small, lowerHigh⟩ := (digit_spec (digit c (.head _))).2
      obtain ⟨low, lower, small', lowerLow⟩ := (digit_spec (digit d (.tail _ (.head _)))).2
      obtain ⟨bytes, read, length, text⟩ := ih shorter (fun e member => digit e (.tail _ (.tail _ member))) (position + 2)
      have whole : (UInt8.ofNat (16 * high + low)).toNat = 16 * high + low := by
        rw [UInt8.toNat_ofNat']
        omega
      refine ⟨UInt8.ofNat (16 * high + low) :: bytes, ?_, congrArg (· + 1) length, ?_⟩
      · rw [List.map_cons, List.map_cons, digits, upper, lower]
        simp only [read]
        rfl
      · have halves : (16 * high + low) / 16 = high ∧ (16 * high + low) % 16 = low := by omega
        rw [Bytes.hex, String.ofList_inj] at text
        rw [Bytes.hex, List.flatMap_cons, text, whole, halves.1, halves.2, lowerHigh, lowerLow]
        rfl

/-- Reading stops at the first byte that is no digit. -/
theorem digits_of_bad {b : UInt8} (bad : b ∉ ofText digitText) (rest : Bytes) :
    ∀ {front : Bytes}, front ⊆ ofText digitText → ∀ position,
      digits position (front ++ b :: rest) = .error (.badDigit b (position + front.length))
  | [], _, position => by
    cases rest with
    | nil => rfl
    | cons => rw [List.nil_append, digits, hexValue?_eq_none bad]; rfl
  | [x], good, position => by
    obtain ⟨high, upper⟩ := Option.isSome_iff_exists.mp ((hexValue?_isSome_iff x).mpr (good (.head _)))
    rw [List.singleton_append, digits, upper, hexValue?_eq_none bad]
    rfl
  | x :: y :: front, good, position => by
    obtain ⟨high, upper⟩ := Option.isSome_iff_exists.mp ((hexValue?_isSome_iff x).mpr (good (.head _)))
    obtain ⟨low, lower⟩ := Option.isSome_iff_exists.mp ((hexValue?_isSome_iff y).mpr (good (.tail _ (.head _))))
    have behind := digits_of_bad bad rest (fun z member => good (.tail _ (.tail _ member))) (position + 2)
    rw [List.cons_append, List.cons_append, digits, upper, lower]
    simp only [behind, List.length_cons]
    rw [show position + 2 + front.length = position + (front.length + 1 + 1) by omega]
    rfl

end Digits

section Parse

variable {s : String}

theorem parse_of_odd (odd : s.utf8ByteSize % 2 = 1) : parse s = .error .oddLength := by
  rw [← length_ofText] at odd
  rw [parse, parseBytes, if_pos (by omega)]
  rfl

theorem parse_of_length (even : s.utf8ByteSize % 2 = 0) (other : s.utf8ByteSize ≠ 64) :
    parse s = .error .wrongLength := by
  rw [← length_ofText] at even other
  rw [parse, parseBytes, if_neg (by omega), if_neg other]
  rfl

theorem parse_of_offends (length : s.utf8ByteSize = 64) {b : UInt8} {position : Nat} (offends : Offends s b position) :
    parse s = .error (.badDigit b position) := by
  obtain ⟨front, rest, split, rfl, good, bad⟩ := offends
  rw [← length_ofText] at length
  rw [parse, parseBytes, length, if_neg (by decide), if_pos rfl, split, digits_of_bad bad rest good, Nat.zero_add]
  rfl

theorem parse_of_isText (text : IsText s) : ∃ id, parse s = .ok id ∧ id.hex = s.toLower := by
  have length := ((isText_iff s).mp text).1
  rw [← length_ofText] at length
  obtain ⟨bytes, read, width, written⟩ := digits_of_chars (n := 32) text.1 text.2 0
  rw [← flatMap_digits text.2, ← ofText_eq_flatMap] at read
  refine ⟨⟨bytes, width⟩, ?_, ?_⟩
  · rw [parse, parseBytes, length, if_neg (by decide), if_pos rfl, read]
    exact dif_pos width
  · have lower : s.toLower.toList = s.toList.map Char.toLower := String.toList_map
    rw [hex, written, ← String.toList_inj, String.toList_ofList, lower]

theorem hex_inj {a b : Id} (same : a.hex = b.hex) : a = b :=
  Except.ok.inj ((parse_hex a).symm.trans ((congrArg parse same).trans (parse_hex b)))

/-- What is read from a text. -/
inductive Reading (s : String) : Except ParseFault Id → Prop where
  | odd (odd : s.utf8ByteSize % 2 = 1) : Reading s (.error .oddLength)
  | wrong (even : s.utf8ByteSize % 2 = 0) (other : s.utf8ByteSize ≠ 64) : Reading s (.error .wrongLength)
  | bad {b : UInt8} {position : Nat} (length : s.utf8ByteSize = 64) (offends : Offends s b position) :
    Reading s (.error (.badDigit b position))
  | id {id : Id} (text : IsText s) (written : id.hex = s.toLower) : Reading s (.ok id)

theorem exists_reading (s : String) : ∃ r, Reading s r := by
  by_cases length : s.utf8ByteSize = 64
  · cases first : (ofText s).find? fun b => decide (b ∉ ofText digitText) with
    | none =>
      have good : ofText s ⊆ ofText digitText := fun b member => by simpa using List.find?_eq_none.mp first b member
      have text := (isText_iff s).mpr ⟨length, good⟩
      obtain ⟨id, -, written⟩ := parse_of_isText text
      exact ⟨_, .id text written⟩
    | some b =>
      obtain ⟨bad, front, rest, split, good⟩ := List.find?_eq_some_iff_append.mp first
      exact ⟨_, .bad length ⟨front, rest, split, rfl, fun x member => by simpa using good x member, by simpa using bad⟩⟩
  · by_cases even : s.utf8ByteSize % 2 = 0
    · exact ⟨_, .wrong even length⟩
    · exact ⟨_, .odd (Nat.mod_two_ne_zero.mp even)⟩

theorem Reading.parse_eq {r : Except ParseFault Id} (reading : Reading s r) : parse s = r := by
  cases reading with
  | odd odd => exact parse_of_odd odd
  | wrong even other => exact parse_of_length even other
  | bad length offends => exact parse_of_offends length offends
  | id text written =>
    obtain ⟨id, read, lower⟩ := parse_of_isText text
    rw [read, hex_inj (lower.trans written.symm)]

theorem parse_eq_iff {r : Except ParseFault Id} : parse s = r ↔ Reading s r := by
  refine ⟨?_, Reading.parse_eq⟩
  rintro rfl
  obtain ⟨r, reading⟩ := exists_reading s
  exact reading.parse_eq.symm ▸ reading

end Parse

end Id

namespace Bytes

theorem hexDigit_lt_iff {n m : Nat} (hn : n < 16) (hm : m < 16) : hexDigit n < hexDigit m ↔ n < m := by
  have each : ∀ n < 16, ∀ m < 16, (hexDigit n < hexDigit m ↔ n < m) := by decide
  exact each n hn m hm

theorem hexDigit_inj {n m : Nat} (hn : n < 16) (hm : m < 16) : hexDigit n = hexDigit m ↔ n = m := by
  have each : ∀ n < 16, ∀ m < 16, (hexDigit n = hexDigit m ↔ n = m) := by decide
  exact each n hn m hm

/-- Bytes are in the order of their texts, whether or not they are equally many. -/
theorem compare_eq_lt_iff_hex (s t : Bytes) : compare s t = .lt ↔ hex s < hex t := by
  rw [String.lt_iff, hex, hex, String.toList_ofList, String.toList_ofList, List.compare_eq_compareLex]
  induction s generalizing t with
  | nil => cases t <;> simp [List.compareLex]
  | cons a s ih =>
    cases t with
    | nil => simp [List.compareLex]
    | cons b t =>
      -- bytes are in the order of their halves, the high one first
      have less : a < b ↔ a.toNat / 16 < b.toNat / 16 ∨
          a.toNat / 16 = b.toNat / 16 ∧ a.toNat % 16 < b.toNat % 16 := by
        rw [UInt8.lt_iff_toNat_lt]
        omega
      have same : a = b ↔ a.toNat / 16 = b.toNat / 16 ∧ a.toNat % 16 = b.toNat % 16 := by
        rw [← UInt8.toNat_inj]
        omega
      have ha := a.toNat_lt
      have hb := b.toNat_lt
      rw [List.compareLex_cons_cons, Ordering.then_eq_lt, ih, Std.compare_eq_lt, Std.LawfulEqOrd.compare_eq_iff_eq,
        less, same, and_assoc, or_assoc, ← and_or_left]
      simp only [List.flatMap_cons, List.cons_append, List.nil_append, List.cons_lt_cons_iff]
      rw [hexDigit_lt_iff (by omega) (by omega), hexDigit_lt_iff (by omega) (by omega), hexDigit_inj (by omega) (by omega),
        hexDigit_inj (by omega) (by omega)]

end Bytes

namespace Id

theorem compare_eq_lt_iff (a b : Id) : compare a b = .lt ↔ a.hex < b.hex := Bytes.compare_eq_lt_iff_hex a.bytes b.bytes

end Id

variable {α : Type}

/-- What is kept by id stands in the order of the texts. -/
theorem Id.pairwise_hex_keys (m : Std.ExtTreeMap Id α) : (m.keys.map Id.hex).Pairwise (· < ·) :=
  List.pairwise_map.mpr (Std.ExtTreeMap.ordered_keys.imp fun {a b} before => (Id.compare_eq_lt_iff a b).mp before)

/-- The names of the members of what is kept by id. -/
theorem toJson_names [JsonForm α] (m : Std.ExtTreeMap Id α) :
    ∃ members, JsonForm.toJson m = .obj members ∧ members.map Prod.fst = m.keys.map Id.hex := by
  refine ⟨m.toList.map fun entry => (entry.1.hex, JsonForm.toJson entry.2), rfl, ?_⟩
  rw [List.map_map, ← Std.ExtTreeMap.map_fst_toList_eq_keys, List.map_map]
  rfl

/-- Sixty-four digits of either case are read as an id, whose own text is the same in lower case, and nothing else is. Of
other texts it is told whether their bytes are odd in number, or else not 64, or else which of them is the first that is
no digit. Ids are in the order of their texts, so archives list their nodes and their roots in this order. -/
theorem id_texts_exact {α : Type} [JsonForm α] :
    (∀ s id, Id.parse s = .ok id ↔ Id.IsText s ∧ id.hex = s.toLower) ∧
    (∀ s, (∃ id, Id.parse s = .ok id) ↔ Id.IsText s) ∧
    (∀ id, Id.parse id.hex = .ok id) ∧
    (∀ s, Id.parse s = .error .oddLength ↔ s.utf8ByteSize % 2 = 1) ∧
    (∀ s, Id.parse s = .error .wrongLength ↔ s.utf8ByteSize % 2 = 0 ∧ s.utf8ByteSize ≠ 64) ∧
    (∀ s b position, Id.parse s = .error (.badDigit b position) ↔ s.utf8ByteSize = 64 ∧ Id.Offends s b position) ∧
    (∀ a b : Id, compare a b = .lt ↔ a.hex < b.hex) ∧
    (∀ a : Archive α, ∃ nodes roots,
      JsonForm.toJson (Snapshot.ofArchive a) =
        .obj [("version", .num formatVersion.toNat), ("nodes", .obj nodes), ("roots", .obj roots)] ∧
      nodes.map Prod.fst = a.nodes.keys.map Id.hex ∧ (nodes.map Prod.fst).Pairwise (· < ·) ∧
      roots.map Prod.fst = a.rootIds.map Id.hex ∧ (roots.map Prod.fst).Pairwise (· < ·)) := by
  refine ⟨fun s id => ?_, fun s => ?_, Id.parse_hex, fun s => ?_, fun s => ?_, fun s b position => ?_,
    Id.compare_eq_lt_iff, fun a => ?_⟩
  · exact Id.parse_eq_iff.trans ⟨fun | .id text lower => ⟨text, lower⟩, fun ⟨text, lower⟩ => .id text lower⟩
  · refine ⟨fun ⟨id, read⟩ => ?_, fun text => ?_⟩
    · cases Id.parse_eq_iff.mp read with
      | id text => exact text
    · obtain ⟨id, read, -⟩ := Id.parse_of_isText text
      exact ⟨id, read⟩
  · exact Id.parse_eq_iff.trans ⟨fun | .odd odd => odd, .odd⟩
  · exact Id.parse_eq_iff.trans ⟨fun | .wrong even other => ⟨even, other⟩, fun ⟨even, other⟩ => .wrong even other⟩
  · exact Id.parse_eq_iff.trans ⟨fun | .bad length offends => ⟨length, offends⟩,
      fun ⟨length, offends⟩ => .bad length offends⟩
  · obtain ⟨nodes, nodesForm, nodeNames⟩ := toJson_names a.nodes
    obtain ⟨roots, rootsForm, rootNames⟩ := toJson_names a.roots
    refine ⟨nodes, roots, ?_, nodeNames, nodeNames ▸ Id.pairwise_hex_keys a.nodes, rootNames,
      rootNames ▸ Id.pairwise_hex_keys a.roots⟩
    rw [← nodesForm, ← rootsForm]
    rfl

/-- Positions count bytes. -/
example : Id.parse ("0éé" ++ String.ofList (List.replicate 59 'F')) = .error (.badDigit 0xc3 1) := by decide +kernel

end TrieArchive
