import TrieArchive.Proofs.Checked.Steps
import TrieArchive.Proofs.Trie.Lookup
import TrieArchive.Proofs.Trie.Insert
import TrieArchive.Proofs.Trie.Erase
import TrieArchive.Proofs.Trie.Fitted

/-! Lookup, insertion and erasure with all their steps checked. On a well-formed node every step is in range, so they do
what the unchecked operations do. -/
namespace TrieArchive.Node

variable {α κ : Type}

section Operations

variable [BEq κ] (L : Layout α κ)

mutual
def findChecked (key : κ) (hash : UInt64) (depth : Nat) : Node α → Checked (Option α)
  | .branch datamap nodemap values children => do
    let bit ← Checked.slotBit hash depth
    if datamap &&& bit ≠ 0 then
      let value ← Checked.get values (← Checked.index datamap bit)
      return if L.key value == key then some value else none
    else if nodemap &&& bit ≠ 0 then
      findAtChecked key hash (depth + 1) (← Checked.index nodemap bit) children
    else return none
  | .collision own values => return if own = hash then values.find? (L.key · == key) else none
def findAtChecked (key : κ) (hash : UInt64) (depth : Nat) : (position : Nat) → List (Node α) → Checked (Option α)
  | position, [] => throw (.positionOutside position 0)
  | 0, child :: _ => child.findChecked key hash depth
  | position + 1, _ :: rest => findAtChecked key hash depth position rest
end

/-- The shift tells when no levels of branches are left. -/
def ofPairChecked (first : α) (firstHash : UInt64) (second : α) (secondHash : UInt64) (depth : Nat) : Checked (Node α) :=
  if _below : maxShift < shiftAt depth then return .collision firstHash [first, second]
  else do
    let a ← Checked.fragment firstHash (shiftAt depth)
    let b ← Checked.fragment secondHash (shiftAt depth)
    if a = b then
      let child ← ofPairChecked first firstHash second secondHash (depth + 1)
      return .branch 0 (← Checked.mask a) [] [child]
    else
      return .branch ((← Checked.mask a) ||| (← Checked.mask b)) 0
        (if a < b then [first, second] else [second, first]) []
termination_by branchLevels - depth
decreasing_by
  simp only [maxShift, shiftAt, bitsPerLevel, branchLevels] at _below ⊢
  omega

mutual
def insertChecked (value : α) (hash : UInt64) (depth : Nat) : Node α → Checked (Node α × Bool)
  | .branch datamap nodemap values children => do
    let bit ← Checked.slotBit hash depth
    if datamap &&& bit ≠ 0 then
      let position ← Checked.index datamap bit
      let old ← Checked.get values position
      if L.key old == L.key value then
        return (.branch datamap nodemap (← Checked.set values position value) children, false)
      else
        let values ← Checked.eraseIdx values position
        let child ← ofPairChecked old (L.place old) value hash (depth + 1)
        let datamap := datamap &&& ~~~bit
        let nodemap ← Checked.occupy nodemap datamap bit
        let children ← Checked.insertIdx children (← Checked.index nodemap bit) child
        return (.branch datamap nodemap values children, true)
    else if nodemap &&& bit ≠ 0 then
      let (children, grown) ← insertAtChecked value hash (depth + 1) (← Checked.index nodemap bit) children
      return (.branch datamap nodemap values children, grown)
    else
      let datamap ← Checked.occupy datamap nodemap bit
      let values ← Checked.insertIdx values (← Checked.index datamap bit) value
      return (.branch datamap nodemap values children, true)
  | .collision own values =>
    if own ≠ hash then throw .foreignHash
    else
      match values.findIdx? (L.key · == L.key value) with
      | some position => do return (.collision own (← Checked.set values position value), false)
      | none => return (.collision own (values ++ [value]), true)
def insertAtChecked (value : α) (hash : UInt64) (depth : Nat) :
    (position : Nat) → List (Node α) → Checked (List (Node α) × Bool)
  | position, [] => throw (.positionOutside position 0)
  | 0, child :: rest => do
    let (child, grown) ← child.insertChecked value hash depth
    return (child :: rest, grown)
  | position + 1, child :: rest => do
    let (rest, grown) ← insertAtChecked value hash depth position rest
    return (child :: rest, grown)
end

mutual
def eraseChecked (key : κ) (hash : UInt64) (depth : Nat) : Node α → Checked (Option (Node α))
  | .branch datamap nodemap values children => do
    let bit ← Checked.slotBit hash depth
    if datamap &&& bit ≠ 0 then
      let position ← Checked.index datamap bit
      let old ← Checked.get values position
      if L.key old == key then
        return some (.branch (datamap &&& ~~~bit) nodemap (← Checked.eraseIdx values position) children)
      else return none
    else if nodemap &&& bit ≠ 0 then
      let position ← Checked.index nodemap bit
      match ← eraseAtChecked key hash (depth + 1) position children with
      | none => return none
      | some children =>
        match (← Checked.get children position).singleton? with
        | none => return some (.branch datamap nodemap values children)
        | some value =>
          let children ← Checked.eraseIdx children position
          let nodemap := nodemap &&& ~~~bit
          let datamap ← Checked.occupy datamap nodemap bit
          let values ← Checked.insertIdx values (← Checked.index datamap bit) value
          return some (.branch datamap nodemap values children)
    else return none
  | .collision own values =>
    match values.findIdx? (L.key · == key) with
    | some position => do return some (.collision own (← Checked.eraseIdx values position))
    | none => return none
def eraseAtChecked (key : κ) (hash : UInt64) (depth : Nat) :
    (position : Nat) → List (Node α) → Checked (Option (List (Node α)))
  | position, [] => throw (.positionOutside position 0)
  | 0, child :: rest => do return (← child.eraseChecked key hash depth).map (· :: rest)
  | position + 1, child :: rest => do return (← eraseAtChecked key hash depth position rest).map (child :: ·)
end

end Operations

section Positions

variable [BEq κ] {L : Layout α κ} {key : κ} {value : α} {hash : UInt64} {depth position : Nat} {child : Node α}
  {children : List (Node α)}

theorem findAtChecked_eq (found : children[position]? = some child) :
    findAtChecked L key hash depth position children = child.findChecked L key hash depth := by
  induction children generalizing position with
  | nil => simp at found
  | cons first rest ih =>
    cases position with
    | zero =>
      cases found
      rfl
    | succ position => exact ih found

theorem insertAtChecked_eq (found : children[position]? = some child) {after : Node α} {grown : Bool}
    (inserted : child.insertChecked L value hash depth = .ok (after, grown)) :
    insertAtChecked L value hash depth position children = .ok (children.set position after, grown) := by
  induction children generalizing position with
  | nil => simp at found
  | cons first rest ih =>
    cases position with
    | zero =>
      cases found
      rw [insertAtChecked, inserted]
      rfl
    | succ position =>
      rw [insertAtChecked, ih found]
      rfl

theorem eraseAtChecked_eq (found : children[position]? = some child) {after : Option (Node α)}
    (erased : child.eraseChecked L key hash depth = .ok after) :
    eraseAtChecked L key hash depth position children = .ok (after.map (children.set position ·)) := by
  induction children generalizing position with
  | nil => simp at found
  | cons first rest ih =>
    cases position with
    | zero =>
      cases found
      rw [eraseAtChecked, erased]
      rfl
    | succ position =>
      rw [eraseAtChecked, ih found]
      cases after <;> rfl

end Positions

/-- Two values are pushed down to a depth that their hashes still reach, or to where no levels are left. -/
theorem ofPairChecked_eq (first : α) (firstHash : UInt64) (second : α) (secondHash : UInt64) {left depth : Nat}
    (levels : depth + left = branchLevels) : ofPairChecked first firstHash second secondHash depth =
      .ok (ofPair first firstHash second secondHash left depth) := by
  induction left generalizing depth with
  | zero =>
    obtain rfl : depth = branchLevels := levels
    rw [ofPairChecked, dif_pos (by decide)]
    rfl
  | succ left ih =>
    have level : depth < branchLevels := by omega
    have above : ¬maxShift < shiftAt depth := Nat.not_lt.mpr (Checked.shiftAt_le_maxShift level)
    rw [ofPairChecked, dif_neg above, Checked.fragment_eq level, Checked.ok_bind, Checked.fragment_eq level,
      Checked.ok_bind, Checked.mask_eq (slotAt_lt firstHash depth), Checked.mask_eq (slotAt_lt secondHash depth), ofPair]
    split
    · rw [ih (show depth + 1 + left = branchLevels by omega)]
      rfl
    · rfl

section Branches

open Checked

variable [BEq κ] {L : Layout α κ} {datamap nodemap : UInt32} {values : List α} {children : List (Node α)} {key : κ}
  {value : α} {hash : UInt64} {depth : Nat} {next : Node α}

/-- A value in the slot is overwritten where it stands, or it gives its slot up before a child takes it. -/
theorem insertChecked_of_inline (level : depth < branchLevels) (filled : values.length = Bitmap.count datamap)
    (linked : children.length = Bitmap.count nodemap) (free : Bitmap.has nodemap (slotAt hash depth) = false)
    (inline : Bitmap.has datamap (slotAt hash depth)) :
    (branch datamap nodemap values children).insertChecked L value hash depth =
      .ok ((branch datamap nodemap values children).insert L value hash depth) := by
  have slot := slotAt_lt hash depth
  obtain ⟨old, found⟩ := Bitmap.exists_kept filled inline
  rw [insertChecked, slotBit_eq level, ok_bind, if_pos (meets_mask slot inline), index_eq slot, ok_bind,
    get_rank found, ok_bind, insert_of_inline found]
  split
  · rw [set_rank filled inline]
    rfl
  · rw [eraseIdx_rank filled inline, ok_bind, ofPairChecked_eq _ _ _ _ (Nat.add_sub_of_le level), ok_bind]
    dsimp only
    rw [← Bitmap.erase, occupy_eq slot (has_erase_self slot datamap), ok_bind, index_insert slot free, ok_bind,
      insertIdx_rank linked slot]
    rfl

theorem insertChecked_of_child (level : depth < branchLevels) (free : Bitmap.has datamap (slotAt hash depth) = false)
    (found : Bitmap.kept? nodemap children (slotAt hash depth) = some next)
    (inserted : next.insertChecked L value hash (depth + 1) = .ok (next.insert L value hash (depth + 1))) :
    (branch datamap nodemap values children).insertChecked L value hash depth =
      .ok ((branch datamap nodemap values children).insert L value hash depth) := by
  have slot := slotAt_lt hash depth
  have used := Bitmap.used_of_kept? found
  have there := (Bitmap.kept?_eq_getElem? used).symm.trans found
  rw [insertChecked, slotBit_eq level, ok_bind, if_neg (misses_mask slot free),
    if_pos (meets_mask slot used), index_eq slot, ok_bind, insertAtChecked_eq there inserted,
    insert_of_child free found]
  rfl

theorem insertChecked_of_free (level : depth < branchLevels) (filled : values.length = Bitmap.count datamap)
    (free : Bitmap.has datamap (slotAt hash depth) = false) (free' : Bitmap.has nodemap (slotAt hash depth) = false) :
    (branch datamap nodemap values children).insertChecked L value hash depth =
      .ok ((branch datamap nodemap values children).insert L value hash depth) := by
  have slot := slotAt_lt hash depth
  rw [insertChecked, slotBit_eq level, ok_bind, if_neg (misses_mask slot free),
    if_neg (misses_mask slot free'), occupy_eq slot free', ok_bind, index_insert slot free,
    ok_bind, insertIdx_rank filled slot, insert_of_free free free']
  rfl

theorem eraseChecked_of_inline (level : depth < branchLevels) (filled : values.length = Bitmap.count datamap)
    (inline : Bitmap.has datamap (slotAt hash depth)) :
    (branch datamap nodemap values children).eraseChecked L key hash depth =
      .ok ((branch datamap nodemap values children).erase? L key hash depth) := by
  have slot := slotAt_lt hash depth
  obtain ⟨old, found⟩ := Bitmap.exists_kept filled inline
  rw [eraseChecked, slotBit_eq level, ok_bind, if_pos (meets_mask slot inline), index_eq slot, ok_bind,
    get_rank found, ok_bind, erase?_of_inline found]
  split
  · rw [eraseIdx_rank filled inline]
    rfl
  · rfl

/-- A child that is left with one value gives its slot up before the value takes it. -/
theorem eraseChecked_of_child (level : depth < branchLevels) (filled : values.length = Bitmap.count datamap)
    (linked : children.length = Bitmap.count nodemap) (free : Bitmap.has datamap (slotAt hash depth) = false)
    (found : Bitmap.kept? nodemap children (slotAt hash depth) = some next)
    (erased : next.eraseChecked L key hash (depth + 1) = .ok (next.erase? L key hash (depth + 1))) :
    (branch datamap nodemap values children).eraseChecked L key hash depth =
      .ok ((branch datamap nodemap values children).erase? L key hash depth) := by
  have slot := slotAt_lt hash depth
  have used := Bitmap.used_of_kept? found
  have there := (Bitmap.kept?_eq_getElem? used).symm.trans found
  obtain ⟨bound, -⟩ := List.getElem?_eq_some_iff.mp there
  rw [eraseChecked, slotBit_eq level, ok_bind, if_neg (misses_mask slot free),
    if_pos (meets_mask slot used), index_eq slot, ok_bind, eraseAtChecked_eq there erased, ok_bind,
    erase?_of_child free found]
  cases next.erase? L key hash (depth + 1) with
  | none => rfl
  | some after =>
    have left := List.getElem?_set_self bound (a := after)
    dsimp only [Option.map_some]
    rw [get_eq left, ok_bind]
    cases after.singleton? with
    | none => rfl
    | some last =>
      have same : (children.set (Bitmap.rank nodemap (slotAt hash depth)) after).length = Bitmap.count nodemap :=
        List.length_set.trans linked
      dsimp only
      rw [eraseIdx_rank same used, ok_bind, List.eraseIdx_set_eq, ← Bitmap.erase,
        occupy_eq slot (has_erase_self slot nodemap), ok_bind, index_insert slot free, ok_bind,
        insertIdx_rank filled slot]
      rfl

theorem eraseChecked_of_free (level : depth < branchLevels) (free : Bitmap.has datamap (slotAt hash depth) = false)
    (free' : Bitmap.has nodemap (slotAt hash depth) = false) :
    (branch datamap nodemap values children).eraseChecked L key hash depth =
      .ok ((branch datamap nodemap values children).erase? L key hash depth) := by
  have slot := slotAt_lt hash depth
  rw [eraseChecked, slotBit_eq level, ok_bind, if_neg (misses_mask slot free),
    if_neg (misses_mask slot free'), erase?_of_free free free']
  rfl

end Branches

namespace Fitted

open Checked

variable [BEq κ] {L : Layout α κ} {depth : Nat} {node : Node α}

/-- A lookup in a node whose bitmaps go with what it keeps stays in range, whatever key it is for. -/
theorem findChecked_eq (fitted : node.Fitted depth) (key : κ) (hash : UInt64) :
    node.findChecked L key hash depth = .ok (node.find? L key hash depth) := by
  induction fitted with
  | collision =>
    rw [findChecked, Node.find?]
    rfl
  | @branch depth datamap nodemap values children level disjoint filled linked below ih =>
    have slot := slotAt_lt hash depth
    rw [findChecked, Node.find?, slotBit_eq level, ok_bind]
    by_cases inline : Bitmap.has datamap (slotAt hash depth)
    · obtain ⟨old, found⟩ := Bitmap.exists_kept filled inline
      rw [if_pos (meets_mask slot inline), index_eq slot, ok_bind, get_rank found, ok_bind,
        if_pos inline, ← Bitmap.kept?_eq_getElem? inline, found, Option.filter_some]
      rfl
    · rw [if_neg (misses_mask slot (eq_false_of_ne_true inline)), if_neg inline]
      by_cases child : Bitmap.has nodemap (slotAt hash depth)
      · obtain ⟨next, found⟩ := Bitmap.exists_kept linked child
        have there := (Bitmap.kept?_eq_getElem? child).symm.trans found
        rw [if_pos (meets_mask slot child), index_eq slot, ok_bind, findAtChecked_eq there,
          if_pos child, findAt_eq, there]
        exact ih next (List.mem_of_getElem? there)
      · rw [if_neg (misses_mask slot (eq_false_of_ne_true child)), if_neg child]
        rfl

/-- So does an erasure, up to the value that a child left with it gives up. -/
theorem eraseChecked_eq (fitted : node.Fitted depth) (key : κ) (hash : UInt64) :
    node.eraseChecked L key hash depth = .ok (node.erase? L key hash depth) := by
  induction fitted with
  | @collision depth own values =>
    rw [eraseChecked, Node.erase?]
    cases found : values.findIdx? (L.key · == key) with
    | none => rfl
    | some position =>
      obtain ⟨bound, -⟩ := List.findIdx?_eq_some_iff_getElem.mp found
      have dropped : Checked.eraseIdx values position = .ok (values.eraseIdx position) := if_pos bound
      dsimp only
      rw [dropped]
      rfl
  | @branch depth datamap nodemap values children level disjoint filled linked below ih =>
    by_cases inline : Bitmap.has datamap (slotAt hash depth)
    · exact eraseChecked_of_inline level filled inline
    · have free := eq_false_of_ne_true inline
      by_cases child : Bitmap.has nodemap (slotAt hash depth)
      · obtain ⟨next, found⟩ := Bitmap.exists_kept linked child
        have there := (Bitmap.kept?_eq_getElem? child).symm.trans found
        exact eraseChecked_of_child level filled linked free found (ih next (List.mem_of_getElem? there))
      · exact eraseChecked_of_free level free (eq_false_of_ne_true child)

end Fitted

namespace Canonical

open Checked

variable [BEq κ] {L : Layout α κ} {depth path : Nat} {node : Node α}

/-- An insertion on the path of its value stays in range. -/
theorem insertChecked_eq (canonical : Canonical L depth path node) {value : α}
    (onPath : pathOf (L.place value) depth = path) :
    node.insertChecked L value (L.place value) depth = .ok (node.insert L value (L.place value) depth) := by
  induction canonical with
  | @collision depth path hash values level whole several placed distinct =>
    subst level
    subst whole
    rw [pathOf_branchLevels] at onPath
    have own : hash = L.place value := UInt64.toNat_inj.mp onPath.symm
    rw [insertChecked, Node.insert, if_neg (not_not.mpr own)]
    cases found : values.findIdx? (L.key · == L.key value) with
    | none => rfl
    | some position =>
      obtain ⟨bound, -⟩ := List.findIdx?_eq_some_iff_getElem.mp found
      have written : Checked.set values position value = .ok (values.set position value) := if_pos bound
      dsimp only
      rw [written]
      rfl
  | @branch depth path datamap nodemap values children level bounded disjoint filled linked placed reached several
      below ih =>
    by_cases inline : Bitmap.has datamap (slotAt (L.place value) depth)
    · exact insertChecked_of_inline level filled linked (Bitmap.disjoint_iff.mp disjoint _ inline) inline
    · have free := eq_false_of_ne_true inline
      by_cases child : Bitmap.has nodemap (slotAt (L.place value) depth)
      · obtain ⟨next, found⟩ := Bitmap.exists_kept linked child
        have deeper := (pathOf_succ_eq_iff level bounded (L.place value)).mpr ⟨onPath, rfl⟩
        exact insertChecked_of_child level free found (ih _ next found deeper)
      · exact insertChecked_of_free level filled free (eq_false_of_ne_true child)

end Canonical

end TrieArchive.Node
