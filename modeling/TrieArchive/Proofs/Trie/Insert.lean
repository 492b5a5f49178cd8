import TrieArchive.Trie.Insert
import TrieArchive.Proofs.Trie.Branch

/-! Inserting keeps nodes well-formed and stores the value, in place of one with an equal key. -/
namespace TrieArchive.Node

variable {α κ : Type} [BEq κ] {L : Layout α κ}

theorem insertAt_eq (value : α) (hash : UInt64) (depth position : Nat) (children : List (Node α)) :
    insertAt L value hash depth position children =
      match children[position]? with
      | some child =>
        (children.set position (child.insert L value hash depth).1, (child.insert L value hash depth).2)
      | none => (children, false) := by
  induction children generalizing position with
  | nil => simp [insertAt]
  | cons child rest ih =>
    cases position with
    | zero => simp [insertAt]
    | succ position =>
      simp only [insertAt, List.getElem?_cons_succ, ih]
      cases rest[position]? <;> simp

section Equations

variable {datamap nodemap : UInt32} {values : List α} {children : List (Node α)} {value : α}
  {hash : UInt64} {depth : Nat}

/-- A value in the slot is overwritten if it has the key, and otherwise pushed down beside the new one. -/
theorem insert_of_inline {old : α} (found : Bitmap.kept? datamap values (slotAt hash depth) = some old) :
    (branch datamap nodemap values children).insert L value hash depth =
      if L.key old == L.key value then
        (.branch datamap nodemap (values.set (Bitmap.rank datamap (slotAt hash depth)) value) children, false)
      else
        (.branch (Bitmap.erase datamap (slotAt hash depth)) (Bitmap.insert nodemap (slotAt hash depth))
          (values.eraseIdx (Bitmap.rank datamap (slotAt hash depth)))
          (children.insertIdx (Bitmap.rank nodemap (slotAt hash depth))
            (ofPair old (L.place old) value hash (branchLevels - (depth + 1)) (depth + 1))), true) := by
  have inline := Bitmap.used_of_kept? found
  rw [Bitmap.kept?_eq_getElem? inline] at found
  simp only [Node.insert, inline, if_true, found]

/-- A child in the slot takes the value. -/
theorem insert_of_child {next : Node α} (free : Bitmap.has datamap (slotAt hash depth) = false)
    (found : Bitmap.kept? nodemap children (slotAt hash depth) = some next) :
    (branch datamap nodemap values children).insert L value hash depth =
      (.branch datamap nodemap values
        (children.set (Bitmap.rank nodemap (slotAt hash depth)) (next.insert L value hash (depth + 1)).1),
        (next.insert L value hash (depth + 1)).2) := by
  have used := Bitmap.used_of_kept? found
  rw [Bitmap.kept?_eq_getElem? used] at found
  simp only [Node.insert, free, Bool.false_eq_true, if_false, used, if_true, insertAt_eq, found]

/-- A free slot takes the value. -/
theorem insert_of_free (free : Bitmap.has datamap (slotAt hash depth) = false)
    (free' : Bitmap.has nodemap (slotAt hash depth) = false) :
    (branch datamap nodemap values children).insert L value hash depth =
      (.branch (Bitmap.insert datamap (slotAt hash depth)) nodemap
        (values.insertIdx (Bitmap.rank datamap (slotAt hash depth)) value) children, true) := by
  simp only [Node.insert, free, free', Bool.false_eq_true, if_false]

end Equations

/-- What inserting a value into a node makes of it. -/
structure Inserted (L : Layout α κ) (depth path : Nat) (before : Node α) (value : α) (after : Node α)
    (grown : Bool) : Prop where
  canonical : Canonical L depth path after
  values : after.toList.Perm (L.put value before.toList)
  grown : grown = !L.present (L.key value) before.toList

theorem count_of_perm_pair {node : Node α} {v w : α} (values : node.toList.Perm [v, w]) : node.count = 2 := by
  rw [← length_toList, values.length_eq]
  rfl

/-- Two values of different keys make a well-formed node wherever both belong. -/
theorem ofPair_canonical {v w : α} {left depth path : Nat} (levels : depth + left = branchLevels)
    (hv : pathOf (L.place v) depth = path) (hw : pathOf (L.place w) depth = path)
    (apart : (L.key v == L.key w) = false) :
    Canonical L depth path (ofPair v (L.place v) w (L.place w) left depth) ∧
      (ofPair v (L.place v) w (L.place w) left depth).toList.Perm [v, w] := by
  induction left generalizing depth path with
  | zero =>
    obtain rfl : depth = branchLevels := levels
    rw [pathOf_branchLevels] at hv hw
    have same : L.place w = L.place v := UInt64.toNat_inj.mp (hw.trans hv.symm)
    refine ⟨.collision rfl hv (Nat.le_refl 2) ?_ ?_, by simp [ofPair]⟩
    · intro x member
      rcases List.mem_pair.mp member with rfl | rfl
      · rfl
      · exact same
    · simpa [Layout.Distinct] using apart
  | succ left ih =>
    have level : depth < branchLevels := by omega
    have bounded : path < 2 ^ shiftAt depth := hv ▸ pathOf_lt ..
    have slotV := slotAt_lt (L.place v) depth
    have slotW := slotAt_lt (L.place w) depth
    rw [ofPair]
    split
    next same =>
      obtain ⟨canonical, values⟩ := ih (show depth + 1 + left = branchLevels by omega)
        ((pathOf_succ_eq_iff level bounded _).mpr ⟨hv, rfl⟩)
        ((pathOf_succ_eq_iff level bounded _).mpr ⟨hw, same.symm⟩)
      refine ⟨.of_fitting level bounded rfl (Bitmap.count_mask slotV).symm fun slot => ?_, by simpa using values⟩
      rw [Bitmap.kept?_zero, Bitmap.kept?_mask slotV]
      split
      next here => exact here ▸ .child (Nat.le_of_eq (count_of_perm_pair values).symm) canonical
      next => exact .empty slot
    next other =>
      have filled :
          (if slotAt (L.place v) depth < slotAt (L.place w) depth then [v, w] else [w, v]).length = 2 := by
        split <;> rfl
      constructor
      · refine .of_fitting level bounded (filled.trans (Bitmap.count_pair slotV slotW other).symm) rfl
          fun slot => ?_
        rw [Bitmap.kept?_zero, Bitmap.kept?_pair slotV slotW other]
        split
        next here => exact here ▸ .value hw
        next =>
          split
          next here => exact here ▸ .value hv
          next => exact .empty slot
      · rw [toList_branch, List.flatMap_nil, List.append_nil]
        split
        · exact .refl _
        · exact .swap v w []

variable [EquivBEq κ]

/-- Inserting never makes a node smaller. -/
theorem Inserted.count_le {depth path : Nat} {before after : Node α} {value : α} {grown : Bool}
    (inserted : Inserted L depth path before value after grown) (distinct : L.Distinct before.toList) :
    before.count ≤ after.count := by
  rw [← length_toList, ← length_toList, inserted.values.length_eq, distinct.length_put]
  split
  · exact Nat.le_refl _
  · exact Nat.le_succ _

section Branch

variable {depth path : Nat} {before after : Node α} {value : α} {inline : Option α} {child : Option (Node α)}

/-- An edit that stores the value in its slot stores it in the node. -/
theorem Inserted.of_edited {grown : Bool} (canonical : Canonical L depth path before) (lawful : L.Lawful)
    (edited : Edited (slotAt (L.place value) depth) inline child before after)
    (fits : Fitting L depth path (slotAt (L.place value) depth) inline child)
    (here : (inline.toList ++ child.elim [] toList).Perm
      (L.put value (before.slotValues (slotAt (L.place value) depth))))
    (new : grown = !L.present (L.key value) (before.slotValues (slotAt (L.place value) depth))) :
    Inserted L depth path before value after grown := by
  have canonical' := edited.canonical canonical fits
  refine ⟨canonical', edited.put canonical canonical' lawful here, ?_⟩
  rw [new, canonical.present_slot lawful]
  rfl

end Branch

theorem collision_inserted {hash : UInt64} {values : List α} (several : 2 ≤ values.length)
    (placed : ∀ v ∈ values, L.place v = hash) (distinct : L.Distinct values) {value : α}
    (own : L.place value = hash) :
    Inserted L branchLevels hash.toNat (.collision hash values) value
      ((Node.collision hash values).insert L value hash branchLevels).1
      ((Node.collision hash values).insert L value hash branchLevels).2 := by
  have result {after : List α} {grown : Bool} (perm : after.Perm (L.put value values))
      (new : grown = !L.present (L.key value) values) :
      Inserted L branchLevels hash.toNat (.collision hash values) value (.collision hash after) grown := by
    refine ⟨.collision rfl rfl ?_ (fun w member => ?_) ((distinct.put value).perm perm.symm), ?_, ?_⟩
    · rw [perm.length_eq, distinct.length_put]
      split <;> omega
    · rcases Layout.mem_put.mp (perm.mem_iff.mp member) with rfl | ⟨old, -⟩
      · exact own
      · exact placed w old
    · simpa using perm
    · simpa using new
  rw [Node.insert]
  cases found : values.findIdx? (L.key · == L.key value) with
  | some position =>
    obtain ⟨bound, matched, -⟩ := List.findIdx?_eq_some_iff_getElem.mp found
    refine result (distinct.set_perm (List.getElem?_eq_getElem bound) matched) ?_
    rw [Layout.present_iff.mpr ⟨_, List.getElem_mem bound, matched⟩]
    rfl
  | none =>
    have absent : ∀ v ∈ values, (L.key v == L.key value) = false := by
      simpa using List.findIdx?_eq_none_iff.mp found
    refine result ?_ ?_
    · rw [Layout.put, Layout.drop_of_absent absent]
      exact List.perm_append_singleton ..
    · rw [Layout.present_eq_false_iff.mpr absent]
      rfl

/-- Inserting into a well-formed node on the path of the value. -/
theorem Canonical.insert {depth path : Nat} {node : Node α} (canonical : Canonical L depth path node)
    (lawful : L.Lawful) {value : α} (onPath : pathOf (L.place value) depth = path) :
    Inserted L depth path node value (node.insert L value (L.place value) depth).1
      (node.insert L value (L.place value) depth).2 := by
  induction canonical with
  | @collision depth path hash values level whole several placed distinct =>
    subst level
    subst whole
    rw [pathOf_branchLevels] at onPath
    have own : L.place value = hash := UInt64.toNat_inj.mp onPath
    exact own ▸ collision_inserted several placed distinct own
  | @branch depth path datamap nodemap values children level bounded disjoint filled linked placed reached several
      below ih =>
    have canonical := Canonical.branch level bounded disjoint filled linked placed reached several below
    have onPath' := (pathOf_succ_eq_iff level bounded (L.place value)).mpr ⟨onPath, rfl⟩
    by_cases inline : Bitmap.has datamap (slotAt (L.place value) depth)
    · have free := Bitmap.disjoint_iff.mp disjoint _ inline
      have bare := Bitmap.kept?_of_free children free
      obtain ⟨old, found⟩ := Bitmap.exists_kept filled inline
      obtain ⟨onOld, atOld⟩ := placed _ old found
      have kept := slotValues_of_inline children found free
      rw [insert_of_inline found]
      split
      next same =>
        refine .of_edited canonical lawful (bare ▸ .setValue filled linked inline value) (.value onPath) ?_ ?_
        · simp [kept, Layout.put, Layout.drop, same]
        · simp [kept, Layout.present, same]
      next other =>
        have apart : (L.key old == L.key value) = false := by simpa using other
        obtain ⟨pair, both⟩ := ofPair_canonical (Nat.add_sub_of_le level)
          ((pathOf_succ_eq_iff level bounded _).mpr ⟨onOld, atOld⟩) onPath' apart
        refine .of_edited canonical lawful (.pushDown filled linked inline free _)
          (.child (Nat.le_of_eq (count_of_perm_pair both).symm) pair) ?_ ?_
        · simpa [kept, Layout.put, Layout.drop, apart] using both.trans (.swap value old [])
        · simp [kept, Layout.present, apart]
    · have free : Bitmap.has datamap (slotAt (L.place value) depth) = false := by simpa using inline
      have bare := Bitmap.kept?_of_free values free
      by_cases child : Bitmap.has nodemap (slotAt (L.place value) depth)
      · obtain ⟨next, found⟩ := Bitmap.exists_kept linked child
        have kept := slotValues_of_child values found free
        have inserted := ih _ next found onPath'
        have grows := inserted.count_le ((below _ next found).distinct lawful)
        rw [insert_of_child free found]
        refine .of_edited canonical lawful (bare ▸ .setChild filled linked child _)
          (.child (Nat.le_trans (several _ next found) grows) inserted.canonical) ?_ ?_
        · simpa [kept] using inserted.values
        · simpa [kept] using inserted.grown
      · have free' : Bitmap.has nodemap (slotAt (L.place value) depth) = false := by simpa using child
        have vacant := Bitmap.kept?_of_free children free'
        have kept := slotValues_of_free values children free free'
        rw [insert_of_free free free']
        refine .of_edited canonical lawful (vacant ▸ .addValue filled linked (slotAt_lt ..) free value)
          (.value onPath) ?_ ?_
        · simp [kept, Layout.put, Layout.drop]
        · simp [kept, Layout.present]

end TrieArchive.Node
