import TrieArchive.Trie.Erase
import TrieArchive.Proofs.Trie.Branch
import TrieArchive.Proofs.Trie.Fitted

/-! Erasing keeps nodes well-formed and drops the key. On the way back up, a child left with one value gives
way to it, so no level is left with less than it may hold. -/
namespace TrieArchive.Node

variable {α κ : Type} [BEq κ] {L : Layout α κ}

theorem eraseAt?_eq (key : κ) (hash : UInt64) (depth position : Nat) (children : List (Node α)) :
    eraseAt? L key hash depth position children =
      children[position]?.bind fun child => (child.erase? L key hash depth).map (children.set position ·) := by
  induction children generalizing position with
  | nil => simp [eraseAt?]
  | cons child rest ih =>
    cases position with
    | zero => simp [eraseAt?]
    | succ position =>
      simp only [eraseAt?, List.getElem?_cons_succ, ih]
      cases rest[position]? <;> simp [Function.comp_def]

section Equations

variable {datamap nodemap : UInt32} {values : List α} {children : List (Node α)} {key : κ} {hash : UInt64}
  {depth : Nat}

/-- A value in the slot is taken out if it has the key. -/
theorem erase?_of_inline {old : α} (found : Bitmap.kept? datamap values (slotAt hash depth) = some old) :
    (branch datamap nodemap values children).erase? L key hash depth =
      if L.key old == key then
        some (.branch (Bitmap.erase datamap (slotAt hash depth)) nodemap
          (values.eraseIdx (Bitmap.rank datamap (slotAt hash depth))) children)
      else none := by
  have inline := Bitmap.used_of_kept? found
  rw [Bitmap.kept?_eq_getElem? inline] at found
  simp only [Node.erase?, inline, if_true, found]

/-- A child in the slot loses the key, and gives way to its last value. -/
theorem erase?_of_child {next : Node α} (free : Bitmap.has datamap (slotAt hash depth) = false)
    (found : Bitmap.kept? nodemap children (slotAt hash depth) = some next) :
    (branch datamap nodemap values children).erase? L key hash depth =
      (next.erase? L key hash (depth + 1)).map fun after =>
        match after.singleton? with
        | some last => .branch (Bitmap.insert datamap (slotAt hash depth)) (Bitmap.erase nodemap (slotAt hash depth))
            (values.insertIdx (Bitmap.rank datamap (slotAt hash depth)) last)
            (children.eraseIdx (Bitmap.rank nodemap (slotAt hash depth)))
        | none => .branch datamap nodemap values (children.set (Bitmap.rank nodemap (slotAt hash depth)) after) := by
  have used := Bitmap.used_of_kept? found
  rw [Bitmap.kept?_eq_getElem? used] at found
  obtain ⟨bound, -⟩ := List.getElem?_eq_some_iff.mp found
  simp only [Node.erase?, free, Bool.false_eq_true, if_false, used, if_true, eraseAt?_eq, found, Option.bind_some]
  cases next.erase? L key hash (depth + 1) with
  | none => rfl
  | some after =>
    simp only [Option.map_some, List.getElem?_set_self bound, Option.bind_some, List.eraseIdx_set_eq]
    cases after.singleton? <;> rfl

/-- In a free slot there is no key. -/
theorem erase?_of_free (free : Bitmap.has datamap (slotAt hash depth) = false)
    (free' : Bitmap.has nodemap (slotAt hash depth) = false) :
    (branch datamap nodemap values children).erase? L key hash depth = none := by
  simp only [Node.erase?, free, free', Bool.false_eq_true, if_false]

end Equations

/-- What is left of a node: a well-formed one, or a last value of a collision that is about to move up. -/
inductive Remnant (L : Layout α κ) (depth path : Nat) : Node α → Prop where
  | canonical {node : Node α} (canonical : Canonical L depth path node) : Remnant L depth path node
  | last {hash : UInt64} {v : α} (level : depth = branchLevels) : Remnant L depth path (.collision hash [v])

/-- What erasing a key from a node makes of it. -/
inductive Erased (L : Layout α κ) (depth path : Nat) (before : Node α) (key : κ) : Option (Node α) → Prop where
  | absent (absent : L.present key before.toList = false) : Erased L depth path before key none
  | found {after : Node α} (present : L.present key before.toList) (remnant : Remnant L depth path after)
      (values : after.toList.Perm (L.drop key before.toList)) : Erased L depth path before key (some after)

theorem eq_zero_of_count {m : UInt32} (none : Bitmap.count m = 0) : m = 0 := by
  refine Bitmap.ext_has fun slot => ?_
  rw [Bitmap.has_zero]
  by_contra used
  have := Bitmap.rank_lt_count (show Bitmap.has m slot by simpa using used)
  omega

theorem count_le_of_mem {c : Node α} {datamap nodemap : UInt32} {values : List α} {children : List (Node α)}
    (member : c ∈ children) : c.count ≤ (branch datamap nodemap values children).count := by
  have below : c.count ≤ countAll children := by
    induction children with
    | nil => contradiction
    | cons first rest ih =>
      rw [countAll]
      rcases List.mem_cons.mp member with rfl | later
      · exact Nat.le_add_right _ _
      · exact Nat.le_trans (ih later) (Nat.le_add_left _ _)
  rw [count]
  omega

namespace Remnant

variable {depth path : Nat} {node : Node α}

theorem fitted (remnant : Remnant L depth path node) : node.Fitted depth := by
  cases remnant with
  | canonical canonical => exact canonical.fitted
  | last => exact .collision

/-- A remnant that offers no value is fit to stay, unless it is empty. -/
theorem several_of_singleton? (remnant : Remnant L depth path node) (more : node.singleton? = none)
    (filled : 0 < node.count) : Canonical L depth path node ∧ 2 ≤ node.count := by
  cases remnant with
  | last => cases more
  | canonical canonical =>
    refine ⟨canonical, ?_⟩
    cases canonical with
    | collision _ _ several => rwa [count]
    | @branch _ _ _ nodemap values children _ _ _ _ linked _ _ several =>
      cases children with
      | cons child rest =>
        have member : child ∈ child :: rest := List.mem_cons_self
        obtain ⟨slot, kept⟩ := (Bitmap.mem_iff_kept? linked).mp member
        exact Nat.le_trans (several slot child kept) (count_le_of_mem member)
      | nil =>
        obtain rfl := eq_zero_of_count linked.symm
        rcases values with _ | ⟨first, _ | ⟨second, rest⟩⟩
        · simp [count, countAll] at filled
        · simp [singleton?] at more
        · simp only [count, List.length_cons]
          omega

end Remnant

section Branch

variable {depth path : Nat} {before after : Node α} {key : κ} {inline : Option α} {child : Option (Node α)}

theorem Erased.of_absent (canonical : Canonical L depth path before) (lawful : L.Lawful)
    (absent : L.present key (before.slotValues (slotAt (L.hash key) depth)) = false) :
    Erased L depth path before key none :=
  .absent ((canonical.present_slot lawful key).trans absent)

variable [EquivBEq κ]

/-- An edit that drops the key from its slot drops it from the node. -/
theorem Erased.of_edited (canonical : Canonical L depth path before) (lawful : L.Lawful)
    (edited : Edited (slotAt (L.hash key) depth) inline child before after)
    (fits : Fitting L depth path (slotAt (L.hash key) depth) inline child)
    (here : (inline.toList ++ child.elim [] toList).Perm
      (L.drop key (before.slotValues (slotAt (L.hash key) depth))))
    (present : L.present key (before.slotValues (slotAt (L.hash key) depth))) :
    Erased L depth path before key (some after) := by
  have canonical' := edited.canonical canonical fits
  exact .found ((canonical.present_slot lawful key).trans present) (.canonical canonical')
    (edited.drop canonical canonical' lawful here)

/-- A child keeps its slot, unless it is left with one value and gives way to it. -/
theorem Erased.of_child {datamap nodemap : UInt32} {values : List α} {children : List (Node α)} {next : Node α}
    (canonical : Canonical L depth path (.branch datamap nodemap values children)) (lawful : L.Lawful)
    (found : Bitmap.kept? nodemap children (slotAt (L.hash key) depth) = some next)
    (erased : Erased L (depth + 1) (path + slotAt (L.hash key) depth * 2 ^ shiftAt depth) next key (some after)) :
    Erased L depth path (.branch datamap nodemap values children) key (some
      (match after.singleton? with
      | some last => .branch (Bitmap.insert datamap (slotAt (L.hash key) depth))
          (Bitmap.erase nodemap (slotAt (L.hash key) depth))
          (values.insertIdx (Bitmap.rank datamap (slotAt (L.hash key) depth)) last)
          (children.eraseIdx (Bitmap.rank nodemap (slotAt (L.hash key) depth)))
      | none => .branch datamap nodemap values
          (children.set (Bitmap.rank nodemap (slotAt (L.hash key) depth)) after))) := by
  have whole := canonical
  cases canonical with
  | branch level bounded disjoint filled linked placed reached several below =>
    have used := Bitmap.used_of_kept? found
    have free : Bitmap.has datamap (slotAt (L.hash key) depth) = false := by
      by_contra inline
      have := Bitmap.disjoint_iff.mp disjoint _ (by simpa using inline)
      rw [used] at this
      contradiction
    have bare := Bitmap.kept?_of_free values free
    have kept := slotValues_of_child values found free
    cases erased with
    | found present remnant perm =>
      cases only : after.singleton? with
      | some value =>
        have left := remnant.fitted.toList_of_singleton? only
        have kept' : value ∈ L.drop key next.toList := perm.mem_iff.mp (by simp [left])
        have member : value ∈ next.toList := (Layout.mem_drop.mp kept').1
        have here := whole.slotAt_eq_of_below found member
        have onPath := whole.pathOf_eq (whole.mem_branch.mpr (.inr ⟨next, here.symm ▸ found, member⟩))
        refine .of_edited whole lawful (.pullUp filled linked used free value) (here ▸ .value onPath) ?_
          (kept ▸ present)
        simpa [kept, left] using perm
      | none =>
        have size := ((below _ next found).distinct lawful).length_drop present
        have many := several _ next found
        have filled' : 0 < after.count := by
          rw [← perm.length_eq, length_toList, length_toList] at size
          omega
        obtain ⟨stays, two⟩ := remnant.several_of_singleton? only filled'
        have edited := Edited.setChild filled linked used after
        rw [bare] at edited
        refine .of_edited whole lawful edited (.child two stays) ?_ (kept ▸ present)
        simpa [kept] using perm

/-- Two values of a collision leave one, more leave a collision. -/
theorem collision_erased {hash : UInt64} {values : List α} (several : 2 ≤ values.length)
    (placed : ∀ v ∈ values, L.place v = hash) (distinct : L.Distinct values) (key : κ) :
    Erased L branchLevels hash.toNat (.collision hash values) key
      ((Node.collision hash values).erase? L key hash branchLevels) := by
  rw [Node.erase?]
  cases found : values.findIdx? (L.key · == key) with
  | none =>
    have absent : ∀ v ∈ values, (L.key v == key) = false := by simpa using List.findIdx?_eq_none_iff.mp found
    refine .absent ?_
    rw [toList_collision, Layout.present_eq_false_iff.mpr absent]
  | some position =>
    obtain ⟨bound, matched, -⟩ := List.findIdx?_eq_some_iff_getElem.mp found
    have present : L.present key values := Layout.present_iff.mpr ⟨_, List.getElem_mem bound, matched⟩
    have perm := distinct.eraseIdx_perm (List.getElem?_eq_getElem bound) matched
    have size := distinct.length_drop present
    rw [← perm.length_eq] at size
    refine .found (by rwa [toList_collision]) ?_ (by rwa [toList_collision, toList_collision])
    match rest : values.eraseIdx position with
    | [] =>
      rw [rest] at size
      simp at size
      omega
    | [v] => exact .last rfl
    | v :: w :: rest' =>
      rw [← rest]
      refine .canonical (.collision rfl rfl (by simp [rest]) (fun x member => ?_) ?_)
      · exact placed x (List.mem_of_mem_eraseIdx member)
      · exact (distinct.drop key).perm perm.symm

/-- Erasing from a well-formed node on the path of the key. -/
theorem Canonical.erase? {node : Node α} (canonical : Canonical L depth path node) (lawful : L.Lawful)
    {key : κ} (onPath : pathOf (L.hash key) depth = path) :
    Erased L depth path node key (node.erase? L key (L.hash key) depth) := by
  induction canonical with
  | @collision depth path hash values level whole several placed distinct =>
    subst level
    subst whole
    rw [pathOf_branchLevels] at onPath
    have own : L.hash key = hash := UInt64.toNat_inj.mp onPath
    exact own ▸ collision_erased several (own ▸ placed) distinct key
  | @branch depth path datamap nodemap values children level bounded disjoint filled linked placed reached several
      below ih =>
    have canonical := Canonical.branch level bounded disjoint filled linked placed reached several below
    by_cases inline : Bitmap.has datamap (slotAt (L.hash key) depth)
    · have free := Bitmap.disjoint_iff.mp disjoint _ inline
      have bare := Bitmap.kept?_of_free children free
      obtain ⟨old, found⟩ := Bitmap.exists_kept filled inline
      have kept := slotValues_of_inline children found free
      rw [erase?_of_inline found]
      split
      next same =>
        refine .of_edited canonical lawful (bare ▸ .removeValue filled linked inline) (.empty _) ?_ ?_
        · simp [kept, Layout.drop, same]
        · simp [kept, Layout.present, same]
      next other =>
        refine .of_absent canonical lawful ?_
        simpa [kept, Layout.present] using other
    · have free : Bitmap.has datamap (slotAt (L.hash key) depth) = false := by simpa using inline
      by_cases child : Bitmap.has nodemap (slotAt (L.hash key) depth)
      · obtain ⟨next, found⟩ := Bitmap.exists_kept linked child
        have erased := ih _ next found ((pathOf_succ_eq_iff level bounded (L.hash key)).mpr ⟨onPath, rfl⟩)
        have kept := slotValues_of_child values found free
        rw [erase?_of_child free found]
        cases result : next.erase? L key (L.hash key) (depth + 1) with
        | none =>
          rw [result] at erased
          cases erased with
          | absent absent => exact .of_absent canonical lawful (kept ▸ absent)
        | some after => exact .of_child canonical lawful found (result ▸ erased)
      · have free' : Bitmap.has nodemap (slotAt (L.hash key) depth) = false := by simpa using child
        have kept := slotValues_of_free values children free free'
        rw [erase?_of_free free free']
        refine .of_absent canonical lawful ?_
        simp [kept, Layout.present]

end Branch

end TrieArchive.Node
