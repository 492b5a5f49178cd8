import TrieArchive.Proofs.Archive.Rebuild
import TrieArchive.Proofs.Archive.Unfolding

/-! Loading answers with a container exactly where the archive describes a well-formed one. What a loader
has rebuilt before is in order, so the nodes it takes from there have passed the same checks. -/
namespace TrieArchive

variable {α κ : Type} [BEq κ]

/-- A rebuilt node is what the archive says of its id, and well-formed where it stands. -/
structure Placed.Sound (S : Scheme α κ) (a : Archive α) (id : Id) (p : Placed α) : Prop where
  unfolds : a.Unfolds id p.node
  genuine : a.GenuineFrom S.toAddressing id
  canonical : p.node.Canonical S.toLayout p.depth p.path
  count : p.count = p.node.count

/-- A rebuilt node as it is answered for a position. -/
def Placed.Fits (S : Scheme α κ) (a : Archive α) (depth path : Nat) (id : Id) (p : Placed α) : Prop :=
  p.Sound S a id ∧ p.depth = depth ∧ p.path = path

/-- Positions where a node of this many values can stand. Fewer than two are kept at the root only. -/
def Roomy (count depth path : Nat) : Prop := 2 ≤ count ∨ depth = 0 ∧ path = 0

/-- What an archive has an id stand for is fixed by the id, and so is the position. -/
theorem Placed.Sound.unique {S : Scheme α κ} {a : Archive α} {id : Id} {p q : Placed α} (sound : p.Sound S a id)
    (sound' : q.Sound S a id) (roomy : Roomy p.count p.depth p.path) (roomy' : Roomy q.count q.depth q.path) :
    p = q := by
  have same : p.node = q.node := sound.unfolds.unique sound'.unfolds sound.canonical sound'.canonical
  have count : p.count = q.count := by rw [sound.count, sound'.count, same]
  -- a tree of several values has one position, and any other can only be the root
  have position : p.depth = q.depth ∧ p.path = q.path := by
    by_cases several : 2 ≤ p.count
    · exact sound.canonical.position_unique (same ▸ sound'.canonical) (sound.count ▸ several)
    · obtain ⟨top, start⟩ := roomy.resolve_left several
      obtain ⟨top', start'⟩ := roomy'.resolve_left (count ▸ several)
      exact ⟨top.trans top'.symm, start.trans start'.symm⟩
  obtain ⟨node, _, depth, path⟩ := p
  obtain ⟨node', _, depth', path'⟩ := q
  cases same
  cases count
  cases position.1
  cases position.2
  rfl

namespace Cache

def Sound (S : Scheme α κ) (a : Archive α) (cache : Cache α) : Prop :=
  ∀ id p, cache.get? id = some p → p.Sound S a id

/-- What successful loads leave behind. -/
def Settled (S : Scheme α κ) (a : Archive α) (cache : Cache α) : Prop :=
  ∀ id p, cache.get? id = some p → p.Sound S a id ∧ Roomy p.count p.depth p.path

/-- What is left behind is in order, and under some of the ids it is as successful loads leave it. -/
def SettledAt (S : Scheme α κ) (a : Archive α) (P : Id → Prop) (cache : Cache α) : Prop :=
  ∀ id p, cache.get? id = some p → p.Sound S a id ∧ (P id → Roomy p.count p.depth p.path)

theorem settled_iff {S : Scheme α κ} {a : Archive α} {cache : Cache α} :
    Settled S a cache ↔ SettledAt S a (fun _ => True) cache := by
  simp only [Settled, SettledAt, true_imp_iff]

theorem Sound.insert {S : Scheme α κ} {a : Archive α} {cache : Cache α} (sound : Sound S a cache) {id : Id}
    {p : Placed α} (h : p.Sound S a id) : Sound S a (cache.insert id p) := forall_insert sound h

theorem SettledAt.insert {S : Scheme α κ} {a : Archive α} {P : Id → Prop} {cache : Cache α}
    (settled : SettledAt S a P cache) {id : Id} {p : Placed α} (h : p.Sound S a id)
    (roomy : Roomy p.count p.depth p.path) : SettledAt S a P (cache.insert id p) :=
  forall_insert settled ⟨h, fun _ => roomy⟩

end Cache

namespace Rebuild

variable {S : Scheme α κ} {a : Archive α}

theorem repeatsKey_eq_false_iff {values : List α} :
    repeatsKey S values = false ↔ S.Distinct values := by
  induction values with
  | nil => simp [repeatsKey, Layout.Distinct]
  | cons v rest ih =>
    rw [repeatsKey, Bool.or_eq_false_iff, ih]
    simp [Layout.Distinct]

omit [BEq κ] in
/-- The positional test of a branch is about slots alone. -/
theorem inSlots_iff {depth path : Nat} {datamap : UInt32} {values : List α}
    (filled : values.length = Bitmap.count datamap) :
    inSlots S depth path datamap values ↔ ∀ slot v, Bitmap.kept? datamap values slot = some v →
      pathOf (S.place v) depth = path ∧ slotAt (S.place v) depth = slot := by
  have entry : inSlots S depth path datamap values ↔ ∀ i v, values[i]? = some v →
      pathOf (S.place v) depth = path ∧ Bitmap.has datamap (slotAt (S.place v) depth) ∧
        Bitmap.rank datamap (slotAt (S.place v) depth) = i := by
    simp only [inSlots, List.all_eq_true, Prod.forall, List.mk_mem_zipIdx_iff_getElem?, Bool.and_eq_true,
      beq_iff_eq, pathOf, and_assoc]
    exact forall_comm
  rw [entry]
  constructor
  · intro placed slot v found
    obtain ⟨path, used, rank⟩ := placed _ v ((Bitmap.getElem?_eq_some_iff filled).mpr ⟨slot, rfl, found⟩)
    exact ⟨path, Bitmap.rank_injective used (Bitmap.used_of_kept? found) rank⟩
  · intro placed i v found
    obtain ⟨slot, rank, kept⟩ := (Bitmap.getElem?_eq_some_iff filled).mp found
    obtain ⟨path, rfl⟩ := placed slot v kept
    exact ⟨path, Bitmap.used_of_kept? kept, rank⟩

section Collision

variable {id : Id} {path : Nat} {values : List α}

/-- The node made of a collision's values is well-formed if they pass the checks. -/
theorem collision_sound (stored : a.node? id = some (.collision values))
    (identity : (Description.collision values).identity S.toAddressing = id) (several : ¬ values.length < 2)
    (placed : ¬ values.any fun v => (S.place v).toNat != path) (distinct : ¬ repeatsKey S values) :
    Placed.Sound S a id ⟨.collision (UInt64.ofNat path) values, values.length, branchLevels, path⟩ := by
  have hashes : ∀ v ∈ values, (S.place v).toNat = path := by simpa using placed
  obtain ⟨v, member⟩ := List.exists_mem_of_length_pos (show 0 < values.length by omega)
  have word : (UInt64.ofNat path).toNat = path := by
    rw [← hashes v member]
    simp
  refine ⟨.collision stored, Archive.genuineFrom_of_children stored identity (fun _ member => nomatch member), ?_,
    by simp [Node.count]⟩
  refine .collision rfl word (Nat.le_of_not_lt several) (fun w here => ?_)
    (repeatsKey_eq_false_iff.mp (by simpa using distinct))
  rw [← hashes w here]
  simp

theorem collision_keeps {I : Cache α → Prop} (stored : a.node? id = some (.collision values))
    (identity : (Description.collision values).identity S.toAddressing = id) :
    Keeps I (collision S id path values) fun r => Placed.Sound S a id ⟨r.1, r.2, branchLevels, path⟩ := by
  unfold collision
  simp only [repeatsKey_bind, reject_bind]
  exact .check fun several => .check fun placed => .check fun distinct =>
    .pure (collision_sound stored identity several placed distinct)

/-- The values of a well-formed collision pass all checks. -/
theorem collision_eq {hash : UInt64} {depth : Nat}
    (canonical : (Node.collision hash values).Canonical S.toLayout depth path) :
    (collision S id path values : Rebuild α (Node α × Nat)) = pure (.collision hash values, values.length) := by
  cases canonical with
  | collision level whole several placed distinct =>
    have foreign : ¬ (values.any fun v => (S.place v).toNat != path) = true := by
      simp only [List.any_eq_true, not_exists, not_and]
      intro v member
      simp [placed v member, whole]
    unfold collision
    simp only [repeatsKey_bind, reject_bind]
    rw [if_neg (Nat.not_lt_of_le several), if_neg foreign, repeatsKey_eq_false_iff.mpr distinct, ← whole]
    simp

theorem collision_succeeds {I : Cache α → Prop} (stored : a.node? id = some (.collision values))
    (genuine : a.GenuineFrom S.toAddressing id) {hash : UInt64} {depth : Nat}
    (canonical : (Node.collision hash values).Canonical S.toLayout depth path) :
    Succeeds I (collision S id path values) fun r => Placed.Sound S a id ⟨r.1, r.2, depth, path⟩ := by
  rw [collision_eq canonical]
  exact .pure ⟨.collision stored, genuine, canonical, by simp [Node.count]⟩

end Collision

section Branch

variable {id : Id} {depth path : Nat} {datamap nodemap : UInt32} {values : List α} {ids : List Id}

/-- What the child in a slot is rebuilt to. -/
def ChildOf (S : Scheme α κ) (a : Archive α) (depth path : Nat) (slot : Nat × Id) (p : Placed α) : Prop :=
  p.Fits S a (depth + 1) (path + slot.1 * 2 ^ shiftAt depth) slot.2 ∧
    path + slot.1 * 2 ^ shiftAt depth < 2 ^ 64 ∧ 2 ≤ p.count

/-- Counting a branch's children as they are rebuilt counts the values in the branch. -/
theorem countBelow_eq {placed : List (Placed α)} (counted : ∀ p ∈ placed, p.count = p.node.count) {own : Nat} :
    countBelow own placed = own + Node.countAll (placed.map (·.node)) := by
  induction placed generalizing own with
  | nil => rfl
  | cons p rest ih =>
    have rest := @ih (fun q member => counted q (.tail _ member)) (own + p.count)
    rw [countBelow, List.foldl_cons, ← countBelow, rest, counted p (.head _), Nat.add_assoc]
    rfl

theorem getElem?_of_forall₂ {β γ : Type} {R : β → γ → Prop} {xs : List β} {ys : List γ}
    (related : List.Forall₂ R xs ys) {i : Nat} {y : γ} (found : ys[i]? = some y) :
    ∃ x, xs[i]? = some x ∧ R x y := by
  induction related generalizing i with
  | nil => simp at found
  | cons first _ ih =>
    cases i with
    | zero =>
      simp only [List.getElem?_cons_zero, Option.some.injEq] at found
      exact ⟨_, rfl, found ▸ first⟩
    | succ i => exact ih (by simpa using found)

/-- Rebuilt children hang in the slots of the ids they were rebuilt from. -/
theorem childOf_of_kept {placed : List (Placed α)} (linked : ids.length = Bitmap.count nodemap)
    (rebuilt : List.Forall₂ (ChildOf S a depth path) ((Bitmap.slots nodemap).zip ids) placed)
    {slot : Nat} {child : Node α} (kept : Bitmap.kept? nodemap (placed.map (·.node)) slot = some child) :
    ∃ p childId, p.node = child ∧ Bitmap.kept? nodemap ids slot = some childId ∧
      ChildOf S a depth path (slot, childId) p := by
  have used := Bitmap.used_of_kept? kept
  rw [Bitmap.kept?_eq_getElem? used, List.getElem?_map, Option.map_eq_some_iff] at kept
  obtain ⟨p, found, rfl⟩ := kept
  obtain ⟨⟨other, childId⟩, pair, related⟩ := getElem?_of_forall₂ rebuilt found
  have here := (Bitmap.mem_zip_slots linked).mp (List.mem_of_getElem? pair)
  rw [List.getElem?_zip_eq_some, Bitmap.getElem?_slots used, Option.some.injEq] at pair
  obtain ⟨rfl, -⟩ := pair
  exact ⟨p, childId, rfl, here, related⟩

/-- The node made of a branch's rebuilt children is well-formed if its own slots are in order. -/
theorem branch_sound {placed : List (Placed α)} (stored : a.node? id = some (.branch datamap nodemap values ids))
    (identity : (Description.branch datamap nodemap values ids).identity S.toAddressing = id)
    (level : depth < branchLevels) (bounded : path < 2 ^ shiftAt depth) (disjoint : datamap &&& nodemap = 0)
    (filled : values.length = Bitmap.count datamap) (linked : ids.length = Bitmap.count nodemap)
    (inSlots : inSlots S depth path datamap values)
    (rebuilt : List.Forall₂ (ChildOf S a depth path) ((Bitmap.slots nodemap).zip ids) placed) :
    Placed.Sound S a id ⟨.branch datamap nodemap values (placed.map (·.node)),
      countBelow values.length placed, depth, path⟩ := by
  have width : (placed.map (·.node)).length = ids.length := by
    rw [List.length_map, ← rebuilt.length_eq, List.length_zip, Bitmap.length_slots, linked, Nat.min_self]
  have ofSlot {slot child} := @childOf_of_kept _ _ _ S a depth path nodemap ids placed linked rebuilt slot child
  constructor
  · refine .branch stored width fun i childId child there here => ?_
    obtain ⟨slot, rfl, kept⟩ := (Bitmap.getElem?_eq_some_iff (width.trans linked)).mp here
    obtain ⟨p, other, rfl, found, fits, -⟩ := ofSlot kept
    rw [Bitmap.kept?_eq_getElem? (Bitmap.used_of_kept? kept), there, Option.some.injEq] at found
    exact found ▸ fits.1.unfolds
  · refine Archive.genuineFrom_of_children stored identity fun childId member => ?_
    obtain ⟨slot, found⟩ := (Bitmap.mem_iff_kept? linked).mp member
    obtain ⟨child, kept⟩ := Bitmap.exists_kept (width.trans linked) (Bitmap.used_of_kept? found)
    obtain ⟨p, other, rfl, found', fits, -⟩ := ofSlot kept
    rw [found, Option.some.injEq] at found'
    exact found' ▸ fits.1.genuine
  · refine .branch level bounded disjoint filled (width.trans linked) ((inSlots_iff filled).mp inSlots) ?_ ?_ ?_
    all_goals
      intro slot child kept
      obtain ⟨p, childId, rfl, found, fits, reached, several⟩ := ofSlot kept
    · exact reached
    · exact fits.1.count ▸ several
    · exact fits.2.1 ▸ fits.2.2 ▸ fits.1.canonical
  · rw [Node.count]
    refine countBelow_eq fun p member => ?_
    obtain ⟨i, found⟩ := List.mem_iff_getElem?.mp member
    obtain ⟨pair, -, fits, -⟩ := getElem?_of_forall₂ rebuilt found
    exact fits.1.count

variable {below : (path : Nat) → Id → Rebuild α (Placed α)}

theorem child_keeps {I : Cache α → Prop} {slot : Nat} {childId : Id}
    (each : Keeps I (below (path + slot * 2 ^ shiftAt depth) childId)
      (Placed.Fits S a (depth + 1) (path + slot * 2 ^ shiftAt depth) childId)) :
    Keeps I (child below id depth path slot childId) (ChildOf S a depth path (slot, childId)) := by
  rw [child_eq]
  refine .check fun reached => .bind each fun p fits => .check fun several => .pure ?_
  exact ⟨fits, Nat.lt_of_not_le reached, Nat.le_of_not_lt several⟩

theorem children_keeps {I : Cache α → Prop} (bounded : path < 2 ^ shiftAt depth)
    (each : ∀ path childId, path < 2 ^ shiftAt (depth + 1) →
      Keeps I (below path childId) (Placed.Fits S a (depth + 1) path childId)) :
    Keeps I (((Bitmap.slots nodemap).zip ids).mapM fun (slot, childId) => child below id depth path slot childId)
      (List.Forall₂ (ChildOf S a depth path) ((Bitmap.slots nodemap).zip ids)) := by
  refine .mapM _ fun ⟨slot, childId⟩ member => child_keeps (each _ _ ?_)
  exact path_lt bounded (Bitmap.slot_lt (Bitmap.has_of_mem_slots (List.of_mem_zip member).1))

theorem branch_keeps {I : Cache α → Prop} (stored : a.node? id = some (.branch datamap nodemap values ids))
    (identity : (Description.branch datamap nodemap values ids).identity S.toAddressing = id)
    (level : depth < branchLevels) (bounded : path < 2 ^ shiftAt depth)
    (each : ∀ path childId, path < 2 ^ shiftAt (depth + 1) →
      Keeps I (below path childId) (Placed.Fits S a (depth + 1) path childId)) :
    Keeps I (branch S below id depth path datamap nodemap values ids)
      fun r => Placed.Sound S a id ⟨r.1, r.2, depth, path⟩ := by
  unfold branch
  simp only [inSlots_bind, reject_bind]
  refine .check fun consistent => .check fun inSlots =>
    .bind (children_keeps bounded each) fun placed rebuilt => .pure ?_
  simp only [not_or, not_not] at consistent
  obtain ⟨disjoint, filled, linked⟩ := consistent
  exact branch_sound stored identity level bounded disjoint filled linked (by simpa using inSlots) rebuilt

/-- A child that the archive describes and that may stand in the slot passes the checks on children. -/
theorem child_succeeds {I : Cache α → Prop} {slot : Nat} {childId : Id} {node : Node α}
    (unfolds : a.Unfolds childId node)
    (canonical : node.Canonical S.toLayout (depth + 1) (path + slot * 2 ^ shiftAt depth))
    (reached : path + slot * 2 ^ shiftAt depth < 2 ^ 64) (several : 2 ≤ node.count)
    (each : Succeeds I (below (path + slot * 2 ^ shiftAt depth) childId)
      (Placed.Fits S a (depth + 1) (path + slot * 2 ^ shiftAt depth) childId)) :
    Succeeds I (child below id depth path slot childId) (ChildOf S a depth path (slot, childId)) := by
  rw [child_eq]
  refine .check (Nat.not_le_of_lt reached) (.bind each fun p fits => ?_)
  have same : p.node = node := fits.1.unfolds.unique unfolds fits.1.canonical canonical
  have count : 2 ≤ p.count := by rwa [fits.1.count, same]
  exact .check (Nat.not_lt_of_le count) (.pure ⟨fits, reached, count⟩)

/-- A well-formed branch passes all checks on itself, and rebuilding goes on with its children. -/
theorem branch_eq {children : List (Node α)} {inner : (path : Nat) → Id → Rebuild α (Placed α)}
    (canonical : (Node.branch datamap nodemap values children).Canonical S.toLayout depth path)
    (width : children.length = ids.length) :
    branch S inner id depth path datamap nodemap values ids = (do
      let placed ← ((Bitmap.slots nodemap).zip ids).mapM fun hung => child inner id depth path hung.1 hung.2
      return (.branch datamap nodemap values (placed.map (·.node)), countBelow values.length placed)) := by
  cases canonical with
  | branch _ _ disjoint filled linked placed =>
    have slots := (inSlots_iff filled).mpr placed
    unfold branch
    simp only [inSlots_bind, reject_bind]
    rw [if_neg (by simp [disjoint, filled, ← width, linked]), if_neg (by simp [slots])]

theorem branch_succeeds {I : Cache α → Prop} {children : List (Node α)}
    {inner : (path : Nat) → Id → Rebuild α (Placed α)}
    (stored : a.node? id = some (.branch datamap nodemap values ids)) (genuine : a.GenuineFrom S.toAddressing id)
    (unfolds : a.Unfolds id (.branch datamap nodemap values children))
    (canonical : (Node.branch datamap nodemap values children).Canonical S.toLayout depth path)
    (each : ∀ path childId node, a.Unfolds childId node → a.GenuineFrom S.toAddressing childId →
      node.Canonical S.toLayout (depth + 1) path → 2 ≤ node.count →
      Succeeds I (inner path childId) (Placed.Fits S a (depth + 1) path childId)) :
    Succeeds I (branch S inner id depth path datamap nodemap values ids)
      fun r => Placed.Sound S a id ⟨r.1, r.2, depth, path⟩ := by
  cases unfolds with
  | branch stored' width inside =>
    rw [stored] at stored'
    cases stored'
    cases canonical with
    | branch level bounded disjoint filled linked placed reached several below =>
      have slots := (inSlots_iff filled).mpr placed
      have linked' := width.symm.trans linked
      have rebuild : Succeeds I
          (((Bitmap.slots nodemap).zip ids).mapM fun (slot, childId) => child inner id depth path slot childId)
          (List.Forall₂ (ChildOf S a depth path) ((Bitmap.slots nodemap).zip ids)) := by
        refine .mapM _ fun ⟨slot, childId⟩ member => ?_
        have found := (Bitmap.mem_zip_slots linked').mp member
        obtain ⟨node, kept⟩ := Bitmap.exists_kept linked (Bitmap.used_of_kept? found)
        have unfolds : a.Unfolds childId node := Bitmap.rel_of_kept inside found kept
        have genuine := genuine.child stored ((Bitmap.mem_iff_kept? linked').mpr ⟨slot, found⟩)
        exact child_succeeds unfolds (below slot node kept) (reached slot node kept) (several slot node kept)
          (each _ childId node unfolds genuine (below slot node kept) (several slot node kept))
      rw [branch_eq (.branch level bounded disjoint filled linked placed reached several below) width]
      exact .bind rebuild fun placed rebuilt => .pure
        (branch_sound stored (genuine.identity stored) level bounded disjoint filled linked' slots rebuilt)

end Branch

section Visit

variable {depth path : Nat} {parent id : Id} {build : Description α → Rebuild α (Node α × Nat)}

theorem visit_keeps (built : ∀ d, a.node? id = some d → d.identity S.toAddressing = id →
      Keeps (Cache.Sound S a) (build d) fun r => Placed.Sound S a id ⟨r.1, r.2, depth, path⟩) :
    Keeps (Cache.Sound S a) (visit S a depth path parent id build) (Placed.Fits S a depth path id) := by
  unfold visit
  refine .remembered fun cache sound => ?_
  cases hit : cache.get? id with
  | some p =>
    dsimp only
    split
    next same => exact .pure ⟨sound id p hit, same⟩
    next => exact .reject _
  | none =>
    cases stored : a.node? id with
    | none => exact .throw _
    | some d =>
      simp only [reject_bind]
      refine .check fun identity => .bind (built d stored (not_not.mp identity)) fun r good => ?_
      exact .store (fun _ sound => sound.insert good) ⟨good, rfl, rfl⟩

/-- A node of several values has its position from its content. One of fewer values has to be at the root, and not be
remembered from elsewhere. -/
theorem visit_succeeds {P : Id → Prop} {node : Node α} (unfolds : a.Unfolds id node)
    (genuine : a.GenuineFrom S.toAddressing id) (canonical : node.Canonical S.toLayout depth path)
    (roomy : 2 ≤ node.count ∨ P id ∧ depth = 0 ∧ path = 0)
    (built : ∀ d, a.node? id = some d → Succeeds (Cache.SettledAt S a P) (build d)
      fun r => Placed.Sound S a id ⟨r.1, r.2, depth, path⟩) :
    Succeeds (Cache.SettledAt S a P) (visit S a depth path parent id build) (Placed.Fits S a depth path id) := by
  obtain ⟨d, stored, identity⟩ := genuine id .start
  have free : Roomy node.count depth path := roomy.imp_right And.right
  unfold visit
  refine .remembered fun cache settled => ?_
  cases hit : cache.get? id with
  | some p =>
    obtain ⟨sound, room⟩ := settled id p hit
    have here : Placed.Sound S a id ⟨node, node.count, depth, path⟩ := ⟨unfolds, genuine, canonical, rfl⟩
    have same : p.node = node := sound.unfolds.unique unfolds sound.canonical canonical
    have room : Roomy p.count p.depth p.path := by
      rcases roomy with several | ⟨top, -⟩
      · exact .inl (by rwa [sound.count, same])
      · exact room top
    obtain rfl := sound.unique here room free
    dsimp only
    rw [if_pos ⟨rfl, rfl⟩]
    exact .pure ⟨sound, rfl, rfl⟩
  | none =>
    simp only [stored, reject_bind]
    refine .check (not_not.mpr identity) (.bind (built d stored) fun r good => ?_)
    have same : r.1 = node := good.unfolds.unique unfolds good.canonical canonical
    have room : Roomy r.2 depth path := by rwa [show r.2 = r.1.count from good.count, same]
    exact .store (fun _ settled => settled.insert good room) ⟨good, rfl, rfl⟩

end Visit

theorem node_keeps {left depth path : Nat} (parent id : Id) (levels : depth + left = branchLevels)
    (bounded : path < 2 ^ shiftAt depth) :
    Keeps (Cache.Sound S a) (node S a left depth path parent id) (Placed.Fits S a depth path id) := by
  induction left generalizing depth path parent id with
  | zero =>
    subst levels
    refine visit_keeps fun d stored identity => ?_
    cases d with
    | branch => exact .reject _
    | collision => exact collision_keeps stored identity
  | succ left ih =>
    refine visit_keeps fun d stored identity => ?_
    cases d with
    | branch =>
      exact branch_keeps stored identity (by omega) bounded fun path child bounded =>
        ih id child (by omega) bounded
    | collision => exact .reject _

theorem node_succeeds {P : Id → Prop} {left depth path : Nat} (parent : Id) {id : Id} {top : Node α}
    (levels : depth + left = branchLevels) (unfolds : a.Unfolds id top) (genuine : a.GenuineFrom S.toAddressing id)
    (canonical : top.Canonical S.toLayout depth path) (roomy : 2 ≤ top.count ∨ P id ∧ depth = 0 ∧ path = 0) :
    Succeeds (Cache.SettledAt S a P) (node S a left depth path parent id) (Placed.Fits S a depth path id) := by
  induction left generalizing depth path parent id top with
  | zero =>
    subst levels
    refine visit_succeeds unfolds genuine canonical roomy fun d stored => ?_
    cases top with
    | branch => cases canonical; omega
    | collision =>
      cases unfolds with
      | collision stored' =>
        rw [stored] at stored'
        cases stored'
        exact collision_succeeds stored genuine canonical
  | succ left ih =>
    refine visit_succeeds unfolds genuine canonical roomy fun d stored => ?_
    cases top with
    | collision => cases canonical; omega
    | branch =>
      cases unfolds with
      | branch stored' width below =>
        rw [stored] at stored'
        cases stored'
        refine branch_succeeds stored genuine (.branch stored width below) canonical ?_
        intro path child node unfolds genuine canonical several
        exact ih id (by omega) unfolds genuine canonical (.inl several)

end Rebuild

end TrieArchive
