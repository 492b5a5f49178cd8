import TrieArchive.Proofs.Archive.Loading

/-! Loading with a memory that also records the nodes that are rebuilt. The record shows what the memory of a loader
cannot: how often an id was rebuilt. An id is rebuilt while it is not remembered, and what is rebuilt meanwhile is smaller,
so that it is rebuilt once. -/
namespace TrieArchive

variable {α β γ κ : Type}

/-- What a loader remembers, and all that it has rebuilt, the last node first. -/
structure Recorded (α : Type) where
  cache : Cache α
  rebuilt : List (Id × Placed α)

namespace Recorded

def empty : Recorded α := ⟨∅, []⟩

def store (r : Recorded α) (id : Id) (p : Placed α) : Recorded α := ⟨r.cache.insert id p, (id, p) :: r.rebuilt⟩

end Recorded

instance : Memory (StateM (Recorded α)) α where
  remembered id := return (← get).cache.get? id
  keep id placed := modify (·.store id placed)

/-- Rebuilding that records each node when it is stored. -/
abbrev RecordedRebuild (α β : Type) := RebuildIn (StateM (Recorded α)) β

/-- The child in a slot of a branch at a position, one level further down on the path through the slot. -/
def Placed.HangsFrom (known : Id → Placed α → Prop) (depth path : Nat) (slot : Nat × Id) (p : Placed α) : Prop :=
  known slot.2 p ∧ p.depth = depth + 1 ∧ p.path = path + slot.1 * 2 ^ shiftAt depth

/-- A rebuilt node is its description, with what is known of each child id in place of the id. -/
inductive Placed.Assembled (known : Id → Placed α → Prop) (depth path : Nat) : Description α → Node α → Prop where
  | branch {datamap nodemap : UInt32} {values : List α} {ids : List Id} {placed : List (Placed α)}
      (linked : ids.length = Bitmap.count nodemap)
      (below : List.Forall₂ (Placed.HangsFrom known depth path) ((Bitmap.slots nodemap).zip ids) placed) :
      Placed.Assembled known depth path (.branch datamap nodemap values ids)
        (.branch datamap nodemap values (placed.map (·.node)))
  | collision {values : List α} :
      Placed.Assembled known depth path (.collision values) (.collision (UInt64.ofNat path) values)

theorem Placed.Assembled.mono {known known' : Id → Placed α → Prop} {depth path : Nat} {d : Description α} {node : Node α}
    (assembled : Placed.Assembled known depth path d node) (more : ∀ x p, known x p → known' x p) :
    Placed.Assembled known' depth path d node := by
  cases assembled with
  | branch linked below => exact .branch linked (below.imp fun slot p hangs => ⟨more _ p hangs.1, hangs.2⟩)
  | collision => exact .collision

theorem Node.nodes_lt_of_mem {node child : Node α} (member : child ∈ node.children) : child.nodes < node.nodes := by
  rw [nodes_eq node]
  generalize node.children = children at member
  induction children with
  | nil => contradiction
  | cons first rest ih =>
    rw [nodesAll]
    rcases List.mem_cons.mp member with rfl | later
    · omega
    · have := ih later
      omega

namespace Recorded

variable {r r' r'' : Recorded α}

/-- What was recorded since is no larger than these nodes. -/
def Adds (r r' : Recorded α) (tops : List (Node α)) : Prop :=
  ∃ new, r'.rebuilt = new ++ r.rebuilt ∧ ∀ entry ∈ new, ∃ top ∈ tops, entry.2.node.nodes ≤ top.nodes

theorem Adds.refl (r : Recorded α) (tops : List (Node α)) : r.Adds r tops := ⟨[], rfl, fun _ none => nomatch none⟩

theorem Adds.trans {tops tops' : List (Node α)} (first : r.Adds r' tops) (second : r'.Adds r'' tops') :
    r.Adds r'' (tops ++ tops') := by
  obtain ⟨new, added, small⟩ := first
  obtain ⟨new', added', small'⟩ := second
  refine ⟨new' ++ new, by rw [added', added, List.append_assoc], fun entry member => ?_⟩
  rcases List.mem_append.mp member with later | earlier
  · obtain ⟨top, inside, le⟩ := small' entry later
    exact ⟨top, List.mem_append_right _ inside, le⟩
  · obtain ⟨top, inside, le⟩ := small entry earlier
    exact ⟨top, List.mem_append_left _ inside, le⟩

variable [BEq κ] (S : Scheme α κ) (a : Archive α)

/-- The loader remembers just what was rebuilt, each id of it once, and every node is put together from what was rebuilt
under the ids of its children. -/
structure InOrder (r : Recorded α) : Prop where
  sound : Cache.Sound S a r.cache
  assembled : ∀ x p, (x, p) ∈ r.rebuilt → ∃ d, a.node? x = some d ∧ d.identity S.toAddressing = x ∧
    Placed.Assembled (fun y q => (y, q) ∈ r.rebuilt) p.depth p.path d p.node
  once : (r.rebuilt.map Prod.fst).Nodup
  remembered : ∀ x p, r.cache.get? x = some p ↔ (x, p) ∈ r.rebuilt

variable {S a}

theorem inOrder_empty : (empty : Recorded α).InOrder S a where
  sound _ _ found := by simp [empty] at found
  assembled _ _ none := nomatch none
  once := List.nodup_nil
  remembered := by simp [empty]

/-- Storing under an id that has nothing yet keeps the order. -/
theorem InOrder.store (inOrder : r.InOrder S a) {id : Id} {p : Placed α} {d : Description α}
    (stored : a.node? id = some d) (identity : d.identity S.toAddressing = id) (sound : p.Sound S a id)
    (assembled : Placed.Assembled (fun y q => (y, q) ∈ r.rebuilt) p.depth p.path d p.node)
    (new : ∀ q, (id, q) ∉ r.rebuilt) : (r.store id p).InOrder S a where
  sound := inOrder.sound.insert sound
  assembled x q member := by
    have more (y : Id) (p' : Placed α) (before : (y, p') ∈ r.rebuilt) : (y, p') ∈ (r.store id p).rebuilt :=
      List.mem_cons_of_mem _ before
    rcases List.mem_cons.mp member with same | before
    · cases same
      exact ⟨d, stored, identity, assembled.mono more⟩
    · obtain ⟨d', stored', identity', assembled'⟩ := inOrder.assembled x q before
      exact ⟨d', stored', identity', assembled'.mono more⟩
  once := by
    refine List.nodup_cons.mpr ⟨fun member => ?_, inOrder.once⟩
    obtain ⟨⟨_, q⟩, before, rfl⟩ := List.mem_map.mp member
    exact new q before
  remembered x q := by
    rw [Recorded.store, Cache.get?_insert, List.mem_cons, Prod.mk.injEq]
    split
    next same =>
      subst same
      simp only [Option.some.injEq, true_and, new, or_false, eq_comm]
    next other => simp only [other, false_and, false_or, inOrder.remembered]

end Recorded

namespace Rebuild

variable [BEq κ] {S : Scheme α κ} {a : Archive α} {r : Recorded α}

/-- From a record on, the recorded computation does what the other one does from the memory in it, adds to the record in
order, and an answer satisfies `Q` with the record behind it. -/
structure Traces (S : Scheme α κ) (a : Archive α) (r : Recorded α) (m : RecordedRebuild α β) (m' : Rebuild α β)
    (Q : β → Recorded α → Prop) : Prop where
  same : m'.run.run r.cache = ((m.run.run r).1, (m.run.run r).2.cache)
  inOrder : (m.run.run r).2.InOrder S a
  grown : r.rebuilt <:+ (m.run.run r).2.rebuilt
  answer : ∀ b, (m.run.run r).1 = .ok b → Q b (m.run.run r).2

namespace Traces

variable {m : RecordedRebuild α β} {m' : Rebuild α β} {Q : β → Recorded α → Prop}

theorem pure (inOrder : r.InOrder S a) {b : β} (h : Q b r) : Traces S a r (Pure.pure b) (Pure.pure b) Q where
  same := rfl
  inOrder := inOrder
  grown := List.suffix_refl _
  answer b' same := by
    cases same
    exact h

theorem throw (inOrder : r.InOrder S a) (e : LoadError) :
    Traces S a r (MonadExcept.throw e : RecordedRebuild α β) (MonadExcept.throw e) Q where
  same := rfl
  inOrder := inOrder
  grown := List.suffix_refl _
  answer _ same := nomatch same

theorem bind {f : β → RecordedRebuild α γ} {f' : β → Rebuild α γ} {R : γ → Recorded α → Prop}
    (first : Traces S a r m m' Q)
    (rest : ∀ b r', r'.InOrder S a → r.rebuilt <:+ r'.rebuilt → Q b r' → Traces S a r' (f b) (f' b) R) :
    Traces S a r (m >>= f) (m' >>= f') R := by
  obtain ⟨same, inOrder, grown, answer⟩ := first
  have run := run_bind m f r
  have run' := run_bind m' f' r.cache
  rw [same] at run'
  rcases ran : m.run.run r with ⟨_ | b, r'⟩
  all_goals rw [ran] at run run' inOrder grown answer
  · exact ⟨run'.trans (run ▸ rfl), run ▸ inOrder, run ▸ grown, fun b ok => nomatch run ▸ ok⟩
  · obtain ⟨same, inOrder', grown', answer'⟩ := rest b r' inOrder grown (answer b rfl)
    exact ⟨run'.trans (run ▸ same), run ▸ inOrder', run ▸ grown.trans grown', run ▸ answer'⟩

theorem remembered {id : Id} {f : Option (Placed α) → RecordedRebuild α β} {f' : Option (Placed α) → Rebuild α β}
    (here : Traces S a r (f (r.cache.get? id)) (f' (r.cache.get? id)) Q) :
    Traces S a r (ExceptT.lift (Memory.remembered id) >>= f) (ExceptT.lift (Memory.remembered id) >>= f') Q :=
  ⟨here.same, here.inOrder, here.grown, here.answer⟩

theorem store {id : Id} {p : Placed α} {Q : Placed α → Recorded α → Prop} (inOrder : (r.store id p).InOrder S a)
    (h : Q p (r.store id p)) :
    Traces S a r (do ExceptT.lift (Memory.keep id p); return p) (do ExceptT.lift (Memory.keep id p); return p) Q where
  same := rfl
  inOrder := inOrder
  grown := List.suffix_cons _ _
  answer b same := by
    cases same
    exact h

/-- A check that both make. -/
theorem check {c : Prop} [Decidable c] {what : Corruption} (inOrder : r.InOrder S a)
    (rest : ¬c → Traces S a r m m' Q) :
    Traces S a r (if c then reject what else m) (if c then reject what else m') Q := by
  split
  · exact throw inOrder _
  · exact rest ‹_›

/-- Items are gone through one after another. What is said of an answer still holds when more is recorded. -/
theorem mapM {f : β → RecordedRebuild α (Placed α)} {f' : β → Rebuild α (Placed α)}
    {R : β → Placed α → Recorded α → Prop} (stays : ∀ b p r r', r.rebuilt <:+ r'.rebuilt → R b p r → R b p r')
    (items : List β) (each : ∀ b ∈ items, ∀ r : Recorded α, r.InOrder S a →
      Traces S a r (f b) (f' b) fun p r' => R b p r' ∧ r.Adds r' [p.node])
    (r : Recorded α) (inOrder : r.InOrder S a) :
    Traces S a r (items.mapM f) (items.mapM f') fun ps r' =>
      List.Forall₂ (fun b p => R b p r') items ps ∧ r.Adds r' (ps.map (·.node)) := by
  induction items generalizing r with
  | nil => exact pure inOrder ⟨.nil, .refl r []⟩
  | cons b rest ih =>
    rw [List.mapM_cons, List.mapM_cons]
    refine bind (each b List.mem_cons_self r inOrder) fun p r' inOrder' _ first => ?_
    refine bind (ih (fun b' member => each b' (List.mem_cons_of_mem _ member)) r' inOrder') ?_
    intro ps r'' inOrder'' later others
    exact pure inOrder'' ⟨.cons (stays b p r' r'' later first.1) others.1, first.2.trans others.2⟩

end Traces

section Loading

variable {depth path : Nat} {id : Id}

/-- What is answered for the node under an id: it was recorded, and nothing larger since. -/
def Rebuilt (S : Scheme α κ) (a : Archive α) (depth path : Nat) (id : Id) (r : Recorded α) (p : Placed α)
    (r' : Recorded α) : Prop :=
  p.Fits S a depth path id ∧ (id, p) ∈ r'.rebuilt ∧ r.Adds r' [p.node]

/-- What is answered for a description: a sound node put together from its children, and nothing recorded but what is
below it. -/
def Built (S : Scheme α κ) (a : Archive α) (depth path : Nat) (id : Id) (d : Description α) (r : Recorded α)
    (b : Node α × Nat) (r' : Recorded α) : Prop :=
  Placed.Sound S a id ⟨b.1, b.2, depth, path⟩ ∧
    Placed.Assembled (fun y q => (y, q) ∈ r'.rebuilt) depth path d b.1 ∧ r.Adds r' b.1.children

theorem collision_traces {values : List α} (inOrder : r.InOrder S a) (stored : a.node? id = some (.collision values))
    (identity : (Description.collision values).identity S.toAddressing = id) :
    Traces S a r (collision S id path values) (collision S id path values)
      (Built S a branchLevels path id (.collision values) r) := by
  unfold collision
  simp only [repeatsKey_bind, reject_bind]
  refine .check inOrder fun several => .check inOrder fun placed => .check inOrder fun distinct => .pure inOrder ?_
  exact ⟨collision_sound stored identity several placed distinct, .collision, .refl r _⟩

section Branch

variable {datamap nodemap : UInt32} {values : List α} {ids : List Id}
  {below : (path : Nat) → Id → RecordedRebuild α (Placed α)} {below' : (path : Nat) → Id → Rebuild α (Placed α)}

theorem child_traces {slot : Nat} {childId : Id} (inOrder : r.InOrder S a)
    (each : Traces S a r (below (path + slot * 2 ^ shiftAt depth) childId)
      (below' (path + slot * 2 ^ shiftAt depth) childId)
      (Rebuilt S a (depth + 1) (path + slot * 2 ^ shiftAt depth) childId r)) :
    Traces S a r (child below id depth path slot childId) (child below' id depth path slot childId)
      fun p r' => (ChildOf S a depth path (slot, childId) p ∧ (childId, p) ∈ r'.rebuilt) ∧ r.Adds r' [p.node] := by
  rw [child_eq, child_eq]
  refine .check inOrder fun reached => .bind each fun p r' inOrder' _ rebuilt => .check inOrder' fun several => ?_
  obtain ⟨fits, recorded, added⟩ := rebuilt
  exact .pure inOrder' ⟨⟨⟨fits, Nat.lt_of_not_le reached, Nat.le_of_not_lt several⟩, recorded⟩, added⟩

theorem children_traces (inOrder : r.InOrder S a) (bounded : path < 2 ^ shiftAt depth)
    (each : ∀ path childId, path < 2 ^ shiftAt (depth + 1) → ∀ r : Recorded α, r.InOrder S a →
      Traces S a r (below path childId) (below' path childId) (Rebuilt S a (depth + 1) path childId r)) :
    Traces S a r (((Bitmap.slots nodemap).zip ids).mapM fun (slot, childId) =>
        child below id depth path slot childId)
      (((Bitmap.slots nodemap).zip ids).mapM fun (slot, childId) => child below' id depth path slot childId)
      fun placed r' => List.Forall₂ (fun hung p => ChildOf S a depth path hung p ∧ (hung.2, p) ∈ r'.rebuilt)
        ((Bitmap.slots nodemap).zip ids) placed ∧ r.Adds r' (placed.map (·.node)) := by
  refine .mapM (fun _ _ _ _ later => .imp_right (later.subset ·)) _ (fun ⟨slot, childId⟩ member r inOrder => ?_) r inOrder
  have used := Bitmap.has_of_mem_slots (List.of_mem_zip member).1
  exact child_traces inOrder (each _ _ (path_lt bounded (Bitmap.slot_lt used)) r inOrder)

theorem branch_traces (inOrder : r.InOrder S a) (stored : a.node? id = some (.branch datamap nodemap values ids))
    (identity : (Description.branch datamap nodemap values ids).identity S.toAddressing = id)
    (level : depth < branchLevels) (bounded : path < 2 ^ shiftAt depth)
    (each : ∀ path childId, path < 2 ^ shiftAt (depth + 1) → ∀ r : Recorded α, r.InOrder S a →
      Traces S a r (below path childId) (below' path childId) (Rebuilt S a (depth + 1) path childId r)) :
    Traces S a r (branch S below id depth path datamap nodemap values ids)
      (branch S below' id depth path datamap nodemap values ids)
      (Built S a depth path id (.branch datamap nodemap values ids) r) := by
  unfold branch
  simp only [inSlots_bind, reject_bind]
  refine .check inOrder fun consistent => .check inOrder fun inSlots =>
    .bind (children_traces inOrder bounded each) fun placed r' inOrder' _ rebuilt => .pure inOrder' ?_
  simp only [not_or, not_not] at consistent
  obtain ⟨disjoint, filled, linked⟩ := consistent
  obtain ⟨related, added⟩ := rebuilt
  refine ⟨branch_sound stored identity level bounded disjoint filled linked (by simpa using inSlots)
    (related.imp fun _ _ => And.left), .branch linked (related.imp ?_), added⟩
  rintro hung p ⟨⟨fits, -⟩, recorded⟩
  exact ⟨recorded, fits.2⟩

end Branch

/-- While an id is rebuilt it is not rebuilt further down: that would be the same node once more, and below itself. -/
theorem not_mem_rebuilt {d : Description α} {b : Node α × Nat} {r' : Recorded α} (inOrder : r.InOrder S a)
    (inOrder' : r'.InOrder S a) (built : Built S a depth path id d r b r') (new : r.cache.get? id = none) (q : Placed α) :
    (id, q) ∉ r'.rebuilt := by
  obtain ⟨sound, -, since, added, small⟩ := built
  intro member
  have sound' := inOrder'.sound id q ((inOrder'.remembered id q).mpr member)
  have same : q.node = b.1 := sound'.unfolds.unique sound.unfolds sound'.canonical sound.canonical
  rw [added, List.mem_append] at member
  rcases member with later | before
  · -- what was recorded since is below the node, and so smaller
    obtain ⟨child, inside, le⟩ := small _ later
    have less := Node.nodes_lt_of_mem inside
    rw [← same] at less
    exact absurd le (Nat.not_le_of_lt less)
  · rw [(inOrder.remembered id q).mpr before] at new
    contradiction

theorem visit_traces (parent : Id) (inOrder : r.InOrder S a) {build : Description α → RecordedRebuild α (Node α × Nat)}
    {build' : Description α → Rebuild α (Node α × Nat)}
    (built : ∀ d, a.node? id = some d → d.identity S.toAddressing = id →
      Traces S a r (build d) (build' d) (Built S a depth path id d r)) :
    Traces S a r (visit S a depth path parent id build) (visit S a depth path parent id build')
      (Rebuilt S a depth path id r) := by
  unfold visit
  refine .remembered ?_
  cases hit : r.cache.get? id with
  | some p =>
    dsimp only
    split
    next here => exact .pure inOrder ⟨⟨inOrder.sound id p hit, here⟩, (inOrder.remembered id p).mp hit, .refl r _⟩
    next => exact .throw inOrder _
  | none =>
    cases stored : a.node? id with
    | none => exact .throw inOrder _
    | some d =>
      simp only [reject_bind]
      refine .check inOrder fun identity => .bind (built d stored (not_not.mp identity)) ?_
      intro b r' inOrder' _ new
      have free := not_mem_rebuilt inOrder inOrder' new hit
      obtain ⟨sound, assembled, since, added, small⟩ := new
      refine .store (inOrder'.store stored (not_not.mp identity) sound assembled free) ⟨⟨sound, rfl, rfl⟩, .head _, ?_⟩
      refine ⟨(id, _) :: since, congrArg ((id, _) :: ·) added, fun entry member => ⟨_, .head _, ?_⟩⟩
      rcases List.mem_cons.mp member with rfl | later
      · exact Nat.le_refl _
      · obtain ⟨child, inside, le⟩ := small entry later
        exact Nat.le_trans le (Nat.le_of_lt (Node.nodes_lt_of_mem inside))

theorem node_traces {left : Nat} (parent id : Id) (levels : depth + left = branchLevels)
    (bounded : path < 2 ^ shiftAt depth) (inOrder : r.InOrder S a) :
    Traces S a r (node S a left depth path parent id) (node S a left depth path parent id)
      (Rebuilt S a depth path id r) := by
  induction left generalizing depth path parent id r with
  | zero =>
    subst levels
    refine visit_traces parent inOrder fun d stored identity => ?_
    cases d with
    | branch => exact .throw inOrder _
    | collision => exact collision_traces inOrder stored identity
  | succ left ih =>
    refine visit_traces parent inOrder fun d stored identity => ?_
    cases d with
    | branch =>
      exact branch_traces inOrder stored identity (by omega) bounded fun path child bounded r inOrder =>
        ih id child (by omega) bounded inOrder
    | collision => exact .throw inOrder _

theorem container_traces (id : Id) (inOrder : r.InOrder S a) :
    Traces S a r (container S a id) (container S a id) fun _ _ => True := by
  unfold container rooted
  cases a.root? id with
  | none => exact .throw inOrder _
  | some root =>
    simp only [reject_bind, throw_bind]
    split
    · exact .throw inOrder _
    · refine .check inOrder fun _ => .bind (node_traces id root.node (Nat.zero_add _) (by decide) inOrder) ?_
      exact fun p r' inOrder' _ _ => .check inOrder' fun _ => .pure inOrder' trivial

end Loading

end Rebuild

end TrieArchive
