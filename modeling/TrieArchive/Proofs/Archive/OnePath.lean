import TrieArchive.Proofs.Archive.Integrity
import TrieArchive.Proofs.Archive.Occurrences

/-! An edit changes nodes on the path of its key only, one on each level. What stands off the path keeps its place and
its id, so saving the edited container beside the old one stores at most the nodes of that path. -/
namespace TrieArchive

variable {α κ : Type}

/-- A position that the hash leads to. -/
def Placed.OnPath (hash : UInt64) (p : Placed α) : Prop := p.path = pathOf hash p.depth

instance (hash : UInt64) (p : Placed α) : Decidable (p.OnPath hash) := inferInstanceAs (Decidable (_ = _))

/-- Off the path of a hash there is nothing but what was there before. -/
def KeepsOff (hash : UInt64) (before after : List (Id × Placed α)) : Prop :=
  ∀ entry ∈ after, ¬ entry.2.OnPath hash → entry ∈ before

theorem KeepsOff.refl (hash : UInt64) (entries : List (Id × Placed α)) : KeepsOff hash entries entries :=
  fun _ member _ => member

namespace Node

variable [BEq κ] {L : Layout α κ} {A : Addressing α} {depth path : Nat} {node before after : Node α} {hash : UInt64}

/-- A collision on the path brings nothing off the path. -/
theorem keepsOff_collision {entries : List (Id × Placed α)} (onPath : path = pathOf hash depth) (own : UInt64)
    (values : List α) : KeepsOff hash entries ((collision own values).placements A depth path) := by
  intro entry member off
  rw [placements_collision, List.mem_singleton] at member
  exact absurd (member ▸ onPath) off

/-- Where an edit of the slot of a hash brings nothing off the path in that slot, it brings nothing off the path. -/
theorem Edited.keepsOff {inline : Option α} {child : Option (Node α)}
    (edited : Edited (slotAt hash depth) inline child before after) (canonical : Canonical L depth path before)
    (onPath : path = pathOf hash depth)
    (here : ∀ c, child = some c → KeepsOff hash (before.placements A depth path)
      (c.placements A (depth + 1) (pathOf hash (depth + 1)))) :
    KeepsOff hash (before.placements A depth path) (after.placements A depth path) := by
  cases edited with
  | @branch datamap nodemap _ nodemap' values _ children children' _ linked' _ nodes =>
    cases canonical with
    | branch level _ _ _ linked =>
      intro entry member off
      rcases (mem_placements_branch linked').mp member with ⟨slot, c, kept, inside⟩ | rfl
      · rw [nodes] at kept
        split at kept
        next same =>
          rw [same, onPath, ← pathOf_succ level] at inside
          exact here c kept entry inside off
        next => exact (mem_placements_branch linked).mpr (.inl ⟨slot, c, kept, inside⟩)
      · exact absurd onPath off

/-- An edit that leaves no child in the slot of a hash brings nothing off the path. -/
theorem Edited.keepsOff_of_none {inline : Option α} (edited : Edited (slotAt hash depth) inline none before after)
    (canonical : Canonical L depth path before) (onPath : path = pathOf hash depth) :
    KeepsOff hash (before.placements A depth path) (after.placements A depth path) := by
  apply edited.keepsOff canonical onPath
  rintro c ⟨⟩

/-- An edit of the child in the slot of a hash keeps what it keeps in the child. -/
theorem keepsOff_child {datamap nodemap : UInt32} {values : List α} {children : List (Node α)} {next next' : Node α}
    (level : depth < branchLevels) (linked : children.length = Bitmap.count nodemap) (onPath : path = pathOf hash depth)
    (found : Bitmap.kept? nodemap children (slotAt hash depth) = some next)
    (keeps : KeepsOff hash (next.placements A (depth + 1) (path + slotAt hash depth * 2 ^ shiftAt depth))
      (next'.placements A (depth + 1) (path + slotAt hash depth * 2 ^ shiftAt depth))) :
    KeepsOff hash ((branch datamap nodemap values children).placements A depth path)
      (next'.placements A (depth + 1) (pathOf hash (depth + 1))) := by
  rw [pathOf_succ level, ← onPath]
  intro entry member off
  exact (mem_placements_branch linked).mpr (.inl ⟨_, next, found, keeps entry member off⟩)

/-- All that is made of two values on one path stands on that path. -/
theorem keepsOff_ofPair {entries : List (Id × Placed α)} (first second : α) (other : UInt64) {left : Nat}
    (levels : depth + left = branchLevels) :
    KeepsOff hash entries ((ofPair first other second hash left depth).placements A depth (pathOf hash depth)) := by
  induction left generalizing depth with
  | zero => exact keepsOff_collision rfl other [first, second]
  | succ left ih =>
    have level : depth < branchLevels := by omega
    have slot := slotAt_lt other depth
    intro entry member off
    rw [ofPair] at member
    split at member
    next same =>
      have linked : [ofPair first other second hash left (depth + 1)].length =
          Bitmap.count (Bitmap.mask (slotAt other depth)) := (Bitmap.count_mask slot).symm
      rcases (mem_placements_branch linked).mp member with ⟨_, c, kept, inside⟩ | rfl
      · rw [Bitmap.kept?_mask slot] at kept
        obtain ⟨rfl, rfl⟩ := Option.ite_some_none_eq_some.mp kept
        rw [same, ← pathOf_succ level] at inside
        exact ih (by omega) entry inside off
      · exact absurd rfl off
    next =>
      rcases (mem_placements_branch rfl).mp member with ⟨_, c, kept, -⟩ | rfl
      · rw [Bitmap.kept?_zero] at kept
        contradiction
      · exact absurd rfl off

/-- Inserting keeps all nodes off the path of the value. -/
theorem Canonical.keepsOff_insert (canonical : Canonical L depth path node) {value : α}
    (onPath : path = pathOf (L.place value) depth) : KeepsOff (L.place value) (node.placements A depth path)
      ((node.insert L value (L.place value) depth).1.placements A depth path) := by
  induction canonical with
  | collision =>
    rw [Node.insert]
    split <;> exact keepsOff_collision onPath _ _
  | @branch depth path datamap nodemap values children level bounded disjoint filled linked placed reached several
      below ih =>
    have canonical := Canonical.branch level bounded disjoint filled linked placed reached several below
    by_cases inline : Bitmap.has datamap (slotAt (L.place value) depth)
    · have free := Bitmap.disjoint_iff.mp disjoint _ inline
      have bare := Bitmap.kept?_of_free children free
      obtain ⟨old, found⟩ := Bitmap.exists_kept filled inline
      rw [insert_of_inline found]
      split
      · exact (bare ▸ Edited.setValue filled linked inline value).keepsOff_of_none canonical onPath
      · refine (Edited.pushDown filled linked inline free _).keepsOff canonical onPath fun c pair => ?_
        obtain rfl := Option.some.inj pair
        exact keepsOff_ofPair old value _ (Nat.add_sub_of_le level)
    · have free : Bitmap.has datamap (slotAt (L.place value) depth) = false := by simpa using inline
      by_cases child : Bitmap.has nodemap (slotAt (L.place value) depth)
      · obtain ⟨next, found⟩ := Bitmap.exists_kept linked child
        rw [insert_of_child free found]
        refine (Edited.setChild filled linked child _).keepsOff canonical onPath fun c grown => ?_
        obtain rfl := Option.some.inj grown
        exact keepsOff_child level linked onPath found (ih _ next found (by rw [pathOf_succ level, ← onPath]))
      · have free' : Bitmap.has nodemap (slotAt (L.place value) depth) = false := by simpa using child
        have vacant := Bitmap.kept?_of_free children free'
        rw [insert_of_free free free']
        exact (vacant ▸ Edited.addValue filled linked (slotAt_lt ..) free value).keepsOff_of_none canonical onPath

/-- Erasing keeps all nodes off the path of the key. -/
theorem Canonical.keepsOff_erase? (canonical : Canonical L depth path node) {key : κ}
    (onPath : path = pathOf (L.hash key) depth) {after : Node α}
    (erased : node.erase? L key (L.hash key) depth = some after) :
    KeepsOff (L.hash key) (node.placements A depth path) (after.placements A depth path) := by
  induction canonical generalizing after with
  | collision =>
    rw [Node.erase?] at erased
    split at erased <;> cases erased
    exact keepsOff_collision onPath _ _
  | @branch depth path datamap nodemap values children level bounded disjoint filled linked placed reached several
      below ih =>
    have canonical := Canonical.branch level bounded disjoint filled linked placed reached several below
    by_cases inline : Bitmap.has datamap (slotAt (L.hash key) depth)
    · have free := Bitmap.disjoint_iff.mp disjoint _ inline
      have bare := Bitmap.kept?_of_free children free
      obtain ⟨old, found⟩ := Bitmap.exists_kept filled inline
      rw [erase?_of_inline found] at erased
      split at erased <;> cases erased
      exact (bare ▸ Edited.removeValue filled linked inline).keepsOff_of_none canonical onPath
    · have free : Bitmap.has datamap (slotAt (L.hash key) depth) = false := by simpa using inline
      by_cases child : Bitmap.has nodemap (slotAt (L.hash key) depth)
      · obtain ⟨next, found⟩ := Bitmap.exists_kept linked child
        rw [erase?_of_child free found] at erased
        obtain ⟨left, below', rfl⟩ := Option.map_eq_some_iff.mp erased
        split
        · exact (Edited.pullUp filled linked child free _).keepsOff_of_none canonical onPath
        · refine (Edited.setChild filled linked child left).keepsOff canonical onPath fun c shrunk => ?_
          obtain rfl := Option.some.inj shrunk
          exact keepsOff_child level linked onPath found (ih _ next found (by rw [pathOf_succ level, ← onPath]) below')
      · have free' : Bitmap.has nodemap (slotAt (L.hash key) depth) = false := by simpa using child
        rw [erase?_of_free free free'] at erased
        contradiction

/-- What is placed below a well-formed node is well-formed where it stands. -/
theorem Canonical.of_placement (canonical : Canonical L depth path node) {entry : Id × Placed α}
    (member : entry ∈ node.placements A depth path) : entry.2.node.Canonical L entry.2.depth entry.2.path := by
  induction canonical with
  | collision level whole several placed distinct =>
    rw [placements_collision, List.mem_singleton] at member
    exact member ▸ .collision level whole several placed distinct
  | branch level bounded disjoint filled linked placed reached several below ih =>
    rcases (mem_placements_branch linked).mp member with ⟨slot, child, kept, inside⟩ | rfl
    · exact ih slot child kept inside
    · exact .branch level bounded disjoint filled linked placed reached several below

/-- A path has one node on each level. -/
theorem Canonical.length_onPath (canonical : Canonical L depth path node) (hash : UInt64) :
    ((node.placements A depth path).filter fun entry => entry.2.OnPath hash).length ≤ branchLevels + 1 := by
  set onPath := (node.placements A depth path).filter fun entry => entry.2.OnPath hash with def_onPath
  have member {entry : Id × Placed α} (inside : entry ∈ onPath) :
      entry ∈ node.placements A depth path ∧ entry.2.OnPath hash := by simpa [def_onPath] using inside
  have levels : (onPath.map (·.2.depth)).Nodup := by
    refine List.pairwise_map.mpr ((canonical.pairwise_placements.filter _).imp_of_mem fun here there parted same => ?_)
    exact parted ⟨same, (member here).2.trans (same ▸ (member there).2.symm)⟩
  have bound : (onPath.map (·.2.depth)).Subperm (List.range (branchLevels + 1)) :=
    levels.subperm fun level inside => by
      obtain ⟨entry, here, rfl⟩ := List.mem_map.mp inside
      exact List.mem_range.mpr (Nat.lt_succ_of_le (canonical.of_placement (member here).1).depth_le)
  simpa using bound.length_le

end Node

namespace Archive

variable {A : Addressing α} {a : Archive α} {t t' : Trie α} {hash : UInt64}

/-- An archive with all nodes of a trie. -/
def Stores (A : Addressing α) (a : Archive α) (t : Trie α) : Prop := ∀ x ∈ t.root.ids A, (a.node? x).isSome

theorem stores_save (A : Addressing α) (a : Archive α) (kind : Kind) (t : Trie α) :
    (a.save A kind t).1.Stores A t :=
  fun _ member => (isSome_node?_save_iff ..).mpr (.inr member)

/-- What was stored is kept, and what is added are nodes on the path of a hash and at most one root. Off the path the
second trie has nodes of the first one, in the same places and under the same ids. -/
structure AddsPath (A : Addressing α) (hash : UInt64) (t t' : Trie α) (a saved : Archive α) : Prop where
  nodes : saved.nodes.size ≤ a.nodes.size + 14
  roots : saved.roots.size ≤ a.roots.size + 1
  kept : ∀ x d, a.node? x = some d → saved.node? x = some d
  keptRoots : ∀ id r, a.root? id = some r → saved.root? id = some r
  onPath : ∀ x, (saved.node? x).isSome → (a.node? x).isSome ∨ ∃ p, (x, p) ∈ t'.placements A ∧ p.OnPath hash
  offPath : ∀ entry ∈ t'.placements A, ¬ entry.2.OnPath hash → entry ∈ t.placements A

/-- A trie that keeps all nodes off a path is saved beside the one it came from by adding the path. -/
theorem Stores.addsPath [BEq κ] {L : Layout α κ} (stores : a.Stores A t) (canonical : t.Canonical L)
    (canonical' : t'.Canonical L) (keeps : KeepsOff hash (t.placements A) (t'.placements A)) (kind : Kind) :
    AddsPath A hash t t' a (a.save A kind t').1 := by
  have onPath (x : Id) (stored : ((a.save A kind t').1.node? x).isSome) :
      (a.node? x).isSome ∨ ∃ p, (x, p) ∈ t'.placements A ∧ p.OnPath hash := by
    rw [isSome_node?_save_iff, Node.mem_ids] at stored
    rcases stored with there | written
    · exact .inl there
    · obtain ⟨p, placed⟩ := canonical'.root.exists_placement_iff.mpr written
      by_cases on : p.OnPath hash
      · exact .inr ⟨p, placed, on⟩
      · have former := canonical.root.exists_placement_iff.mp ⟨p, keeps _ placed on⟩
        exact .inl (stores x (Node.mem_ids.mpr former))
  refine ⟨?_, ?_, fun x d found => ?_, fun id r found => ?_, onPath, keeps⟩
  · let path := (t'.placements A).filter fun entry => entry.2.OnPath hash
    have grown := size_le_add_of_isSome (path.map Prod.fst) fun x stored => (onPath x stored).imp_right
      fun ⟨p, placed, on⟩ => List.mem_map.mpr ⟨(x, p), List.mem_filter.mpr ⟨placed, by simpa using on⟩, rfl⟩
    rw [List.length_map] at grown
    exact Nat.le_trans grown (Nat.add_le_add_left (canonical'.root.length_onPath hash) _)
  · exact Std.ExtTreeMap.size_insertIfNew_le
  · rw [node?_save, found, Option.some_or]
  · rw [root?_save, found, Option.some_or]

end Archive

section Edits

variable [BEq κ] [EquivBEq κ] {L : Layout α κ} {A : Addressing α} {a : Archive α} {t : Trie α}

theorem Archive.Stores.addsPath_insert (stores : a.Stores A t) (canonical : t.Canonical L) (lawful : L.Lawful) (v : α)
    (kind : Kind) : a.AddsPath A (L.place v) t (t.insert L v).1 (a.save A kind (t.insert L v).1).1 :=
  stores.addsPath canonical (canonical.insert_spec lawful v).1
    (canonical.root.keepsOff_insert (pathOf_zero (L.place v)).symm) kind

theorem Archive.Stores.addsPath_erase (stores : a.Stores A t) (canonical : t.Canonical L) (lawful : L.Lawful) (key : κ)
    (kind : Kind) : a.AddsPath A (L.hash key) t (t.erase L key).1 (a.save A kind (t.erase L key).1).1 := by
  refine stores.addsPath canonical (canonical.erase_spec lawful key).1 ?_ kind
  rw [Trie.erase]
  split
  · split
    next root erased => exact canonical.root.keepsOff_erase? (pathOf_zero (L.hash key)).symm erased
    next => exact .refl _ _
  · exact .refl _ _

end Edits

/-- When a container that can be come by is edited once and saved into an archive that has all its nodes, the archive
gets at most fourteen nodes and one root. All of them are for the path of the key, and everything off that path keeps
its id and its place. -/
theorem edits_store_one_path {α κ β γ ι : Type} [BEq α] [EquivBEq α] [StableHash α] [LawfulStableHash α] [Binary α]
    [BEq κ] [EquivBEq κ] [StableHash κ] [LawfulStableHash κ] [Binary κ] [Binary β] [Inhabited β] [BEq ι] [EquivBEq ι]
    {L : Layout γ ι} (lawful : L.Lawful) :
    (∀ s : TrieSet α, TrieSet.Reachable (.frozen s) → ∀ a : Archive α, a.Stores .blake3 s.trie → ∀ x,
      a.AddsPath .blake3 (StableHash.hash x) s.trie (s.insert x).trie ((s.insert x).save a).1 ∧
      a.AddsPath .blake3 (StableHash.hash x) s.trie (s.erase x).trie ((s.erase x).save a).1) ∧
    (∀ m : TrieMap κ β, TrieMap.Reachable (.frozen m) → ∀ a : Archive (κ × β), a.Stores .blake3 m.trie → ∀ key,
      (∀ value, a.AddsPath .blake3 (StableHash.hash key) m.trie (m.insert key value).trie
        ((m.insert key value).save a).1) ∧
      a.AddsPath .blake3 (StableHash.hash key) m.trie (m.erase key).trie ((m.erase key).save a).1 ∧
      ∀ f, a.AddsPath .blake3 (StableHash.hash key) m.trie (m.update key f).trie ((m.update key f).save a).1) ∧
    (∀ t : Trie γ, t.Canonical L → ∀ (A : Addressing γ) (kind : Kind) (a : Archive γ), a.Stores A t →
      (∀ v, a.AddsPath A (L.place v) t (t.insert L v).1 (a.save A kind (t.insert L v).1).1) ∧
      ∀ key, a.AddsPath A (L.hash key) t (t.erase L key).1 (a.save A kind (t.erase L key).1).1) := by
  refine ⟨fun s reachable a stores x => ?_, fun m reachable a stores key => ?_, fun t canonical A kind a stores => ?_⟩
  · have canonical : s.trie.Canonical TrieSet.layout := reachable.canonical
    constructor
    · rw [TrieSet.insert]
      split
      · exact stores.addsPath canonical canonical (.refl _ _) .set
      · exact stores.addsPath_insert canonical TrieSet.layout_lawful x .set
    · have erased := stores.addsPath_erase canonical TrieSet.layout_lawful x .set
      rwa [← TrieSet.trie_erase] at erased
  · have canonical : m.trie.Canonical TrieMap.layout := reachable.canonical
    have inserted (value : β) := stores.addsPath_insert canonical TrieMap.layout_lawful (key, value) .map
    refine ⟨inserted, ?_, fun f => inserted _⟩
    have erased := stores.addsPath_erase canonical TrieMap.layout_lawful key .map
    rwa [← TrieMap.trie_erase] at erased
  · exact ⟨fun v => stores.addsPath_insert canonical lawful v kind,
      fun key => stores.addsPath_erase canonical lawful key kind⟩

/-- Two keys of one hash bring in a path of full length, and erasing one of them takes it away. Beside them a key of
another slot stays where it is. -/
theorem edits_store_one_path_collision :
    let k : ChosenHash := ⟨2, 0⟩
    let s := TrieSet.ofList [(⟨1, 0⟩ : ChosenHash), ⟨3, 5⟩]
    let m := TrieMap.ofList [((⟨1, 0⟩ : ChosenHash), (7 : UInt32)), (k, 8)]
    let a := (s.save .empty).1
    let b := (m.save .empty).1
    (a.AddsPath .blake3 (StableHash.hash k) s.trie (s.insert k).trie ((s.insert k).save a).1 ∧
        ((s.insert k).save a).1.nodes.size = a.nodes.size + 14) ∧
      b.AddsPath .blake3 (StableHash.hash k) m.trie (m.erase k).trie ((m.erase k).save b).1 ∧
      b.AddsPath .blake3 (StableHash.hash k) m.trie (m.trie.erase TrieMap.layout k).1
        (b.save .blake3 .map (m.trie.erase TrieMap.layout k).1).1 := by
  intro k s m a b
  have lawful : (TrieMap.layout : Layout (ChosenHash × UInt32) ChosenHash).Lawful := TrieMap.layout_lawful
  obtain ⟨sets, maps, tries⟩ := edits_store_one_path (α := ChosenHash) (κ := ChosenHash) (β := UInt32) lawful
  have reachable : TrieMap.Reachable (.frozen m) := .edit .empty (.ofList _)
  refine ⟨⟨(sets s (.edit .empty (.ofList _)) a (Archive.stores_save _ _ _ _) k).1, by decide +kernel⟩,
    (maps m reachable b (Archive.stores_save _ _ _ _) k).2.1, ?_⟩
  exact (tries m.trie reachable.canonical .blake3 .map b (Archive.stores_save _ _ _ _)).2 k

end TrieArchive
