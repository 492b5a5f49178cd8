import TrieArchive.Proofs.Archive.Containers
import TrieArchive.Proofs.Archive.Resaving
import TrieArchive.Proofs.Archive.Resuming

/-! Saving adds what is not there yet. So an archive that several containers have been saved into depends on which they
were, but neither on their order nor on how often each was saved. -/
namespace TrieArchive

variable {α κ σ : Type}

theorem Description.Alike.refl (d : Description α) : d.Alike d := by
  cases d with
  | branch => exact .branch ..
  | collision => exact .collision (.refl _)

/-- Behind the same first choice, two second ones are met together. -/
theorem Option.eq_or_of_or_eq_some {β : Type} {o p q : Option β} {b c : β} (one : o.or p = some b)
    (other : o.or q = some c) : b = c ∨ p = some b ∧ q = some c := by
  cases o with
  | none => exact .inr ⟨one, other⟩
  | some _ => exact .inl (Option.some.inj (one.symm.trans other))

theorem Node.Alike.mem_ids {A : Addressing α} {node node' : Node α} (alike : node.Alike node') {x : Id}
    (member : x ∈ node.ids A) : x ∈ node'.ids A := by
  obtain ⟨d, inside⟩ := Node.mem_ids.mp member
  exact Node.mem_ids.mpr (alike.exists_mem_manifest inside)

namespace Archive

/-- Saves one after another: the archive behind the last of them, and the ids that they answer. -/
def saves (a : Archive α) (save : σ → Archive α → Archive α × Id) (cs : List σ) : Archive α × List Id :=
  run (fun a c => save c a) a cs

section Contents

variable {A : Addressing α} {save : σ → Archive α → Archive α × Id} {view : σ → Kind × Trie α}
  (viewed : ∀ c a, save c a = a.save A (view c).1 (view c).2) (a : Archive α) (cs : List σ)

include viewed

/-- The id that a save answers is the container's own. -/
theorem saves_snd : (a.saves save cs).2 = cs.map fun c => ((view c).2.record A (view c).1).identity A.digest := by
  induction cs generalizing a with
  | nil => rfl
  | cons c rest ih =>
    rw [saves, run, List.map_cons]
    refine congrArg₂ List.cons ?_ (ih _)
    rw [viewed]
    rfl

/-- An archive keeps account of saves, whatever was saved before. -/
theorem Accounts.saves {saved : List (Kind × Trie α)} (accounts : a.Accounts A saved) :
    (a.saves save cs).1.Accounts A ((cs.map view).reverse ++ saved) := by
  induction cs generalizing a saved with
  | nil => exact accounts
  | cons c rest ih =>
    rw [List.map_cons, List.reverse_cons, List.append_assoc, Archive.saves, run]
    refine ih _ ?_
    rw [viewed]
    exact accounts.save _ _

/-- Of descriptions that are saved under one id the first is kept. -/
theorem node?_saves (x : Id) : (a.saves save cs).1.node? x = (a.node? x).or
    (((cs.flatMap fun c => ((view c).2.root.manifest A).2).find? (·.1 = x)).map Prod.snd) := by
  induction cs generalizing a with
  | nil => exact Option.or_none.symm
  | cons c rest ih =>
    rw [saves, run]
    refine (ih _).trans ?_
    rw [viewed, node?_save, Option.or_assoc, List.flatMap_cons, List.find?_append, Option.map_or]

theorem root?_saves (x : Id) : (a.saves save cs).1.root? x = (a.root? x).or
    ((cs.map fun c => (view c).2.record A (view c).1).find? (·.identity A.digest = x)) := by
  induction cs generalizing a with
  | nil => exact Option.or_none.symm
  | cons c rest ih =>
    rw [saves, run]
    refine (ih _).trans ?_
    rw [viewed, root?_save, Option.or_assoc, List.map_cons, List.find?_cons]
    by_cases named : ((view c).2.record A (view c).1).identity A.digest = x <;> simp [named]

/-- The nodes of an archive are those it had and those of what was saved. -/
theorem isSome_node?_saves_iff (x : Id) :
    ((a.saves save cs).1.node? x).isSome ↔ (a.node? x).isSome ∨ ∃ c ∈ cs, x ∈ (view c).2.root.ids A := by
  rw [node?_saves viewed, Option.isSome_or, Bool.or_eq_true, Option.isSome_map, List.find?_isSome]
  refine or_congr Iff.rfl ?_
  constructor
  · rintro ⟨entry, member, named⟩
    obtain ⟨c, here, inside⟩ := List.mem_flatMap.mp member
    obtain rfl : entry.1 = x := by simpa using named
    exact ⟨c, here, Node.mem_ids.mpr ⟨entry.2, inside⟩⟩
  · rintro ⟨c, here, inside⟩
    obtain ⟨d, written⟩ := Node.mem_ids.mp inside
    exact ⟨(x, d), List.mem_flatMap.mpr ⟨c, here, written⟩, by simp⟩

theorem isSome_root?_saves_iff (x : Id) : ((a.saves save cs).1.root? x).isSome ↔
    (a.root? x).isSome ∨ ∃ c ∈ cs, ((view c).2.record A (view c).1).identity A.digest = x := by
  rw [root?_saves viewed, Option.isSome_or, Bool.or_eq_true, List.find?_isSome]
  refine or_congr Iff.rfl ?_
  simp

end Contents

/-- A description that is new comes from one of the containers. -/
theorem mem_of_find?_saved {A : Addressing α} {view : σ → Kind × Trie α} {cs : List σ} {x : Id} {d : Description α}
    (new : ((cs.flatMap fun c => ((view c).2.root.manifest A).2).find? (·.1 = x)).map Prod.snd = some d) :
    ∃ c ∈ cs, (x, d) ∈ ((view c).2.root.manifest A).2 := by
  obtain ⟨entry, first, rfl⟩ := Option.map_eq_some_iff.mp new
  obtain rfl : entry.1 = x := by simpa using List.find?_some first
  exact List.mem_flatMap.mp (List.mem_of_find?_eq_some first)

/-- What saving some containers comes to is the union of the archive and of theirs: what was stored stays as it is, and
what is added under other ids are the nodes and the roots of the containers. -/
structure Unites (A : Addressing α) (view : σ → Kind × Trie α) (a : Archive α) (save : σ → Archive α → Archive α × Id)
    (cs : List σ) : Prop where
  nodes : ∀ x, ((a.saves save cs).1.node? x).isSome ↔ (a.node? x).isSome ∨ ∃ c ∈ cs, x ∈ (view c).2.root.ids A
  roots : ∀ x, ((a.saves save cs).1.root? x).isSome ↔ (a.root? x).isSome ∨ ∃ c ∈ cs, (save c empty).2 = x
  keptNodes : ∀ x d, a.node? x = some d → (a.saves save cs).1.node? x = some d
  keptRoots : ∀ x r, a.root? x = some r → (a.saves save cs).1.root? x = some r
  newNodes : ∀ x d, (a.saves save cs).1.node? x = some d →
    a.node? x = some d ∨ ∃ c ∈ cs, (x, d) ∈ ((view c).2.root.manifest A).2
  newRoots : ∀ x r, (a.saves save cs).1.root? x = some r →
    a.root? x = some r ∨ ∃ c ∈ cs, (save c empty).2 = x ∧ r = (view c).2.record A (view c).1

/-- Two lists of containers that are saved into an archive. Each container gets its own id, whatever else is saved, and
in the end the archive has the same ids. -/
structure SavesAlike (a : Archive α) (save : σ → Archive α → Archive α × Id) (cs ds : List σ) : Prop where
  answers : (a.saves save cs).2 = cs.map fun c => (save c empty).2
  answers' : (a.saves save ds).2 = ds.map fun c => (save c empty).2
  nodes : ∀ x, ((a.saves save cs).1.node? x).isSome ↔ ((a.saves save ds).1.node? x).isSome
  roots : ∀ x, ((a.saves save cs).1.root? x).isSome ↔ ((a.saves save ds).1.root? x).isSome

/-- Archives with the same entries up to the order inside collisions. -/
structure Alike (a b : Archive α) : Prop where
  ids : ∀ x, (a.node? x).isSome ↔ (b.node? x).isSome
  nodes : ∀ x d d', a.node? x = some d → b.node? x = some d' → d.Alike d'
  roots : ∀ x, a.root? x = b.root? x

section Union

variable {A : Addressing α} {save : σ → Archive α → Archive α × Id} {view : σ → Kind × Trie α}
  (viewed : ∀ c a, save c a = a.save A (view c).1 (view c).2) (a : Archive α) {cs ds : List σ}
  (same : ∀ c, c ∈ cs ↔ c ∈ ds)

include viewed

theorem save_empty_snd (c : σ) : (save c empty).2 = ((view c).2.record A (view c).1).identity A.digest := by
  rw [viewed]
  rfl

theorem unites (cs : List σ) : a.Unites A view save cs where
  nodes := isSome_node?_saves_iff viewed a cs
  roots x := by simp only [isSome_root?_saves_iff viewed, save_empty_snd viewed]
  keptNodes x d found := by rw [node?_saves viewed, found, Option.some_or]
  keptRoots x r found := by rw [root?_saves viewed, found, Option.some_or]
  newNodes x d found := by
    rw [node?_saves viewed, Option.or_eq_some_iff] at found
    exact found.imp_right fun new => mem_of_find?_saved new.2
  newRoots x r found := by
    rw [root?_saves viewed, Option.or_eq_some_iff] at found
    refine found.imp_right fun new => ?_
    obtain ⟨c, member, rfl⟩ := List.mem_map.mp (List.mem_of_find?_eq_some new.2)
    exact ⟨c, member, (save_empty_snd viewed c).trans (by simpa using List.find?_some new.2), rfl⟩

include same

theorem savesAlike : a.SavesAlike save cs ds := by
  have named := save_empty_snd viewed
  refine ⟨?_, ?_, fun x => ?_, fun x => ?_⟩
  · simp only [saves_snd viewed, named]
  · simp only [saves_snd viewed, named]
  · simp only [isSome_node?_saves_iff viewed, same]
  · simp only [isSome_root?_saves_iff viewed, same]

section Contents

variable {P : Bytes → Prop} {Q : α → Prop} (unique : NoCollision A.digest P)
  (storable : ∀ c ∈ ds, (view c).2.Storable A P Q (view c).1)

include unique storable

omit viewed in
/-- Saved roots of one id are one root, so it does not matter which of them comes first. -/
theorem find?_records (x : Id) : (cs.map fun c => (view c).2.record A (view c).1).find? (·.identity A.digest = x) =
    (ds.map fun c => (view c).2.record A (view c).1).find? (·.identity A.digest = x) := by
  have first {cs ds : List σ} (part : ∀ c ∈ cs, c ∈ ds) (storable : ∀ c ∈ ds, (view c).2.Storable A P Q (view c).1)
      {r : Root} (found : (cs.map fun c => (view c).2.record A (view c).1).find? (·.identity A.digest = x) = some r) :
      (ds.map fun c => (view c).2.record A (view c).1).find? (·.identity A.digest = x) = some r := by
    obtain ⟨c, member, rfl⟩ := List.mem_map.mp (List.mem_of_find?_eq_some found)
    have other : ((view c).2.record A (view c).1).identity A.digest = x := by simpa using List.find?_some found
    have there : ((ds.map fun c => (view c).2.record A (view c).1).find? (·.identity A.digest = x)).isSome :=
      List.find?_isSome.mpr ⟨_, List.mem_map_of_mem (part c member), decide_eq_true other⟩
    obtain ⟨r, found'⟩ := Option.isSome_iff_exists.mp there
    obtain ⟨c', member', rfl⟩ := List.mem_map.mp (List.mem_of_find?_eq_some found')
    have one : ((view c').2.record A (view c').1).identity A.digest = x := by simpa using List.find?_some found'
    have bytes := unique _ _ ((storable c' member').hashed _ List.mem_cons_self)
      ((storable c (part c member)).hashed _ List.mem_cons_self) (one.trans other.symm)
    rw [found', Root.preimage_inj bytes]
  refine Option.ext fun r => ⟨first (fun c => (same c).mp) storable, first (fun c => (same c).mpr) fun c member => ?_⟩
  exact storable c ((same c).mp member)

/-- What the archive had stays as it is, and what is new under one id is alike. -/
theorem alike_saves (delimits : Delimits A.encode Q) : (a.saves save cs).1.Alike (a.saves save ds).1 := by
  refine ⟨(savesAlike viewed a same).nodes, fun x d d' found found' => ?_, fun x => ?_⟩
  · rw [node?_saves viewed] at found found'
    rcases Option.eq_or_of_or_eq_some found found' with rfl | ⟨new, new'⟩
    · exact .refl d
    · obtain ⟨c, member, inside⟩ := mem_of_find?_saved new
      obtain ⟨c', member', inside'⟩ := mem_of_find?_saved new'
      have here := storable c ((same c).mp member)
      have there := storable c' member'
      obtain ⟨identity, values, -⟩ := there.entries _ inside'
      refine here.alike unique delimits inside identity (fun s own => ?_)
        (fun v own => there.fits v (values.subset own)) (Nat.lt_of_le_of_lt values.length_le there.short)
      exact there.hashed s (List.mem_cons_of_mem _ (List.mem_flatMap.mpr ⟨_, inside', own⟩))
  · rw [root?_saves viewed, root?_saves viewed, find?_records same unique storable]

end Contents

end Union

end Archive

theorem Trie.Canonical.size_eq_of_alike [BEq κ] {L : Layout α κ} {t t' : Trie α} (canonical : t.Canonical L)
    (canonical' : t'.Canonical L) (alike : t.root.Alike t'.root) : t.size = t'.size := by
  rw [canonical.size_eq_length, canonical'.size_eq_length]
  exact alike.toList_perm.length_eq

/-- Saving a trie once more, or one that is the same up to the order inside collisions, changes nothing. -/
theorem Trie.save_save_of_alike {A : Addressing α} {t t' : Trie α} (alike : t'.root.Alike t.root)
    (size : t'.size = t.size) (a : Archive α) (kind : Kind) : (a.save A kind t).1.save A kind t' = a.save A kind t := by
  have record := record_eq_of_alike (A := A) alike size kind
  refine Prod.ext (Archive.eq_of_get? (fun x => ?_) fun x => ?_) (congrArg (Root.identity A.digest) record)
  · rw [Archive.node?_save]
    cases written : (t'.root.manifest A).2.find? (·.1 = x) with
    | none => exact Option.or_none
    | some entry =>
      -- the id was used for the first trie too
      have member := alike.mem_ids (Node.isSome_find?_manifest.mp (Option.isSome_iff_exists.mpr ⟨entry, written⟩))
      have known : ((a.save A kind t).1.node? x).isSome := (Archive.isSome_node?_save_iff ..).mpr (.inr member)
      obtain ⟨d, stored⟩ := Option.isSome_iff_exists.mp known
      rw [stored, Option.some_or]
  · rw [Archive.root?_save, Archive.root?_save, record, Option.or_assoc]
    split <;> simp

/-- Saving is taking the union. A container with the values of one that was just saved gets its id and changes nothing.
Whatever an archive has stored before, saving containers adds their nodes and roots to it and nothing else. They get the
same ids in any order, and the archive ends up with the same ids. Where no two of the byte strings digested have the same
digest it ends up with the same entries, but for the order inside collisions. -/
theorem saves_unite {α κ β : Type} [BEq α] [EquivBEq α] [StableHash α] [LawfulStableHash α] [Binary α] [LawfulBinary α]
    [BEq κ] [EquivBEq κ] [StableHash κ] [LawfulStableHash κ] [Binary κ] [LawfulBinary κ] [BEq β] [EquivBEq β] [Binary β]
    [LawfulBinary β] [Inhabited β] [StableHash (κ × β)] [LawfulStableHash (κ × β)] :
    (∀ (a : Archive α) (s t : TrieSet α), TrieSet.Reachable (.frozen s) → TrieSet.Reachable (.frozen t) →
      (∀ v, v ∈ s.toList ↔ v ∈ t.toList) → t.save (s.save a).1 = s.save a) ∧
    (∀ (a : Archive (κ × β)) (m n : TrieMap κ β), TrieMap.Reachable (.frozen m) → TrieMap.Reachable (.frozen n) →
      (∀ v, v ∈ m.toList ↔ v ∈ n.toList) → n.save (m.save a).1 = m.save a) ∧
    (∀ (a : Archive α) (cs : List (TrieSet α)), a.Unites .blake3 TrieSet.tagged TrieSet.save cs) ∧
    (∀ (a : Archive (κ × β)) (cs : List (Container κ β)), a.Unites .blake3 Container.tagged Container.save cs) ∧
    (∀ (a : Archive α) (cs ds : List (TrieSet α)), (∀ c, c ∈ cs ↔ c ∈ ds) → a.SavesAlike TrieSet.save cs ds ∧
      ((∀ c ∈ cs, c.Saveable) → NoCollision Id.blake3 (fun x => ∃ c ∈ cs, x ∈ c.trie.hashed .blake3 .set) →
        (a.saves TrieSet.save cs).1.Alike (a.saves TrieSet.save ds).1)) ∧
    (∀ (a : Archive (κ × β)) (cs ds : List (Container κ β)), (∀ c, c ∈ cs ↔ c ∈ ds) →
      a.SavesAlike Container.save cs ds ∧
      ((∀ c ∈ cs, c.Saveable) →
        NoCollision Id.blake3 (fun x => ∃ c ∈ cs, x ∈ c.tagged.2.hashed .blake3 c.tagged.1) →
        (a.saves Container.save cs).1.Alike (a.saves Container.save ds).1)) := by
  refine ⟨?_, ?_, fun a cs => Archive.unites TrieSet.save_eq a cs, fun a cs => Archive.unites Container.save_eq a cs, ?_, ?_⟩
  · intro a s t reachable reachable' same
    have canonical : s.trie.Canonical TrieSet.layout := reachable.canonical
    have canonical' : t.trie.Canonical TrieSet.layout := reachable'.canonical
    have alike := canonical'.alike canonical TrieSet.layout_lawful fun v => (same v).symm
    exact Trie.save_save_of_alike alike (canonical'.size_eq_of_alike canonical alike) a .set
  · intro a m n reachable reachable' same
    have canonical : m.trie.Canonical TrieMap.layout := reachable.canonical
    have canonical' : n.trie.Canonical TrieMap.layout := reachable'.canonical
    have alike := canonical'.alike canonical TrieMap.layout_lawful fun v => (same v).symm
    exact Trie.save_save_of_alike alike (canonical'.size_eq_of_alike canonical alike) a .map
  · intro a cs ds same
    refine ⟨Archive.savesAlike TrieSet.save_eq a same, fun saveable unique => ?_⟩
    refine Archive.alike_saves TrieSet.save_eq a same unique (fun c member => ?_) LawfulBinary.delimits
    exact (saveable c ((same c).mpr member)).storable fun x inside => ⟨c, (same c).mpr member, inside⟩
  · intro a cs ds same
    refine ⟨Archive.savesAlike Container.save_eq a same, fun saveable unique => ?_⟩
    refine Archive.alike_saves Container.save_eq a same unique (fun c member => ?_) LawfulBinary.delimits
    exact (saveable c ((same c).mpr member)).storable fun x inside => ⟨c, (same c).mpr member, inside⟩

/-- Two keys of one hash in either order, as sets and as maps, and small containers in two orders. -/
theorem saves_unite_either_order :
    let s := TrieSet.ofList [(⟨1, 0⟩ : ChosenHash), ⟨2, 0⟩]
    let t := TrieSet.ofList [(⟨2, 0⟩ : ChosenHash), ⟨1, 0⟩]
    let m := TrieMap.ofList [((⟨1, 0⟩ : ChosenHash), (5 : UInt32)), (⟨2, 0⟩, 6)]
    let n := TrieMap.ofList [((⟨2, 0⟩ : ChosenHash), (6 : UInt32)), (⟨1, 0⟩, 5)]
    let one := TrieSet.ofList [(⟨3, 7⟩ : ChosenHash)]
    let two := TrieSet.ofList [(⟨4, 8⟩ : ChosenHash)]
    let u := TrieSet.ofList [((⟨3, 7⟩ : ChosenHash), (5 : UInt32))]
    let k := TrieMap.ofList [((⟨3, 7⟩ : ChosenHash), (5 : UInt32))]
    let both := (Archive.empty.saves TrieSet.save [one, two]).1
    t.save (s.save .empty).1 = s.save .empty ∧ n.save (m.save .empty).1 = m.save .empty ∧
      (both.root? (one.save .empty).2).isSome ∧ both.Alike (Archive.empty.saves TrieSet.save [two, one, two]).1 ∧
      (Archive.empty.saves Container.save [.set u, .map k]).1.Alike
        (Archive.empty.saves Container.save [.map k, .set u, .map k]).1 := by
  intro s t m n one two u k both
  obtain ⟨sets, maps, union, -, lists, mixed⟩ := saves_unite (α := ChosenHash) (κ := ChosenHash) (β := UInt32)
  refine ⟨?_, ?_, ((union .empty [one, two]).roots _).mpr (.inr ⟨one, .head _, rfl⟩), ?_, ?_⟩
  · refine sets .empty s t (.edit .empty (.ofList _)) (.edit .empty (.ofList _)) fun v => ?_
    have first : s.toList = [⟨1, 0⟩, ⟨2, 0⟩] := by decide +kernel
    have second : t.toList = [⟨2, 0⟩, ⟨1, 0⟩] := by decide +kernel
    simp [first, second, or_comm]
  · refine maps .empty m n (.edit .empty (.ofList _)) (.edit .empty (.ofList _)) fun v => ?_
    have first : m.toList = [(⟨1, 0⟩, 5), (⟨2, 0⟩, 6)] := by decide +kernel
    have second : n.toList = [(⟨2, 0⟩, 6), (⟨1, 0⟩, 5)] := by decide +kernel
    simp [first, second, or_comm]
  · have digests : (([one, two].flatMap fun c => c.trie.hashed .blake3 .set).dedup.map Id.blake3).Nodup := by
      decide +kernel
    have saveable : one.Saveable ∧ two.Saveable :=
      ⟨TrieSet.saveable_ofList (by decide) fun _ _ => trivial, TrieSet.saveable_ofList (by decide) fun _ _ => trivial⟩
    clear_value one two
    refine (lists .empty [one, two] [two, one, two] (fun c => ?_)).2 ?_ (.of_nodup digests fun x => List.mem_flatMap.mpr)
    · simp only [List.mem_cons, List.not_mem_nil, or_false]
      tauto
    · exact List.forall_mem_cons.mpr ⟨saveable.1, List.forall_mem_singleton.mpr saveable.2⟩
  · have digests : (([Container.set u, .map k].flatMap fun c => c.tagged.2.hashed .blake3 c.tagged.1).dedup.map
        Id.blake3).Nodup := by decide +kernel
    have set : (Container.set u).Saveable := TrieSet.saveable_ofList (by decide) fun _ _ => ⟨trivial, trivial⟩
    have map : (Container.map k).Saveable := TrieMap.saveable_ofList (by decide) fun _ _ => ⟨trivial, trivial⟩
    clear_value u k
    refine (mixed .empty [.set u, .map k] [.map k, .set u, .map k] (fun c => ?_)).2 ?_
      (.of_nodup digests fun x => List.mem_flatMap.mpr)
    · simp only [List.mem_cons, List.not_mem_nil, or_false]
      tauto
    · exact List.forall_mem_cons.mpr ⟨set, List.forall_mem_singleton.mpr map⟩

end TrieArchive
