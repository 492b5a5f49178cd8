import TrieArchive.Proofs.Archive.Integrity
import TrieArchive.Proofs.Cli.Verification

/-! Sets of texts and the archives that come of saving some of them. What the program prints of such an archive
depends on which sets were saved, and neither on how they were put together nor on when they were saved. -/
namespace TrieArchive

namespace TrieSet.Transient

variable {α : Type} [BEq α] [LawfulBEq α] [StableHash α] {t : Transient α}

theorem mem_toList_insert (canonical : t.trie.Canonical layout) (a v : α) :
    v ∈ (t.insert a).1.trie.toList ↔ v ∈ t.trie.toList ∨ v = a := by
  have present : t.contains a = layout.present a t.trie.toList := canonical.contains_eq layout_lawful a
  rw [insert, present]
  cases found : layout.present a t.trie.toList with
  | true =>
    obtain ⟨w, member, same⟩ := Layout.present_iff.mp found
    obtain rfl : w = a := eq_of_beq same
    exact ⟨.inl, fun either => either.elim id (· ▸ member)⟩
  | false =>
    obtain ⟨-, values, -⟩ := canonical.insert_spec layout_lawful a
    have absent : layout.drop a t.trie.toList = t.trie.toList := Layout.drop_of_absent fun w member => by
      by_contra same
      exact Bool.eq_false_iff.mp found (Layout.present_iff.mpr ⟨w, member, by simpa using same⟩)
    refine values.mem_iff.trans ?_
    rw [Layout.put, List.mem_cons, show layout.key a = a from rfl, absent, or_comm]

theorem mem_toList_extend (canonical : t.trie.Canonical layout) (elements : List α) (v : α) :
    v ∈ (t.extend elements).persistent.toList ↔ v ∈ t.trie.toList ∨ v ∈ elements := by
  induction elements generalizing t with
  | nil => exact ⟨.inl, fun either => either.elim id (fun member => nomatch member)⟩
  | cons a rest ih =>
    have next := (insert_represents canonical.represents a).1.canonical
    refine (ih next).trans ?_
    rw [mem_toList_insert canonical, List.mem_cons, or_assoc]

end TrieSet.Transient

namespace Cli

/-- A set of texts, however it was put together. -/
abbrev Texts := Std.ExtTreeSet String

/-- The texts as a set that can be saved. -/
def Texts.toSet (t : Texts) : TrieSet String := .ofList t.toList

/-- The id that the texts are saved under. -/
def Texts.id (t : Texts) : Id := (t.toSet.save .empty).2

end Cli

/-- The texts in a set. -/
def TrieSet.texts (s : TrieSet String) : Cli.Texts := .ofList s.toList

namespace TrieSet

variable {s : TrieSet String} {v : String}

theorem mem_texts : v ∈ s.texts ↔ v ∈ s.toList := by
  rw [texts, Std.ExtTreeSet.mem_ofList, List.contains_iff_mem]

theorem texts_extend (canonical : s.trie.Canonical layout) (values : List String) :
    (s.transient.extend values).persistent.texts = s.texts.insertMany values := by
  refine Std.ExtTreeSet.ext_mem fun v => ?_
  rw [mem_texts, Std.ExtTreeSet.mem_insertMany_list, List.contains_iff_mem, mem_texts]
  exact Transient.mem_toList_extend (t := s.transient) canonical values v

theorem size_texts (canonical : s.trie.Canonical layout) : s.texts.size = s.size := by
  have nodup : s.toList.Nodup := (canonical.root.distinct layout_lawful).nodup
  rw [texts, Std.ExtTreeSet.size_ofList (nodup.imp fun different => by simpa using different)]
  exact canonical.size_eq_length.symm

end TrieSet

namespace Cli.Texts

variable {t : Texts} {s : TrieSet String}

theorem reachable_toSet : TrieSet.Reachable (.frozen t.toSet) := .edit .empty (.ofList _)

theorem canonical_toSet : t.toSet.trie.Canonical TrieSet.layout := reachable_toSet.canonical

theorem texts_toSet : t.toSet.texts = t := by
  refine Std.ExtTreeSet.ext_mem fun v => ?_
  have members := TrieSet.Transient.mem_toList_extend (t := TrieSet.empty.transient)
    (Trie.empty_canonical TrieSet.layout) t.toList v
  rw [TrieSet.mem_texts, ← Std.ExtTreeSet.mem_toList]
  exact members.trans ⟨fun either => either.elim (fun member => nomatch member) fun member => member, .inr⟩

/-- A set of the same texts differs at most in the order inside collisions. -/
theorem alike_toSet (canonical : s.trie.Canonical TrieSet.layout) :
    s.trie.root.Alike s.texts.toSet.trie.root ∧ s.texts.toSet.trie.root.Alike s.trie.root := by
  have same (v : String) : v ∈ s.trie.toList ↔ v ∈ s.texts.toSet.trie.toList := by
    have there := TrieSet.mem_texts (s := s.texts.toSet) (v := v)
    rw [texts_toSet, TrieSet.mem_texts] at there
    exact there
  exact ⟨canonical.alike canonical_toSet TrieSet.layout_lawful same,
    Trie.Canonical.alike canonical_toSet canonical TrieSet.layout_lawful fun v => (same v).symm⟩

theorem record_eq (canonical : s.trie.Canonical TrieSet.layout) :
    s.trie.record .blake3 .set = s.texts.toSet.trie.record .blake3 .set :=
  Trie.record_eq_of_alike (alike_toSet canonical).1
    (canonical.size_eq_of_alike canonical_toSet (alike_toSet canonical).1) .set

/-- The id that a save answers depends on the texts only. -/
theorem save_snd (canonical : s.trie.Canonical TrieSet.layout) (a : Archive String) : (s.save a).2 = s.texts.id :=
  congrArg (Root.identity Id.blake3) (record_eq canonical)

theorem mem_hashed (canonical : s.trie.Canonical TrieSet.layout) {x : Bytes}
    (member : x ∈ s.trie.hashed .blake3 .set) : x ∈ s.texts.toSet.trie.hashed .blake3 .set := by
  rw [Trie.hashed, List.mem_cons] at member ⊢
  rw [← record_eq canonical]
  exact member.imp_right (alike_toSet canonical).1.mem_hashed

end Cli.Texts

namespace Cli

/-- An archive that these sets of texts have been saved into. -/
def archiveOf (saved : List Texts) : Archive String :=
  (Archive.empty.saves TrieSet.save (saved.map Texts.toSet)).1

/-- Sets of texts that an archive can take. Their lengths and the numbers of its entries fit in a word, and no two of
the byte strings digested for them have the same digest. -/
structure Admissible (saved : List Texts) : Prop where
  short : ∀ t ∈ saved, t.size < 2 ^ 64
  fits : ∀ t ∈ saved, ∀ v ∈ t, LawfulBinary.Fits v
  counted : (archiveOf saved).Counted
  unique : NoCollision Id.blake3 fun x => ∃ t ∈ saved, x ∈ t.toSet.trie.hashed .blake3 .set

section Admissible

variable {saved earlier : List Texts}

theorem isSome_node?_archiveOf {x : Id} :
    ((archiveOf saved).node? x).isSome ↔ ∃ t ∈ saved, x ∈ t.toSet.trie.root.ids .blake3 := by
  have none : ((Archive.empty : Archive String).node? x).isSome = false := by simp [Archive.node?, Archive.empty]
  rw [archiveOf, Archive.isSome_node?_saves_iff TrieSet.save_eq, none]
  simp [TrieSet.tagged]

theorem isSome_root?_archiveOf {x : Id} : ((archiveOf saved).root? x).isSome ↔ ∃ t ∈ saved, t.id = x := by
  have none : ((Archive.empty : Archive String).root? x).isSome = false := by simp [Archive.root?, Archive.empty]
  rw [archiveOf, Archive.isSome_root?_saves_iff TrieSet.save_eq, none]
  simp only [Bool.false_eq_true, false_or, List.mem_map, exists_exists_and_eq_and]
  rfl

theorem Admissible.of_subset (admissible : Admissible saved) (part : ∀ t ∈ earlier, t ∈ saved) :
    Admissible earlier where
  short t member := admissible.short t (part t member)
  fits t member := admissible.fits t (part t member)
  counted := by
    obtain ⟨nodes, roots⟩ := admissible.counted
    refine ⟨Nat.lt_of_le_of_lt (Archive.size_le_of_isSome fun x stored => ?_) nodes,
      Nat.lt_of_le_of_lt (Archive.size_le_of_isSome fun x stored => ?_) roots⟩
    · obtain ⟨t, member, inside⟩ := isSome_node?_archiveOf.mp stored
      exact isSome_node?_archiveOf.mpr ⟨t, part t member, inside⟩
    · obtain ⟨t, member, named⟩ := isSome_root?_archiveOf.mp stored
      exact isSome_root?_archiveOf.mpr ⟨t, part t member, named⟩
  unique := by
    rintro x y ⟨t, member, inside⟩ ⟨u, member', inside'⟩
    exact admissible.unique x y ⟨t, part t member, inside⟩ ⟨u, part u member', inside'⟩

/-- Different sets of texts are saved under different ids. -/
theorem Admissible.eq_of_id (admissible : Admissible saved) {t u : Texts} (member : t ∈ saved) (member' : u ∈ saved)
    (same : t.id = u.id) : t = u := by
  have bytes := admissible.unique _ _ ⟨t, member, List.mem_cons_self⟩ ⟨u, member', List.mem_cons_self⟩ same
  have fits {t : Texts} (member : t ∈ saved) (v : String) (inside : v ∈ t.toSet.trie.toList) : LawfulBinary.Fits v := by
    have own := TrieSet.mem_texts.mpr inside
    rw [Texts.texts_toSet] at own
    exact admissible.fits t member v own
  have alike : t.toSet.trie.root.Alike u.toSet.trie.root :=
    Texts.canonical_toSet.root.alike_of_identity admissible.unique LawfulBinary.delimits Texts.canonical_toSet.root
      (fits member) (fits member') (fun x inside => ⟨t, member, List.mem_cons_of_mem _ inside⟩)
      (fun x inside => ⟨u, member', List.mem_cons_of_mem _ inside⟩) (congrArg Root.node (Root.preimage_inj bytes))
  rw [← t.texts_toSet, ← u.texts_toSet]
  refine Std.ExtTreeSet.ext_mem fun v => ?_
  rw [TrieSet.mem_texts, TrieSet.mem_texts]
  exact alike.toList_perm.mem_iff

end Admissible

/-- An archive that has come of saving these sets of texts one by one. -/
def Keeps (a : Archive String) (saved : List Texts) : Prop :=
  ∃ sets : List (TrieSet String), a.Accounts .blake3 (sets.map TrieSet.tagged) ∧ sets.map TrieSet.texts = saved ∧
    ∀ s ∈ sets, s.trie.Canonical TrieSet.layout

theorem keeps_empty : Keeps .empty [] := ⟨[], Archive.accounts_empty, rfl, fun _ member => nomatch member⟩

namespace Keeps

variable {a : Archive String} {saved : List Texts} (keeps : Keeps a saved)

include keeps

theorem save {s : TrieSet String} (canonical : s.trie.Canonical TrieSet.layout) :
    Keeps (s.save a).1 (s.texts :: saved) := by
  obtain ⟨sets, accounts, rfl, others⟩ := keeps
  refine ⟨s :: sets, accounts.save .set s.trie, rfl, fun s' member => ?_⟩
  rcases List.mem_cons.mp member with rfl | before
  · exact canonical
  · exact others s' before

/-- How many nodes there are depends on the texts only. -/
theorem size_nodes : a.nodes.size = (archiveOf saved).nodes.size := by
  obtain ⟨sets, accounts, rfl, canonical⟩ := keeps
  refine Archive.size_eq_of_isSome_iff fun x => accounts.isSome_node?_iff.trans ?_
  refine Iff.trans ?_ isSome_node?_archiveOf.symm
  simp only [List.mem_map, exists_exists_and_eq_and]
  refine exists_congr fun s => and_congr_right fun member => ?_
  obtain ⟨there, back⟩ := Texts.alike_toSet (canonical s member)
  exact ⟨there.mem_ids, back.mem_ids⟩

theorem isSome_root?_iff {id : Id} : (a.root? id).isSome ↔ ∃ t ∈ saved, t.id = id := by
  obtain ⟨sets, accounts, rfl, canonical⟩ := keeps
  rw [accounts.isSome_root?_iff]
  simp only [List.mem_map, exists_exists_and_eq_and]
  refine exists_congr fun s => and_congr_right fun member => ?_
  rw [← Texts.save_snd (canonical s member) .empty]
  rfl

theorem size_roots_archiveOf : (archiveOf saved).roots.size = a.roots.size :=
  Archive.size_eq_of_isSome_iff fun _ => isSome_root?_archiveOf.trans keeps.isSome_root?_iff.symm

variable (admissible : Admissible saved)

include admissible

/-- Each of the sets of texts has a root of its own. -/
theorem size_roots : a.roots.size = saved.dedup.length := by
  have nodup : (saved.dedup.map Texts.id).Nodup := saved.nodup_dedup.map_on fun t here u there =>
    admissible.eq_of_id (List.mem_dedup.mp here) (List.mem_dedup.mp there)
  rw [← Std.ExtTreeMap.length_keys, ← List.length_map (f := Texts.id)]
  refine ((List.perm_ext_iff_of_nodup Std.ExtTreeMap.nodup_keys nodup).mpr fun id => ?_).length_eq
  rw [Std.ExtTreeMap.mem_keys, Std.ExtTreeMap.mem_iff_isSome_getElem?]
  refine keeps.isSome_root?_iff.trans ?_
  simp

/-- The archive keeps account of tries that can be written down in full. -/
theorem exists_storable : ∃ tries : List (Kind × Trie String), a.Accounts .blake3 tries ∧
    (∀ e ∈ tries, e.2.Storable .blake3 (fun x => ∃ t ∈ saved, x ∈ t.toSet.trie.hashed .blake3 .set)
      LawfulBinary.Fits e.1) ∧
    (∀ e ∈ tries, e.2.Canonical TrieSet.layout) ∧
    ∀ t ∈ saved, ∃ s : TrieSet String, s.tagged ∈ tries ∧ s.texts = t := by
  obtain ⟨sets, accounts, rfl, canonical⟩ := keeps
  refine ⟨_, accounts, fun e member => ?_, fun e member => ?_, fun t member => ?_⟩
  · obtain ⟨s, inside, rfl⟩ := List.mem_map.mp member
    have own : s.texts ∈ sets.map TrieSet.texts := List.mem_map_of_mem inside
    have short : s.size < 2 ^ 64 := TrieSet.size_texts (canonical s inside) ▸ admissible.short _ own
    refine (canonical s inside).storable TrieSet.layout_lawful short (fun v here => ?_) fun x here => ?_
    · exact admissible.fits _ own v (TrieSet.mem_texts.mpr here)
    · exact ⟨_, own, Texts.mem_hashed (canonical s inside) here⟩
  · obtain ⟨s, inside, rfl⟩ := List.mem_map.mp member
    exact canonical s inside
  · obtain ⟨s, inside, rfl⟩ := List.mem_map.mp member
    exact ⟨s, List.mem_map_of_mem inside, rfl⟩

theorem encodable : ArchiveFile.Encodable a := by
  obtain ⟨tries, accounts, storable, -⟩ := keeps.exists_storable admissible
  obtain ⟨nodes, roots⟩ := admissible.counted
  exact Archive.encodable_iff.mpr ⟨⟨keeps.size_nodes ▸ nodes, keeps.size_roots_archiveOf ▸ roots⟩,
    fun _ _ => accounts.description_fits storable⟩

/-- Each of the sets of texts is loaded back. -/
theorem exists_load {t : Texts} (member : t ∈ saved) :
    ∃ s : TrieSet String, (TrieSet.load (.ofArchive a) t.id).1 = .ok s ∧ s.texts = t := by
  obtain ⟨tries, accounts, storable, canonical, each⟩ := keeps.exists_storable admissible
  obtain ⟨s, inside, rfl⟩ := each t member
  obtain ⟨t', loaded, same⟩ := accounts.load (S := TrieSet.scheme) admissible.unique LawfulBinary.delimits storable
    (fun t => canonical _) .fresh inside
  rw [← Texts.save_snd (canonical _ inside) .empty]
  refine ⟨⟨t'⟩, TrieSet.load_eq_ok_iff.mpr loaded, Std.ExtTreeSet.ext_mem fun v => ?_⟩
  rw [TrieSet.mem_texts, TrieSet.mem_texts]
  exact same.values.symm.mem_iff

/-- Whatever is loaded is one of the sets of texts. -/
theorem exists_of_load {id : Id} {s : TrieSet String} (loaded : (TrieSet.load (.ofArchive a) id).1 = .ok s) :
    ∃ t ∈ saved, t.id = id ∧ s.texts = t := by
  obtain ⟨root, holds⟩ := Loader.load_ofArchive_eq_ok_iff.mp (TrieSet.load_eq_ok_iff.mp loaded)
  obtain ⟨t, member, rfl⟩ := keeps.isSome_root?_iff.mp (Option.isSome_iff_exists.mpr ⟨root, holds.stored⟩)
  obtain ⟨s', loaded', same⟩ := keeps.exists_load admissible member
  obtain rfl := Except.ok.inj (loaded'.symm.trans loaded)
  exact ⟨t, member, rfl, same⟩

/-- Verification finds all sets, and its loader remembers all nodes in the end. -/
theorem exists_loadAll :
    ∃ l : Loader String, loadAll a.rootIds (.ofArchive a) = .ok l ∧ l.cache.size = a.nodes.size := by
  obtain ⟨tries, accounts, storable, canonical, -⟩ := keeps.exists_storable admissible
  have loadable (id : Id) (stored : (a.root? id).isSome) : a.Loadable id := by
    obtain ⟨t, member, rfl⟩ := keeps.isSome_root?_iff.mp stored
    obtain ⟨s, loaded, -⟩ := keeps.exists_load admissible member
    exact ⟨s, loaded⟩
  have ids (id : Id) : id ∈ a.rootIds ↔ (a.root? id).isSome :=
    Std.ExtTreeMap.mem_keys.trans Std.ExtTreeMap.mem_iff_isSome_getElem?
  have exact := accounts.exact storable admissible.unique fun e member =>
    accounts.retains storable admissible.unique LawfulBinary.delimits member (canonical e member)
  have whole := (accounts.closed storable).loadsWhole (S := TrieSet.scheme) (f := TrieSet.mk)
    (N := fun s => s.trie.placements .blake3) exact (fun _ _ => rfl) (fun _ => rfl) loadable a.rootIds ids
  have all := loadAll_loadable (fun id member => loadable id ((ids id).mp member)) []
  rw [List.append_nil] at all
  exact ⟨_, all, whole.2⟩

end Keeps

end Cli

end TrieArchive
