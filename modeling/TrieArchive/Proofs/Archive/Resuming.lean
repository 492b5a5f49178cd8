import TrieArchive.Proofs.Archive.Accounts
import TrieArchive.Proofs.Archive.Transfer

/-! Saving into an archive that need not be in order. What stands there under an id is kept, without a look at it, and
loading finds out. So what was saved is loaded back exactly if the archive had nothing under its ids that belongs under
others. -/
namespace TrieArchive

variable {α κ : Type}

/-- What an archive has under an id that saving a trie would use belongs under that id. -/
structure Archive.Admits (A : Addressing α) (a : Archive α) (kind : Kind) (t : Trie α) : Prop where
  nodes : ∀ entry ∈ (t.root.manifest A).2, ∀ d, a.node? entry.1 = some d → d.identity A = entry.1
  root : ∀ r, a.root? ((t.record A kind).identity A.digest) = some r →
    r.identity A.digest = (t.record A kind).identity A.digest

namespace Node

variable {A : Addressing α}

theorem exists_mem_manifest (node : Node α) : ∃ d, (node.identity A, d) ∈ (node.manifest A).2 := by
  cases node with
  | branch => exact ⟨_, mem_manifest_branch.mpr (.inr rfl)⟩
  | collision => exact ⟨_, mem_manifest_collision.mpr rfl⟩

/-- Saving uses the same ids whatever the order inside collisions. -/
theorem Alike.exists_mem_manifest {node node' : Node α} (alike : node.Alike node') {entry : Id × Description α}
    (member : entry ∈ (node.manifest A).2) : ∃ d, (entry.1, d) ∈ (node'.manifest A).2 := by
  induction alike with
  | collision same =>
    obtain rfl := mem_manifest_collision.mp member
    rw [(Alike.collision same).identity_eq]
    exact Node.exists_mem_manifest _
  | @branch datamap nodemap values children children' width below ih =>
    rcases mem_manifest_branch.mp member with ⟨child, here, inside⟩ | rfl
    · obtain ⟨i, found⟩ := List.mem_iff_getElem?.mp here
      obtain ⟨bound, -⟩ := List.getElem?_eq_some_iff.mp found
      have found' := List.getElem?_eq_getElem (width ▸ bound)
      obtain ⟨d, there⟩ := ih i child _ found found' inside
      exact ⟨d, mem_manifest_branch.mpr (.inl ⟨_, List.mem_of_getElem? found', there⟩)⟩
    · rw [(Alike.branch width below).identity_eq]
      exact Node.exists_mem_manifest _

/-- Each value of a tree is in one of the descriptions that saving stores. -/
theorem Canonical.exists_mem_values [BEq κ] {L : Layout α κ} {depth path : Nat} {node : Node α}
    (canonical : node.Canonical L depth path) {v : α} (member : v ∈ node.toList) :
    ∃ entry ∈ (node.manifest A).2, v ∈ entry.2.values := by
  induction canonical with
  | collision =>
    rw [toList_collision] at member
    exact ⟨_, mem_manifest_collision.mpr rfl, member⟩
  | @branch depth path datamap nodemap values children _ _ _ _ linked _ _ _ _ ih =>
    rw [toList_branch, List.mem_append, List.mem_flatMap] at member
    rcases member with own | ⟨child, inside, below⟩
    · exact ⟨_, mem_manifest_branch.mpr (.inr rfl), own⟩
    · obtain ⟨slot, kept⟩ := (Bitmap.mem_iff_kept? linked).mp inside
      obtain ⟨entry, member, held⟩ := ih slot child kept below
      exact ⟨entry, mem_manifest_branch.mpr (.inl ⟨child, inside, member⟩), held⟩

end Node

namespace Archive

section Storing

variable {A : Addressing α} {P : Bytes → Prop} {Q : α → Prop} {kind : Kind} {t : Trie α} {a b : Archive α}

/-- All values that an archive stores can be told by their encodings. -/
def Legible (Q : α → Prop) (a : Archive α) : Prop :=
  ∀ x d, a.node? x = some d → (∀ v ∈ d.values, Q v) ∧ d.values.length < 2 ^ 64

/-- Whether it was there or is new, what is stored under an id of the trie belongs there. -/
theorem Admits.exists_stored (admits : a.Admits A kind t) (storable : t.Storable A P Q kind) {entry : Id × Description α}
    (member : entry ∈ (t.root.manifest A).2) :
    ∃ d, (a.save A kind t).1.node? entry.1 = some d ∧ d.identity A = entry.1 := by
  rw [node?_save]
  cases found : a.node? entry.1 with
  | some d => exact ⟨d, rfl, admits.nodes entry member d found⟩
  | none =>
    obtain ⟨other, written, same, first⟩ := Node.exists_find?_of_mem member
    obtain ⟨own, -⟩ := storable.entries other written
    exact ⟨other.2, by rw [first]; rfl, own.trans same⟩

/-- The root under the id of the trie is the one that saving makes. -/
theorem Admits.root?_save_eq (admits : a.Admits A kind t) (unique : NoCollision A.digest P)
    (storable : t.Storable A P Q kind)
    (hashed : ∀ s, (a.save A kind t).1.Hashed A ((t.record A kind).identity A.digest) s → P s) :
    (a.save A kind t).1.root? ((t.record A kind).identity A.digest) = some (t.record A kind) := by
  have stored := root?_save A a kind t ((t.record A kind).identity A.digest)
  cases found : a.root? ((t.record A kind).identity A.digest) with
  | none =>
    rw [found, Option.none_or, if_pos rfl] at stored
    exact stored
  | some r =>
    rw [found, Option.some_or] at stored
    have bytes := unique _ _ (hashed _ ⟨r, stored, .inl rfl⟩) (storable.hashed _ List.mem_cons_self)
      (admits.root r found)
    rw [stored, Root.preimage_inj bytes]

/-- Where what is stored under the ids of a trie belongs there, it is alike to what saving stores. From above, each
description tells the ids that are met next. -/
theorem exists_alike_of_genuine [BEq κ] {L : Layout α κ} (unique : NoCollision A.digest P) (delimits : Delimits A.encode Q)
    (storable : t.Storable A P Q kind) (legible : b.Legible Q) {top : Id}
    (genuine : ∀ entry ∈ (t.root.manifest A).2, ∃ d, b.node? entry.1 = some d ∧ d.identity A = entry.1)
    (hashed : ∀ x d, b.Reaches top x → b.node? x = some d → ∀ s ∈ d.hashed A, P s) {depth path : Nat} {node : Node α}
    (canonical : node.Canonical L depth path) (part : ∀ entry ∈ (node.manifest A).2, entry ∈ (t.root.manifest A).2)
    (reached : b.Reaches top (node.identity A)) :
    ∀ entry ∈ (node.manifest A).2, ∃ d, b.node? entry.1 = some d ∧ entry.2.Alike d := by
  have alike {entry : Id × Description α} (inside : entry ∈ (t.root.manifest A).2) (reached : b.Reaches top entry.1) :
      ∃ d, b.node? entry.1 = some d ∧ entry.2.Alike d := by
    obtain ⟨d, stored, identity⟩ := genuine entry inside
    obtain ⟨fits, short⟩ := legible _ d stored
    exact ⟨d, stored, storable.alike unique delimits inside identity (hashed _ d reached stored) fits short⟩
  induction canonical with
  | collision =>
    intro entry member
    have inside := part entry member
    obtain rfl := Node.mem_manifest_collision.mp member
    exact alike inside reached
  | @branch depth path datamap nodemap values children _ _ _ _ linked _ _ _ _ ih =>
    have parts {entry : Id × Description α} := @part entry ∘ Node.mem_manifest_branch.mpr
    obtain ⟨d, stored, own⟩ := alike (parts (.inr rfl)) reached
    cases own
    intro entry member
    rcases Node.mem_manifest_branch.mp member with ⟨child, inside, below⟩ | rfl
    · obtain ⟨slot, kept⟩ := (Bitmap.mem_iff_kept? linked).mp inside
      have onward : b.Reaches top (child.identity A) := reached.step stored (List.mem_map_of_mem inside)
      exact ih slot child kept (fun other member => parts (.inl ⟨child, inside, member⟩)) onward entry below
    · exact ⟨_, stored, .branch ..⟩

end Storing

section Saving

variable [BEq κ] [EquivBEq κ] {S : Scheme α κ} {a : Archive α} {t : Trie α} {Q : α → Prop}

/-- The byte strings that are digested to save a trie in an archive and to check what is there afterwards. -/
def SavedHashed (A : Addressing α) (a : Archive α) (kind : Kind) (t : Trie α) (s : Bytes) : Prop :=
  s ∈ t.hashed A kind ∨ (a.save A kind t).1.Hashed A (a.save A kind t).2 s

variable (canonical : t.Canonical S.toLayout) (delimits : Delimits S.encode Q)
  (unique : NoCollision S.digest (a.SavedHashed S.toAddressing S.kind t)) (fits : ∀ v ∈ t.toList, Q v)
  (legible : (a.save S.toAddressing S.kind t).1.Legible Q)

include canonical delimits unique fits legible

/-- If nothing is in its way, a saved trie can be loaded. -/
theorem Admits.exists_holds (admits : a.Admits S.toAddressing S.kind t) (lawful : S.Lawful) (short : t.size < 2 ^ 64) :
    ∃ t', (a.save S.toAddressing S.kind t).1.Holds S (a.save S.toAddressing S.kind t).2
      (t.record S.toAddressing S.kind) t' := by
  have storable : t.Storable S.toAddressing (a.SavedHashed S.toAddressing S.kind t) Q S.kind :=
    canonical.storable lawful short fits fun _ => .inl
  have root := admits.root?_save_eq unique storable fun _ => .inr
  have each := exists_alike_of_genuine unique delimits storable legible (fun _ => admits.exists_stored storable)
    (fun x d reached stored s member => .inr ⟨_, root, .inr ⟨x, d, reached, stored, member⟩⟩) canonical.root
    (fun _ member => member) .start
  obtain ⟨t', -, holds⟩ := holds_of_alike_stored canonical short each root
  exact ⟨t', holds⟩

variable [BEq α] [ReflBEq α]

/-- What is held under the id of a saved trie matches it. -/
theorem Holds.matches_of_save {root : Root} {t' : Trie α}
    (holds : (a.save S.toAddressing S.kind t).1.Holds S (a.save S.toAddressing S.kind t).2 root t') :
    t.Matches t' := by
  refine holds.matches_saved canonical delimits unique fits fun v member => ?_
  obtain ⟨entry, inside, held⟩ := holds.canonical.root.exists_mem_values (A := S.toAddressing) member
  obtain ⟨-, stored⟩ := ((holds.unfolds.manifest holds.genuine).2 entry).mp inside
  exact (legible _ _ stored).1 v held

/-- If a saved trie can be loaded, nothing was in its way. -/
theorem Holds.admits {root : Root} {t' : Trie α}
    (holds : (a.save S.toAddressing S.kind t).1.Holds S (a.save S.toAddressing S.kind t).2 root t') :
    a.Admits S.toAddressing S.kind t := by
  have alike := (holds.matches_of_save canonical delimits unique fits legible).alike
  constructor
  case nodes =>
    intro entry member d before
    obtain ⟨d', inside⟩ := alike.exists_mem_manifest member
    obtain ⟨reached, -⟩ := ((holds.unfolds.manifest holds.genuine).2 _).mp inside
    obtain ⟨d'', stored, identity⟩ := holds.genuine entry.1 reached
    rw [node?_save, before, Option.some_or] at stored
    exact Option.some.inj stored ▸ identity
  case root =>
    intro r before
    have stored := holds.stored
    rw [root?_save] at stored
    change (a.root? ((t.record S.toAddressing S.kind).identity S.digest)).or _ = _ at stored
    rw [before, Option.some_or, Option.some.injEq] at stored
    exact stored ▸ holds.identity

/-- A saved trie is loaded back exactly if nothing was in its way, and nothing else is loaded in its place. -/
theorem load_save_iff (lawful : S.Lawful) (short : t.size < 2 ^ 64) :
    ((∃ t', ((Loader.ofArchive (a.save S.toAddressing S.kind t).1).load S
        (a.save S.toAddressing S.kind t).2).1 = .ok t') ↔ a.Admits S.toAddressing S.kind t) ∧
      ∀ t', ((Loader.ofArchive (a.save S.toAddressing S.kind t).1).load S
        (a.save S.toAddressing S.kind t).2).1 = .ok t' → t.Matches t' := by
  simp only [Loader.load_ofArchive_eq_ok_iff]
  refine ⟨⟨?_, fun admits => ?_⟩, ?_⟩
  · rintro ⟨t', root, holds⟩
    exact holds.admits canonical delimits unique fits legible
  · obtain ⟨t', holds⟩ := admits.exists_holds canonical delimits unique fits legible lawful short
    exact ⟨t', _, holds⟩
  · rintro t' ⟨root, holds⟩
    exact holds.matches_of_save canonical delimits unique fits legible

/-- So are containers, whose loaders wrap what is loaded. -/
theorem load_save_iff_of_wraps {γ : Type} (load : Loader α → Id → Except LoadError γ × Loader α) {f : Trie α → γ}
    (view : γ → Trie α) (wraps : ∀ l id, load l id = ((l.load S id).1.map f, (l.load S id).2)) (views : ∀ t, view (f t) = t)
    (lawful : S.Lawful) (short : t.size < 2 ^ 64) :
    ((∃ c, (load (.ofArchive (a.save S.toAddressing S.kind t).1) (a.save S.toAddressing S.kind t).2).1 = .ok c) ↔
        a.Admits S.toAddressing S.kind t) ∧
      ∀ c, (load (.ofArchive (a.save S.toAddressing S.kind t).1) (a.save S.toAddressing S.kind t).2).1 = .ok c →
        t.Matches (view c) := by
  obtain ⟨exact, same⟩ := load_save_iff canonical delimits unique fits legible lawful short
  simp only [wraps, Except.map_eq_ok_iff]
  refine ⟨⟨?_, fun admits => ?_⟩, ?_⟩
  · rintro ⟨_, t', loaded, -⟩
    exact exact.mp ⟨t', loaded⟩
  · obtain ⟨t', loaded⟩ := exact.mpr admits
    exact ⟨_, t', loaded, rfl⟩
  · rintro _ ⟨t', loaded, rfl⟩
    exact (views t').symm ▸ same t' loaded

end Saving

/-- There is nothing yet under the ids that saving a trie uses. -/
structure Free (A : Addressing α) (a : Archive α) (kind : Kind) (t : Trie α) : Prop where
  nodes : ∀ entry ∈ (t.root.manifest A).2, a.node? entry.1 = none
  root : a.root? ((t.record A kind).identity A.digest) = none

theorem free_empty (A : Addressing α) (kind : Kind) (t : Trie α) : (empty : Archive α).Free A kind t where
  nodes _ _ := by simp [node?, empty]
  root := by simp [root?, empty]

section Freedom

variable {A : Addressing α} {a : Archive α} {kind : Kind} {t : Trie α}

theorem Free.admits (free : a.Free A kind t) : a.Admits A kind t where
  nodes entry member _ found := nomatch (free.nodes entry member).symm.trans found
  root _ found := nomatch free.root.symm.trans found

/-- A trie whose byte strings have different digests is held where there was nothing under its ids, so that no others are
digested when it is checked. -/
theorem Free.noCollision [BEq κ] {S : Scheme α κ} (free : a.Free S.toAddressing S.kind t)
    (canonical : t.Canonical S.toLayout) (short : t.size < 2 ^ 64)
    (digests : ((t.hashed S.toAddressing S.kind).map S.digest).Nodup) :
    NoCollision S.digest (a.SavedHashed S.toAddressing S.kind t) := by
  have ids := canonical.root.nodup_ids (A := S.toAddressing) (List.nodup_cons.mp digests).2
  have holds := holds_save (a := a) canonical short
    (fun _ first _ second same => List.inj_on_of_nodup_map ids first second same)
    (fun entry member _ found => nomatch (free.nodes entry member).symm.trans found)
    fun _ found => nomatch free.root.symm.trans found
  exact holds.noCollision digests

end Freedom

/-- An archive can still be written to a file after a save. -/
theorem encodable_save [Binary α] [LawfulBinary α] {A : Addressing α} {P : Bytes → Prop} {kind : Kind} {t : Trie α}
    {a : Archive α} (storable : t.Storable A P LawfulBinary.Fits kind)
    (fits : ∀ x d, a.node? x = some d → LawfulBinary.Fits d) (counted : (a.save A kind t).1.Counted) :
    ArchiveFile.Encodable (a.save A kind t).1 := by
  refine encodable_iff.mpr ⟨counted, fun x d stored => ?_⟩
  rw [node?_save, Option.or_eq_some_iff] at stored
  rcases stored with before | ⟨-, new⟩
  · exact fits x d before
  · obtain ⟨entry, first, rfl⟩ := Option.map_eq_some_iff.mp new
    exact storable.description_fits (List.mem_of_find?_eq_some first)

theorem encodable_save_new [Binary α] [LawfulBinary α] {A : Addressing α} {P : Bytes → Prop} {kind : Kind} {t : Trie α}
    (storable : t.Storable A P LawfulBinary.Fits kind) (counted : (empty.save A kind t).1.Counted) :
    ArchiveFile.Encodable (empty.save A kind t).1 :=
  encodable_save storable (fun _ _ found => by simp [node?, empty] at found) counted

/-- What can be written to a file can be told by its bytes. -/
theorem legible_of_encodable [Binary α] [LawfulBinary α] {a : Archive α} (encodable : ArchiveFile.Encodable a) :
    a.Legible LawfulBinary.Fits := by
  intro x d stored
  obtain ⟨⟨short, fits⟩, -⟩ := (encodable_iff.mp encodable).2 x d stored
  exact ⟨fits, short⟩

end Archive

end TrieArchive
