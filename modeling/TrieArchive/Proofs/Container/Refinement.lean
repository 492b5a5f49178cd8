import TrieArchive.Proofs.Container.Edits
import TrieArchive.Proofs.Element.Equality

/-! Sets, maps and tries agree with finite maps after every run of edits. -/
namespace TrieArchive

/-- A container over a trie that stands for what a reference stores. -/
inductive Handle.Represents {σ τ α κ : Type} [BEq κ] (L : Layout α κ) (trie : σ → Trie α) (trie' : τ → Trie α) :
    Handle σ τ → Reference κ α → Prop where
  | frozen {c : σ} {m : FiniteMap κ α} (represents : (trie c).Represents L m) :
      Represents L trie trie' (.frozen c) ⟨false, m⟩
  | editing {c : τ} {m : FiniteMap κ α} (represents : (trie' c).Represents L m) :
      Represents L trie trie' (.editing c) ⟨true, m⟩

theorem Option.count_toNat {α : Type} (o : Option α) : o.isSome.toNat = if o.isSome then 1 else 0 := by
  cases o <;> rfl

namespace TrieSet

variable {α : Type} [BEq α] [StableHash α]

theorem layout_lawful [LawfulStableHash α] : (layout : Layout α α).Lawful := LawfulStableHash.hash_eq

/-- Whether it looks for the element first makes no difference to erasing. -/
theorem trie_erase (s : TrieSet α) (a : α) : (s.erase a).trie = (s.trie.erase layout a).1 := by
  rw [erase]
  split
  next => rfl
  next absent => rw [Trie.erase_of_absent (Bool.eq_false_iff.mpr absent)]

variable [EquivBEq α] [LawfulStableHash α] {m : FiniteMap α α}

theorem insert_represents {s : TrieSet α} (represents : s.trie.Represents layout m) (a : α) :
    (s.insert a).trie.Represents layout (m.keep layout a) := by
  have found : s.contains a = (m a).isSome := represents.contains_eq layout_lawful a
  rw [insert, found]
  cases stored : (m a).isSome with
  | true =>
    have kept : m.keep layout a = m := if_pos stored
    rwa [if_pos rfl, kept]
  | false =>
    have put : m.keep layout a = m.put layout a := if_neg (Bool.eq_false_iff.mp stored)
    rw [if_neg (by decide), put]
    exact (represents.insert layout_lawful a).1

theorem erase_represents {s : TrieSet α} (represents : s.trie.Represents layout m) (a : α) :
    (s.erase a).trie.Represents layout (m.drop a) := by
  rw [trie_erase]
  exact (represents.erase layout_lawful a).1

namespace Transient

variable {t : Transient α}

theorem insert_represents (represents : t.trie.Represents layout m) (a : α) :
    (t.insert a).1.trie.Represents layout (m.keep layout a) ∧ (t.insert a).2 = (m a).isNone := by
  have found : t.contains a = (m a).isSome := represents.contains_eq layout_lawful a
  rw [insert, found, ← Option.not_isSome]
  cases stored : (m a).isSome with
  | true =>
    have kept : m.keep layout a = m := if_pos stored
    rw [if_pos rfl, kept]
    exact ⟨represents, rfl⟩
  | false =>
    have put : m.keep layout a = m.put layout a := if_neg (Bool.eq_false_iff.mp stored)
    obtain ⟨next, grown⟩ := represents.insert layout_lawful a
    rw [if_neg (by decide), put]
    refine ⟨next, grown.trans ?_⟩
    rw [← Option.not_isSome]
    exact congrArg not stored

theorem extend_represents (represents : t.trie.Represents layout m) (elements : List α) :
    (t.extend elements).trie.Represents layout (elements.foldl (·.keep layout ·) m) := by
  rw [extend]
  induction elements generalizing t m with
  | nil => exact represents
  | cons a rest ih => exact ih (insert_represents represents a).1

end Transient

theorem ofList_represents (elements : List α) :
    (TrieSet.ofList elements).trie.Represents layout (elements.foldl (·.keep layout ·) .empty) :=
  Transient.extend_represents (Trie.represents_empty layout) elements

theorem Edit.apply_represents {h : Handle (TrieSet α) (Transient α)} {r : Reference α α}
    (represents : h.Represents layout trie Transient.trie r) (e : Edit α) :
    (Edit.apply h e).1.Represents layout trie Transient.trie (Edit.specify r e).1 ∧
      (Edit.apply h e).2 = (Edit.specify r e).2 := by
  cases represents with
  | frozen represents =>
    cases e with
    | insert a => exact ⟨.frozen (insert_represents represents a), rfl⟩
    | erase a => exact ⟨.frozen (erase_represents represents a), rfl⟩
    | extend => exact ⟨.frozen represents, rfl⟩
    | ofList elements => exact ⟨.frozen (ofList_represents elements), rfl⟩
    | transient => exact ⟨.editing represents, rfl⟩
    | persistent => exact ⟨.frozen represents, rfl⟩
  | editing represents =>
    cases e with
    | insert a =>
      obtain ⟨next, grown⟩ := Transient.insert_represents represents a
      exact ⟨.editing next, congrArg some grown⟩
    | erase a =>
      obtain ⟨next, found⟩ := represents.erase layout_lawful a
      exact ⟨.editing next, congrArg some found⟩
    | extend elements => exact ⟨.editing (Transient.extend_represents represents elements), rfl⟩
    | ofList elements => exact ⟨.frozen (ofList_represents elements), rfl⟩
    | transient => exact ⟨.editing represents, rfl⟩
    | persistent => exact ⟨.frozen represents, rfl⟩

theorem agrees_of_represents {h : Handle (TrieSet α) (Transient α)} {r : Reference α α}
    (represents : h.Represents layout trie Transient.trie r) : Agrees h r := by
  cases represents with
  | frozen represents =>
    obtain ⟨get, contains, walk⟩ := represents.shows layout_lawful
    refine .frozen ⟨get, contains, fun a => ?_, walk⟩
    rw [← Option.count_toNat, ← contains a]
    rfl
  | editing represents =>
    obtain ⟨-, contains, walk⟩ := represents.shows layout_lawful
    refine .editing ⟨contains, fun a => ?_, walk⟩
    rw [← Option.count_toNat, ← contains a]
    rfl

/-- After any edits a set agrees with a finite map in which elements already stored are kept. -/
theorem run_agrees (edits : List (Edit α)) :
    Agrees (run Edit.apply (.frozen .empty) edits).1 (run Edit.specify .fresh edits).1 ∧
      (run Edit.apply (.frozen .empty) edits).2 = (run Edit.specify .fresh edits).2 := by
  have simulated := run_simulates (R := Handle.Represents layout trie Transient.trie)
    (fun _ _ e represents => Edit.apply_represents represents e) edits (.frozen (Trie.represents_empty layout))
  exact ⟨agrees_of_represents simulated.1, simulated.2⟩

end TrieSet

namespace TrieMap

variable {κ β : Type} [BEq κ] [StableHash κ]

theorem layout_lawful [LawfulStableHash κ] : (layout : Layout (κ × β) κ).Lawful := LawfulStableHash.hash_eq

theorem trie_erase (m : TrieMap κ β) (key : κ) : (m.erase key).trie = (m.trie.erase layout key).1 := by
  rw [erase]
  split
  next => rfl
  next absent => rw [Trie.erase_of_absent (Bool.eq_false_iff.mpr absent)]

variable [EquivBEq κ] [LawfulStableHash κ] {stored : FiniteMap κ (κ × β)}

theorem Transient.extend_represents {t : Transient κ β} (represents : t.trie.Represents layout stored)
    (pairs : List (κ × β)) :
    (t.extend pairs).trie.Represents layout (pairs.foldl (·.put layout ·) stored) := by
  rw [extend]
  induction pairs generalizing t stored with
  | nil => exact represents
  | cons pair rest ih =>
    have next := (represents.insert layout_lawful pair).1
    exact ih (t := (t.insert pair.1 pair.2).1) next

theorem ofList_represents (pairs : List (κ × β)) :
    (TrieMap.ofList pairs).trie.Represents layout (pairs.foldl (·.put layout ·) .empty) :=
  Transient.extend_represents (Trie.represents_empty layout) pairs

theorem update_represents [Inhabited β] {m : TrieMap κ β} (represents : m.trie.Represents layout stored) (key : κ)
    (f : β → β) : (m.update key f).trie.Represents layout
      (stored.put layout (key, f (((stored key).map Prod.snd).getD default))) := by
  rw [update, get?, represents.find?_eq layout_lawful]
  exact (represents.insert layout_lawful _).1

theorem Edit.apply_represents [Inhabited β] {h : Handle (TrieMap κ β) (Transient κ β)} {r : Reference κ (κ × β)}
    (represents : h.Represents layout trie Transient.trie r) (e : Edit κ β) :
    (Edit.apply h e).1.Represents layout trie Transient.trie (Edit.specify r e).1 ∧
      (Edit.apply h e).2 = (Edit.specify r e).2 := by
  cases represents with
  | frozen represents =>
    cases e with
    | insert key value => exact ⟨.frozen (represents.insert layout_lawful (key, value)).1, rfl⟩
    | erase key =>
      refine ⟨.frozen ?_, rfl⟩
      rw [trie_erase]
      exact (represents.erase layout_lawful key).1
    | update key f => exact ⟨.frozen (update_represents represents key f), rfl⟩
    | extend => exact ⟨.frozen represents, rfl⟩
    | ofList pairs => exact ⟨.frozen (ofList_represents pairs), rfl⟩
    | transient => exact ⟨.editing represents, rfl⟩
    | persistent => exact ⟨.frozen represents, rfl⟩
  | editing represents =>
    cases e with
    | insert key value =>
      obtain ⟨next, grown⟩ := represents.insert layout_lawful (key, value)
      exact ⟨.editing next, congrArg some grown⟩
    | erase key =>
      obtain ⟨next, found⟩ := represents.erase layout_lawful key
      exact ⟨.editing next, congrArg some found⟩
    | update => exact ⟨.editing represents, rfl⟩
    | extend pairs => exact ⟨.editing (Transient.extend_represents represents pairs), rfl⟩
    | ofList pairs => exact ⟨.frozen (ofList_represents pairs), rfl⟩
    | transient => exact ⟨.editing represents, rfl⟩
    | persistent => exact ⟨.frozen represents, rfl⟩

theorem agrees_of_represents {h : Handle (TrieMap κ β) (Transient κ β)} {r : Reference κ (κ × β)}
    (represents : h.Represents layout trie Transient.trie r) : Agrees h r := by
  cases represents with
  | frozen represents =>
    obtain ⟨get, contains, walk⟩ := represents.shows layout_lawful
    refine .frozen ⟨fun key => congrArg (Option.map Prod.snd) (get key), contains, fun key => ?_, walk⟩
    rw [← Option.count_toNat, ← contains key]
    rfl
  | editing represents =>
    obtain ⟨get, contains, walk⟩ := represents.shows layout_lawful
    exact .editing ⟨fun key => congrArg (Option.map Prod.snd) (get key), contains, walk⟩

/-- After any edits a map agrees with a finite map in which pairs are replaced. -/
theorem run_agrees [Inhabited β] (edits : List (Edit κ β)) :
    Agrees (run Edit.apply (.frozen .empty) edits).1 (run Edit.specify .fresh edits).1 ∧
      (run Edit.apply (.frozen .empty) edits).2 = (run Edit.specify .fresh edits).2 := by
  have simulated := run_simulates (R := Handle.Represents layout trie Transient.trie)
    (fun _ _ e represents => Edit.apply_represents represents e) edits (.frozen (Trie.represents_empty layout))
  exact ⟨agrees_of_represents simulated.1, simulated.2⟩

end TrieMap

namespace Trie

variable {α κ : Type} [BEq κ] [EquivBEq κ] {L : Layout α κ}

/-- After any edits a trie shows a finite map in which values are replaced. -/
theorem run_shows (lawful : L.Lawful) (edits : List (Edit α κ)) :
    (run (Edit.apply L) empty edits).1.Shows L (run (Edit.specify L) .empty edits).1 ∧
      (run (Edit.apply L) empty edits).2 = (run (Edit.specify L) .empty edits).2 := by
  have keeps (t : Trie α) (m : FiniteMap κ α) (e : Edit α κ) (represents : t.Represents L m) :
      (Edit.apply L t e).1.Represents L (Edit.specify L m e).1 ∧ (Edit.apply L t e).2 = (Edit.specify L m e).2 := by
    cases e with
    | insert v => exact represents.insert lawful v
    | erase key => exact represents.erase lawful key
  have simulated := run_simulates keeps edits (represents_empty L)
  exact ⟨simulated.1.shows lawful, simulated.2⟩

end Trie

/-- Whatever edits are made, sets, maps and bare tries show what finite maps say, and answer alike. -/
theorem edits_refine_finite_maps {α κ β γ ι : Type} [BEq α] [EquivBEq α] [StableHash α] [LawfulStableHash α]
    [BEq κ] [EquivBEq κ] [StableHash κ] [LawfulStableHash κ] [Inhabited β] [BEq ι] [EquivBEq ι] {L : Layout γ ι}
    (lawful : L.Lawful) :
    (∀ edits : List (TrieSet.Edit α),
      TrieSet.Agrees (run TrieSet.Edit.apply (.frozen .empty) edits).1 (run TrieSet.Edit.specify .fresh edits).1 ∧
        (run TrieSet.Edit.apply (.frozen .empty) edits).2 = (run TrieSet.Edit.specify .fresh edits).2) ∧
    (∀ edits : List (TrieMap.Edit κ β),
      TrieMap.Agrees (run TrieMap.Edit.apply (.frozen .empty) edits).1 (run TrieMap.Edit.specify .fresh edits).1 ∧
        (run TrieMap.Edit.apply (.frozen .empty) edits).2 = (run TrieMap.Edit.specify .fresh edits).2) ∧
    (∀ edits : List (Trie.Edit γ ι),
      (run (Trie.Edit.apply L) .empty edits).1.Shows L (run (Trie.Edit.specify L) .empty edits).1 ∧
        (run (Trie.Edit.apply L) .empty edits).2 = (run (Trie.Edit.specify L) .empty edits).2) :=
  ⟨TrieSet.run_agrees, TrieMap.run_agrees, Trie.run_shows lawful⟩

/-- Notes with one number: a set keeps the first, a bare trie the last. -/
theorem edits_refine_finite_maps_notes :
    (TrieSet.layout : Layout Tag Tag).Lawful ∧
    TrieSet.Agrees (run TrieSet.Edit.apply (.frozen .empty) [.insert ⟨1, "first"⟩, .insert ⟨1, "last"⟩]).1
      ⟨false, FiniteMap.empty.put TrieSet.layout (⟨1, "first"⟩ : Tag)⟩ ∧
    TrieMap.Agrees (run TrieMap.Edit.apply (.frozen .empty) [.update (⟨1, 7⟩ : ChosenHash) (· + 5)]).1
      ⟨false, FiniteMap.empty.put TrieMap.layout (⟨1, 7⟩, (5 : UInt32))⟩ ∧
    (run (Trie.Edit.apply TrieSet.layout) .empty [.insert (⟨1, "first"⟩ : Tag), .insert ⟨1, "last"⟩]).2 =
      [true, false] := by
  have lawful : (TrieSet.layout : Layout Tag Tag).Lawful := TrieSet.layout_lawful
  obtain ⟨sets, maps, tries⟩ := edits_refine_finite_maps (α := Tag) (κ := ChosenHash) (β := UInt32) lawful
  exact ⟨lawful, (sets _).1, (maps _).1, (tries _).2⟩

end TrieArchive
