import TrieArchive.Proofs.Archive.Containers
import TrieArchive.Proofs.Archive.Transfer

/-! Runs that save containers and hand the archive over in between. Whatever was saved before is loaded back,
however much was saved since. -/
namespace TrieArchive

variable {α κ σ : Type}

namespace Archive

variable [Compression] [Binary α] [JsonForm α]

/-- The archives of a program that saves containers and replaces its archive by what arrives of it, with what it has
saved so far and the ids that it got for that. -/
inductive Session (saves : σ → Archive α → Archive α × Id) : Archive α → List (σ × Id) → Prop where
  | fresh : Session saves .empty []
  | save {a : Archive α} {saved : List (σ × Id)} (session : Session saves a saved) (c : σ) :
      Session saves (saves c a).1 ((c, (saves c a).2) :: saved)
  | transfer {a b : Archive α} {saved : List (σ × Id)} (session : Session saves a saved) (via : Transfer)
      (carried : via.Carries a) (arrives : via.send a = .ok b) : Session saves b saved

section Handed

variable [LawfulCompression] [LawfulBinary α] {A : Addressing α} {P : Bytes → Prop}
  {saves : σ → Archive α → Archive α × Id} {saved : List (σ × Id)} {a : Archive α} (view : σ → Kind × Trie α)

/-- A session keeps account of its saves, and transfers change nothing. -/
theorem Session.accounts (viewed : ∀ c a, saves c a = a.save A (view c).1 (view c).2) (session : Session saves a saved)
    (storable : ∀ e ∈ saved.map (view ·.1), e.2.Storable A P LawfulBinary.Fits e.1) :
    a.Accounts A (saved.map (view ·.1)) ∧
      ∀ c ∈ saved, c.2 = ((view c.1).2.record A (view c.1).1).identity A.digest := by
  induction session with
  | fresh => exact ⟨accounts_empty, fun _ member => nomatch member⟩
  | @save a saved session c ih =>
    obtain ⟨accounts, named⟩ := ih fun e member => storable e (List.mem_cons_of_mem _ member)
    rw [viewed]
    refine ⟨accounts.save _ _, fun c' member => ?_⟩
    rcases List.mem_cons.mp member with rfl | before
    · rfl
    · exact named c' before
  | @transfer a b saved session via carried arrives ih =>
    obtain ⟨accounts, named⟩ := ih storable
    rw [via.send_eq_ok carried fun _ _ => accounts.description_fits storable] at arrives
    cases arrives
    exact ⟨accounts, named⟩

/-- The archive of a session arrives whichever way it is handed over. -/
theorem Session.send_eq_ok (viewed : ∀ c a, saves c a = a.save A (view c).1 (view c).2) (session : Session saves a saved)
    (storable : ∀ e ∈ saved.map (view ·.1), e.2.Storable A P LawfulBinary.Fits e.1) (via : Transfer)
    (carried : via.Carries a) : via.send a = .ok a :=
  via.send_eq_ok carried fun _ _ => (session.accounts view viewed storable).1.description_fits storable

/-- So it can be handed over. -/
theorem Session.handOver (viewed : ∀ c a, saves c a = a.save A (view c).1 (view c).2) (session : Session saves a saved)
    (storable : ∀ e ∈ saved.map (view ·.1), e.2.Storable A P LawfulBinary.Fits e.1) (via : Transfer)
    (carried : via.Carries a) : Session saves a saved :=
  session.transfer via carried (session.send_eq_ok view viewed storable via carried)

variable [BEq α] [ReflBEq α] [BEq κ] [EquivBEq κ] {S : Scheme α κ}

/-- What was saved in a session is answered by any loader of its kind. -/
theorem Session.load (viewed : ∀ c a, saves c a = a.save S.toAddressing (view c).1 (view c).2)
    (session : Session saves a saved) (unique : NoCollision S.digest P) (delimits : Delimits S.encode LawfulBinary.Fits)
    (storable : ∀ e ∈ saved.map (view ·.1), e.2.Storable S.toAddressing P LawfulBinary.Fits e.1)
    (canonical : ∀ t, (S.kind, t) ∈ saved.map (view ·.1) → t.Canonical S.toLayout) {c : σ × Id}
    (member : c ∈ saved) (kind : (view c.1).1 = S.kind) {l : Loader α} (reached : Loader.Reached S a l) :
    ∃ t, (l.load S c.2).1 = .ok t ∧ (view c.1).2.Matches t := by
  obtain ⟨accounts, named⟩ := session.accounts view viewed storable
  have inside : (S.kind, (view c.1).2) ∈ saved.map (view ·.1) := kind ▸ List.mem_map_of_mem member
  rw [named c member, kind]
  exact accounts.load unique delimits storable canonical reached inside

end Handed

end Archive

end TrieArchive
