import Mathlib.Data.List.Dedup
import TrieArchive.Proofs.Archive.Manifest
import TrieArchive.Proofs.Archive.Preimage
import TrieArchive.Proofs.Trie.Shape

/-! An id binds what it names. Digests are not injective, so this holds where no two of the byte strings that
are digested on the way have the same digest. -/
namespace TrieArchive

/-- No two of these byte strings have the same digest. -/
def NoCollision (digest : Bytes → Id) (P : Bytes → Prop) : Prop :=
  ∀ x y, P x → P y → digest x = digest y → x = y

/-- Strings on a list do not collide if the digests of the list, with each string taken once, all differ. -/
theorem NoCollision.of_nodup {digest : Bytes → Id} {P : Bytes → Prop} {strings : List Bytes}
    (digests : (strings.dedup.map digest).Nodup) (listed : ∀ x, P x → x ∈ strings) : NoCollision digest P := by
  intro x y hx hy same
  exact List.inj_on_of_nodup_map digests (List.mem_dedup.mpr (listed x hx)) (List.mem_dedup.mpr (listed y hy)) same

/-- What was saved is among containers whose byte strings have digests of their own. -/
theorem NoCollision.of_saved {σ : Type} {digest : Bytes → Id} {strings : σ → List Bytes} {cs : List σ}
    (digests : ((cs.flatMap strings).dedup.map digest).Nodup) {saved : List (σ × Id)} (part : ∀ c ∈ saved, c.1 ∈ cs) :
    NoCollision digest fun x => ∃ c ∈ saved, x ∈ strings c.1 :=
  .of_nodup digests fun _ ⟨c, member, inside⟩ => List.mem_flatMap.mpr ⟨c.1, part c member, inside⟩

variable {α : Type}

/-- The byte strings that are digested to name a description. -/
def Description.hashed (A : Addressing α) : Description α → List Bytes
  | .branch datamap nodemap values children => [(branch datamap nodemap values children).preimage A]
  | .collision values => (collision values).preimage A :: values.map A.encode

namespace Node

variable {A : Addressing α}

/-- The byte strings that are digested to name a node and those below it. -/
def hashed (A : Addressing α) (node : Node α) : List Bytes :=
  (node.manifest A).2.flatMap fun entry => entry.2.hashed A

theorem hashed_branch (datamap nodemap : UInt32) (values : List α) (children : List (Node α)) :
    (branch datamap nodemap values children).hashed A = children.flatMap (hashed A) ++
      [(Description.branch datamap nodemap values (children.map (identity A))).preimage A] := by
  rw [hashed, manifest_branch]
  simp only [List.flatMap_append, List.flatMap_cons, List.flatMap_nil, List.append_nil, List.flatMap_assoc]
  rfl

theorem mem_hashed_branch {datamap nodemap : UInt32} {values : List α} {children : List (Node α)} {s : Bytes} :
    s ∈ (branch datamap nodemap values children).hashed A ↔
      (∃ child ∈ children, s ∈ child.hashed A) ∨
        s = (Description.branch datamap nodemap values (children.map (identity A))).preimage A := by
  rw [hashed_branch, List.mem_append, List.mem_flatMap, List.mem_singleton]

theorem hashed_collision (hash : UInt64) (values : List α) :
    (collision hash values).hashed A = (Description.collision values).preimage A :: values.map A.encode := by
  rw [hashed, manifest]
  simp [Description.hashed]

end Node

/-- Lists whose images are rearranged have the same members if no two of those share an image. -/
theorem mem_iff_of_perm_map {γ : Type} {f : α → γ} {values values' : List α}
    (inj : ∀ v ∈ values, ∀ w ∈ values', f v = f w → v = w) (same : (values.map f).Perm (values'.map f)) (v : α) :
    v ∈ values ↔ v ∈ values' := by
  constructor
  · intro member
    obtain ⟨w, there, image⟩ := List.mem_map.mp (same.mem_iff.mp (List.mem_map_of_mem member))
    rwa [inj v member w there image.symm]
  · intro member
    obtain ⟨w, here, image⟩ := List.mem_map.mp (same.mem_iff.mpr (List.mem_map_of_mem member))
    rwa [← inj w here v member image]

theorem Delimits.inj {encode : α → Bytes} {Q : α → Prop} (delimits : Delimits encode Q) {v w : α} (fits : Q v)
    (fits' : Q w) (same : encode v = encode w) : v = w :=
  (delimits v w [] [] fits fits' (by rw [same])).1

/-- Values of which no two encodings have one digest are the same where their digests are. -/
theorem perm_of_digests {A : Addressing α} {P : Bytes → Prop} {Q : α → Prop} (unique : NoCollision A.digest P)
    (delimits : Delimits A.encode Q) {values values' : List α} (nodup : values.Nodup) (fits : ∀ v ∈ values, Q v)
    (fits' : ∀ v ∈ values', Q v) (hashed : ∀ v ∈ values, P (A.encode v)) (hashed' : ∀ v ∈ values', P (A.encode v))
    (same : (values.map fun v => A.digest (A.encode v)).Perm (values'.map fun v => A.digest (A.encode v))) :
    values.Perm values' := by
  have digests : (values.map fun v => A.digest (A.encode v)).Nodup :=
    nodup.map_on fun v here w there digests =>
      delimits.inj (fits v here) (fits w there) (unique _ _ (hashed v here) (hashed w there) digests)
  have nodup' : values'.Nodup := .of_map _ (same.nodup_iff.mp digests)
  refine (List.perm_ext_iff_of_nodup nodup nodup').mpr (mem_iff_of_perm_map (fun v here w there digests => ?_) same)
  exact delimits.inj (fits v here) (fits' w there) (unique _ _ (hashed v here) (hashed' w there) digests)

theorem Node.Canonical.length_lt {κ : Type} [BEq κ] {L : Layout α κ} {depth path : Nat}
    {datamap nodemap : UInt32} {values : List α} {children : List (Node α)}
    (canonical : Canonical L depth path (.branch datamap nodemap values children)) : values.length < 2 ^ 64 := by
  cases canonical with
  | branch _ _ _ filled =>
    rw [filled]
    exact Nat.lt_of_le_of_lt (Bitmap.count_le datamap) (by decide)

/-- Well-formed nodes that stand in one place and have one id are the same tree up to the order inside
collisions. -/
theorem Node.Canonical.alike_of_identity {κ : Type} [BEq κ] [EquivBEq κ] {L : Layout α κ} {A : Addressing α}
    {P : Bytes → Prop} {Q : α → Prop} (unique : NoCollision A.digest P) (delimits : Delimits A.encode Q)
    {depth path : Nat} {a b : Node α}
    (canonical : Canonical L depth path a) (canonical' : Canonical L depth path b)
    (fits : ∀ v ∈ a.toList, Q v) (fits' : ∀ v ∈ b.toList, Q v)
    (hashed : ∀ s ∈ a.hashed A, P s) (hashed' : ∀ s ∈ b.hashed A, P s)
    (same : a.identity A = b.identity A) : a.Alike b := by
  induction canonical generalizing b with
  | collision level whole several placed distinct =>
    cases canonical' with
    | branch level' => omega
    | collision _ whole' =>
      obtain rfl := UInt64.toNat_inj.mp (whole.trans whole'.symm)
      rw [identity_collision, identity_collision] at same
      rw [hashed_collision] at hashed hashed'
      rw [toList_collision] at fits fits'
      have bytes := unique _ _ (hashed _ List.mem_cons_self) (hashed' _ List.mem_cons_self) same
      refine .collision (perm_of_digests unique delimits distinct.nodup fits fits' ?_ ?_
        (Description.preimage_collision_inj bytes))
      · exact fun v member => hashed _ (List.mem_cons_of_mem _ (List.mem_map_of_mem member))
      · exact fun v member => hashed' _ (List.mem_cons_of_mem _ (List.mem_map_of_mem member))
  | @branch depth path datamap nodemap values children level bounded disjoint filled linked placed reached several
      below ih =>
    have short := (Canonical.branch level bounded disjoint filled linked placed reached several below).length_lt
    cases canonical' with
    | collision level' => omega
    | @branch _ _ datamap' nodemap' values' children' level' bounded' disjoint' filled' linked' placed' reached'
        several' below' =>
      have short' :=
        (Canonical.branch level' bounded' disjoint' filled' linked' placed' reached' several' below').length_lt
      rw [identity_branch, identity_branch] at same
      rw [toList_branch] at fits fits'
      -- the bytes tell the ids of the children, and equal ids make the children alike
      have bytes := unique _ _ (hashed _ (mem_hashed_branch.mpr (.inr rfl)))
        (hashed' _ (mem_hashed_branch.mpr (.inr rfl))) same
      obtain ⟨rfl, rfl, rfl, ids⟩ := Description.preimage_branch_inj delimits short short'
        (fun v member => fits v (List.mem_append_left _ member))
        (fun v member => fits' v (List.mem_append_left _ member)) bytes
      refine .branch (linked.trans linked'.symm) fun i child child' first second => ?_
      obtain ⟨slot, kept, kept'⟩ := Bitmap.exists_common_slot linked linked' first second
      have member := List.mem_of_getElem? first
      have member' := List.mem_of_getElem? second
      refine ih slot child kept (below' slot child' kept') ?_ ?_ ?_ ?_ ?_
      · exact fun v inside => fits v (List.mem_append_right _ (List.mem_flatMap.mpr ⟨child, member, inside⟩))
      · exact fun v inside => fits' v (List.mem_append_right _ (List.mem_flatMap.mpr ⟨child', member', inside⟩))
      · exact fun s inside => hashed s (mem_hashed_branch.mpr (.inl ⟨child, member, inside⟩))
      · exact fun s inside => hashed' s (mem_hashed_branch.mpr (.inl ⟨child', member', inside⟩))
      · have here := congrArg (·[i]?) ids
        simpa [first, second] using here

end TrieArchive
