import TrieArchive.Proofs.Checked.Steps
import TrieArchive.Proofs.Archive.SharedLoader

/-! Loading with all its steps checked. What an archive says is tested before it is used for a shift, a position or a slot,
so loading does what the unchecked one does, whatever the archive says and whatever the loader remembers. -/
namespace TrieArchive

/-- Rebuilding that may also come upon a step out of range. -/
abbrev CheckedRebuild (α β : Type) := RebuildIn (StateT (Cache α) Checked) β

namespace Rebuild

variable {α β γ κ : Type}

/-- Rebuilding in which every step is in range. -/
def inRange (m : Rebuild α β) : CheckedRebuild α β := ExceptT.mk fun cache => .ok (m.run.run cache)

section Steps

theorem run_inRange (m : Rebuild α β) (cache : Cache α) : (inRange m).run.run cache = .ok (m.run.run cache) := rfl

theorem run_inRange_bind (m : Rebuild α β) (f : β → CheckedRebuild α γ) (cache : Cache α) :
    (inRange m >>= f).run.run cache = match m.run.run cache with
      | (.ok b, cache) => (f b).run.run cache
      | (.error e, cache) => .ok (.error e, cache) := by
  simp only [ExceptT.run_bind, StateT.run_bind, run_inRange, Checked.ok_bind]
  rcases m.run.run cache with ⟨_ | b, cache⟩ <;> rfl

theorem inRange_ext {m m' : CheckedRebuild α β} (same : ∀ cache, m.run.run cache = m'.run.run cache) : m = m' :=
  ExceptT.ext (StateT.ext same)

theorem inRange_bind (m : Rebuild α β) (f : β → Rebuild α γ) :
    inRange (m >>= f) = inRange m >>= fun b => inRange (f b) := by
  refine inRange_ext fun cache => ?_
  rw [run_inRange, run_inRange_bind, run_bind]
  rcases m.run.run cache with ⟨_ | b, cache⟩ <;> rfl

theorem inRange_pure (b : β) : inRange (pure b : Rebuild α β) = pure b := rfl

theorem inRange_remembered (id : Id) : inRange (ExceptT.lift (Memory.remembered id) : Rebuild α (Option (Placed α))) =
    ExceptT.lift (Memory.remembered id) := rfl

theorem inRange_mapM {f : β → Rebuild α γ} {f' : β → CheckedRebuild α γ} (items : List β)
    (each : ∀ b ∈ items, f' b = inRange (f b)) : items.mapM f' = inRange (items.mapM f) := by
  induction items with
  | nil => rfl
  | cons b rest ih =>
    rw [List.mapM_cons, List.mapM_cons, inRange_bind, each b List.mem_cons_self,
      ih fun b' member => each b' (List.mem_cons_of_mem _ member)]
    simp only [inRange_bind, inRange_pure]

/-- A check that both make. -/
theorem inRange_check {c : Prop} [Decidable c] {what : Corruption} {m : CheckedRebuild α β} {m' : Rebuild α β}
    (rest : ¬c → m = inRange m') : (if c then reject what else m) = inRange (if c then reject what else m') := by
  by_cases failed : c
  · rw [if_pos failed, if_pos failed]
    rfl
  · rw [if_neg failed, if_neg failed, rest failed]

end Steps

section Reckoning

variable (S : Scheme α κ)

/-- Whether some key occurs twice. Each value is compared with those behind its position. -/
def repeatsKeyChecked [BEq κ] (values : List α) : List (α × Nat) → Checked Bool
  | [] => return false
  | (v, i) :: rest => do
    let later ← Checked.suffix values (i + 1)
    if later.any fun w => S.key v == S.key w then return true else repeatsKeyChecked values rest

def inSlotsChecked (depth : Nat) (path : UInt64) (datamap : UInt32) : List (α × Nat) → Checked Bool
  | [] => return true
  | (v, i) :: rest => do
    let bit ← Checked.slotBit (S.place v) depth
    let low ← Checked.lowBits (shiftAt depth)
    let position ← Checked.index datamap bit
    if S.place v &&& low ≠ path ∨ datamap &&& bit = 0 ∨ position ≠ i then return false
    else inSlotsChecked depth path datamap rest

/-- A slot that the hash is too narrow for is not read back from the path. -/
def deeperChecked (depth : Nat) (path : UInt64) (slot : Nat) : Checked (Option Nat) := do
  let above ← Checked.shiftLeft (UInt64.ofNat slot) (shiftAt depth)
  let read ← Checked.fragment (path ||| above) (shiftAt depth)
  return if read = slot then some (path ||| above).toNat else none

/-- Paths are words here. -/
instance {σ : Type} : Reckoning (StateT σ Checked) where
  repeatsKey S values := StateT.lift (repeatsKeyChecked S values values.zipIdx)
  inSlots S depth path datamap values := StateT.lift (inSlotsChecked S depth (UInt64.ofNat path) datamap values.zipIdx)
  deeper depth path slot := StateT.lift (deeperChecked depth (UInt64.ofNat path) slot)

end Reckoning

section Operations

variable [BEq κ] (S : Scheme α κ) (archive : Archive α)

/-- The shift tells whether a branch or a collision node may stand here. -/
def nodeChecked (depth path : Nat) (parent id : Id) : CheckedRebuild α (Placed α) :=
  visit S archive depth path parent id fun
    | .branch datamap nodemap values children =>
      if _below : maxShift < shiftAt depth then reject (.branchTooDeep id)
      else
        branch S (fun path child => nodeChecked (depth + 1) path id child) id depth path datamap nodemap values children
    | .collision values =>
      if shiftAt depth ≤ maxShift then reject (.collisionTooHigh id) else collision S id path values
termination_by branchLevels - depth
decreasing_by
  simp only [maxShift, shiftAt, bitsPerLevel, branchLevels] at _below ⊢
  omega

def containerChecked (id : Id) : CheckedRebuild α (Trie α) := rooted S archive (nodeChecked S archive 0 0) id

end Operations

section Agreement

variable {S : Scheme α κ} {depth path slot : Nat}

theorem repeatsKeyChecked_eq [BEq κ] (before values : List α) :
    repeatsKeyChecked S (before ++ values) (values.zipIdx before.length) = .ok (repeatsKey S values) := by
  induction values generalizing before with
  | nil => rfl
  | cons v rest ih =>
    have later : Checked.suffix (before ++ v :: rest) (before.length + 1) = .ok rest := by
      have whole : (before ++ v :: rest).drop (before.length + 1) = rest := by simp
      rw [Checked.suffix, if_pos (by simp), whole]
      rfl
    have behind := ih (before ++ [v])
    rw [List.append_assoc, List.singleton_append, List.length_append, List.length_singleton] at behind
    rw [List.zipIdx_cons, repeatsKeyChecked, later, Checked.ok_bind, behind, repeatsKey]
    cases rest.any fun w => S.key v == S.key w <;> rfl

/-- A path above the last level fits a word. -/
theorem toNat_ofNat_path (level : depth < branchLevels) (bounded : path < 2 ^ shiftAt depth) :
    (UInt64.ofNat path).toNat = path := by
  refine UInt64.toNat_ofNat_of_lt' (Nat.lt_trans bounded ?_)
  exact Nat.pow_lt_pow_right (by decide) (Checked.shiftAt_lt level)

theorem inSlotsChecked_eq (level : depth < branchLevels) (path : UInt64) (datamap : UInt32) (values : List α)
    (start : Nat) : inSlotsChecked S depth path datamap (values.zipIdx start) =
      .ok ((values.zipIdx start).all fun (v, i) => (S.place v).toNat % 2 ^ shiftAt depth == path.toNat &&
        Bitmap.has datamap (slotAt (S.place v) depth) && Bitmap.rank datamap (slotAt (S.place v) depth) == i) := by
  obtain ⟨low, masked, kept⟩ := Checked.lowBits_eq level
  induction values generalizing start with
  | nil => rfl
  | cons v rest ih =>
    have slot := slotAt_lt (S.place v) depth
    have outside : (S.place v &&& low ≠ path ∨ datamap &&& Bitmap.mask (slotAt (S.place v) depth) = 0 ∨
        Bitmap.rank datamap (slotAt (S.place v) depth) ≠ start) ↔
        ((S.place v).toNat % 2 ^ shiftAt depth == path.toNat && Bitmap.has datamap (slotAt (S.place v) depth) &&
          Bitmap.rank datamap (slotAt (S.place v) depth) == start) = false := by
      rw [Checked.and_mask_eq_zero_iff slot, ne_eq, ← UInt64.toNat_inj, kept, pathOf]
      simp only [Bool.and_eq_false_iff, beq_eq_false_iff_ne, or_assoc, ne_eq]
    rw [List.zipIdx_cons, inSlotsChecked, Checked.slotBit_eq level, Checked.ok_bind, masked, Checked.ok_bind,
      Checked.index_eq slot, Checked.ok_bind, List.all_cons]
    dsimp only
    split
    next bad =>
      rw [outside.mp bad]
      rfl
    next good => rw [ih, (Bool.not_eq_false _).mp (outside.not.mp good), Bool.true_and]

theorem deeperChecked_eq (level : depth < branchLevels) (bounded : path < 2 ^ shiftAt depth) (h : slot < 32) :
    deeperChecked depth (UInt64.ofNat path) slot = .ok (deeper depth path slot) := by
  have word := toNat_ofNat_path level bounded
  obtain ⟨above, shifted, read, joined⟩ := Checked.deeper_eq level (word.symm ▸ bounded) h
  rw [word] at read joined
  rw [deeperChecked, shifted, Checked.ok_bind, Checked.fragment_eq level, Checked.ok_bind, deeper]
  by_cases fits : path + slot * 2 ^ shiftAt depth < 2 ^ 64
  · rw [if_pos (read.mpr fits), if_neg (Nat.not_le_of_lt fits), joined fits]
    rfl
  · rw [if_neg (read.not.mpr fits), if_pos (Nat.le_of_not_lt fits)]
    rfl

theorem lift_ok_bind {σ : Type} {x : Checked β} {b : β} (same : x = .ok b)
    (f : β → RebuildIn (StateT σ Checked) γ) : ExceptT.lift (StateT.lift x) >>= f = f b := by
  rw [same]
  rfl

section Reckoned

variable {σ : Type}

theorem repeatsKey_bind_checked [BEq κ] (values : List α) (f : Bool → RebuildIn (StateT σ Checked) γ) :
    ExceptT.lift (Reckoning.repeatsKey S values) >>= f = f (repeatsKey S values) :=
  lift_ok_bind (repeatsKeyChecked_eq [] values) f

variable (level : depth < branchLevels) (bounded : path < 2 ^ shiftAt depth)
include level bounded

theorem inSlots_bind_checked (datamap : UInt32) (values : List α) (f : Bool → RebuildIn (StateT σ Checked) γ) :
    ExceptT.lift (Reckoning.inSlots S depth path datamap values) >>= f = f (inSlots S depth path datamap values) := by
  refine lift_ok_bind ((inSlotsChecked_eq level _ datamap values 0).trans ?_) f
  rw [toNat_ofNat_path level bounded]
  rfl

theorem deeper_bind_checked (h : slot < 32) (f : Option Nat → RebuildIn (StateT σ Checked) γ) :
    ExceptT.lift (Reckoning.deeper depth path slot) >>= f = f (deeper depth path slot) :=
  lift_ok_bind (deeperChecked_eq level bounded h) f

end Reckoned

theorem deeper_lt {next : Nat} (bounded : path < 2 ^ shiftAt depth) (h : slot < 32)
    (reached : deeper depth path slot = some next) : next < 2 ^ shiftAt (depth + 1) := by
  obtain ⟨-, found⟩ := Option.ite_none_left_eq_some.mp reached
  obtain rfl := Option.some.inj found
  exact path_lt bounded h

/-- A child is rebuilt as without checks if it is from any position below. -/
theorem child_inRange (level : depth < branchLevels) (bounded : path < 2 ^ shiftAt depth) (h : slot < 32)
    (id childId : Id) {inner : (path : Nat) → Id → CheckedRebuild α (Placed α)}
    {below : (path : Nat) → Id → Rebuild α (Placed α)}
    (same : ∀ path, path < 2 ^ shiftAt (depth + 1) → inner path childId = inRange (below path childId)) :
    child inner id depth path slot childId = inRange (child below id depth path slot childId) := by
  rw [child, child, deeper_bind_checked level bounded h, deeper_bind]
  cases reached : deeper depth path slot with
  | none => rfl
  | some next =>
    simp only [reject_bind]
    rw [same next (deeper_lt bounded h reached), inRange_bind]
    exact congrArg _ (funext fun placed => inRange_check fun _ => rfl)

theorem branch_inRange (level : depth < branchLevels) (bounded : path < 2 ^ shiftAt depth) (id : Id)
    (datamap nodemap : UInt32) (values : List α) (children : List Id)
    {inner : (path : Nat) → Id → CheckedRebuild α (Placed α)} {below : (path : Nat) → Id → Rebuild α (Placed α)}
    (same : ∀ path childId, path < 2 ^ shiftAt (depth + 1) → inner path childId = inRange (below path childId)) :
    branch S inner id depth path datamap nodemap values children =
      inRange (branch S below id depth path datamap nodemap values children) := by
  unfold branch
  simp only [inSlots_bind_checked level bounded, inSlots_bind, reject_bind]
  refine inRange_check fun _ => inRange_check fun _ => ?_
  rw [inRange_bind]
  refine congrArg (· >>= _) (inRange_mapM _ fun ⟨slot, childId⟩ member => ?_)
  have used := Bitmap.has_of_mem_slots (List.of_mem_zip member).1
  exact child_inRange level bounded (Bitmap.slot_lt used) id childId fun path => same path childId

variable {archive : Archive α}

theorem visit_inRange (parent id : Id) {inner : Description α → CheckedRebuild α (Node α × Nat)}
    {build : Description α → Rebuild α (Node α × Nat)} (same : ∀ d, inner d = inRange (build d)) :
    visit S archive depth path parent id inner = inRange (visit S archive depth path parent id build) := by
  unfold visit
  rw [inRange_bind, inRange_remembered]
  refine congrArg _ (funext fun known => ?_)
  cases known with
  | some placed =>
    dsimp only
    split <;> rfl
  | none =>
    cases archive.node? id with
    | none => rfl
    | some d =>
      simp only [reject_bind]
      refine inRange_check fun _ => ?_
      rw [same, inRange_bind]
      rfl

theorem rooted_inRange {inner : (parent id : Id) → CheckedRebuild α (Placed α)}
    {top : (parent id : Id) → Rebuild α (Placed α)} (same : ∀ parent id, inner parent id = inRange (top parent id))
    (id : Id) : rooted S archive inner id = inRange (rooted S archive top id) := by
  unfold rooted
  cases archive.root? id with
  | none => rfl
  | some root =>
    simp only [reject_bind, throw_bind]
    split
    · rfl
    · refine inRange_check fun _ => ?_
      rw [same, inRange_bind]
      exact congrArg _ (funext fun placed => inRange_check fun _ => rfl)

variable [BEq κ]

theorem collision_inRange (id : Id) (values : List α) :
    (collision S id path values : CheckedRebuild α (Node α × Nat)) = inRange (collision S id path values) := by
  unfold collision
  simp only [repeatsKey_bind_checked, repeatsKey_bind, reject_bind]
  exact inRange_check fun _ => inRange_check fun _ => inRange_check fun _ => rfl

/-- From a position that the levels allow, every node is rebuilt as without checks. -/
theorem nodeChecked_eq {left : Nat} (levels : depth + left = branchLevels) (bounded : path < 2 ^ shiftAt depth)
    (parent id : Id) : nodeChecked S archive depth path parent id = inRange (node S archive left depth path parent id) := by
  induction left generalizing depth path parent id with
  | zero =>
    obtain rfl : depth = branchLevels := levels
    rw [nodeChecked, node]
    refine visit_inRange parent id fun d => ?_
    cases d with
    | branch => exact dif_pos (by decide)
    | collision => exact (if_neg (by decide)).trans (collision_inRange id _)
  | succ left ih =>
    have level : depth < branchLevels := by omega
    have above := Checked.shiftAt_le_maxShift level
    rw [nodeChecked, node]
    refine visit_inRange parent id fun d => ?_
    cases d with
    | branch =>
      exact (dif_neg (Nat.not_lt.mpr above)).trans (branch_inRange level bounded id _ _ _ _ fun path child inside =>
        ih (by omega) inside id child)
    | collision => exact if_pos above

theorem containerChecked_eq (id : Id) : containerChecked S archive id = inRange (container S archive id) :=
  rooted_inRange (nodeChecked_eq (Nat.zero_add _) (Nat.two_pow_pos _)) id

end Agreement

/-- Rebuilding never forgets a node. -/
theorem size_le_container [BEq κ] (S : Scheme α κ) (archive : Archive α) (id : Id) (cache : Cache α) :
    cache.size ≤ ((container S archive id : Rebuild α (Trie α)).run.run cache).2.size := by
  have alike : AlikeElsewhere archive archive fun other : Cache α => cache.size ≤ other.size :=
    ⟨fun _ _ _ _ => rfl, fun _ _ _ _ other _ grown => Nat.le_trans grown Std.ExtTreeMap.size_le_size_insert⟩
  exact (container_agree alike (fun _ => rfl) id cache (Nat.le_refl _)).2

end Rebuild

namespace Loader

variable {α κ : Type} [BEq κ] (S : Scheme α κ)

/-- A load that succeeds also reports how many nodes it rebuilt. -/
def loadChecked (l : Loader α) (id : Id) : Checked (Except LoadError (Trie α) × Loader α) := do
  let (result, cache) ← (Rebuild.containerChecked S l.archive id).run.run l.cache
  let l' : Loader α := { l with cache }
  match result with
  | .error e => return (.error e, l')
  | .ok t => do
    let _ ← Checked.difference cache.size l.cache.size
    return (.ok t, l')

def loadsChecked (l : Loader α) : List Id → Checked (Loader α × List (Except LoadError (Trie α)))
  | [] => return (l, [])
  | id :: rest => do
    let (answer, l) ← l.loadChecked S id
    let (l, answers) ← l.loadsChecked rest
    return (l, answer :: answers)

/-- A load stays in range, whatever the archive says and whatever the loader remembers. -/
theorem loadChecked_eq (l : Loader α) (id : Id) : l.loadChecked S id = .ok (l.load S id) := by
  have grown := Rebuild.size_le_container S l.archive id l.cache
  rw [loadChecked, Rebuild.containerChecked_eq, Rebuild.run_inRange, Checked.ok_bind, load]
  rcases rebuilt : (Rebuild.container S l.archive id : Rebuild α (Trie α)).run.run l.cache with ⟨_ | t, cache⟩
  · rfl
  · rw [rebuilt] at grown
    have reported : Checked.difference cache.size l.cache.size = .ok (cache.size - l.cache.size) := if_pos grown
    dsimp only
    rw [reported]
    rfl

theorem loadsChecked_eq (l : Loader α) (ids : List Id) :
    l.loadsChecked S ids = .ok (Loader.loads (·.load S) l ids) := by
  induction ids generalizing l with
  | nil => rfl
  | cons id rest ih =>
    rw [loadsChecked, loadChecked_eq, Checked.ok_bind]
    dsimp only
    rw [ih]
    rfl

end Loader

end TrieArchive
