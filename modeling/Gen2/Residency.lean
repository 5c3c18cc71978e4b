import Mathlib.Algebra.GroupWithZero.Nat
import Mathlib.Logic.Function.Basic
import Mathlib.Tactic.Common

/-!
# What is resident, and what it is thought to cost

The inventory of `residency.rs`: for every kind of runtime the one that is resident, if any, with
its estimated size, and the rules by which one is admitted, evicted when idle, and evicted under
memory pressure.

* The inventory is a function from kinds to entries rather than a record of five fields, and it
  carries the fact that an entry is filed under its own kind.
* Sizes are natural numbers; `saturatingAdd` is the addition of the `u64`s.
* Of the memory governor (`memory/memory_governor.rs`) there is what the inventory asks it: the
  pressure, the two limits and the size of the process.
-/

namespace Gen2

/-! ## The memory governor -/

/-- `MemoryPressureLevel`. -/
inductive MemoryPressureLevel
  | normal
  | constrained
  | severe
  | emergency
  deriving DecidableEq

/-- The order of the levels, as `PartialOrd` derives it. -/
def MemoryPressureLevel.rank : MemoryPressureLevel → Nat
  | normal => 0
  | constrained => 1
  | severe => 2
  | emergency => 3

/-- `MemoryGovernor`, by what of its snapshot is read here. -/
structure MemoryGovernor where
  pressure : MemoryPressureLevel
  inferenceResidentMb : Nat
  processSoftLimitMb : Nat
  estimatedProcessMb : Nat

/-- `u64::saturating_add`. -/
def saturatingAdd (a b : Nat) : Nat := min (a + b) (2 ^ 64 - 1)

namespace MemoryGovernor

/-- `pressure() >= level`. -/
def atLeast (g : MemoryGovernor) (level : MemoryPressureLevel) : Bool :=
  decide (level.rank ≤ g.pressure.rank)

/-- `MemoryGovernor::can_load_additional_model`.  The sum that overflows a `u64` is above any limit,
as the one that does not is here. -/
def canLoadAdditionalModel (g : MemoryGovernor) (estimatedExtraMb : Nat) : Bool :=
  decide (g.estimatedProcessMb + estimatedExtraMb < g.processSoftLimitMb) && !g.atLeast .severe

end MemoryGovernor

/-! ## The inventory -/

/-- `RuntimeKind`. -/
inductive RuntimeKind
  | llm
  | embedder
  | reranker
  | stt
  | tts
  deriving DecidableEq

/-- The kinds other than the model itself, in the order in which they are evicted. -/
def RuntimeKind.helpers : List RuntimeKind := [embedder, reranker, stt, tts]

/-- `ResidentRuntime`. -/
structure ResidentRuntime where
  kind : RuntimeKind
  name : String
  estimatedResidentMb : Nat
  lastUsedUnixSecs : Int

/-- `ResidencyInventory`: the entry of every kind, each filed under its own. -/
structure ResidencyInventory where
  slot : RuntimeKind → Option ResidentRuntime
  kind_eq : ∀ kind runtime, slot kind = some runtime → runtime.kind = kind

/-- `ResidencyPolicy`, with the defaults that the controller keeps. -/
structure ResidencyPolicy where
  helperIdleTimeoutSecs : Nat := 300
  llmSwapRequiresUnload : Bool := true

namespace ResidencyInventory

/-- `ResidencyInventory::default`. -/
def empty : ResidencyInventory := ⟨fun _ => none, nofun⟩

/-- `total_estimated_mb`. -/
def totalEstimatedMb (r : ResidencyInventory) : Nat :=
  ([r.slot .llm, r.slot .embedder, r.slot .reranker, r.slot .stt, r.slot .tts].filterMap
    fun runtime => runtime.map ResidentRuntime.estimatedResidentMb).sum

/-- `can_admit`. -/
def canAdmit (r : ResidencyInventory) (kind : RuntimeKind) (extraMb : Nat) (g : MemoryGovernor) :
    Bool :=
  if (r.slot kind).isSome then
    false
  else
    decide (saturatingAdd r.totalEstimatedMb extraMb ≤ g.inferenceResidentMb) &&
      g.canLoadAdditionalModel extraMb

/-- An entry put where it belongs. -/
def put (r : ResidencyInventory) (runtime : ResidentRuntime) : ResidencyInventory where
  slot := Function.update r.slot runtime.kind (some runtime)
  kind_eq kind other h := by
    by_cases hk : kind = runtime.kind
    · subst hk
      rw [Function.update_self] at h
      exact congrArg ResidentRuntime.kind (Option.some.inj h).symm
    · rw [Function.update_of_ne hk] at h
      exact r.kind_eq kind other h

/-- The inventory without the entry of one kind. -/
def remove (r : ResidencyInventory) (kind : RuntimeKind) : ResidencyInventory where
  slot := Function.update r.slot kind none
  kind_eq kind' other h := by
    by_cases hk : kind' = kind
    · subst hk
      rw [Function.update_self] at h
      exact nomatch h
    · rw [Function.update_of_ne hk] at h
      exact r.kind_eq kind' other h

/-- `admit`: whether it was, and the inventory after. -/
def admitRuntime (r : ResidencyInventory) (runtime : ResidentRuntime) (g : MemoryGovernor) :
    Bool × ResidencyInventory :=
  if r.canAdmit runtime.kind runtime.estimatedResidentMb g then (true, r.put runtime) else (false,
    r)

/-- `unload`: what was there, and the inventory after. -/
def unload (r : ResidencyInventory) (kind : RuntimeKind) :
    Option ResidentRuntime × ResidencyInventory :=
  (r.slot kind, r.remove kind)

/-- `touch`. -/
def touch (r : ResidencyInventory) (kind : RuntimeKind) (lastUsedUnixSecs : Int) :
    ResidencyInventory :=
  match r.slot kind with
  | none => r
  | some runtime => r.put { runtime with lastUsedUnixSecs := lastUsedUnixSecs }

/-- The kinds of `kinds` that `evict` says are to go, evicted: what went, and what is left. -/
def evictAll (evict : ResidentRuntime → Bool) :
    List RuntimeKind → ResidencyInventory → List ResidentRuntime × ResidencyInventory
  | [], r => ([], r)
  | kind :: kinds, r =>
    match r.slot kind with
    | none => evictAll evict kinds r
    | some runtime =>
      if evict runtime then
        let (evicted, r') := evictAll evict kinds (r.remove kind)
        (runtime :: evicted, r')
      else
        evictAll evict kinds r

/-- `evict_idle_helpers`. -/
def evictIdleHelpers (r : ResidencyInventory) (nowUnixSecs : Int) (policy : ResidencyPolicy) :
    List ResidentRuntime × ResidencyInventory :=
  evictAll (fun runtime => policy.helperIdleTimeoutSecs ≤ nowUnixSecs - runtime.lastUsedUnixSecs)
    RuntimeKind.helpers r

/-- `unload_for_pressure`. -/
def unloadForPressure (r : ResidencyInventory) (g : MemoryGovernor)
    (activeForeground : Option RuntimeKind) : List ResidentRuntime × ResidencyInventory :=
  let (helpers, r₁) :=
    if g.atLeast .constrained then
      evictAll (fun runtime => activeForeground ≠ some runtime.kind) RuntimeKind.helpers r
    else
      ([], r)
  let (model, r₂) :=
    if g.atLeast .severe ∧ activeForeground ≠ some .llm then
      evictAll (fun _ => true) [.llm] r₁
    else
      ([], r₁)
  (helpers ++ model, r₂)

/-! ### What is left after an eviction -/

@[simp] theorem slot_put (r : ResidencyInventory) (runtime : ResidentRuntime) (kind : RuntimeKind) :
    (r.put runtime).slot kind = if kind = runtime.kind then some runtime else r.slot kind := by
  simp [put, Function.update_apply]

@[simp] theorem slot_remove (r : ResidencyInventory) (kind kind' : RuntimeKind) :
    (r.remove kind).slot kind' = if kind' = kind then none else r.slot kind' := by
  simp [remove, Function.update_apply]

theorem isSome_slot_touch (r : ResidencyInventory) (kind kind' : RuntimeKind) (since : Int) :
    ((r.touch kind since).slot kind').isSome = (r.slot kind').isSome := by
  unfold touch
  split
  · rfl
  · next runtime hslot =>
    have hkind := r.kind_eq kind runtime hslot
    rw [slot_put]
    split
    · next heq => rw [heq, hkind, hslot]; rfl
    · rfl

/-- A kind is resident after an eviction if it was before and was not evicted. -/
theorem isSome_slot_evictAll (evict : ResidentRuntime → Bool) (kinds : List RuntimeKind)
    (r : ResidencyInventory) (kind : RuntimeKind) :
    ((evictAll evict kinds r).2.slot kind).isSome = true ↔
      (r.slot kind).isSome = true ∧ ∀ x ∈ (evictAll evict kinds r).1, x.kind ≠ kind := by
  induction kinds generalizing r with
  | nil => simp [evictAll]
  | cons k kinds ih =>
    rw [evictAll]
    split
    · exact ih r
    · next runtime hslot =>
      have hkind := r.kind_eq k runtime hslot
      split
      · simp only [ih, slot_remove, List.forall_mem_cons, hkind]
        by_cases hk : kind = k
        · simp [hk]
        · simp [hk, Ne.symm hk]
      · exact ih r

/-- An eviction leaves the kinds alone that it does not go through. -/
theorem slot_evictAll_of_notMem (evict : ResidentRuntime → Bool) {kinds : List RuntimeKind}
    (r : ResidencyInventory) {kind : RuntimeKind} (h : kind ∉ kinds) :
    (evictAll evict kinds r).2.slot kind = r.slot kind := by
  induction kinds generalizing r with
  | nil => rfl
  | cons k kinds ih =>
    rw [List.mem_cons, not_or] at h
    rw [evictAll]
    split
    · exact ih r h.2
    · split
      · rw [ih _ h.2, slot_remove, if_neg h.1]
      · exact ih r h.2

/-- A kind is resident after the pressure has been relieved if it was before and was not evicted. -/
theorem isSome_slot_unloadForPressure (r : ResidencyInventory) (g : MemoryGovernor)
    (activeForeground : Option RuntimeKind) (kind : RuntimeKind) :
    ((r.unloadForPressure g activeForeground).2.slot kind).isSome = true ↔
      (r.slot kind).isSome = true ∧
        ∀ x ∈ (r.unloadForPressure g activeForeground).1, x.kind ≠ kind := by
  have hhelpers : ∀ (c : Prop) [Decidable c] (evict : ResidentRuntime → Bool)
      (kinds : List RuntimeKind) (r : ResidencyInventory),
      ((if c then evictAll evict kinds r else ([], r)).2.slot kind).isSome = true ↔
        (r.slot kind).isSome = true ∧
          ∀ x ∈ (if c then evictAll evict kinds r else ([], r)).1, x.kind ≠ kind := by
    intro c _ evict kinds r
    split
    · exact isSome_slot_evictAll evict kinds r kind
    · simp
  unfold unloadForPressure
  dsimp only
  rw [hhelpers, hhelpers]
  simp only [List.forall_mem_append, and_assoc]

/-- The model is evicted under severe pressure, where it is not in use. -/
theorem isSome_slot_llm_unloadForPressure (r : ResidencyInventory) (g : MemoryGovernor)
    (activeForeground : Option RuntimeKind) :
    ((r.unloadForPressure g activeForeground).2.slot .llm).isSome = true ↔
      (r.slot .llm).isSome = true ∧ ¬ (g.atLeast .severe = true ∧ activeForeground ≠ some .llm) := by
  have hhelpers : ∀ (c : Prop) [Decidable c] (evict : ResidentRuntime → Bool),
      (if c then evictAll evict RuntimeKind.helpers r else ([], r)).2.slot .llm = r.slot .llm := by
    intro c _ evict
    split
    · exact slot_evictAll_of_notMem evict r (by decide)
    · rfl
  unfold unloadForPressure
  dsimp only
  split
  · next hsevere =>
    rw [evictAll, hhelpers]
    rcases hslot : r.slot .llm with _ | runtime
    · simp [evictAll, hslot, hhelpers]
    · simp [evictAll, hsevere]
  · next hno =>
    rw [hhelpers]
    exact (and_iff_left hno).symm

end ResidencyInventory

end Gen2
