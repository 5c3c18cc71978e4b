import Mathlib.Tactic.Linarith
import Mathlib.Tactic.Ring

/-!
# The memory budgets of a machine

The budgets of `memory_policy.rs`: the tier of a machine, the table of the tier, and the table cut
down to the memory that is available.

* **The code.**  `effectiveBudgets` computes on 64-bit words, and `effectiveBudgetsSteps` stops
  where a step would not fit one or would divide by nothing.  It does not stop while three times
  the available memory fits a word: `effectiveBudgetsSteps_eq`.
* `softMb_eq`, `hardMb_eq` and `scaledMb_eq`: the budgets as natural numbers.  The share of a
  budget that was not cut down is all of it, so that one formula covers both branches.
* `share_mono`: a cut down budget grows with the soft limit for as long as the share of the soft
  limit that the tables give it does not fall.
* `more_memory`: what a machine with more memory gets at least.
-/

namespace Gen2.MemoryPolicy

open List

/-! ## The budgets -/

/-- `MachineMemoryTier`. -/
inductive MachineMemoryTier where
  | mobileConstrained
  | desktopConstrained
  | desktopMainstream
  | desktopPower
  | workstation
  deriving DecidableEq, Repr

/-- `MemoryPolicyInput`. -/
structure MemoryPolicyInput where
  totalMemoryMb : UInt64
  availableMemoryMb : UInt64
  isMobile : Bool
  deriving DecidableEq, Repr

/-- `MemoryBudgets`. -/
structure MemoryBudgets where
  processSoftLimitMb : UInt64
  processHardLimitMb : UInt64
  searchWorkingSetMb : UInt64
  kgDerivedStateMb : UInt64
  ingestionPeakMb : UInt64
  inferenceResidentMb : UInt64
  multimodalPeakMb : UInt64
  deriving DecidableEq, Repr

/-- `detect_machine_tier`. -/
def detectMachineTier (input : MemoryPolicyInput) : MachineMemoryTier :=
  if input.isMobile then .mobileConstrained
  else if input.totalMemoryMb ≤ 7935 then .desktopConstrained
  else if input.totalMemoryMb ≤ 16127 then .desktopMainstream
  else if input.totalMemoryMb ≤ 32511 then .desktopPower
  else .workstation

/-- `base_budgets_for_tier`. -/
def baseBudgetsForTier : MachineMemoryTier → MemoryBudgets
  | .mobileConstrained => ⟨4608, 6144, 200, 100, 400, 4096, 400⟩
  | .desktopConstrained => ⟨1536, 2048, 200, 100, 400, 800, 400⟩
  | .desktopMainstream => ⟨3072, 4096, 400, 200, 800, 2048, 768⟩
  | .desktopPower => ⟨6144, 8192, 800, 400, 1536, 4096, 1536⟩
  | .workstation => ⟨32768, 49152, 1600, 800, 3072, 24576, 3072⟩

/-- The table of the tier of a machine, the `base` of `effective_budgets`. -/
def MemoryPolicyInput.base (input : MemoryPolicyInput) : MemoryBudgets :=
  baseBudgetsForTier (detectMachineTier input)

/-- `effective_budgets`, on words that wrap around. -/
def effectiveBudgets (input : MemoryPolicyInput) : MemoryBudgets :=
  let base := input.base
  let avail := input.availableMemoryMb
  if avail = 0 then base
  else
    let softCap := avail / 2
    let hardCap := avail * 3 / 4
    let soft := min base.processSoftLimitMb softCap
    let hard := max (min base.processHardLimitMb hardCap) soft
    if soft < base.processSoftLimitMb ∧ 0 < base.processSoftLimitMb then
      let scale (v : UInt64) := max (v * soft / base.processSoftLimitMb) 1
      { processSoftLimitMb := soft
        processHardLimitMb := hard
        searchWorkingSetMb := scale base.searchWorkingSetMb
        kgDerivedStateMb := scale base.kgDerivedStateMb
        ingestionPeakMb := scale base.ingestionPeakMb
        inferenceResidentMb := scale base.inferenceResidentMb
        multimodalPeakMb := scale base.multimodalPeakMb }
    else { base with processSoftLimitMb := soft, processHardLimitMb := hard }

/-! ## The steps -/

/-- `a * b`, where the product fits a word. -/
def checkedMul (a b : UInt64) : Option UInt64 :=
  if a.toNat * b.toNat < 2 ^ 64 then some (a * b) else none

/-- `a / b`. -/
def checkedDiv (a b : UInt64) : Option UInt64 := if b = 0 then none else some (a / b)

/-- The steps of `effective_budgets`. -/
def effectiveBudgetsSteps (input : MemoryPolicyInput) : Option MemoryBudgets :=
  let base := input.base
  let avail := input.availableMemoryMb
  if avail = 0 then some base
  else do
    let softCap ← checkedDiv avail 2
    let tripled ← checkedMul avail 3
    let hardCap ← checkedDiv tripled 4
    let soft := min base.processSoftLimitMb softCap
    let hard := max (min base.processHardLimitMb hardCap) soft
    if soft < base.processSoftLimitMb ∧ 0 < base.processSoftLimitMb then
      let scale (v : UInt64) : Option UInt64 := do
        let product ← checkedMul v soft
        let share ← checkedDiv product base.processSoftLimitMb
        return max share 1
      return {
        processSoftLimitMb := soft
        processHardLimitMb := hard
        searchWorkingSetMb := ← scale base.searchWorkingSetMb
        kgDerivedStateMb := ← scale base.kgDerivedStateMb
        ingestionPeakMb := ← scale base.ingestionPeakMb
        inferenceResidentMb := ← scale base.inferenceResidentMb
        multimodalPeakMb := ← scale base.multimodalPeakMb }
    else return { base with processSoftLimitMb := soft, processHardLimitMb := hard }

theorem checkedMul_of_lt {a b : UInt64} (h : a.toNat * b.toNat < 2 ^ 64) :
    checkedMul a b = some (a * b) :=
  if_pos h

theorem checkedDiv_of_ne {a b : UInt64} (h : b ≠ 0) : checkedDiv a b = some (a / b) := if_neg h

example : effectiveBudgetsSteps ⟨16235, 3200, false⟩ =
    some ⟨1600, 2400, 208, 104, 400, 1066, 400⟩ := by decide

/-! ## The tables -/

/-- The budgets that are cut down with the soft limit. -/
def subBudgets : List (MemoryBudgets → UInt64) :=
  [MemoryBudgets.searchWorkingSetMb, MemoryBudgets.kgDerivedStateMb,
    MemoryBudgets.ingestionPeakMb, MemoryBudgets.inferenceResidentMb,
    MemoryBudgets.multimodalPeakMb]

/-- What the tables are like: no budget is nothing, and a product with the soft limit fits. -/
structure Sized (base : MemoryBudgets) : Prop where
  soft : 0 < base.processSoftLimitMb.toNat
  ordered : base.processSoftLimitMb.toNat ≤ base.processHardLimitMb.toNat
  sub : ∀ budget ∈ subBudgets, 0 < (budget base).toNat
  fits : ∀ budget ∈ subBudgets,
    (budget base).toNat * base.processSoftLimitMb.toNat < 2 ^ 64

theorem baseBudgets_sized (tier : MachineMemoryTier) : Sized (baseBudgetsForTier tier) := by
  cases tier <;> exact ⟨by decide, by decide, by decide, by decide⟩

/-- The place of a tier in the order of the tiers. -/
def MachineMemoryTier.rank : MachineMemoryTier → Nat
  | mobileConstrained => 0
  | desktopConstrained => 1
  | desktopMainstream => 2
  | desktopPower => 3
  | workstation => 4

/-- A budget has in the second table at least the share of the soft limit that it has in the
first. -/
def KeepsShare (budget : MemoryBudgets → UInt64) (base base' : MemoryBudgets) : Prop :=
  (budget base).toNat * base'.processSoftLimitMb.toNat ≤
    (budget base').toNat * base.processSoftLimitMb.toNat

instance (budget : MemoryBudgets → UInt64) (base base' : MemoryBudgets) :
    Decidable (KeepsShare budget base base') :=
  inferInstanceAs (Decidable (_ ≤ _))

/-- What the tables of a tier and of a higher one of the same platform have in common. -/
structure BaseGrows (base base' : MemoryBudgets) : Prop where
  soft : base.processSoftLimitMb.toNat ≤ base'.processSoftLimitMb.toNat
  hard : base.processHardLimitMb.toNat ≤ base'.processHardLimitMb.toNat
  sub : ∀ budget ∈ subBudgets, (budget base).toNat ≤ (budget base').toNat
  inference : KeepsShare MemoryBudgets.inferenceResidentMb base base'

theorem baseGrows {tier tier' : MachineMemoryTier} (hrank : tier.rank ≤ tier'.rank)
    (hmobile : tier = .mobileConstrained ↔ tier' = .mobileConstrained) :
    BaseGrows (baseBudgetsForTier tier) (baseBudgetsForTier tier') := by
  cases tier <;> cases tier' <;>
    first
    | exact ⟨by decide, by decide, by decide, by decide⟩
    | exact absurd hrank (by decide)
    | simp at hmobile

/-! ## Two machines -/

/-- The second of two machines is the larger one: they are on the same kind of platform, and the
smaller has some memory available. -/
structure Larger (small large : MemoryPolicyInput) : Prop where
  platform : small.isMobile = large.isMobile
  total : small.totalMemoryMb ≤ large.totalMemoryMb
  available : small.availableMemoryMb ≤ large.availableMemoryMb
  nonzero : small.availableMemoryMb ≠ 0

theorem detectMachineTier_mobile (input : MemoryPolicyInput) :
    detectMachineTier input = .mobileConstrained ↔ input.isMobile = true := by
  rw [detectMachineTier]
  split_ifs with h <;> simp [h]

namespace Larger

variable {small large : MemoryPolicyInput}

theorem rank_le (h : Larger small large) :
    (detectMachineTier small).rank ≤ (detectMachineTier large).rank := by
  have htotal := UInt64.le_iff_toNat_le.1 h.total
  simp only [detectMachineTier, h.platform, UInt64.le_iff_toNat_le, UInt64.reduceToNat]
  split_ifs <;> first | decide | omega

theorem base_grows (h : Larger small large) : BaseGrows small.base large.base :=
  baseGrows h.rank_le (by
    rw [detectMachineTier_mobile, detectMachineTier_mobile, h.platform])

end Larger

/-! ## The budgets as numbers -/

theorem toNat_min (a b : UInt64) : (min a b).toNat = min a.toNat b.toNat := by
  change (if a ≤ b then a else b).toNat = _
  split <;> rename_i h <;> rw [UInt64.le_iff_toNat_le] at h <;> omega

theorem toNat_max (a b : UInt64) : (max a b).toNat = max a.toNat b.toNat := by
  change (if a ≤ b then b else a).toNat = _
  split <;> rename_i h <;> rw [UInt64.le_iff_toNat_le] at h <;> omega

/-- A share of a budget that is all of it is the budget. -/
theorem share_whole {v soft : Nat} (hv : 0 < v) (hsoft : 0 < soft) :
    max (v * soft / soft) 1 = v := by
  rw [Nat.mul_div_cancel _ hsoft]
  exact max_eq_left hv

/-- **A share grows with the soft limit**, for as long as the share of the soft limit in the tables
does not fall. -/
theorem share_mono {v v' soft soft' whole whole' : Nat} (hwhole : 0 < whole) (hwhole' : 0 < whole')
    (hsoft : soft ≤ soft') (hkeeps : v * whole' ≤ v' * whole) :
    max (v * soft / whole) 1 ≤ max (v' * soft' / whole') 1 := by
  refine max_le_max_right 1 ((Nat.le_div_iff_mul_le hwhole').2 ?_)
  refine Nat.le_of_mul_le_mul_right ?_ hwhole
  calc v * soft / whole * whole' * whole
      = v * soft / whole * whole * whole' := Nat.mul_right_comm _ _ _
    _ ≤ v * soft * whole' := Nat.mul_le_mul_right _ (Nat.div_mul_le_self _ _)
    _ = v * whole' * soft := Nat.mul_right_comm _ _ _
    _ ≤ v' * whole * soft' := Nat.mul_le_mul hkeeps hsoft
    _ = v' * soft' * whole := Nat.mul_right_comm _ _ _

section Budgets

variable {input : MemoryPolicyInput}

theorem base_sized (input : MemoryPolicyInput) : Sized input.base := baseBudgets_sized _

/-- The soft limit. -/
def softMb (input : MemoryPolicyInput) : Nat :=
  min input.base.processSoftLimitMb.toNat (input.availableMemoryMb.toNat / 2)

theorem softMb_eq (havail : input.availableMemoryMb ≠ 0) :
    (effectiveBudgets input).processSoftLimitMb.toNat = softMb input := by
  have hsoft : (effectiveBudgets input).processSoftLimitMb =
      min input.base.processSoftLimitMb (input.availableMemoryMb / 2) := by
    simp only [effectiveBudgets, if_neg havail]
    split <;> rfl
  rw [hsoft, toNat_min, UInt64.toNat_div]
  rfl

theorem hardMb_eq (havail : input.availableMemoryMb ≠ 0)
    (hword : input.availableMemoryMb.toNat * 3 < 2 ^ 64) :
    (effectiveBudgets input).processHardLimitMb.toNat =
      max (min input.base.processHardLimitMb.toNat (input.availableMemoryMb.toNat * 3 / 4))
        (softMb input) := by
  have hhard : (effectiveBudgets input).processHardLimitMb =
      max (min input.base.processHardLimitMb (input.availableMemoryMb * 3 / 4))
        (effectiveBudgets input).processSoftLimitMb := by
    simp only [effectiveBudgets, if_neg havail]
    split <;> rfl
  rw [hhard, toNat_max, toNat_min, softMb_eq havail, UInt64.toNat_div, UInt64.toNat_mul,
    show (3 : UInt64).toNat = 3 from rfl, Nat.mod_eq_of_lt hword]
  rfl

/-- Every other budget is its share of the soft limit. -/
theorem scaledMb_eq (havail : input.availableMemoryMb ≠ 0) {budget : MemoryBudgets → UInt64}
    (hbudget : budget ∈ subBudgets) :
    (budget (effectiveBudgets input)).toNat =
      max ((budget input.base).toNat * softMb input / input.base.processSoftLimitMb.toNat) 1 := by
  have hsized := base_sized input
  have hsoft : (min input.base.processSoftLimitMb (input.availableMemoryMb / 2)).toNat =
      softMb input := by
    rw [toNat_min, UInt64.toNat_div]
    rfl
  by_cases hcut : softMb input < input.base.processSoftLimitMb.toNat
  · have hscaled : budget (effectiveBudgets input) =
        max (budget input.base * min input.base.processSoftLimitMb (input.availableMemoryMb / 2) /
          input.base.processSoftLimitMb) 1 := by
      have hbranch : min input.base.processSoftLimitMb (input.availableMemoryMb / 2) <
          input.base.processSoftLimitMb ∧ 0 < input.base.processSoftLimitMb := by
        rw [UInt64.lt_iff_toNat_lt, UInt64.lt_iff_toNat_lt, hsoft]
        exact ⟨hcut, hsized.soft⟩
      simp only [effectiveBudgets, if_neg havail, if_pos hbranch]
      simp only [subBudgets, mem_cons, not_mem_nil, or_false] at hbudget
      rcases hbudget with rfl | rfl | rfl | rfl | rfl <;> rfl
    have hfits : (budget input.base).toNat * softMb input < 2 ^ 64 :=
      (Nat.mul_le_mul_left _ hcut.le).trans_lt (hsized.fits budget hbudget)
    rw [hscaled, toNat_max, UInt64.toNat_div, UInt64.toNat_mul, hsoft, Nat.mod_eq_of_lt hfits]
    rfl
  · have hwhole : softMb input = input.base.processSoftLimitMb.toNat :=
      le_antisymm (min_le_left _ _) (Nat.le_of_not_lt hcut)
    have hkept : budget (effectiveBudgets input) = budget input.base := by
      have hbranch : ¬ (min input.base.processSoftLimitMb (input.availableMemoryMb / 2) <
          input.base.processSoftLimitMb ∧ 0 < input.base.processSoftLimitMb) := by
        rw [UInt64.lt_iff_toNat_lt, hsoft]
        exact fun h => hcut h.1
      simp only [effectiveBudgets, if_neg havail, if_neg hbranch]
      simp only [subBudgets, mem_cons, not_mem_nil, or_false] at hbudget
      rcases hbudget with rfl | rfl | rfl | rfl | rfl <;> rfl
    rw [hkept, hwhole, share_whole (hsized.sub budget hbudget) hsized.soft]

theorem checkedDiv_base (v : UInt64) :
    checkedDiv v input.base.processSoftLimitMb = some (v / input.base.processSoftLimitMb) := by
  refine checkedDiv_of_ne fun h => ?_
  have hsoft := (base_sized input).soft
  rw [h] at hsoft
  exact absurd hsoft (by decide)

/-- No step of the budgets fails while three times the available memory fits a word. -/
theorem effectiveBudgetsSteps_eq (hword : input.availableMemoryMb.toNat * 3 < 2 ^ 64) :
    effectiveBudgetsSteps input = some (effectiveBudgets input) := by
  by_cases havail : input.availableMemoryMb = 0
  · simp only [effectiveBudgetsSteps, effectiveBudgets, if_pos havail]
  have hfour : checkedDiv (input.availableMemoryMb * 3) 4 =
      some (input.availableMemoryMb * 3 / 4) := checkedDiv_of_ne (by decide)
  have htwo : checkedDiv input.availableMemoryMb 2 = some (input.availableMemoryMb / 2) :=
    checkedDiv_of_ne (by decide)
  simp only [effectiveBudgetsSteps, effectiveBudgets, if_neg havail, htwo,
    checkedMul_of_lt (b := 3) hword, hfour, Option.bind_eq_bind, Option.bind_some]
  split
  · rename_i hcut
    -- the products are those of the table at most
    have hproduct : ∀ budget ∈ subBudgets,
        checkedMul (budget input.base)
            (min input.base.processSoftLimitMb (input.availableMemoryMb / 2)) =
          some (budget input.base *
            min input.base.processSoftLimitMb (input.availableMemoryMb / 2)) := by
      intro budget hbudget
      refine checkedMul_of_lt ((Nat.mul_le_mul_left _ ?_).trans_lt
        ((base_sized input).fits budget hbudget))
      exact (UInt64.lt_iff_toNat_lt.1 hcut.1).le
    simp only [subBudgets, forall_mem_cons, not_mem_nil, false_imp_iff,
      implies_true, and_true] at hproduct
    obtain ⟨hsearch, hkg, hingestion, hinference, hmultimodal⟩ := hproduct
    simp only [hsearch, hkg, hingestion, hinference, hmultimodal, checkedDiv_base,
      Option.bind_some, Option.pure_def]
  · rfl

end Budgets

/-! ## More memory -/

/-- What a machine has at least that is larger than another. -/
structure Grown (small large : MemoryPolicyInput) : Prop where
  soft : (effectiveBudgets small).processSoftLimitMb ≤ (effectiveBudgets large).processSoftLimitMb
  hard : (effectiveBudgets small).processHardLimitMb ≤ (effectiveBudgets large).processHardLimitMb
  inference :
    (effectiveBudgets small).inferenceResidentMb ≤ (effectiveBudgets large).inferenceResidentMb
  /-- The other budgets grow where the tier is the same, where the table of the larger machine gives
  the budget no smaller share of the soft limit, and where its soft limit was not cut down. -/
  sub : ∀ budget ∈ subBudgets,
    detectMachineTier small = detectMachineTier large ∨ KeepsShare budget small.base large.base ∨
        (effectiveBudgets large).processSoftLimitMb = large.base.processSoftLimitMb →
      budget (effectiveBudgets small) ≤ budget (effectiveBudgets large)

/-- The bounds of the budgets of one machine. -/
structure Bounded (input : MemoryPolicyInput) : Prop where
  soft : (effectiveBudgets input).processSoftLimitMb ≤ input.base.processSoftLimitMb
  hard : (effectiveBudgets input).processHardLimitMb ≤ input.base.processHardLimitMb
  sub : ∀ budget ∈ subBudgets, budget (effectiveBudgets input) ≤ budget input.base
  ordered : (effectiveBudgets input).processSoftLimitMb ≤
    (effectiveBudgets input).processHardLimitMb
  three_quarters : 4 * (effectiveBudgets input).processHardLimitMb.toNat ≤
    3 * input.availableMemoryMb.toNat

theorem bounded {input : MemoryPolicyInput} (havail : input.availableMemoryMb ≠ 0)
    (hword : input.availableMemoryMb.toNat * 3 < 2 ^ 64) : Bounded input := by
  have hsized := base_sized input
  have hle : softMb input ≤ input.base.processSoftLimitMb.toNat := min_le_left _ _
  have hhalf : softMb input ≤ input.availableMemoryMb.toNat / 2 := min_le_right _ _
  have hordered := hsized.ordered
  refine ⟨?_, ?_, fun budget hbudget => ?_, ?_, ?_⟩
  · rw [UInt64.le_iff_toNat_le, softMb_eq havail]
    exact hle
  · rw [UInt64.le_iff_toNat_le, hardMb_eq havail hword]
    omega
  · have hshare := share_mono hsized.soft hsized.soft hle
      (le_refl ((budget input.base).toNat * input.base.processSoftLimitMb.toNat))
    rw [share_whole (hsized.sub budget hbudget) hsized.soft] at hshare
    rwa [UInt64.le_iff_toNat_le, scaledMb_eq havail hbudget]
  · rw [UInt64.le_iff_toNat_le, softMb_eq havail, hardMb_eq havail hword]
    exact le_max_right _ _
  · rw [hardMb_eq havail hword]
    omega

namespace Larger

variable {small large : MemoryPolicyInput}

theorem softMb_le (h : Larger small large) : softMb small ≤ softMb large :=
  min_le_min h.base_grows.soft (Nat.div_le_div_right (UInt64.le_iff_toNat_le.1 h.available))

theorem large_nonzero (h : Larger small large) : large.availableMemoryMb ≠ 0 := by
  intro hlarge
  have hle := UInt64.le_iff_toNat_le.1 h.available
  rw [hlarge] at hle
  exact h.nonzero (UInt64.toNat_inj.1 (Nat.le_zero.1 hle))

theorem share_le (h : Larger small large) {budget : MemoryBudgets → UInt64}
    (hbudget : budget ∈ subBudgets) (hkeeps : KeepsShare budget small.base large.base) :
    budget (effectiveBudgets small) ≤ budget (effectiveBudgets large) := by
  rw [UInt64.le_iff_toNat_le, scaledMb_eq h.nonzero hbudget, scaledMb_eq h.large_nonzero hbudget]
  exact share_mono (base_sized small).soft (base_sized large).soft h.softMb_le hkeeps

theorem grown (h : Larger small large) (hword : large.availableMemoryMb.toNat * 3 < 2 ^ 64) :
    Grown small large := by
  have havail := UInt64.le_iff_toNat_le.1 h.available
  have hsmall : small.availableMemoryMb.toNat * 3 < 2 ^ 64 := by omega
  refine ⟨?_, ?_, h.share_le (by simp [subBudgets]) h.base_grows.inference,
    fun budget hbudget hcase => ?_⟩
  · rw [UInt64.le_iff_toNat_le, softMb_eq h.nonzero, softMb_eq h.large_nonzero]
    exact h.softMb_le
  · rw [UInt64.le_iff_toNat_le, hardMb_eq h.nonzero hsmall, hardMb_eq h.large_nonzero hword]
    exact max_le_max (min_le_min h.base_grows.hard (Nat.div_le_div_right
      (Nat.mul_le_mul_right 3 havail))) h.softMb_le
  rcases hcase with htier | hkeeps | hwhole
  · refine h.share_le hbudget ?_
    rw [KeepsShare, MemoryPolicyInput.base, MemoryPolicyInput.base, htier]
  · exact h.share_le hbudget hkeeps
  have hsoft : softMb large = large.base.processSoftLimitMb.toNat := by
    rw [← softMb_eq h.large_nonzero, hwhole]
  have hsized := base_sized large
  refine UInt64.le_trans ((bounded h.nonzero hsmall).sub budget hbudget) ?_
  rw [UInt64.le_iff_toNat_le, scaledMb_eq h.large_nonzero hbudget, hsoft,
    share_whole (hsized.sub budget hbudget) hsized.soft]
  exact h.base_grows.sub budget hbudget

end Larger

/-- **More memory never shrinks the limits and the inference budget**, and never one of the other
budgets but where a higher tier gives it a smaller share of a soft limit that is cut down; every
budget is within its table, and the hard limit between the soft limit and three quarters of what is
available. -/
theorem more_memory :
    (∀ input : MemoryPolicyInput, input.availableMemoryMb.toNat * 3 < 2 ^ 64 →
      effectiveBudgetsSteps input = some (effectiveBudgets input)) ∧
    ∀ small large : MemoryPolicyInput, Larger small large →
      large.availableMemoryMb.toNat * 3 < 2 ^ 64 → Grown small large ∧ Bounded large :=
  ⟨fun _ hword => effectiveBudgetsSteps_eq hword,
    fun _ _ h hword => ⟨h.grown hword, bounded h.large_nonzero hword⟩⟩

/-- Two machines with 12 GiB and 16 GiB available out of as much. -/
theorem more_memory_desktop :
    Larger ⟨12288, 12288, false⟩ ⟨16384, 16384, false⟩ ∧
      effectiveBudgetsSteps ⟨16384, 16384, false⟩ =
        some (effectiveBudgets ⟨16384, 16384, false⟩) ∧
      Grown ⟨12288, 12288, false⟩ ⟨16384, 16384, false⟩ ∧ Bounded ⟨16384, 16384, false⟩ :=
  have hlarger : Larger ⟨12288, 12288, false⟩ ⟨16384, 16384, false⟩ :=
    ⟨rfl, by decide, by decide, by decide⟩
  have hword : (16384 : UInt64).toNat * 3 < 2 ^ 64 := by decide
  ⟨hlarger, more_memory.1 _ hword, more_memory.2 _ _ hlarger hword⟩

/-- A workstation has less to search with than a smaller machine with as much available, and an
available memory of `2 ^ 63` MiB is too much for the steps. -/
theorem workstation_shrinks :
    Larger ⟨32511, 16384, false⟩ ⟨32512, 16384, false⟩ ∧
      (effectiveBudgets ⟨32512, 16384, false⟩).searchWorkingSetMb = 400 ∧
      (effectiveBudgets ⟨32511, 16384, false⟩).searchWorkingSetMb = 800 ∧
      effectiveBudgetsSteps ⟨9223372036854775808, 9223372036854775808, false⟩ = none :=
  ⟨⟨rfl, by decide, by decide, by decide⟩, by decide, by decide, by decide⟩

end Gen2.MemoryPolicy
