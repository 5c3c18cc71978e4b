import Gen2.Api.Fit
import Mathlib.Algebra.GroupWithZero.Nat

/-!
# The fitted context and the estimate

`fit_context` and `estimate_ram_bytes` of `bundle/gguf.rs`, step by step.

* **Steps.**  `fitContextSteps` and `estimateSteps` do what the functions do, and stop where a step
  would not fit its type or would divide by nothing.  They never stop: `fitContextSteps_eq` and
  `estimateSteps_eq`.
* **Agreement.**  `estimate_le_budget`: a context above the floor is within the budget it was fitted
  to, by the estimate for the header that gave the cost of its tokens.
* **Order.**  `fitted_mono` has all three inputs of the fit at once.
-/

namespace Gen2.Sizing

/-! ## The steps -/

/-- A number of so many bits. -/
def narrow (bits n : Nat) : Option Nat := if n < 2 ^ bits then some n else none

/-- `a / b`. -/
def quotient (a b : Nat) : Option Nat := if b = 0 then none else some (a / b)

/-- `a % b`. -/
def remainder (a b : Nat) : Option Nat := if b = 0 then none else some (a % b)

theorem narrow_of_lt {bits n : Nat} (h : n < 2 ^ bits) : narrow bits n = some n := if_pos h

theorem quotient_of_pos {a b : Nat} (h : b ≠ 0) : quotient a b = some (a / b) := if_neg h

theorem remainder_of_pos {a b : Nat} (h : b ≠ 0) : remainder a b = some (a % b) := if_neg h

/-- The steps of `fit_context`. -/
def fitContextSteps (budgetBytes modelResidentBytes kvPerToken trainCtx : Nat)
    (tierCap : Option Nat) : Option Nat := do
  let remaining := budgetBytes - modelResidentBytes - OVERHEAD
  let tokens ← quotient remaining (max kvPerToken 1)
  let maxTokens ← narrow 32 (min tokens (2 ^ 32 - 1))
  let rounded ← narrow 32 (maxTokens / 1024 * 1024)
  let fitted := max rounded FLOOR
  let capped := tierCap.elim fitted fun cap => min fitted (max cap FLOOR)
  return min capped (max trainCtx FLOOR)

/-- The steps of `kv_bytes_with_widths`. -/
def kvBytesSteps (layers kvHeads key value : Nat) : Option Nat := do
  let heads ← narrow 64 (saturatingMul layers kvHeads)
  let width ← narrow 64 (saturatingAdd key value)
  let one ← narrow 64 (saturatingMul heads width)
  narrow 64 (saturatingMul one 2)

/-- The steps of `derived` in `model_kv_bytes_per_token`. -/
def derivedSteps (metadata : ModelMetadata) (heads : Nat) : Option (Option Nat) :=
  match metadata.embeddingLength with
  | none => some none
  | some width =>
    if heads ≤ width then do
      let rest ← remainder width heads
      if rest = 0 then do
        let derived ← quotient width heads
        return some derived
      else return none
    else some none

/-- A width that is declared, or else the derived one. -/
def widthSteps (declared : Option Nat) (metadata : ModelMetadata) (heads : Nat) :
    Option (Option Nat) :=
  match declared with
  | some width => some (some width)
  | none => derivedSteps metadata heads

/-- The steps of `model_kv_bytes_per_token`, once the widths are there. -/
def modelKvSteps (metadata : ModelMetadata) : Option (Option Nat) :=
  if ([metadata.keyLength, metadata.valueLength, metadata.keyLengthSwa,
      metadata.valueLengthSwa].filterMap id).any (· == 0) then some (some (2 ^ 64 - 1))
  else
    match metadata.blockCount, metadata.headCount with
    | some layers, some heads =>
      if layers = 0 ∨ heads = 0 then some none
      else do
        let key ← widthSteps metadata.keyLength metadata heads
        match key with
        | none => return none
        | some key =>
          let value ← widthSteps metadata.valueLength metadata heads
          match value with
          | none => return none
          | some value =>
            let key := max key (metadata.keyLengthSwa.getD key)
            let value := max value (metadata.valueLengthSwa.getD value)
            match metadata.headCountKvPerLayer with
            | some perLayer =>
              if perLayer.length ≠ layers ∨ perLayer.any (fun n => heads < n) then return none
              else
                let sum ← perLayer.foldlM (fun sum n => narrow 64 (saturatingAdd sum n)) 0
                let bytes ← kvBytesSteps 1 sum key value
                return some (max bytes 1)
            | none =>
              match metadata.headCountKv with
              | none => return none
              | some kvHeads =>
                let bytes ← kvBytesSteps layers kvHeads key value
                return some (max bytes 1)
    | _, _ => some none

/-- The steps of `estimate_ram_bytes`. -/
def estimateSteps (size : SizeHeuristic) (metadata : ModelMetadata) (fileSize : UInt64)
    (contextSize : Nat) : Option Nat := do
  match ← modelKvSteps metadata with
  | some perToken =>
    let kvCache ← narrow 64 (saturatingMul perToken contextSize)
    let both ← narrow 64 (saturatingAdd fileSize.toNat kvCache)
    narrow 64 (saturatingAdd both OVERHEAD)
  | none => narrow 64 (saturatingAdd (size.toFun fileSize).toNat OVERHEAD)

/-! ## No step overflows -/

theorem saturatingMul_lt (a b : Nat) : saturatingMul a b < 2 ^ 64 := by
  rw [saturatingMul]
  omega

theorem saturatingAdd_lt (a b : Nat) : saturatingAdd a b < 2 ^ 64 := by
  rw [saturatingAdd]
  omega

theorem fitContextSteps_eq (budget resident kv train : Nat) (cap : Option Nat) :
    fitContextSteps budget resident kv train cap =
      some (fitContext budget resident kv train cap) := by
  have hdivisor : max kv 1 ≠ 0 := Nat.pos_iff_ne_zero.1 (Nat.le_max_right kv 1)
  have htokens : min ((budget - resident - OVERHEAD) / max kv 1) (2 ^ 32 - 1) < 2 ^ 32 :=
    (Nat.min_le_right _ _).trans_lt (by decide)
  have hrounded := (Nat.div_mul_le_self _ 1024).trans_lt htokens
  exact Option.bind_eq_some_iff.2 ⟨_, quotient_of_pos hdivisor, Option.bind_eq_some_iff.2
    ⟨_, narrow_of_lt htokens, Option.bind_eq_some_iff.2 ⟨_, narrow_of_lt hrounded, rfl⟩⟩⟩

theorem kvBytesSteps_eq (layers kvHeads key value : Nat) :
    kvBytesSteps layers kvHeads key value = some (kvBytesWithWidths layers kvHeads key value) := by
  rw [kvBytesSteps, narrow_of_lt (saturatingMul_lt _ _), narrow_of_lt (saturatingAdd_lt _ _)]
  dsimp only [Option.bind_eq_bind, Option.bind_some]
  rw [narrow_of_lt (saturatingMul_lt _ _), Option.bind_some, narrow_of_lt (saturatingMul_lt _ _)]
  rfl

theorem widthSteps_eq (declared : Option Nat) (metadata : ModelMetadata) {heads : Nat}
    (h : heads ≠ 0) :
    widthSteps declared metadata heads = some (declared <|> derivedWidth metadata heads) := by
  cases declared with
  | some width => rfl
  | none =>
    rw [widthSteps, derivedSteps, derivedWidth]
    cases metadata.embeddingLength with
    | none => rfl
    | some width =>
      dsimp only [Option.bind_eq_bind, Option.bind_some]
      rw [remainder_of_pos h, quotient_of_pos h]
      by_cases hle : heads ≤ width <;> by_cases hrest : width % heads = 0 <;> simp [hle, hrest]

theorem foldlM_narrow (ns : List Nat) (sum : Nat) :
    ns.foldlM (fun sum n => narrow 64 (saturatingAdd sum n)) sum =
      some (ns.foldl saturatingAdd sum) := by
  induction ns generalizing sum with
  | nil => rfl
  | cons n ns ih =>
    rw [List.foldlM_cons, narrow_of_lt (saturatingAdd_lt _ _)]
    exact ih _

theorem modelKvSteps_eq (metadata : ModelMetadata) :
    modelKvSteps metadata = some (modelKvBytesPerToken metadata) := by
  rw [modelKvSteps, modelKvBytesPerToken]
  split
  · rfl
  cases metadata.blockCount with
  | none => rfl
  | some layers =>
    cases metadata.headCount with
    | none => rfl
    | some heads =>
      dsimp only [Option.bind_eq_bind, Option.bind_some]
      split
      · rfl
      next hzero =>
        have hheads : heads ≠ 0 := fun h => hzero (.inr h)
        rw [widthSteps_eq _ _ hheads, widthSteps_eq _ _ hheads]
        dsimp only [Option.bind_some]
        cases (metadata.keyLength <|> derivedWidth metadata heads) with
        | none => rfl
        | some key =>
          dsimp only [Option.bind_some]
          cases (metadata.valueLength <|> derivedWidth metadata heads) with
          | none => rfl
          | some value =>
            dsimp only [Option.bind_some]
            cases metadata.headCountKvPerLayer with
            | some perLayer =>
              dsimp only
              split
              · rfl
              · rw [foldlM_narrow, Option.bind_some, kvBytesSteps_eq]
                rfl
            | none =>
              cases metadata.headCountKv with
              | none => rfl
              | some kvHeads =>
                dsimp only [Option.bind_some]
                rw [kvBytesSteps_eq]
                rfl

theorem estimateSteps_eq (size : SizeHeuristic) (metadata : ModelMetadata) (fileSize : UInt64)
    (context : Nat) :
    estimateSteps size metadata fileSize context =
      some (estimateRamBytes size metadata fileSize context) := by
  refine Option.bind_eq_some_iff.2 ⟨_, modelKvSteps_eq metadata, ?_⟩
  rw [estimateRamBytes]
  cases modelKvBytesPerToken metadata with
  | some perToken =>
    exact Option.bind_eq_some_iff.2 ⟨_, narrow_of_lt (saturatingMul_lt _ _),
      Option.bind_eq_some_iff.2 ⟨_, narrow_of_lt (saturatingAdd_lt _ _),
        narrow_of_lt (saturatingAdd_lt _ _)⟩⟩
  | none => exact narrow_of_lt (saturatingAdd_lt _ _)

/-! ## Agreement -/

/-- The room that is fitted to holds what a context above the floor costs. -/
theorem fitContext_cost {budget resident kv train : Nat} {cap : Option Nat}
    (h : FLOOR < fitContext budget resident kv train cap) :
    resident + kv * fitContext budget resident kv train cap + OVERHEAD ≤ budget := by
  have hle : fitContext budget resident kv train cap ≤ fitted budget resident kv := by
    rw [fitContext]
    refine (min_le_left _ _).trans ?_
    cases cap with
    | none => rw [Option.elim_none]
    | some cap =>
      rw [Option.elim_some]
      exact min_le_left _ _
  have htokens : fitContext budget resident kv train cap ≤
      (budget - resident - OVERHEAD) / max kv 1 := by
    rw [fitted] at hle
    rcases le_max_iff.1 hle with hle | hle
    · exact hle.trans ((Nat.div_mul_le_self _ _).trans (min_le_left _ _))
    · exact absurd h (Nat.not_lt.2 hle)
  have hcost : max kv 1 * fitContext budget resident kv train cap ≤ budget - resident - OVERHEAD :=
    (Nat.mul_le_mul_left _ htokens).trans (Nat.mul_div_le _ _)
  have hkv : kv * fitContext budget resident kv train cap ≤
      max kv 1 * fitContext budget resident kv train cap :=
    Nat.mul_le_mul_right _ (le_max_left _ _)
  have hone : fitContext budget resident kv train cap ≤
      max kv 1 * fitContext budget resident kv train cap :=
    Nat.le_mul_of_pos_left _ (Nat.lt_of_lt_of_le Nat.one_pos (le_max_right _ _))
  omega

/-- **A context above the floor is within the budget it was fitted to.** -/
theorem estimate_le_budget (size : SizeHeuristic) {metadata : ModelMetadata} {kv : Nat}
    (hkv : modelKvBytesPerToken metadata = some kv) {budget train : Nat} {resident : UInt64}
    {cap : Option Nat} (h : FLOOR < fitContext budget resident.toNat kv train cap) :
    estimateRamBytes size metadata resident (fitContext budget resident.toNat kv train cap) ≤
      budget := by
  have hcost := fitContext_cost h
  rw [estimateRamBytes, hkv]
  simp only [saturatingAdd, saturatingMul]
  omega

/-! ## Order -/

/-- More room, a smaller model and cheaper tokens do not make for a smaller context. -/
theorem fitted_mono {budget budget' resident resident' kv kv' : Nat} (hbudget : budget ≤ budget')
    (hresident : resident' ≤ resident) (hkv : kv' ≤ kv) :
    fitted budget resident kv ≤ fitted budget' resident' kv' := by
  have hroom : budget - resident - OVERHEAD ≤ budget' - resident' - OVERHEAD := by omega
  have hpos : 0 < max kv' 1 := Nat.lt_of_lt_of_le Nat.one_pos (le_max_right _ _)
  have hdiv : (budget - resident - OVERHEAD) / max kv 1 ≤
      (budget' - resident' - OVERHEAD) / max kv' 1 :=
    (Nat.div_le_div_right hroom).trans (Nat.div_le_div_left (max_le_max_right 1 hkv) hpos)
  exact max_le_max_right _
    (Nat.mul_le_mul_right _ (Nat.div_le_div_right (min_le_min_right _ hdiv)))

theorem fitContext_mono {budget budget' resident resident' kv kv' : Nat}
    (hbudget : budget ≤ budget') (hresident : resident' ≤ resident) (hkv : kv' ≤ kv)
    (train : Nat) (cap : Option Nat) :
    fitContext budget resident kv train cap ≤ fitContext budget' resident' kv' train cap := by
  have hfitted := fitted_mono hbudget hresident hkv
  rw [fitContext, fitContext]
  refine min_le_min_right _ ?_
  cases cap with
  | none =>
    rw [Option.elim_none, Option.elim_none]
    exact hfitted
  | some cap =>
    rw [Option.elim_some, Option.elim_some]
    exact min_le_min_right _ hfitted

/-- **Fitting agrees with the estimate**: no step of either overflows, a context above the floor is
within the budget, and the context moves with its inputs. -/
theorem fit_agrees (size : SizeHeuristic) (metadata : ModelMetadata) (budget resident : UInt64)
    (train : UInt32) (cap : Option UInt32) :
    (∀ kv : Nat, fitContextSteps budget.toNat resident.toNat kv train.toNat (cap.map UInt32.toNat) =
      some (fitContext budget.toNat resident.toNat kv train.toNat (cap.map UInt32.toNat))) ∧
    (∀ context, estimateSteps size metadata resident context =
      some (estimateRamBytes size metadata resident context)) ∧
    (∀ kv, modelKvBytesPerToken metadata = some kv →
      FLOOR < fitContext budget.toNat resident.toNat kv train.toNat (cap.map UInt32.toNat) →
      estimateRamBytes size metadata resident
          (fitContext budget.toNat resident.toNat kv train.toNat (cap.map UInt32.toNat)) ≤
        budget.toNat) ∧
    ∀ (budget' resident' : UInt64) (kv kv' : Nat), budget ≤ budget' → resident' ≤ resident →
      kv' ≤ kv →
      fitContext budget.toNat resident.toNat kv train.toNat (cap.map UInt32.toNat) ≤
        fitContext budget'.toNat resident'.toNat kv' train.toNat (cap.map UInt32.toNat) :=
  ⟨fun _ => fitContextSteps_eq _ _ _ _ _, estimateSteps_eq size metadata resident,
    fun _ hkv h => estimate_le_budget size hkv h,
    fun _ _ _ _ hbudget hresident hkv => fitContext_mono (UInt64.le_iff_toNat_le.1 hbudget)
      (UInt64.le_iff_toNat_le.1 hresident) hkv _ _⟩

/-- Eight billion parameters: 32 layers, 8 of 32 heads for keys, 128 wide. -/
def eightBillion : ModelMetadata :=
  { ModelMetadata.default with
    blockCount := some 32, headCount := some 32, headCountKv := some 8,
    embeddingLength := some 4096 }

def gib (n : UInt64) : UInt64 := n * 1024 * 1024 * 1024

theorem fit_agrees_eightBillion :
    FLOOR < fitContext (gib 24).toNat (gib 6).toNat 131072 (131072 : UInt32).toNat none ∧
    estimateRamBytes ModelInfo.sixFifths eightBillion (gib 6)
        (fitContext (gib 24).toNat (gib 6).toNat 131072 (131072 : UInt32).toNat none) ≤
      (gib 24).toNat := by
  have hfloor : FLOOR < fitContext (gib 24).toNat (gib 6).toNat 131072 (131072 : UInt32).toNat
      none := by decide +kernel
  have hcost : modelKvBytesPerToken eightBillion = some 131072 := by decide +kernel
  exact ⟨hfloor, (fit_agrees ModelInfo.sixFifths eightBillion (gib 24) (gib 6) 131072 none).2.2.1
    131072 hcost hfloor⟩

end Gen2.Sizing
