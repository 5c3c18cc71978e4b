import Gen2.Residency
import Mathlib.Order.MinMax

/-!
# Will this model run on this machine

The fit check of `api/fit.rs`, with the sizing it rests on in `bundle/gguf.rs`: what a context
costs, the largest context a machine offers, and the verdict on a requested one.

* `ModelInfo.memoryNeeded_le_iff` takes the saturation out: being within a budget is a linear
  inequality, with `ModelInfo.base` the part that does not move with the context.
* `ModelInfo.verdict_fits` says what a verdict depends on: whether the requested context is within
  the budget, and whether the offered one is.
* `ModelInfo.Sound` is what the verdicts are right by: the offered context is within the budget, or
  no usable one is.  A header with dimensions gives it, `ModelInfo.sound_of_header`.
* `ModelInfo.truthful_monotone_iff` says when the verdicts are truthful and monotone: without
  dimensions the context is offered beside the weights alone and charged beside 1.2 times the
  weights, so the offer may be refused where a smaller context is within the budget.
-/

namespace Gen2

/-- `u64::saturating_mul`. -/
def saturatingMul (a b : Nat) : Nat := min (a * b) (2 ^ 64 - 1)

theorem saturatingAdd_le_iff {a b n : Nat} (hn : n < 2 ^ 64 - 1) :
    saturatingAdd a b ≤ n ↔ a + b ≤ n := by
  simp only [saturatingAdd]
  omega

/-- Saturation below a sum is not seen under a bound that is not saturated itself. -/
theorem saturatingAdd_mul_le_iff {a b c n : Nat} (hn : n < 2 ^ 64 - 1) :
    saturatingAdd a (saturatingMul b c) ≤ n ↔ a + b * c ≤ n := by
  rw [saturatingAdd_le_iff hn, saturatingMul]
  omega

namespace Sizing

/-! ## The cost of a token -/

/-- `ModelMetadata`, by the dimensions the cost of a token is computed from. -/
structure ModelMetadata where
  keyLength : Option Nat
  valueLength : Option Nat
  keyLengthSwa : Option Nat
  valueLengthSwa : Option Nat
  blockCount : Option Nat
  headCount : Option Nat
  headCountKv : Option Nat
  headCountKvPerLayer : Option (List Nat)
  embeddingLength : Option Nat

/-- `ModelMetadata::default()`. -/
def ModelMetadata.default : ModelMetadata := ⟨none, none, none, none, none, none, none, none, none⟩

/-- `kv_bytes_with_widths`. -/
def kvBytesWithWidths (layers kvHeads key value : Nat) : Nat :=
  saturatingMul (saturatingMul (saturatingMul layers kvHeads) (saturatingAdd key value)) 2

/-- The width of a head as the embedding gives it, the `derived` of `model_kv_bytes_per_token`. -/
def derivedWidth (metadata : ModelMetadata) (heads : Nat) : Option Nat := do
  let width ← metadata.embeddingLength
  if heads ≤ width ∧ width % heads = 0 then some (width / heads) else none

/-- `model_kv_bytes_per_token`. -/
def modelKvBytesPerToken (metadata : ModelMetadata) : Option Nat :=
  -- a declared width of nothing is not read as a cheap one
  if ([metadata.keyLength, metadata.valueLength, metadata.keyLengthSwa,
      metadata.valueLengthSwa].filterMap id).any (· == 0) then some (2 ^ 64 - 1)
  else do
    let layers ← metadata.blockCount
    let heads ← metadata.headCount
    if layers = 0 ∨ heads = 0 then none
    else do
      let key ← metadata.keyLength <|> derivedWidth metadata heads
      let value ← metadata.valueLength <|> derivedWidth metadata heads
      let key := max key (metadata.keyLengthSwa.getD key)
      let value := max value (metadata.valueLengthSwa.getD value)
      match metadata.headCountKvPerLayer with
      | some perLayer =>
        if perLayer.length ≠ layers ∨ perLayer.any (fun n => heads < n) then none
        else some (max (kvBytesWithWidths 1 (perLayer.foldl saturatingAdd 0) key value) 1)
      | none => do
        let kvHeads ← metadata.headCountKv
        some (max (kvBytesWithWidths layers kvHeads key value) 1)

theorem kvBytesWithWidths_le (layers kvHeads key value : Nat) :
    max (kvBytesWithWidths layers kvHeads key value) 1 ≤ 2 ^ 64 - 1 := by
  simp only [kvBytesWithWidths, saturatingMul]
  omega

/-- The cost of a token is a `u64`. -/
theorem modelKvBytesPerToken_le {metadata : ModelMetadata} {kv : Nat}
    (h : modelKvBytesPerToken metadata = some kv) : kv ≤ 2 ^ 64 - 1 := by
  rw [modelKvBytesPerToken] at h
  split at h
  · exact (Option.some.inj h).symm.le
  simp only [Option.bind_eq_bind, Option.bind_eq_some_iff] at h
  obtain ⟨layers, -, heads, -, h⟩ := h
  split at h
  · cases h
  obtain ⟨key, -, h⟩ := Option.bind_eq_some_iff.1 h
  obtain ⟨value, -, h⟩ := Option.bind_eq_some_iff.1 h
  split at h
  · split at h
    · cases h
    · exact Option.some.inj h ▸ kvBytesWithWidths_le ..
  · obtain ⟨kvHeads, -, h⟩ := Option.bind_eq_some_iff.1 h
    exact Option.some.inj h ▸ kvBytesWithWidths_le ..

/-! ## What a context needs -/

/-- The runtime overhead that `estimate_ram_bytes` and `fit_context` charge. -/
def OVERHEAD : Nat := 500 * 1024 * 1024

/-- The context below which `fit_context` does not size. -/
def FLOOR : Nat := 2048

/-- `ASSUMED_KV_BYTES_PER_TOKEN`. -/
def ASSUMED_KV_BYTES_PER_TOKEN : Nat := 2 * 32 * 8 * 128 * 2

/-- What a file without dimensions is taken to need, `(file_size as f64 * 1.2) as u64`: any monotone
function that is not below the file size. -/
structure SizeHeuristic where
  toFun : UInt64 → UInt64
  mono : ∀ a b, a ≤ b → toFun a ≤ toFun b
  le_toFun : ∀ a, a ≤ toFun a

/-- `ModelInfo`, by what the fit check reads. -/
structure ModelInfo where
  fileBytes : UInt64
  trainContext : Option Nat
  metadata : ModelMetadata

/-- `HardwareProfile`, by its memory. -/
structure HardwareProfile where
  totalRamBytes : UInt64
  vramBytes : UInt64

/-- `estimate_ram_bytes`. -/
def estimateRamBytes (size : SizeHeuristic) (metadata : ModelMetadata) (fileSize : UInt64)
    (contextSize : Nat) : Nat :=
  match modelKvBytesPerToken metadata with
  | some perToken =>
    saturatingAdd (saturatingAdd fileSize.toNat (saturatingMul perToken contextSize)) OVERHEAD
  | none => saturatingAdd (size.toFun fileSize).toNat OVERHEAD

/-- The context that the room beside the weights and the overhead holds, in steps of 1024 tokens,
and no less than the floor: the `fitted` of `fit_context`. -/
def fitted (budgetBytes modelResidentBytes kvPerToken : Nat) : Nat :=
  max (min ((budgetBytes - modelResidentBytes - OVERHEAD) / max kvPerToken 1) (2 ^ 32 - 1)
    / 1024 * 1024) FLOOR

/-- `fit_context`. -/
def fitContext (budgetBytes modelResidentBytes kvPerToken trainCtx : Nat) (tierCap : Option Nat) :
    Nat :=
  min (tierCap.elim (fitted budgetBytes modelResidentBytes kvPerToken) fun cap =>
      min (fitted budgetBytes modelResidentBytes kvPerToken) (max cap FLOOR))
    (max trainCtx FLOOR)

/-- The memory that is the machine's: that of the discrete card if there is one. -/
def HardwareProfile.memory (hw : HardwareProfile) : UInt64 :=
  if hw.vramBytes > 0 then hw.vramBytes else hw.totalRamBytes

/-- `budget_bytes`. -/
def budgetBytes (hw : HardwareProfile) : Nat := hw.memory.toNat / 4 * 3

theorem budgetBytes_lt (hw : HardwareProfile) : budgetBytes hw < 2 ^ 64 - 1 := by
  have hlt := hw.memory.toNat_lt
  simp only [budgetBytes]
  omega

theorem budgetBytes_mono {a b : HardwareProfile} (h : a.memory ≤ b.memory) :
    budgetBytes a ≤ budgetBytes b :=
  Nat.mul_le_mul_right 3 (Nat.div_le_div_right (UInt64.le_iff_toNat_le.1 h))

namespace ModelInfo

/-- `KvCost`. -/
inductive KvCost
  | headerDerived (bytes : Nat)
  | assumed (bytes : Nat)

/-- `ModelInfo::kv_cost`. -/
def kvCost (info : ModelInfo) : KvCost :=
  match modelKvBytesPerToken info.metadata with
  | some bytes => .headerDerived bytes
  | none => .assumed ASSUMED_KV_BYTES_PER_TOKEN

/-- `ModelInfo::kv_per_token`. -/
def kvPerToken (info : ModelInfo) : Nat :=
  match info.kvCost with
  | .headerDerived bytes => bytes
  | .assumed bytes => bytes

/-- `ModelInfo::memory_needed`. -/
def memoryNeeded (size : SizeHeuristic) (info : ModelInfo) (context : Nat) : Nat :=
  let base := estimateRamBytes size info.metadata info.fileBytes context
  match info.kvCost with
  | .headerDerived _ => base
  | .assumed perToken => saturatingAdd base (saturatingMul perToken context)

/-- `ModelInfo::max_context_for`. -/
def maxContextFor (info : ModelInfo) (hw : HardwareProfile) (concurrent : Nat) : Nat :=
  fitContext (budgetBytes hw) info.fileBytes.toNat
    (saturatingMul info.kvPerToken (max concurrent 1)) (info.trainContext.getD 4096) none

/-- `ModelInfo::max_context`. -/
def maxContext (info : ModelInfo) (hw : HardwareProfile) : Nat := info.maxContextFor hw 1

/-- What does not move with the context: the weights, or what a file without dimensions is taken to
need, and the overhead. -/
def base (size : SizeHeuristic) (info : ModelInfo) : Nat :=
  match modelKvBytesPerToken info.metadata with
  | some _ => info.fileBytes.toNat + OVERHEAD
  | none => (size.toFun info.fileBytes).toNat + OVERHEAD

end ModelInfo

/-! ## The verdict -/

/-- `FitVerdict`. -/
inductive FitVerdict
  | fits
  | contextTooLarge
  | tooLarge
  deriving DecidableEq

/-- The order of the verdicts, the worst last. -/
def FitVerdict.severity : FitVerdict → Nat
  | fits => 0
  | contextTooLarge => 1
  | tooLarge => 2

/-- `Fit`. -/
structure Fit where
  verdict : FitVerdict
  context : Nat
  maxContext : Nat
  neededBytes : Nat
  availableBytes : Nat
  modelBytes : UInt64
  deriving DecidableEq

/-- `ModelInfo::fits`. -/
def ModelInfo.fits (size : SizeHeuristic) (info : ModelInfo) (hw : HardwareProfile)
    (context : Option Nat) : Fit :=
  let budget := budgetBytes hw
  let maxContext := info.maxContext hw
  let context := context.getD maxContext
  let needed := info.memoryNeeded size context
  let verdict :=
    if budget ≤ info.fileBytes.toNat then .tooLarge
    else if needed ≤ budget then .fits
    else if budget < info.memoryNeeded size maxContext then .tooLarge
    else .contextTooLarge
  { verdict, context, maxContext, neededBytes := needed, availableBytes := budget,
    modelBytes := info.fileBytes }

namespace ModelInfo

variable {size : SizeHeuristic} {info : ModelInfo} {hw smaller : HardwareProfile}

theorem kvPerToken_le : info.kvPerToken ≤ 2 ^ 64 - 1 := by
  rw [kvPerToken, kvCost]
  cases h : modelKvBytesPerToken info.metadata with
  | none => decide
  | some bytes => exact modelKvBytesPerToken_le h

/-- Within a budget, by the part that does not move with the context and the part that does. -/
theorem memoryNeeded_le_iff {budget : Nat} (hb : budget < 2 ^ 64 - 1) (context : Nat) :
    info.memoryNeeded size context ≤ budget
      ↔ info.base size + info.kvPerToken * context ≤ budget := by
  rw [memoryNeeded, kvPerToken, base, kvCost, estimateRamBytes]
  cases modelKvBytesPerToken info.metadata with
  | some perToken =>
    simp only [saturatingAdd_le_iff hb]
    rw [saturatingAdd, saturatingMul]
    omega
  | none =>
    simp only [saturatingAdd_mul_le_iff hb]
    rw [saturatingAdd]
    omega

/-- The weights are in the part that does not move. -/
theorem fileBytes_lt_base : info.fileBytes.toNat < info.base size := by
  have hO : 0 < OVERHEAD := by decide
  rw [base]
  cases modelKvBytesPerToken info.metadata with
  | some perToken => exact Nat.lt_add_of_pos_right hO
  | none =>
    have hle : info.fileBytes.toNat ≤ (size.toFun info.fileBytes).toNat := size.le_toFun _
    show _ < _ + _
    omega

theorem memoryNeeded_le_of_le {budget c c' : Nat} (hb : budget < 2 ^ 64 - 1) (hc : c' ≤ c)
    (h : info.memoryNeeded size c ≤ budget) : info.memoryNeeded size c' ≤ budget := by
  rw [memoryNeeded_le_iff hb] at h ⊢
  have hmul := Nat.mul_le_mul_left info.kvPerToken hc
  omega

/-- The verdict, by the two contexts it looks at: the requested one and the offered one. -/
theorem verdict_fits (context : Option Nat) :
    (info.fits size hw context).verdict
      = if info.memoryNeeded size (context.getD (info.maxContext hw)) ≤ budgetBytes hw then .fits
        else if info.memoryNeeded size (info.maxContext hw) ≤ budgetBytes hw then .contextTooLarge
        else .tooLarge := by
  have hb := budgetBytes_lt hw
  have hfile : ∀ c, info.memoryNeeded size c ≤ budgetBytes hw
      → ¬ budgetBytes hw ≤ info.fileBytes.toNat := by
    intro c hc
    have hlt : info.fileBytes.toNat < info.base size := fileBytes_lt_base
    rw [memoryNeeded_le_iff hb] at hc
    omega
  simp only [fits]
  by_cases hc : info.memoryNeeded size (context.getD (info.maxContext hw)) ≤ budgetBytes hw
  · rw [if_neg (hfile _ hc), if_pos hc, if_pos hc]
  · rw [if_neg hc, if_neg hc]
    by_cases hm : info.memoryNeeded size (info.maxContext hw) ≤ budgetBytes hw
    · rw [if_neg (hfile _ hm), if_neg (Nat.not_lt.2 hm), if_pos hm]
    · rw [if_pos (Nat.not_le.1 hm), if_neg hm, ite_self]

/-! ## Truthful and monotone -/

/-- A machine offers a model a sound context: one within its budget, unless no usable context is. -/
def Sound (size : SizeHeuristic) (info : ModelInfo) (hw : HardwareProfile) : Prop :=
  info.memoryNeeded size (info.maxContext hw) ≤ budgetBytes hw
    ∨ ∀ c, FLOOR ≤ c → budgetBytes hw < info.memoryNeeded size c

/-- What the verdicts of one machine say is so. -/
def Truthful (size : SizeHeuristic) (info : ModelInfo) (hw : HardwareProfile) : Prop :=
  ∀ context, let fit := info.fits size hw context
    (fit.verdict = .fits → info.memoryNeeded size fit.context ≤ budgetBytes hw)
    ∧ (fit.verdict = .contextTooLarge → info.memoryNeeded size fit.maxContext ≤ budgetBytes hw)
    ∧ (fit.verdict = .tooLarge → ∀ c, FLOOR ≤ c → budgetBytes hw < info.memoryNeeded size c)

/-- No machine with less memory has a better verdict. -/
def MonotoneMemory (size : SizeHeuristic) (info : ModelInfo) (hw : HardwareProfile) : Prop :=
  ∀ smaller : HardwareProfile, smaller.memory ≤ hw.memory → ∀ context,
    (info.fits size hw context).verdict.severity
      ≤ (info.fits size smaller context).verdict.severity

/-- No larger context has a better verdict; asking for none is asking for the offered one. -/
def MonotoneContext (size : SizeHeuristic) (info : ModelInfo) (hw : HardwareProfile) : Prop :=
  ∀ context larger, (info.fits size hw context).context ≤ (info.fits size hw larger).context →
    (info.fits size hw context).verdict.severity ≤ (info.fits size hw larger).verdict.severity

theorem FLOOR_le_maxContext : FLOOR ≤ info.maxContext hw := by
  rw [maxContext, maxContextFor, fitContext, Option.elim_none, fitted]
  exact le_min (le_max_right _ _) (le_max_right _ _)

/-- A verdict is never better than the contexts allow, so what it depends on is all there is. -/
theorem severity_le_of_le {size' : SizeHeuristic} {info' : ModelInfo} {hw' : HardwareProfile}
    {context context' : Option Nat}
    (hfits : info'.memoryNeeded size' (context'.getD (info'.maxContext hw')) ≤ budgetBytes hw' →
      info.memoryNeeded size (context.getD (info.maxContext hw)) ≤ budgetBytes hw)
    (hoffer : info'.memoryNeeded size' (info'.maxContext hw') ≤ budgetBytes hw' →
      info.memoryNeeded size (context.getD (info.maxContext hw)) ≤ budgetBytes hw
        ∨ info.memoryNeeded size (info.maxContext hw) ≤ budgetBytes hw) :
    (info.fits size hw context).verdict.severity
      ≤ (info'.fits size' hw' context').verdict.severity := by
  rw [verdict_fits, verdict_fits]
  by_cases hc' : info'.memoryNeeded size' (context'.getD (info'.maxContext hw')) ≤ budgetBytes hw'
  · rw [if_pos hc', if_pos (hfits hc')]
  rw [if_neg hc']
  by_cases hm' : info'.memoryNeeded size' (info'.maxContext hw') ≤ budgetBytes hw'
  · rcases hoffer hm' with hc | hm
    · rw [if_pos hc]
      exact Nat.zero_le _
    · rw [if_pos hm, if_pos hm']
      split
      · exact Nat.zero_le _
      · exact le_refl _
  · rw [if_neg hm']
    split
    · exact Nat.zero_le _
    · split <;> decide

theorem monotoneContext : info.MonotoneContext size hw := by
  intro context larger hle
  exact severity_le_of_le (memoryNeeded_le_of_le (budgetBytes_lt hw) hle) Or.inr

theorem truthful_of_sound (h : info.Sound size hw) : info.Truthful size hw := by
  intro context
  refine ⟨fun hv => ?_, fun hv => ?_, fun hv => ?_⟩ <;> rw [verdict_fits] at hv
  · split at hv
    · assumption
    · split at hv <;> cases hv
  · split at hv
    · cases hv
    · split at hv
      · assumption
      · cases hv
  · split at hv
    · cases hv
    · split at hv
      · cases hv
      · rename_i hm
        exact h.resolve_left hm

/-- Where the offer is refused, asking for it is answered as if nothing were within the budget. -/
theorem sound_of_truthful (h : info.Truthful size hw) : info.Sound size hw := by
  by_cases hm : info.memoryNeeded size (info.maxContext hw) ≤ budgetBytes hw
  · exact Or.inl hm
  · refine Or.inr ((h none).2.2 ?_)
    rw [verdict_fits, Option.getD_none, if_neg hm, if_neg hm]

/-- The requested context stays within a budget that grows; asking for none asks for the offer. -/
theorem memoryNeeded_getD_le {offered offered' budget budget' : Nat} {context : Option Nat}
    (hbudget : budget' ≤ budget)
    (hoffer : info.memoryNeeded size offered' ≤ budget' → info.memoryNeeded size offered ≤ budget)
    (h : info.memoryNeeded size (context.getD offered') ≤ budget') :
    info.memoryNeeded size (context.getD offered) ≤ budget := by
  cases context with
  | none => exact hoffer h
  | some c => exact le_trans h hbudget

theorem monotoneMemory_of_sound (h : info.Sound size hw) : info.MonotoneMemory size hw := by
  intro smaller hle context
  have hbudget := budgetBytes_mono hle
  have hoffer : info.memoryNeeded size (info.maxContext smaller) ≤ budgetBytes smaller →
      info.memoryNeeded size (info.maxContext hw) ≤ budgetBytes hw := by
    intro hm
    rcases h with hoffer | hnone
    · exact hoffer
    · exact absurd (hm.trans hbudget) (Nat.not_le.2 (hnone _ FLOOR_le_maxContext))
  exact severity_le_of_le (memoryNeeded_getD_le hbudget hoffer) fun hm => Or.inr (hoffer hm)

/-! ## When the offer is sound -/

theorem maxContext_eq (info : ModelInfo) (hw : HardwareProfile) :
    info.maxContext hw
      = min (max (min ((budgetBytes hw - info.fileBytes.toNat - OVERHEAD) / max info.kvPerToken 1)
          (2 ^ 32 - 1) / 1024 * 1024) FLOOR) (max (info.trainContext.getD 4096) FLOOR) := by
  have hk : saturatingMul info.kvPerToken (max 1 1) = info.kvPerToken := by
    have hle : info.kvPerToken ≤ 2 ^ 64 - 1 := kvPerToken_le
    rw [saturatingMul, max_self, Nat.mul_one]
    omega
  rw [maxContext, maxContextFor, fitContext, hk, Option.elim_none, fitted]

/-- No usable context is within the budget as soon as the least is not. -/
theorem sound_iff : info.Sound size hw
    ↔ (info.base size + info.kvPerToken * FLOOR ≤ budgetBytes hw →
      info.base size + info.kvPerToken * info.maxContext hw ≤ budgetBytes hw) := by
  have hb := budgetBytes_lt hw
  rw [Sound, memoryNeeded_le_iff hb]
  constructor
  · rintro (hm | hnone) hfloor
    · exact hm
    · have hlt := hnone FLOOR (le_refl _)
      rw [← memoryNeeded_le_iff hb] at hfloor
      omega
  · intro h
    by_cases hfloor : info.base size + info.kvPerToken * FLOOR ≤ budgetBytes hw
    · exact Or.inl (h hfloor)
    · refine Or.inr fun c hc => Nat.lt_of_not_le fun hle => hfloor ?_
      rw [← memoryNeeded_le_iff hb]
      exact memoryNeeded_le_of_le hb hc hle

/-- The header's own dimensions charge what they sized by. -/
theorem sound_of_header {kv : Nat} (h : modelKvBytesPerToken info.metadata = some kv) :
    info.Sound size hw := by
  rw [sound_iff]
  intro hfloor
  have hbase : info.base size = info.fileBytes.toNat + OVERHEAD := by rw [base, h]
  -- what the division of the room by the cost gives back is within the room
  have hdiv : info.kvPerToken
      * ((budgetBytes hw - info.fileBytes.toNat - OVERHEAD) / max info.kvPerToken 1)
      ≤ budgetBytes hw - info.fileBytes.toNat - OVERHEAD :=
    (Nat.mul_le_mul_right _ (le_max_left _ _)).trans (Nat.mul_div_le _ _)
  have hmax : info.maxContext hw ≤ FLOOR ∨ info.maxContext hw
      ≤ (budgetBytes hw - info.fileBytes.toNat - OVERHEAD) / max info.kvPerToken 1 := by
    rw [maxContext_eq]
    refine (le_max_iff.1 (min_le_left _ _)).symm.imp_right fun hle => hle.trans ?_
    exact (Nat.div_mul_le_self _ _).trans (min_le_left _ _)
  rcases hmax with hle | hle
  · have hmul := Nat.mul_le_mul_left info.kvPerToken hle
    omega
  · have hmul := Nat.mul_le_mul_left info.kvPerToken hle
    omega

/-- The context that `max_context` reaches at most. -/
def contextCap (info : ModelInfo) : Nat :=
  min (max (info.trainContext.getD 4096) FLOOR) ((2 ^ 32 - 1) / 1024 * 1024)

/-- The sizes at which a model without dimensions is offered what it is charged for: the budget does
not hold the least context, or holds the largest the model takes, or what is left of it over whole
steps of 1024 tokens makes up for what the weights are charged above their size. -/
def AssumedSizes (size : SizeHeuristic) (info : ModelInfo) (hw : HardwareProfile) : Prop :=
  let charged := (size.toFun info.fileBytes).toNat + OVERHEAD
  budgetBytes hw < charged + ASSUMED_KV_BYTES_PER_TOKEN * FLOOR
    ∨ charged + ASSUMED_KV_BYTES_PER_TOKEN * info.contextCap ≤ budgetBytes hw
    ∨ (size.toFun info.fileBytes).toNat - info.fileBytes.toNat
      ≤ (budgetBytes hw - info.fileBytes.toNat - OVERHEAD) % (ASSUMED_KV_BYTES_PER_TOKEN * 1024)

theorem sound_iff_assumedSizes (h : modelKvBytesPerToken info.metadata = none) :
    info.Sound size hw ↔ info.AssumedSizes size hw := by
  have hbase : info.base size = (size.toFun info.fileBytes).toNat + OVERHEAD := by rw [base, h]
  have hkv : info.kvPerToken = 131072 := by
    rw [kvPerToken, kvCost, h]
    rfl
  have hle : info.fileBytes.toNat ≤ (size.toFun info.fileBytes).toNat := size.le_toFun _
  rw [sound_iff, maxContext_eq, hbase, hkv, AssumedSizes, contextCap]
  have hfloor : FLOOR = 2048 := rfl
  have hassumed : ASSUMED_KV_BYTES_PER_TOKEN = 131072 := rfl
  have hmax : max 131072 1 = 131072 := rfl
  rw [hfloor, hassumed, hmax]
  generalize OVERHEAD = overhead
  generalize (size.toFun info.fileBytes).toNat = charged at hle ⊢
  generalize info.fileBytes.toNat = file at hle ⊢
  generalize budgetBytes hw = budget
  generalize info.trainContext.getD 4096 = train
  omega

/-- The verdicts on a machine are truthful and monotone exactly where the header gives the cost of a
token, or the sizes are such that the offered context is charged within the budget. -/
theorem truthful_monotone_iff (size : SizeHeuristic) (info : ModelInfo) (hw : HardwareProfile) :
    (info.Truthful size hw ∧ info.MonotoneMemory size hw ∧ info.MonotoneContext size hw)
      ↔ (modelKvBytesPerToken info.metadata).isSome ∨ info.AssumedSizes size hw := by
  have hsound : info.Sound size hw
      ↔ (modelKvBytesPerToken info.metadata).isSome ∨ info.AssumedSizes size hw := by
    cases h : modelKvBytesPerToken info.metadata with
    | none => simp [sound_iff_assumedSizes h]
    | some kv => simp [sound_of_header h]
  rw [← hsound]
  constructor
  · rintro ⟨htruth, -, -⟩
    exact sound_of_truthful htruth
  · intro h
    exact ⟨truthful_of_sound h, monotoneMemory_of_sound h, monotoneContext⟩

/-! Where it goes wrong: a model of 300 MiB without dimensions, on a machine of 4160 MiB. -/

theorem toNat_ofNat_min (n : Nat) :
    (UInt64.ofNat (min n (2 ^ 64 - 1))).toNat = min n (2 ^ 64 - 1) :=
  UInt64.toNat_ofNat_of_lt' (Nat.lt_of_le_of_lt (Nat.min_le_right _ _) (by decide))

/-- 1.2 times the file size, rounded down. -/
def sixFifths : SizeHeuristic where
  toFun n := UInt64.ofNat (min (n.toNat * 6 / 5) (2 ^ 64 - 1))
  mono a b hab := by
    have hle := UInt64.le_iff_toNat_le.1 hab
    rw [UInt64.le_iff_toNat_le, toNat_ofNat_min, toNat_ofNat_min]
    omega
  le_toFun a := by
    have hlt := a.toNat_lt
    rw [UInt64.le_iff_toNat_le, toNat_ofNat_min]
    omega

def smallModel : ModelInfo := ⟨300 * 1024 * 1024, some 32768, ModelMetadata.default⟩

def machineOf (mib : UInt64) : HardwareProfile := ⟨mib * 1024 * 1024, 0⟩

/-- The offer of 18 432 tokens is over the budget by the weights' 20 percent, so a model that runs
at 2048 tokens is too large, and was not on a machine with less memory. -/
theorem smallModel_too_large :
    ((smallModel.fits sixFifths (machineOf 4160) none).verdict = .tooLarge
      ∧ smallModel.memoryNeeded sixFifths 2048 ≤ budgetBytes (machineOf 4160)
      ∧ (smallModel.fits sixFifths (machineOf 4160) (some 32768)).verdict = .tooLarge
      ∧ (smallModel.fits sixFifths (machineOf 4096) (some 32768)).verdict = .contextTooLarge)
      ∧ ¬ smallModel.Truthful sixFifths (machineOf 4160)
      ∧ ¬ smallModel.MonotoneMemory sixFifths (machineOf 4160) := by
  have hworse : (smallModel.fits sixFifths (machineOf 4160) (some 32768)).verdict = .tooLarge := by
    decide +kernel
  have hbetter :
      (smallModel.fits sixFifths (machineOf 4096) (some 32768)).verdict = .contextTooLarge := by
    decide +kernel
  have hnone : (smallModel.fits sixFifths (machineOf 4160) none).verdict = .tooLarge := by
    decide +kernel
  have hleast : smallModel.memoryNeeded sixFifths 2048 ≤ budgetBytes (machineOf 4160) := by
    decide +kernel
  refine ⟨⟨hnone, hleast, hworse, hbetter⟩, fun h => ?_, fun h => ?_⟩
  · exact absurd ((h none).2.2 hnone 2048 (le_refl _)) (Nat.not_lt.2 hleast)
  · have hsev := h (machineOf 4096) (by decide +kernel) (some 32768)
    rw [hworse, hbetter] at hsev
    exact absurd hsev (by decide)

end ModelInfo
end Sizing
end Gen2
