import Gen2.Api.Context
import Gen2.Backend.Facade

/-!
# What a model is planned to take

The memory plan of `residency_policy.rs`: what the weights, the contexts and the working buffers of
a model come to in MiB, the search for a context that a budget holds, and the draft model that is
set aside before the search.

* `contexts` is the sequence that the search goes through, largest first.
* `search_best`: the search ends with a context of the sequence, and where any of them fits with the
  largest that does.
* **Steps.**  `planGgufSteps` does what `plan_gguf` does, and stops where a step would not fit its
  type, would divide by nothing, or where the fuel of the search is out.  It never stops:
  `planGgufSteps_eq`.
* `planGguf_eq_ok` and `inspectGgufPlan_eq_ok`: when a load has a plan, and when an inspection has.
* `planGguf_best`: a plan is within the budget and the best there is, and is refused only where the
  budget holds none.
-/

namespace Gen2.MemoryPlan

open Sizing List

variable {ρ : Type}

/-! ## One context -/

/-- One MiB. -/
def MIB : Nat := 1024 * 1024

/-- `u64::div_ceil`. -/
def divCeil (a b : Nat) : Nat := if a % b = 0 then a / b else a / b + 1

/-- `ModelMemoryPlan`. -/
structure ModelMemoryPlan where
  weightsMb : Nat
  contextMb : Nat
  workingMb : Nat
  totalMb : Nat
  contextTokens : Nat
  concurrentSessions : Nat
  contextReduced : Bool
  admissionBudgetMb : Nat
  deriving DecidableEq

namespace ModelMemoryPlan

/-- `ModelMemoryPlan::estimate`. -/
def estimate (size : SizeHeuristic) (info : ModelInfo) (weightsMb context concurrent : Nat)
    (vision : Bool) : ModelMemoryPlan :=
  let fixed := info.memoryNeeded size 0
  let workingMb := saturatingAdd (max (divCeil (fixed - info.fileBytes.toNat) MIB) 500)
    (if vision then 1024 else 0)
  let contextMb :=
    divCeil (saturatingMul (info.memoryNeeded size context - fixed) (max concurrent 1)) MIB
  { weightsMb
    contextMb
    workingMb
    totalMb := saturatingAdd (saturatingAdd weightsMb contextMb) workingMb
    contextTokens := context
    concurrentSessions := max concurrent 1
    contextReduced := false
    admissionBudgetMb := 0 }

/-! ## The search -/

/-- The context that the search begins with, the `initial` of `candidate`. -/
def initialContext (info : ModelInfo) (requested : Option Nat) : Nat :=
  requested.getD (min 4096 (info.trainContext.getD 4096))

/-- The candidate for one context. -/
def candidateAt (size : SizeHeuristic) (info : ModelInfo)
    (weightsMb initial concurrent budgetMb : Nat) (vision : Bool) (context : Nat) :
    ModelMemoryPlan :=
  { estimate size info weightsMb context concurrent vision with
    contextReduced := decide (context < initial)
    admissionBudgetMb := budgetMb }

/-- The loop of `candidate`, from one context on. -/
def search (size : SizeHeuristic) (info : ModelInfo) (weightsMb : Nat) (requested : Option Nat)
    (initial concurrent budgetMb : Nat) (vision : Bool) (context : Nat) : ModelMemoryPlan :=
  let plan := candidateAt size info weightsMb initial concurrent budgetMb vision context
  if h : plan.totalMb ≤ budgetMb ∨ requested.isSome ∨ context ≤ 2048 then plan
  else
    search size info weightsMb requested initial concurrent budgetMb vision (max (context / 2) 2048)
termination_by context
decreasing_by omega

/-- `ModelMemoryPlan::candidate`. -/
def candidate (size : SizeHeuristic) (info : ModelInfo) (weightsMb : Nat) (requested : Option Nat)
    (concurrent budgetMb : Nat) (vision : Bool) : ModelMemoryPlan :=
  search size info weightsMb requested (initialContext info requested) concurrent budgetMb vision
    (initialContext info requested)

/-- The text of a refusal. -/
def denied (plan : ModelMemoryPlan) (budgetMb concurrent : Nat) : String :=
  "model admission denied: weights_mb=" ++ toString plan.weightsMb ++ ", context_mb=" ++
    toString plan.contextMb ++ ", working_mb=" ++ toString plan.workingMb ++ ", total_mb=" ++
    toString plan.totalMb ++ ", available_for_model_mb=" ++ toString budgetMb ++
    ", context_tokens=" ++ toString plan.contextTokens ++ ", sessions=" ++ toString concurrent

/-- `ModelMemoryPlan::select`. -/
def select (size : SizeHeuristic) (info : ModelInfo) (weightsMb : Nat) (requested : Option Nat)
    (concurrent budgetMb : Nat) (vision : Bool) : Except String ModelMemoryPlan :=
  let plan := candidate size info weightsMb requested concurrent budgetMb vision
  if plan.totalMb ≤ budgetMb then .ok plan else .error (denied plan budgetMb concurrent)

end ModelMemoryPlan

/-! ## The plan of a file -/

/-- Why `ModelInfo::read` fails: the reason of an `InvalidModelFile`, where it is one, and the text
of the error. -/
structure ReadError where
  invalidModelFile : Option String
  display : String

/-- What is read of the files and the machine: `ModelInfo::read`, and
`estimate_resident_mb_for_path_offloaded`. -/
structure GgufFiles where
  read : String → Except ReadError ModelInfo
  residentMb : String → Option Nat → UInt64

/-- What is set aside for the draft model, the `draft_plan` of `plan_gguf_inner`. -/
def draftPlan (size : SizeHeuristic) (files : GgufFiles) (settings : EngineSettings ρ)
    (concurrent : Nat) : Except String (Option ModelMemoryPlan) :=
  match settings.dflash2 with
  | none => .ok none
  | some draft =>
    match files.read draft.modelPath with
    | .error e => .error ("cannot plan DFlash2 draft: " ++ e.display)
    | .ok info =>
      let plan := ModelMemoryPlan.estimate size info
        (files.residentMb draft.modelPath settings.gpuLayers).toNat (settings.ctxSize.getD 4096)
        concurrent false
      -- every session owns the buffers of its own draft context
      let workingMb := saturatingMul plan.workingMb (max concurrent 1)
      .ok (some { plan with
        workingMb
        totalMb := saturatingAdd (saturatingAdd plan.weightsMb plan.contextMb) workingMb })

/-- What a draft takes, `draft_mb`. -/
def draftMb (draft : Option ModelMemoryPlan) : Nat := draft.elim 0 ModelMemoryPlan.totalMb

/-- The plan of the model with that of its draft added. -/
def ModelMemoryPlan.withDraft (plan : ModelMemoryPlan) : Option ModelMemoryPlan → ModelMemoryPlan
  | none => plan
  | some draft =>
    { plan with
      weightsMb := saturatingAdd plan.weightsMb draft.weightsMb
      contextMb := saturatingAdd plan.contextMb draft.contextMb
      workingMb := saturatingAdd plan.workingMb draft.workingMb
      totalMb := saturatingAdd plan.totalMb draft.totalMb }

/-- The weights of the model and its projector. -/
def weightsMb (files : GgufFiles) (path : String) (projector : Option String)
    (gpuLayers : Option Nat) : Nat :=
  saturatingAdd (files.residentMb path gpuLayers).toNat
    (projector.elim 0 fun p => (files.residentMb p gpuLayers).toNat)

/-- `plan_gguf_inner`. -/
def planGgufInner (size : SizeHeuristic) (files : GgufFiles) (path : String)
    (projector : Option String) (settings : EngineSettings ρ) (concurrent budgetMb : Nat)
    (retainDenied : Bool) : Except String (Option ModelMemoryPlan) :=
  match files.read path with
  | .error e =>
    match e.invalidModelFile with
    | some reason => .error reason
    | none => .ok none
  | .ok info =>
    let weights := weightsMb files path projector settings.gpuLayers
    match draftPlan size files settings concurrent with
    | .error e => .error e
    | .ok draft =>
      let left := budgetMb - draftMb draft
      let selected :=
        if retainDenied then
          .ok (ModelMemoryPlan.candidate size info weights settings.ctxSize concurrent left
            projector.isSome)
        else
          ModelMemoryPlan.select size info weights settings.ctxSize concurrent left projector.isSome
      match selected with
      | .error e => .error e
      | .ok plan => .ok (some { plan.withDraft draft with admissionBudgetMb := budgetMb })

/-- `plan_gguf`. -/
def planGguf (size : SizeHeuristic) (files : GgufFiles) (path : String) (projector : Option String)
    (settings : EngineSettings ρ) (concurrent budgetMb : Nat) :
    Except String (Option ModelMemoryPlan) :=
  planGgufInner size files path projector settings concurrent budgetMb false

/-- `inspect_gguf_plan`. -/
def inspectGgufPlan (size : SizeHeuristic) (files : GgufFiles) (path : String)
    (settings : EngineSettings ρ) (concurrent budgetMb : Nat) :
    Except String (Option ModelMemoryPlan) :=
  planGgufInner size files path none settings concurrent budgetMb true

/-! ## What the search goes through -/

/-- The contexts that the search goes through from one on: each is half of the last, down to the
floor. -/
def halvings (context : Nat) : List Nat :=
  if h : context ≤ 2048 then [context] else context :: halvings (max (context / 2) 2048)
termination_by context
decreasing_by omega

/-- The contexts that a search may end with. -/
def contexts (requested : Option Nat) (initial : Nat) : List Nat :=
  if requested.isSome then [initial] else halvings initial

theorem le_of_mem_halvings {context c : Nat} (h : c ∈ halvings context) : c ≤ context := by
  induction context using halvings.induct with
  | case1 context hfloor =>
    rw [halvings, dif_pos hfloor] at h
    exact (mem_singleton.1 h).le
  | case2 context hfloor ih =>
    rw [halvings, dif_neg hfloor] at h
    rcases mem_cons.1 h with rfl | h
    · exact le_refl _
    · have hle := ih h
      omega

/-- The best of the contexts: one of them, and where any of them fits the largest that does. -/
structure Best (Fits : Nat → Prop) (contexts : List Nat) (chosen : Nat) : Prop where
  mem : chosen ∈ contexts
  largest : ∀ c ∈ contexts, Fits c → Fits chosen ∧ c ≤ chosen

namespace ModelMemoryPlan

variable {size : SizeHeuristic} {info : ModelInfo} {weightsMb initial concurrent budgetMb : Nat}
  {requested : Option Nat} {vision : Bool} {context : Nat}

theorem search_done
    (h : (candidateAt size info weightsMb initial concurrent budgetMb vision context).totalMb ≤
      budgetMb ∨ requested.isSome ∨ context ≤ 2048) :
    search size info weightsMb requested initial concurrent budgetMb vision context =
      candidateAt size info weightsMb initial concurrent budgetMb vision context := by
  rw [search]
  exact dif_pos h

theorem search_next
    (h : ¬ ((candidateAt size info weightsMb initial concurrent budgetMb vision context).totalMb ≤
      budgetMb ∨ requested.isSome ∨ context ≤ 2048)) :
    search size info weightsMb requested initial concurrent budgetMb vision context =
      search size info weightsMb requested initial concurrent budgetMb vision
        (max (context / 2) 2048) := by
  rw [search]
  exact dif_neg h

/-- The search from one context on. -/
theorem search_best (size : SizeHeuristic) (info : ModelInfo) (weightsMb : Nat)
    (requested : Option Nat) (initial concurrent budgetMb : Nat) (vision : Bool) (context : Nat) :
    Best (fun c => (estimate size info weightsMb c concurrent vision).totalMb ≤ budgetMb)
        (contexts requested context)
        (search size info weightsMb requested initial concurrent budgetMb vision
          context).contextTokens ∧
      search size info weightsMb requested initial concurrent budgetMb vision context =
        candidateAt size info weightsMb initial concurrent budgetMb vision
          (search size info weightsMb requested initial concurrent budgetMb vision
            context).contextTokens := by
  induction context using halvings.induct with
  | case1 context hfloor =>
    have hcontexts : contexts requested context = [context] := by
      rw [contexts, halvings, dif_pos hfloor, ite_self]
    rw [search_done (.inr (.inr hfloor)), hcontexts]
    refine ⟨⟨mem_singleton_self _, fun c hc hfits => ?_⟩, rfl⟩
    obtain rfl := mem_singleton.1 hc
    exact ⟨hfits, le_refl _⟩
  | case2 context hfloor ih =>
    by_cases hends :
        (candidateAt size info weightsMb initial concurrent budgetMb vision context).totalMb ≤
            budgetMb ∨ requested.isSome ∨ context ≤ 2048
    · rw [search_done hends]
      refine ⟨⟨?_, fun c hc hfits => ?_⟩, rfl⟩
      · rw [contexts]
        split
        · exact mem_singleton_self _
        · rw [halvings, dif_neg hfloor]
          exact mem_cons_self
      · rcases hends with hfirst | hrequested | hle
        · refine ⟨hfirst, ?_⟩
          rw [contexts] at hc
          split at hc
          · exact (mem_singleton.1 hc).le
          · exact le_of_mem_halvings hc
        · rw [contexts, if_pos hrequested] at hc
          obtain rfl := mem_singleton.1 hc
          exact ⟨hfits, le_refl _⟩
        · exact absurd hle hfloor
    · rw [search_next hends]
      obtain ⟨hover, hrest⟩ := not_or.1 hends
      obtain ⟨hautomatic, -⟩ := not_or.1 hrest
      have hcontexts : contexts requested context =
          context :: contexts requested (max (context / 2) 2048) := by
        rw [contexts, if_neg hautomatic, contexts, if_neg hautomatic, halvings, dif_neg hfloor]
      refine ⟨⟨?_, fun c hc hfits => ?_⟩, ih.2⟩
      · rw [hcontexts]
        exact mem_cons_of_mem _ ih.1.mem
      · rw [hcontexts] at hc
        rcases mem_cons.1 hc with rfl | hc
        · exact absurd hfits hover
        · exact ih.1.largest c hc hfits

theorem select_of_le
    (h : (candidate size info weightsMb requested concurrent budgetMb vision).totalMb ≤ budgetMb) :
    select size info weightsMb requested concurrent budgetMb vision =
      .ok (candidate size info weightsMb requested concurrent budgetMb vision) :=
  if_pos h

theorem select_of_not_le
    (h : ¬ (candidate size info weightsMb requested concurrent budgetMb vision).totalMb ≤
      budgetMb) :
    select size info weightsMb requested concurrent budgetMb vision =
      .error ((candidate size info weightsMb requested concurrent budgetMb vision).denied budgetMb
        concurrent) :=
  if_neg h

end ModelMemoryPlan

/-! ## The steps -/

/-- The steps of `u64::div_ceil`. -/
def divCeilSteps (a b : Nat) : Option Nat := do
  let whole ← quotient a b
  let rest ← remainder a b
  if rest = 0 then some whole else narrow 64 (whole + 1)

/-- The steps of `ModelInfo::memory_needed`. -/
def memoryNeededSteps (size : SizeHeuristic) (info : ModelInfo) (context : Nat) : Option Nat := do
  let base ← estimateSteps size info.metadata info.fileBytes context
  match ← modelKvSteps info.metadata with
  | some _ => some base
  | none => do
    let assumed ← narrow 64 (saturatingMul ASSUMED_KV_BYTES_PER_TOKEN context)
    narrow 64 (saturatingAdd base assumed)

namespace ModelMemoryPlan

/-- The steps of `ModelMemoryPlan::estimate`. -/
def steps (size : SizeHeuristic) (info : ModelInfo) (weightsMb context concurrent : Nat)
    (vision : Bool) : Option ModelMemoryPlan := do
  let fixed ← memoryNeededSteps size info 0
  let buffers ← divCeilSteps (fixed - info.fileBytes.toNat) MIB
  let workingMb ← narrow 64 (saturatingAdd (max buffers 500) (if vision then 1024 else 0))
  let needed ← memoryNeededSteps size info context
  let sessions ← narrow 64 (max concurrent 1)
  let bytes ← narrow 64 (saturatingMul (needed - fixed) sessions)
  let contextMb ← divCeilSteps bytes MIB
  let both ← narrow 64 (saturatingAdd weightsMb contextMb)
  let totalMb ← narrow 64 (saturatingAdd both workingMb)
  return ⟨weightsMb, contextMb, workingMb, totalMb, context, sessions, false, 0⟩

/-- The steps of the loop of `candidate`, each turn of which takes fuel. -/
def searchSteps (size : SizeHeuristic) (info : ModelInfo) (weightsMb : Nat) (requested : Option Nat)
    (initial concurrent budgetMb : Nat) (vision : Bool) : Nat → Nat → Option ModelMemoryPlan
  | 0, _ => none
  | fuel + 1, context => do
    let plan ← steps size info weightsMb context concurrent vision
    let plan :=
      { plan with contextReduced := decide (context < initial), admissionBudgetMb := budgetMb }
    if plan.totalMb ≤ budgetMb ∨ requested.isSome ∨ context ≤ 2048 then some plan
    else
      let half ← quotient context 2
      let next ← narrow 32 (max half 2048)
      searchSteps size info weightsMb requested initial concurrent budgetMb vision fuel next

/-- The steps that add the draft. -/
def withDraftSteps (plan : ModelMemoryPlan) : Option ModelMemoryPlan → Option ModelMemoryPlan
  | none => some plan
  | some draft => do
    let weightsMb ← narrow 64 (saturatingAdd plan.weightsMb draft.weightsMb)
    let contextMb ← narrow 64 (saturatingAdd plan.contextMb draft.contextMb)
    let workingMb ← narrow 64 (saturatingAdd plan.workingMb draft.workingMb)
    let totalMb ← narrow 64 (saturatingAdd plan.totalMb draft.totalMb)
    return { plan with weightsMb, contextMb, workingMb, totalMb }

end ModelMemoryPlan

/-- The steps of `draft_plan`. -/
def draftSteps (size : SizeHeuristic) (files : GgufFiles) (settings : EngineSettings ρ)
    (concurrent : Nat) : Option (Except String (Option ModelMemoryPlan)) :=
  match settings.dflash2 with
  | none => some (.ok none)
  | some draft =>
    match files.read draft.modelPath with
    | .error e => some (.error ("cannot plan DFlash2 draft: " ++ e.display))
    | .ok info => do
      let plan ← ModelMemoryPlan.steps size info
        (files.residentMb draft.modelPath settings.gpuLayers).toNat (settings.ctxSize.getD 4096)
        concurrent false
      let sessions ← narrow 64 (max concurrent 1)
      let workingMb ← narrow 64 (saturatingMul plan.workingMb sessions)
      let both ← narrow 64 (saturatingAdd plan.weightsMb plan.contextMb)
      let totalMb ← narrow 64 (saturatingAdd both workingMb)
      return .ok (some { plan with workingMb, totalMb })

/-- The steps of `plan_gguf`, with fuel for the search. -/
def planGgufSteps (fuel : Nat) (size : SizeHeuristic) (files : GgufFiles) (path : String)
    (projector : Option String) (settings : EngineSettings ρ) (concurrent budgetMb : Nat) :
    Option (Except String (Option ModelMemoryPlan)) :=
  match files.read path with
  | .error e =>
    match e.invalidModelFile with
    | some reason => some (.error reason)
    | none => some (.ok none)
  | .ok info => do
    let weights ← narrow 64 (weightsMb files path projector settings.gpuLayers)
    match ← draftSteps size files settings concurrent with
    | .error e => return .error e
    | .ok draft =>
      let left := budgetMb - draftMb draft
      let initial := ModelMemoryPlan.initialContext info settings.ctxSize
      let plan ← ModelMemoryPlan.searchSteps size info weights settings.ctxSize initial concurrent
        left projector.isSome fuel initial
      if plan.totalMb ≤ left then do
        let plan ← plan.withDraftSteps draft
        return .ok (some { plan with admissionBudgetMb := budgetMb })
      else
        return .error (ModelMemoryPlan.denied plan left concurrent)

/-! ## No step overflows -/

variable {size : SizeHeuristic} {info : ModelInfo} {concurrent : Nat}

theorem divCeilSteps_eq {a : Nat} (ha : a < 2 ^ 64) :
    divCeilSteps a MIB = some (divCeil a MIB) := by
  have hpos : MIB ≠ 0 := by decide
  have hquotient : a / MIB + 1 < 2 ^ 64 := by
    rw [MIB]
    omega
  rw [divCeilSteps, quotient_of_pos hpos, remainder_of_pos hpos, divCeil]
  dsimp only [Option.bind_eq_bind, Option.bind_some]
  split
  · rfl
  · exact narrow_of_lt hquotient

theorem memoryNeeded_lt (context : Nat) : info.memoryNeeded size context < 2 ^ 64 := by
  rw [ModelInfo.memoryNeeded, ModelInfo.kvCost, estimateRamBytes]
  cases modelKvBytesPerToken info.metadata with
  | some perToken => exact saturatingAdd_lt _ _
  | none => exact saturatingAdd_lt _ _

theorem memoryNeededSteps_eq (context : Nat) :
    memoryNeededSteps size info context = some (info.memoryNeeded size context) := by
  refine Option.bind_eq_some_iff.2 ⟨_, estimateSteps_eq size info.metadata info.fileBytes context,
    Option.bind_eq_some_iff.2 ⟨_, modelKvSteps_eq info.metadata, ?_⟩⟩
  rw [ModelInfo.memoryNeeded, ModelInfo.kvCost]
  cases modelKvBytesPerToken info.metadata with
  | some perToken => rfl
  | none =>
    exact Option.bind_eq_some_iff.2
      ⟨_, narrow_of_lt (saturatingMul_lt _ _), narrow_of_lt (saturatingAdd_lt _ _)⟩

namespace ModelMemoryPlan

theorem steps_eq {weightsMb context : Nat} {vision : Bool} (hsessions : concurrent < 2 ^ 64) :
    steps size info weightsMb context concurrent vision =
      some (estimate size info weightsMb context concurrent vision) := by
  have hfixed : info.memoryNeeded size 0 - info.fileBytes.toNat < 2 ^ 64 :=
    (Nat.sub_le _ _).trans_lt (memoryNeeded_lt 0)
  have hmax : max concurrent 1 < 2 ^ 64 := max_lt hsessions (by decide)
  rw [steps, memoryNeededSteps_eq, memoryNeededSteps_eq]
  dsimp only [Option.bind_eq_bind, Option.bind_some]
  rw [divCeilSteps_eq hfixed, Option.bind_some, narrow_of_lt (saturatingAdd_lt _ _),
    Option.bind_some, narrow_of_lt hmax, Option.bind_some, narrow_of_lt (saturatingMul_lt _ _),
    Option.bind_some, divCeilSteps_eq (saturatingMul_lt _ _), Option.bind_some,
    narrow_of_lt (saturatingAdd_lt _ _), Option.bind_some, narrow_of_lt (saturatingAdd_lt _ _)]
  rfl

/-- The search ends before its fuel does. -/
theorem searchSteps_eq {weightsMb initial budgetMb context fuel : Nat} {requested : Option Nat}
    {vision : Bool} (hsessions : concurrent < 2 ^ 64) (hcontext : context < 2 ^ 32)
    (hfuel : context < fuel) :
    searchSteps size info weightsMb requested initial concurrent budgetMb vision fuel context =
      some (search size info weightsMb requested initial concurrent budgetMb vision context) := by
  induction context using halvings.induct generalizing fuel with
  | case1 context hfloor =>
    obtain ⟨fuel, rfl⟩ := Nat.exists_eq_succ_of_ne_zero (Nat.ne_zero_of_lt hfuel)
    have hends : (candidateAt size info weightsMb initial concurrent budgetMb vision
        context).totalMb ≤ budgetMb ∨ requested.isSome ∨ context ≤ 2048 := .inr (.inr hfloor)
    rw [searchSteps, steps_eq hsessions, search_done hends]
    exact if_pos hends
  | case2 context hfloor ih =>
    obtain ⟨fuel, rfl⟩ := Nat.exists_eq_succ_of_ne_zero (Nat.ne_zero_of_lt hfuel)
    rw [searchSteps, steps_eq hsessions]
    by_cases hends :
        (candidateAt size info weightsMb initial concurrent budgetMb vision context).totalMb ≤
            budgetMb ∨ requested.isSome ∨ context ≤ 2048
    · rw [search_done hends]
      exact if_pos hends
    have hhalf : max (context / 2) 2048 < 2 ^ 32 := by omega
    have hleft : max (context / 2) 2048 < fuel := by omega
    have htwo : (2 : Nat) ≠ 0 := by decide
    rw [search_next hends, ← ih hhalf hleft]
    refine (if_neg hends).trans ?_
    simp only [quotient_of_pos htwo, narrow_of_lt hhalf, Option.bind_eq_bind, Option.bind_some]

theorem withDraftSteps_eq (plan : ModelMemoryPlan) (draft : Option ModelMemoryPlan) :
    plan.withDraftSteps draft = some (plan.withDraft draft) := by
  cases draft with
  | none => rfl
  | some draft =>
    exact Option.bind_eq_some_iff.2 ⟨_, narrow_of_lt (saturatingAdd_lt _ _),
      Option.bind_eq_some_iff.2 ⟨_, narrow_of_lt (saturatingAdd_lt _ _),
        Option.bind_eq_some_iff.2 ⟨_, narrow_of_lt (saturatingAdd_lt _ _),
          Option.bind_eq_some_iff.2 ⟨_, narrow_of_lt (saturatingAdd_lt _ _), rfl⟩⟩⟩⟩

end ModelMemoryPlan

open ModelMemoryPlan

theorem draftSteps_eq (files : GgufFiles) (settings : EngineSettings ρ)
    (hsessions : concurrent < 2 ^ 64) :
    draftSteps size files settings concurrent =
      some (draftPlan size files settings concurrent) := by
  have hmax : max concurrent 1 < 2 ^ 64 := max_lt hsessions (by decide)
  rw [draftSteps, draftPlan]
  cases settings.dflash2 with
  | none => rfl
  | some draft =>
    dsimp only
    cases files.read draft.modelPath with
    | error e => rfl
    | ok info =>
      exact Option.bind_eq_some_iff.2 ⟨_, steps_eq hsessions,
        Option.bind_eq_some_iff.2 ⟨_, narrow_of_lt hmax,
          Option.bind_eq_some_iff.2 ⟨_, narrow_of_lt (saturatingMul_lt _ _),
            Option.bind_eq_some_iff.2 ⟨_, narrow_of_lt (saturatingAdd_lt _ _),
              Option.bind_eq_some_iff.2 ⟨_, narrow_of_lt (saturatingAdd_lt _ _), rfl⟩⟩⟩⟩⟩

theorem initialContext_lt (info : ModelInfo) {requested : Option Nat}
    (h : ∀ c, requested = some c → c < 2 ^ 32) :
    initialContext info requested < 2 ^ 32 := by
  cases requested with
  | none => exact (Nat.min_le_left _ _).trans_lt (by decide)
  | some c => exact h c rfl

/-- No step of `plan_gguf` overflows, and its search ends. -/
theorem planGgufSteps_eq {files : GgufFiles} {path : String} {projector : Option String}
    {settings : EngineSettings ρ} {budgetMb fuel : Nat} (hsessions : concurrent < 2 ^ 64)
    (hctx : ∀ c, settings.ctxSize = some c → c < 2 ^ 32) (hfuel : 2 ^ 32 ≤ fuel) :
    planGgufSteps fuel size files path projector settings concurrent budgetMb =
      some (planGguf size files path projector settings concurrent budgetMb) := by
  rw [planGgufSteps, planGguf, planGgufInner]
  cases files.read path with
  | error e =>
    obtain ⟨reason, display⟩ := e
    cases reason <;> rfl
  | ok info =>
    have hinitial := initialContext_lt info hctx
    refine Option.bind_eq_some_iff.2 ⟨_, narrow_of_lt (saturatingAdd_lt _ _),
      Option.bind_eq_some_iff.2 ⟨_, draftSteps_eq files settings hsessions, ?_⟩⟩
    cases draftPlan size files settings concurrent with
    | error e => rfl
    | ok draft =>
      refine Option.bind_eq_some_iff.2
        ⟨_, searchSteps_eq hsessions hinitial (hinitial.trans_le hfuel), ?_⟩
      dsimp only
      rw [withDraftSteps_eq, if_neg Bool.false_ne_true, select,
        candidate]
      by_cases hfits : (search size info
          (weightsMb files path projector settings.gpuLayers) settings.ctxSize
          (initialContext info settings.ctxSize) concurrent
          (budgetMb - draftMb draft) projector.isSome
          (initialContext info settings.ctxSize)).totalMb ≤
          budgetMb - draftMb draft
      · rw [if_pos hfits, if_pos hfits]
        rfl
      · rw [if_neg hfits, if_neg hfits]
        rfl

/-! ## The best plan there is -/

/-- What `plan_gguf_inner` plans with, once it has read the header and set the draft aside. -/
structure Inputs where
  size : SizeHeuristic
  info : ModelInfo
  weightsMb : Nat
  requested : Option Nat
  concurrent : Nat
  vision : Bool
  budgetMb : Nat
  draft : Option ModelMemoryPlan

/-- What there is in a file, for settings and a budget. -/
def inputs (size : SizeHeuristic) (files : GgufFiles) (path : String) (projector : Option String)
    (settings : EngineSettings ρ) (concurrent budgetMb : Nat) (info : ModelInfo)
    (draft : Option ModelMemoryPlan) : Inputs where
  size := size
  info := info
  weightsMb := weightsMb files path projector settings.gpuLayers
  requested := settings.ctxSize
  concurrent := concurrent
  vision := projector.isSome
  budgetMb := budgetMb
  draft := draft

namespace Inputs

/-- What the draft leaves of the budget. -/
def left (i : Inputs) : Nat := i.budgetMb - draftMb i.draft

def initial (i : Inputs) : Nat := ModelMemoryPlan.initialContext i.info i.requested

/-- The contexts that may be chosen. -/
def contexts (i : Inputs) : List Nat := MemoryPlan.contexts i.requested i.initial

def candidate (i : Inputs) : ModelMemoryPlan :=
  .candidate i.size i.info i.weightsMb i.requested i.concurrent i.left i.vision

/-- What comes of the candidate. -/
def plan (i : Inputs) : ModelMemoryPlan :=
  { i.candidate.withDraft i.draft with admissionBudgetMb := i.budgetMb }

/-- What the model and its draft take together at a context. -/
def total (i : Inputs) (context : Nat) : Nat :=
  (ModelMemoryPlan.estimate i.size i.info i.weightsMb context i.concurrent i.vision).totalMb +
    draftMb i.draft

/-- The working buffers alone are more than nothing, so nothing is within a budget that the draft
uses up. -/
theorem estimate_le_left (i : Inputs) (context : Nat) :
    (estimate i.size i.info i.weightsMb context i.concurrent i.vision).totalMb ≤
      i.left ↔ i.total context ≤ i.budgetMb := by
  have hpos : 0 < (estimate i.size i.info i.weightsMb context i.concurrent
      i.vision).totalMb := by
    simp only [estimate, saturatingAdd]
    omega
  rw [left, total]
  omega

theorem candidate_eq (i : Inputs) :
    i.candidate = candidateAt i.size i.info i.weightsMb i.initial i.concurrent
      i.left i.vision i.candidate.contextTokens :=
  (search_best i.size i.info i.weightsMb i.requested i.initial i.concurrent i.left
    i.vision i.initial).2

theorem candidate_fits_iff (i : Inputs) :
    i.candidate.totalMb ≤ i.left ↔ i.total i.candidate.contextTokens ≤ i.budgetMb := by
  rw [← i.estimate_le_left, i.candidate_eq]
  rfl

/-- The candidate's context is the best there is. -/
theorem candidate_best (i : Inputs) :
    Best (fun c => i.total c ≤ i.budgetMb) i.contexts i.candidate.contextTokens := by
  obtain ⟨hmem, hlargest⟩ := (search_best i.size i.info i.weightsMb i.requested
    i.initial i.concurrent i.left i.vision i.initial).1
  refine ⟨hmem, fun c hc hfits => ?_⟩
  have hbest := hlargest c hc ((i.estimate_le_left c).2 hfits)
  exact ⟨(i.estimate_le_left _).1 hbest.1, hbest.2⟩

@[simp] theorem contextTokens_plan (i : Inputs) :
    i.plan.contextTokens = i.candidate.contextTokens := by
  unfold plan withDraft
  cases i.draft <;> rfl

theorem contextReduced_plan (i : Inputs) :
    i.plan.contextReduced = decide (i.plan.contextTokens < i.initial) := by
  have hcandidate : i.candidate.contextReduced = decide (i.candidate.contextTokens < i.initial) :=
    congrArg contextReduced i.candidate_eq
  rw [contextTokens_plan, ← hcandidate]
  unfold plan withDraft
  cases i.draft <;> rfl

/-- The total of the plan is what the model and its draft take, unless it saturates. -/
theorem totalMb_plan (i : Inputs) :
    i.plan.totalMb = min (i.total i.plan.contextTokens) (2 ^ 64 - 1) := by
  have hcandidate : i.candidate.totalMb + draftMb i.draft = i.total i.plan.contextTokens := by
    rw [contextTokens_plan]
    exact congrArg (·.totalMb + draftMb i.draft) i.candidate_eq
  have hword : i.candidate.totalMb ≤ 2 ^ 64 - 1 := by
    rw [i.candidate_eq]
    exact Nat.le_pred_of_lt (saturatingAdd_lt _ _)
  rw [← hcandidate]
  unfold plan withDraft
  cases hdraft : i.draft with
  | none => exact (Nat.min_eq_left hword).symm
  | some draft => rfl

theorem totalMb_plan_pos (i : Inputs) : 0 < i.plan.totalMb := by
  have hpos : 0 < i.total i.plan.contextTokens := by
    simp only [total, estimate, saturatingAdd]
    omega
  rw [totalMb_plan]
  omega

end Inputs

section Plans

variable {files : GgufFiles} {path : String} {projector : Option String}
  {settings : EngineSettings ρ} {budgetMb : Nat} {draft : Option ModelMemoryPlan}

/-- `plan_gguf`, where the header and the draft can be read. -/
theorem planGguf_eq (hinfo : files.read path = .ok info)
    (hdraft : draftPlan size files settings concurrent = .ok draft) :
    planGguf size files path projector settings concurrent budgetMb =
      let i := inputs size files path projector settings concurrent budgetMb info draft
      if i.total i.plan.contextTokens ≤ budgetMb then .ok (some i.plan)
      else .error (i.candidate.denied i.left concurrent) := by
  have hfits := (inputs size files path projector settings concurrent budgetMb info
    draft).candidate_fits_iff
  rw [← Inputs.contextTokens_plan] at hfits
  by_cases h : (inputs size files path projector settings concurrent budgetMb info draft).total
      (inputs size files path projector settings concurrent budgetMb info
        draft).plan.contextTokens ≤ budgetMb
  · have hselect : select size info
        (weightsMb files path projector settings.gpuLayers) settings.ctxSize concurrent
        (budgetMb - draftMb draft) projector.isSome =
          .ok (inputs size files path projector settings concurrent budgetMb info
            draft).candidate :=
      select_of_le (hfits.2 h)
    simp only [planGguf, planGgufInner, hinfo, hdraft, if_neg Bool.false_ne_true, hselect, if_pos h]
    rfl
  · have hselect : select size info
        (weightsMb files path projector settings.gpuLayers) settings.ctxSize concurrent
        (budgetMb - draftMb draft) projector.isSome =
          .error ((inputs size files path projector settings concurrent budgetMb info
            draft).candidate.denied (budgetMb - draftMb draft) concurrent) :=
      select_of_not_le (mt hfits.1 h)
    simp only [planGguf, planGgufInner, hinfo, hdraft, if_neg Bool.false_ne_true, hselect, if_neg h]
    rfl

/-- `inspect_gguf_plan` keeps the plan in either case. -/
theorem inspectGgufPlan_eq (hinfo : files.read path = .ok info)
    (hdraft : draftPlan size files settings concurrent = .ok draft) :
    inspectGgufPlan size files path settings concurrent budgetMb =
      .ok (some (inputs size files path none settings concurrent budgetMb info draft).plan) := by
  simp only [inspectGgufPlan, planGgufInner, hinfo, hdraft, if_true]
  rfl

variable {plan : ModelMemoryPlan}

/-- There is a plan where the header and the draft can be read, and the plan is within the budget.
-/
theorem planGguf_eq_ok :
    planGguf size files path projector settings concurrent budgetMb = .ok (some plan) ↔
      ∃ info draft, files.read path = .ok info ∧
        draftPlan size files settings concurrent = .ok draft ∧
        plan = (inputs size files path projector settings concurrent budgetMb info draft).plan ∧
        (inputs size files path projector settings concurrent budgetMb info draft).total
          plan.contextTokens ≤ budgetMb := by
  constructor
  · intro h
    cases hinfo : files.read path with
    | error e =>
      rw [planGguf, planGgufInner, hinfo] at h
      obtain ⟨_ | reason, display⟩ := e <;> cases h
    | ok info =>
      cases hdraft : draftPlan size files settings concurrent with
      | error e =>
        rw [planGguf, planGgufInner, hinfo, hdraft] at h
        cases h
      | ok draft =>
        rw [planGguf_eq hinfo hdraft] at h
        dsimp only at h
        split at h
        next hfits =>
          obtain rfl := Option.some.inj (Except.ok.inj h)
          exact ⟨info, draft, rfl, rfl, rfl, hfits⟩
        next => cases h
  · rintro ⟨info, draft, hinfo, hdraft, rfl, hfits⟩
    rw [planGguf_eq hinfo hdraft]
    exact if_pos hfits

/-- An inspection has a plan where the header and the draft can be read. -/
theorem inspectGgufPlan_eq_ok :
    inspectGgufPlan size files path settings concurrent budgetMb = .ok (some plan) ↔
      ∃ info draft, files.read path = .ok info ∧
        draftPlan size files settings concurrent = .ok draft ∧
        plan = (inputs size files path none settings concurrent budgetMb info draft).plan := by
  constructor
  · intro h
    cases hinfo : files.read path with
    | error e =>
      rw [inspectGgufPlan, planGgufInner, hinfo] at h
      obtain ⟨_ | reason, display⟩ := e <;> cases h
    | ok info =>
      cases hdraft : draftPlan size files settings concurrent with
      | error e =>
        rw [inspectGgufPlan, planGgufInner, hinfo, hdraft] at h
        cases h
      | ok draft =>
        rw [inspectGgufPlan_eq hinfo hdraft] at h
        exact ⟨info, draft, rfl, rfl, (Option.some.inj (Except.ok.inj h)).symm⟩
  · rintro ⟨info, draft, hinfo, hdraft, rfl⟩
    exact inspectGgufPlan_eq hinfo hdraft

/-- An inspection has the plan of a load. -/
theorem inspectGgufPlan_of_planGguf
    (h : planGguf size files path none settings concurrent budgetMb = .ok (some plan)) :
    inspectGgufPlan size files path settings concurrent budgetMb = .ok (some plan) := by
  obtain ⟨info, draft, hinfo, hdraft, hplan, -⟩ := planGguf_eq_ok.1 h
  exact inspectGgufPlan_eq_ok.2 ⟨info, draft, hinfo, hdraft, hplan⟩

/-- A larger budget has a plan wherever a smaller one has. -/
theorem exists_planGguf_of_le {budgetMb' : Nat} (hle : budgetMb ≤ budgetMb')
    (h : planGguf size files path projector settings concurrent budgetMb = .ok (some plan)) :
    ∃ plan', planGguf size files path projector settings concurrent budgetMb' =
      .ok (some plan') := by
  obtain ⟨info, draft, hinfo, hdraft, rfl, hfits⟩ := planGguf_eq_ok.1 h
  have hmem := (inputs size files path projector settings concurrent budgetMb info
    draft).candidate_best.mem
  rw [← Inputs.contextTokens_plan] at hmem
  have hlarger := (inputs size files path projector settings concurrent budgetMb' info
    draft).candidate_best.largest _ hmem (hfits.trans hle)
  rw [← Inputs.contextTokens_plan] at hlarger
  exact ⟨_, planGguf_eq_ok.2 ⟨info, draft, hinfo, hdraft, rfl, hlarger.1⟩⟩

end Plans

/-- 2000 MiB of weights, trained on 8192 tokens. -/
def twoThousand : ModelInfo := ⟨2000 * 1024 * 1024, some 8192, eightBillion⟩

/-- A machine with that file and no other. -/
def oneFile : GgufFiles where
  read path := if path = "model.gguf" then .ok twoThousand else .error ⟨none, "no such file"⟩
  residentMb _ _ := 2000

/-- Settings that ask for nothing. -/
def plain : EngineSettings Unit := ⟨none, none, some 0, none, none, none, ()⟩

theorem read_oneFile : oneFile.read "model.gguf" = .ok twoThousand := rfl

/-- 2800 MiB do not hold the 4096 tokens that are begun with. -/
theorem planGguf_oneFile :
    planGguf ModelInfo.sixFifths oneFile "model.gguf" none plain 1 2800 =
      .ok (some ⟨2000, 256, 500, 2756, 2048, 1, true, 2800⟩) := by
  have hselect : select ModelInfo.sixFifths twoThousand 2000 none 1 2800 false =
      .ok ⟨2000, 256, 500, 2756, 2048, 1, true, 2800⟩ := by
    decide +kernel
  have hweights : weightsMb oneFile "model.gguf" none plain.gpuLayers = 2000 := by
    decide +kernel
  have hdraft : draftPlan ModelInfo.sixFifths oneFile plain 1 = .ok none := rfl
  have hctx : plain.ctxSize = none := rfl
  simp only [planGguf, planGgufInner, read_oneFile, hdraft, hweights, hctx, draftMb,
    Option.elim_none, Nat.sub_zero, Option.isSome_none, if_neg Bool.false_ne_true, hselect]
  rfl

end Gen2.MemoryPlan
