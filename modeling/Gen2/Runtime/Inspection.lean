import Gen2.Lib.Loop
import Gen2.MemoryPlan
import Gen2.Runtime.Ledger

/-!
# Inspecting what a load would be told

`inspect_local_admission` of `api/runtime/admission.rs` next to `load_local`: the one plans and
checks without taking anything, the other goes through the places of the holder of the admission
lock.

* `allows_iff`: what a plan is checked against at last is the budget that it was made for, and the
  pressure.
* `planGguf_isSome`: the plan that room is made for is there wherever a smaller budget has one.
* `returns_room`, `returns_budget` and `returns_admission` take a load with nothing to evict through
  its three readings of the ledger.
* `fits_iff_admitted`: an inspection says that a model fits exactly where a load has the same plan
  and is admitted.  A load that has no plan goes by the weights, and an inspection refuses:
  `weights_admitted`.
-/

namespace Gen2.Runtime

open Lib MemoryPlan Sizing

variable {ρ : Type}

/-! ## The inspection -/

/-- `AdmissionLedger`. -/
structure AdmissionLedger where
  residentModelsMb : Nat
  speechReservedMb : Nat
  decisionReservedMb : Nat
  diarizationReservedMb : Nat
  workingReservedMb : Nat
  totalMb : Option Nat

/-- `LocalAdmissionReport`. -/
structure LocalAdmissionReport where
  plan : MemoryPlan.ModelMemoryPlan
  snapshot : MemoryGovernor
  ledger : AdmissionLedger
  remainingQuotaMb : Nat
  remainingProcessMb : Nat
  checks : AdmissionChecks
  fitsWithoutEviction : Bool

/-- How an inspection is refused. -/
inductive InspectError
  | invalidRequest (text : String)
  | load (text : String)
  deriving DecidableEq

/-- The files of a machine.  A path whose header can be read is that of a file. -/
structure LocalFiles extends GgufFiles where
  isFile : String → Bool
  isFile_of_read : ∀ path info, read path = .ok info → isFile path = true

/-- `plan_gguf`, with what a load takes from it. -/
def loadPlan (size : SizeHeuristic) (files : GgufFiles) (path : String) (projector : Option String)
    (settings : EngineSettings ρ) (concurrent budgetMb : Nat) :
    Except String (Option Controller.ModelMemoryPlan) :=
  (planGguf size files path projector settings concurrent budgetMb).map
    (Option.map fun plan => ⟨plan.totalMb, plan.contextTokens⟩)

namespace RuntimeInner

/-- `admission_ledger`, with nothing in between. -/
def admissionLedger (s : RuntimeInner ρ) : AdmissionLedger where
  residentModelsMb := s.residentMb.getD (2 ^ 64 - 1)
  speechReservedMb := s.reserved .speech
  decisionReservedMb := s.reserved .decision
  diarizationReservedMb := s.reserved .diarization
  workingReservedMb := s.reserved .working
  totalMb := s.residentMb.bind fun resident =>
    (Auxiliary.all.map s.reserved).foldlM checkedAdd resident

/-- What is reported of a plan. -/
def report (g : MemoryGovernor) (plan : MemoryPlan.ModelMemoryPlan) (s : RuntimeInner ρ) :
    LocalAdmissionReport :=
  let checks := checkAdmission s.admissionLedger.totalMb plan.totalMb g
  { plan
    snapshot := g
    ledger := s.admissionLedger
    remainingQuotaMb := s.admissionLedger.totalMb.elim 0 (g.inferenceResidentMb - ·)
    remainingProcessMb := g.processSoftLimitMb - g.estimatedProcessMb - 1
    checks
    fitsWithoutEviction := checks.allows }

/-- `inspect_local_admission`. -/
def inspectLocalAdmission (size : SizeHeuristic) (files : LocalFiles) (maxActiveChats : Nat)
    (g : MemoryGovernor) (path : String) (settings : EngineSettings ρ) (s : RuntimeInner ρ) :
    Except InspectError LocalAdmissionReport :=
  if !files.isFile path then .error (.invalidRequest "inspection requires a local GGUF file")
  else
    match inspectGgufPlan size files.toGgufFiles path settings maxActiveChats
        (availableMb g s.admissionLedger.totalMb) with
    | .error e => .error (.load e)
    | .ok none => .error (.load "inspection requires supported GGUF geometry")
    | .ok (some plan) => .ok (s.report g plan)

/-- The holder of the lock goes on, until what it asks for is admitted or it has let go. -/
def untilAdmitted (config : Controller.ControllerConfig ρ) (g : MemoryGovernor) (o : Outside ρ)
    (s : RuntimeInner ρ) : RuntimeInner ρ ⊕ Option (Op ρ × Nat) :=
  match s.admission with
  | none => .inr none
  | some ⟨op, .charging mb⟩ => .inr (some (op, mb))
  | some h => .inl (s.advance config g o h.op h.stage)

end RuntimeInner

/-! ## The checks -/

variable {g : MemoryGovernor} {total : Option Nat} {mb : Nat}

/-- What is admitted is within the budget of the ledger and the snapshot, and the pressure is low.
-/
theorem allows_iff (hquota : g.inferenceResidentMb < 2 ^ 64)
    (hlimit : g.processSoftLimitMb < 2 ^ 64)
    (hmb : 0 < mb) :
    fits g total mb = true ↔ mb ≤ availableMb g total ∧ g.atLeast .severe = false := by
  cases total with
  | none =>
    have hnot : ¬ mb ≤ availableMb g none := Nat.not_le.2 hmb
    exact iff_of_false (by simp [fits, AdmissionChecks.allows, checkAdmission]) fun h => hnot h.1
  | some total =>
    rw [fits_iff]
    have hiff : ((total + mb < 2 ^ 64 ∧ total + mb ≤ g.inferenceResidentMb) ∧
        g.estimatedProcessMb + mb < 2 ^ 64 ∧ g.estimatedProcessMb + mb < g.processSoftLimitMb) ↔
          mb ≤ availableMb g (some total) := by
      simp only [availableMb, Controller.availableForModelMb, Option.elim_some]
      omega
    rw [← hiff]
    exact and_assoc.symm

theorem availableMb_lt (hlimit : g.processSoftLimitMb < 2 ^ 64) :
    availableMb g total < 2 ^ 64 - 1 := by
  cases total with
  | none => exact Nat.lt_of_lt_of_le Nat.zero_lt_one (by decide)
  | some total =>
    simp only [availableMb, Controller.availableForModelMb, Option.elim_some]
    omega

namespace RuntimeInner

variable {size : SizeHeuristic} {files : LocalFiles} {maxActiveChats : Nat} {path : String}
  {settings : EngineSettings ρ} {s : RuntimeInner ρ} {plan : MemoryPlan.ModelMemoryPlan}

/-- An inspection reports that a model fits where a load's planner has the same plan and the checks
pass. -/
theorem inspect_fits_iff (hquota : g.inferenceResidentMb < 2 ^ 64)
    (hlimit : g.processSoftLimitMb < 2 ^ 64) :
    (∃ report, s.inspectLocalAdmission size files maxActiveChats g path settings = .ok report ∧
        report.fitsWithoutEviction = true ∧ report.plan = plan) ↔
      planGguf size files.toGgufFiles path none settings maxActiveChats
          (availableMb g s.admissionLedger.totalMb) = .ok (some plan) ∧
        fits g s.admissionLedger.totalMb plan.totalMb = true := by
  constructor
  · rintro ⟨report, hreport, hfits, rfl⟩
    simp only [inspectLocalAdmission] at hreport
    split at hreport
    · cases hreport
    split at hreport
    · cases hreport
    · cases hreport
    next plan hplan =>
      obtain rfl := Except.ok.inj hreport
      obtain ⟨info, draft, hinfo, hdraft, rfl⟩ := inspectGgufPlan_eq_ok.1 hplan
      have hle := ((allows_iff hquota hlimit (Inputs.totalMb_plan_pos _)).1 hfits).1
      have hlt : availableMb g s.admissionLedger.totalMb < 2 ^ 64 - 1 := availableMb_lt hlimit
      rw [Inputs.totalMb_plan] at hle
      refine ⟨planGguf_eq_ok.2 ⟨info, draft, hinfo, hdraft, rfl, ?_⟩, hfits⟩
      exact (min_le_iff.1 hle).resolve_right (Nat.not_le.2 hlt)
  · rintro ⟨hplan, hfits⟩
    obtain ⟨info, -, hinfo, -⟩ := planGguf_eq_ok.1 hplan
    refine ⟨s.report g plan, ?_, hfits, rfl⟩
    simp only [inspectLocalAdmission, files.isFile_of_read path info hinfo,
      inspectGgufPlan_of_planGguf hplan]
    rfl

/-! ## The load -/

variable {config : Controller.ControllerConfig ρ} {o : Outside ρ} {op : Op ρ}
  {r : Option (Op ρ × Nat)}

/-- The rest of the ledger read, from some counter on. -/
def readRest (s : RuntimeInner ρ) (left : List Auxiliary) (total : Option Nat) : Option Nat :=
  total.bind fun total => (left.map s.reserved).foldlM checkedAdd total

theorem readRest_cons (s : RuntimeInner ρ) (kind : Auxiliary) (left : List Auxiliary)
    (total : Option Nat) :
    s.readRest (kind :: left) total =
      s.readRest left (total.bind (checkedAdd · (s.reserved kind))) := by
  cases total <;> rfl

/-- The ledger as it is read in between, which comes to the same where nothing changes. -/
theorem returns_read (place : Reading → Stage) {opened : Nat}
    (hplace : ∀ total kind left,
      untilAdmitted config g o (s.goto op (place ⟨total, kind :: left, opened⟩)) =
        .inl (s.goto op (place ⟨total.bind (checkedAdd · (s.reserved kind)), left, opened⟩)))
    (left : List Auxiliary) (total : Option Nat) :
    Returns (untilAdmitted config g o) (s.goto op (place ⟨total, left, opened⟩)) r ↔
      Returns (untilAdmitted config g o)
        (s.goto op (place ⟨s.readRest left total, [], opened⟩)) r := by
  induction left generalizing total with
  | nil =>
    have hnil : s.readRest [] total = total := by cases total <;> rfl
    rw [hnil]
  | cons kind left ih =>
    rw [readRest_cons]
    exact (returns_next (hplace total kind left)).trans (ih _)

variable {load : Controller.LoadModel ρ} {weightMb : Nat}

/-- `make_room`, where there is nothing to evict, has no effect whether or not there is room. -/
theorem returns_room (want : Nat) (hnothing : s.candidates none = []) :
    Returns (untilAdmitted config g o) (s.makeRoom (.load load weightMb) want) r ↔
      Returns (untilAdmitted config g o)
        (s.goto (.load load weightMb) (.budget s.openReading)) r := by
  refine (returns_read (.room want) (fun _ _ _ => rfl) Auxiliary.all s.residentMb).trans ?_
  have hends : untilAdmitted config g o (s.goto (.load load weightMb)
      (.room want ⟨s.readRest Auxiliary.all s.residentMb, [], s.totalMb⟩)) =
        .inl (if fits g (s.readRest Auxiliary.all s.residentMb) want then
          s.goto (.load load weightMb) (.budget s.openReading)
        else
          s.goto (.load load weightMb) (.ranking want
            ⟨s.readRest Auxiliary.all s.residentMb, [], s.totalMb⟩
            (o.order.arrange (s.candidates none)) [])) := by
    change Sum.inl (if _ then _ else _) = _
    rfl
  refine (returns_next hends).trans ?_
  split
  · exact Iff.rfl
  · have harrange : o.order.arrange (s.candidates none) = [] :=
      List.Perm.eq_nil (hnothing ▸ o.order.perm (s.candidates none))
    rw [harrange]
    exact returns_next rfl

/-- Where a load reads what there is for its plan. -/
theorem returns_budget :
    Returns (untilAdmitted config g o)
        (s.goto (.load load weightMb) (.budget s.openReading)) r ↔
      match o.env.planGguf load.modelPath load.mmprojPath load.settings config.maxActiveChats
          (availableMb g s.admissionLedger.totalMb) with
      | .error _ => r = none
      | .ok plan =>
        Returns (untilAdmitted config g o)
          (s.goto (.load { load with settings := Controller.plannedSettings plan load.settings }
            weightMb) (.admission (plan.elim weightMb Controller.ModelMemoryPlan.totalMb)
              s.openReading)) r := by
  refine (returns_read .budget (fun _ _ _ => rfl) Auxiliary.all s.residentMb).trans ?_
  change Returns _ (s.goto (.load load weightMb)
    (.budget ⟨s.admissionLedger.totalMb, [], s.totalMb⟩)) r ↔ _
  have hends : untilAdmitted config g o (s.goto (.load load weightMb)
      (.budget ⟨s.admissionLedger.totalMb, [], s.totalMb⟩)) =
        .inl (match o.env.planGguf load.modelPath load.mmprojPath load.settings
            config.maxActiveChats (availableMb g s.admissionLedger.totalMb) with
          | .error _ => (s.goto (.load load weightMb)
              (.budget ⟨s.admissionLedger.totalMb, [], s.totalMb⟩)).unlock
          | .ok plan =>
            s.goto (.load { load with settings := Controller.plannedSettings plan load.settings }
              weightMb) (.admission (plan.elim weightMb Controller.ModelMemoryPlan.totalMb)
                s.openReading)) := rfl
  refine (returns_next hends).trans ?_
  split
  · exact returns_done rfl
  · exact Iff.rfl

/-- Where a load asks to be admitted. -/
theorem returns_admission (mb : Nat) :
    Returns (untilAdmitted config g o)
        (s.goto (.load load weightMb) (.admission mb s.openReading)) r ↔
      r = if fits g s.admissionLedger.totalMb mb then some (.load load weightMb, mb) else none := by
  refine (returns_read (.admission mb) (fun _ _ _ => rfl) Auxiliary.all s.residentMb).trans ?_
  change Returns _ (s.goto (.load load weightMb)
    (.admission mb ⟨s.admissionLedger.totalMb, [], s.totalMb⟩)) r ↔ _
  have hends : untilAdmitted config g o (s.goto (.load load weightMb)
      (.admission mb ⟨s.admissionLedger.totalMb, [], s.totalMb⟩)) =
        .inl (if fits g s.admissionLedger.totalMb mb then
          s.goto (.load load weightMb) (.charging mb)
        else
          (s.goto (.load load weightMb)
            (.admission mb ⟨s.admissionLedger.totalMb, [], s.totalMb⟩)).unlock) := rfl
  refine (returns_next hends).trans ?_
  split
  · exact returns_done rfl
  · exact returns_done rfl

/-- A load with a plan and nothing to evict is admitted where its plan passes the checks. -/
theorem returns_load (hlimit : g.processSoftLimitMb < 2 ^ 64) (hnothing : s.candidates none = [])
    (hplanner : o.env.planGguf = loadPlan size files.toGgufFiles)
    (hplan : planGguf size files.toGgufFiles load.modelPath load.mmprojPath load.settings
      config.maxActiveChats (availableMb g s.admissionLedger.totalMb) = .ok (some plan)) :
    Returns (untilAdmitted config g o) (s.goto (.load load weightMb) .entered) r ↔
      r = if fits g s.admissionLedger.totalMb plan.totalMb then
          some (.load { load with
            settings := { load.settings with ctxSize := some plan.contextTokens } } weightMb,
            plan.totalMb)
        else none := by
  have hlt : availableMb g s.admissionLedger.totalMb < 2 ^ 64 - 1 := availableMb_lt hlimit
  obtain ⟨ideal, hideal⟩ := exists_planGguf_of_le hlt.le hplan
  have hfirst : o.env.planGguf load.modelPath load.mmprojPath load.settings config.maxActiveChats
      (2 ^ 64 - 1) = .ok (some ⟨ideal.totalMb, ideal.contextTokens⟩) := by
    rw [hplanner, loadPlan, hideal]
    rfl
  have hsecond : o.env.planGguf load.modelPath load.mmprojPath load.settings config.maxActiveChats
      (availableMb g s.admissionLedger.totalMb) =
        .ok (some ⟨plan.totalMb, plan.contextTokens⟩) := by
    rw [hplanner, loadPlan, hplan]
    rfl
  have henter : untilAdmitted config g o (s.goto (.load load weightMb) .entered) =
      .inl (s.makeRoom (.load load weightMb) ideal.totalMb) := by
    have hstep : untilAdmitted config g o (s.goto (.load load weightMb) .entered) =
        .inl ((s.goto (.load load weightMb) .entered).enter config o (.load load weightMb)) := rfl
    rw [hstep, enter, hfirst]
    rfl
  refine (returns_next henter).trans ((returns_room _ hnothing).trans (returns_budget.trans ?_))
  rw [hsecond]
  exact returns_admission _

/-- **Inspecting and loading.**  Where nothing can be evicted and there is no projector, an
inspection reports that a model fits with a plan exactly where a load over the same ledger and
snapshot has that plan and is admitted with it. -/
theorem fits_iff_admitted (size : SizeHeuristic) (files : LocalFiles)
    (config : Controller.ControllerConfig ρ) (g : MemoryGovernor) (o : Outside ρ)
    (s : RuntimeInner ρ) (load : Controller.LoadModel ρ) (weightMb : Nat)
    (plan : MemoryPlan.ModelMemoryPlan) (hquota : g.inferenceResidentMb < 2 ^ 64)
    (hlimit : g.processSoftLimitMb < 2 ^ 64) (hnothing : s.candidates none = [])
    (hprojector : load.mmprojPath = none)
    (hplanner : o.env.planGguf = loadPlan size files.toGgufFiles) :
    (∃ report, s.inspectLocalAdmission size files config.maxActiveChats g load.modelPath
          load.settings = .ok report ∧
        report.fitsWithoutEviction = true ∧ report.plan = plan) ↔
      planGguf size files.toGgufFiles load.modelPath load.mmprojPath load.settings
          config.maxActiveChats (availableMb g s.admissionLedger.totalMb) = .ok (some plan) ∧
        Returns (untilAdmitted config g o) (s.goto (.load load weightMb) .entered)
          (some (.load { load with
            settings := { load.settings with ctxSize := some plan.contextTokens } } weightMb,
            plan.totalMb)) := by
  obtain ⟨path, projector, settings, apiKey, apiFormat, apiModel⟩ := load
  obtain rfl : projector = none := hprojector
  refine (inspect_fits_iff hquota hlimit).trans (and_congr_right fun hplan => ?_)
  rw [returns_load hlimit hnothing hplanner hplan]
  split
  next h => exact iff_of_true h rfl
  next h => exact iff_of_false h nofun

/-! ### A model that fits, and a file without a header -/

/-- An outside that plans with these files. -/
def surroundings (files : LocalFiles) : Outside Unit where
  env := { Controller.Env.smooth Unit with
    planGguf := loadPlan ModelInfo.sixFifths files.toGgufFiles }
  order := ⟨fun ids => ids, fun _ => .rfl⟩
  preflight := .error "no engine"
  factory := true
  teardown := true

/-- A machine with one model. -/
def oneModel : LocalFiles :=
  { oneFile with
    isFile := fun path => path == "model.gguf"
    isFile_of_read := fun path info h => by
      by_contra hne
      have hpath : path ≠ "model.gguf" := by simpa using hne
      have hread : oneFile.read path = .error ⟨none, "no such file"⟩ := if_neg hpath
      exact nomatch hread.symm.trans h }

/-- A machine with one file, whose architecture is not told. -/
def noHeader : LocalFiles where
  read _ := .error ⟨none, "model.gguf has no usable architecture metadata"⟩
  residentMb _ _ := 256
  isFile path := path == "model.gguf"
  isFile_of_read _ _ h := nomatch h

/-- A load of the file, with settings that ask for nothing. -/
def loadOf : Controller.LoadModel Unit := ⟨"model.gguf", none, plain, none, none, none⟩

/-- 2800 MB of quota, and nothing loaded. -/
def roomy : MemoryGovernor := ⟨.normal, 2800, 5000, 100⟩

theorem oneModel_admitted :
    Returns (untilAdmitted (.plain 1) roomy (surroundings oneModel))
      ((initial : RuntimeInner Unit).goto (.load loadOf 2000) .entered)
      (some (.load { loadOf with settings := { plain with ctxSize := some 2048 } } 2000,
        2756)) := by
  have hinspect : inspectGgufPlan ModelInfo.sixFifths oneModel.toGgufFiles "model.gguf" plain 1
      2800 = .ok (some ⟨2000, 256, 500, 2756, 2048, 1, true, 2800⟩) :=
    inspectGgufPlan_of_planGguf planGguf_oneFile
  have hfile : oneModel.isFile "model.gguf" = true := rfl
  have havailable : availableMb roomy (initial : RuntimeInner Unit).admissionLedger.totalMb =
      2800 := by decide +kernel
  have hreport : (initial : RuntimeInner Unit).inspectLocalAdmission ModelInfo.sixFifths oneModel 1
      roomy "model.gguf" plain =
        .ok ((initial : RuntimeInner Unit).report roomy
          ⟨2000, 256, 500, 2756, 2048, 1, true, 2800⟩) := by
    simp only [inspectLocalAdmission, hfile, havailable, hinspect]
    rfl
  exact ((fits_iff_admitted ModelInfo.sixFifths oneModel (.plain 1) roomy (surroundings oneModel)
    initial loadOf 2000 _ (by decide) (by decide) rfl rfl rfl).1
      ⟨_, hreport, by decide +kernel, rfl⟩).2

/-- Where no header can be read a load goes by the weights, and an inspection has nothing to
report. -/
theorem weights_admitted :
    ¬ ((∃ report, (initial : RuntimeInner Unit).inspectLocalAdmission ModelInfo.sixFifths noHeader 1
            roomy loadOf.modelPath loadOf.settings = .ok report ∧
          report.fitsWithoutEviction = true) ↔
        ∃ op mb, Returns (untilAdmitted (.plain 1) roomy (surroundings noHeader))
          ((initial : RuntimeInner Unit).goto (.load loadOf 256) .entered) (some (op, mb))) := by
  intro h
  have hadmitted : Returns (untilAdmitted (.plain 1) roomy (surroundings noHeader))
      ((initial : RuntimeInner Unit).goto (.load loadOf 256) .entered)
      (some (.load loadOf 256, 256)) :=
    ⟨20, rfl⟩
  obtain ⟨report, hreport, -⟩ := h.2 ⟨_, _, hadmitted⟩
  exact absurd hreport nofun

end RuntimeInner

end Gen2.Runtime
