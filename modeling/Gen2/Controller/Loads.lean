import Gen2.Controller.Commands

/-!
# What a `LoadModel` leaves behind

`attempt_load` can end at six places.  `Attempted` has one constructor for each, which says what was
found on the way there and which state is left; everything else about a load is read off it.

* `attemptLoad_attempted`: every attempt ends at one of them.
* `tried`: the attempts that a ladder makes, each with the state it was made in.
* `loaded_settings_iff`: the settings after a load that works are those of its last rung exactly
  unless the rung replaced a backend that had already taken them.
* `failed_load_iff`: a load that fails leaves either the old model as it was or nothing at all
  exactly where there was nothing else to leave.
-/

namespace Gen2.Controller

open List Engine ResidencyInventory

variable {ρ : Type}

namespace ControllerState

variable {config : ControllerConfig ρ} {env : Env ρ} {s s' s₂ : ControllerState ρ}

/-! ## The engine's part -/

theorem loadModelWith_engine (config : ControllerConfig ρ) (env : Env ρ) (req : LoadRequest)
    (s : ControllerState ρ) :
    ((s.loadModelWith config env req).1, (s.loadModelWith config env req).2.engine) =
      s.engine.loadModelWith config.build env.detectBackend env.loads req := rfl

/-- A load changes the engine, and the sessions where it changes the backend. -/
theorem loadModelWith_frame (config : ControllerConfig ρ) (env : Env ρ) (req : LoadRequest)
    (s : ControllerState ρ) :
    (s.loadModelWith config env req).2 =
      { s with
        engine := (s.loadModelWith config env req).2.engine
        runtimes := (s.loadModelWith config env req).2.runtimes } := rfl

variable {req : LoadRequest}

theorem engine_of_loadModelWith {r : Except ExecError Unit}
    (h : s.loadModelWith config env req = (r, s₂)) :
    s.engine.loadModelWith config.build env.detectBackend env.loads req = (r, s₂.engine) := by
  rw [← loadModelWith_engine config env req s, h]

theorem isModelLoaded_loadModelWith (h : s.loadModelWith config env req = (.ok (), s₂)) :
    s₂.engine.isModelLoaded = true :=
  Engine.isModelLoaded_loadModelWith (engine_of_loadModelWith h)

/-- A load that fails does not bring weights in. -/
theorem isModelLoaded_of_loadModelWith_error {err : ExecError}
    (hloaded : s.engine.isModelLoaded = false)
    (h : s.loadModelWith config env req = (.error err, s₂)) : s₂.engine.isModelLoaded = false := by
  rcases loadModelWith_error (engine_of_loadModelWith h) with heq | ⟨kind, -, hswitch, heq⟩
  · rw [heq]
    exact hloaded
  · rw [heq]
    exact isModelLoaded_ensureBackend hswitch

/-! ## One attempt -/

section Spec

variable (config : ControllerConfig ρ) (env : Env ρ) (n : Nat) (load : LoadModel ρ)
  (mmprojPath : Option String) (settings : EngineSettings ρ)

/-- The attempt gets as far as to load the weights, which there was no backend to take the settings
before. -/
structure Deferred (plan : Option ModelMemoryPlan) (s s₂ : ControllerState ρ) : Prop where
  planned : (s.swapOut).memoryPlan config env n load mmprojPath settings = .ok plan
  admitted : (s.swapOut).residency.canAdmit .llm
    (estimatedMb env plan (buildLoadRequest load mmprojPath (plannedSettings plan settings)))
    (env.governor n) = true
  deferred : (s.swapOut).engine.uploadSettings config.build (plannedSettings plan settings) =
    .error .modelNotLoaded
  loads : (s.swapOut).loadModelWith config env
    (buildLoadRequest load mmprojPath (plannedSettings plan settings)) = (.ok (), s₂)

/-- The same where a backend took the settings first. -/
structure Uploaded (plan : Option ModelMemoryPlan) (taken : Engine ρ) (s s₂ : ControllerState ρ) :
    Prop where
  planned : (s.swapOut).memoryPlan config env n load mmprojPath settings = .ok plan
  admitted : (s.swapOut).residency.canAdmit .llm
    (estimatedMb env plan (buildLoadRequest load mmprojPath (plannedSettings plan settings)))
    (env.governor n) = true
  uploaded : (s.swapOut).engine.uploadSettings config.build (plannedSettings plan settings) =
    .ok taken
  loads : ({ s.swapOut with engine := taken } : ControllerState ρ).loadModelWith config env
    (buildLoadRequest load mmprojPath (plannedSettings plan settings)) = (.ok (), s₂)

/-- The engine is asked for the weights: there is a plan, it is admitted, and the settings are with
a backend or wait for one. -/
def Asks (s : ControllerState ρ) : Prop :=
  ∃ plan, (s.swapOut).memoryPlan config env n load mmprojPath settings = .ok plan ∧
    (s.swapOut).residency.canAdmit .llm
      (estimatedMb env plan (buildLoadRequest load mmprojPath (plannedSettings plan settings)))
      (env.governor n) = true ∧
    ((∃ taken, (s.swapOut).engine.uploadSettings config.build (plannedSettings plan settings) =
        .ok taken) ∨
      (s.swapOut).engine.uploadSettings config.build (plannedSettings plan settings) =
        .error .modelNotLoaded)

/-- What an attempt comes to, and the state it leaves. -/
inductive Attempted (s : ControllerState ρ) :
    Except LoadAttemptError Unit → ControllerState ρ → Prop
  /-- No plan, no admission, or settings that are refused: the engine is not asked. -/
  | stopped (e : LoadAttemptError) (hno : ¬ Asks config env n load mmprojPath settings s) :
      Attempted s (.error e) (s.swapOut)
  /-- The weights do not load. -/
  | unloadable (e : LoadAttemptError) {err : ExecError} {s₁ s₂ : ControllerState ρ}
      {req : LoadRequest} (hasks : Asks config env n load mmprojPath settings s)
      (hreq : req.modelPath = load.modelPath)
      (hs₁ : s₁ = s.swapOut ∨ ∃ taken settings',
        (s.swapOut).engine.uploadSettings config.build settings' = .ok taken ∧
          s₁ = { s.swapOut with engine := taken })
      (hload : s₁.loadModelWith config env req = (.error err, s₂)) : Attempted s (.error e) s₂
  /-- The weights are in, and the settings that were kept for then are refused. -/
  | late (e : LoadAttemptError) {err : ExecError} {plan : Option ModelMemoryPlan}
      {s₂ : ControllerState ρ} (h : Deferred config env n load mmprojPath settings plan s s₂)
      (hrefused : s₂.engine.uploadSettings config.build (plannedSettings plan settings) =
        .error err) : Attempted s (.error e) s₂
  /-- The weights are in, and the backend had taken the settings before. -/
  | loadedAfter {plan : Option ModelMemoryPlan} {taken : Engine ρ} {s₂ : ControllerState ρ}
      {entry : ResidentRuntime} (hkind : entry.kind = .llm)
      (h : Uploaded config env n load mmprojPath settings plan taken s s₂) :
      Attempted s (.ok ()) { s₂ with residency := s₂.residency.put entry }
  /-- The weights are in, and the backend takes the settings now. -/
  | loadedBefore {plan : Option ModelMemoryPlan} {engine : Engine ρ} {s₂ : ControllerState ρ}
      {entry : ResidentRuntime} (hkind : entry.kind = .llm)
      (h : Deferred config env n load mmprojPath settings plan s s₂)
      (htaken : s₂.engine.uploadSettings config.build (plannedSettings plan settings) =
        .ok engine) :
      Attempted s (.ok ()) { s₂ with engine := engine, residency := s₂.residency.put entry }

end Spec

theorem residency_of_loadModelWith {r : Except ExecError Unit}
    (h : s.loadModelWith config env req = (r, s₂)) : s₂.residency = s.residency := by
  rw [← congrArg (fun x => x.2.residency) h, loadModelWith_frame]

/-- An admission that was granted is granted again while the inventory is as it was. -/
theorem admit_of_canAdmit {r : ResidencyInventory} {runtime : ResidentRuntime} {g : MemoryGovernor}
    (h : r.canAdmit runtime.kind runtime.estimatedResidentMb g = true) :
    r.admitRuntime runtime g = (true, r.put runtime) := by
  rw [admitRuntime, if_pos h]

theorem loadWeights_error {n : Nat} {mb : Nat} {deferred : Option (EngineSettings ρ)}
    {err : ExecError} (h : s.loadModelWith config env req = (.error err, s₂)) :
    s.loadWeights config env n req mb deferred =
      (.error ⟨config.debug err, loadErrorIsFatal err⟩, s₂) := by
  rw [loadWeights, h]

theorem loadWeights_none {n : Nat} {mb : Nat}
    (hadmits : s.residency.canAdmit .llm mb (env.governor n) = true)
    (h : s.loadModelWith config env req = (.ok (), s₂)) :
    s.loadWeights config env n req mb none =
      (.ok (), { s₂ with
        residency := s₂.residency.put ⟨.llm, req.modelPath, mb, env.unixNow⟩ }) := by
  rw [loadWeights, h]
  dsimp only
  rw [admit_of_canAdmit (residency_of_loadModelWith h ▸ hadmits)]

theorem loadWeights_some {n : Nat} {mb : Nat} {settings : EngineSettings ρ}
    (hadmits : s.residency.canAdmit .llm mb (env.governor n) = true)
    (h : s.loadModelWith config env req = (.ok (), s₂)) :
    s.loadWeights config env n req mb (some settings) =
      match s₂.engine.uploadSettings config.build settings with
      | .error err => (.error ⟨config.debug err, loadErrorIsFatal err⟩, s₂)
      | .ok engine => (.ok (), { s₂ with
          engine := engine
          residency := s₂.residency.put ⟨.llm, req.modelPath, mb, env.unixNow⟩ }) := by
  rw [loadWeights, h]
  dsimp only
  rcases s₂.engine.uploadSettings config.build settings with err | engine
  · rfl
  · rw [admit_of_canAdmit (residency_of_loadModelWith h ▸ hadmits)]

/-- **Every attempt ends at one of six places.** -/
theorem attemptLoad_attempted (config : ControllerConfig ρ) (env : Env ρ) (n : Nat)
    (load : LoadModel ρ) (mmprojPath : Option String) (settings : EngineSettings ρ)
    (loadedFileBytes : Option Nat) (s : ControllerState ρ) :
    Attempted config env n load mmprojPath settings s
      (s.attemptLoad config env n load mmprojPath settings loadedFileBytes).1
      (s.attemptLoad config env n load mmprojPath settings loadedFileBytes).2.1 := by
  rw [attemptLoad]
  dsimp only
  split
  · next hplan => exact .stopped _ fun ⟨_, h, _⟩ => nomatch hplan.symm.trans h
  · next plan hplan =>
    split
    · next hadmits =>
      refine .stopped _ ?_
      rintro ⟨plan', h, hadmits', -⟩
      obtain rfl := Except.ok.inj (hplan.symm.trans h)
      exact Bool.false_ne_true (hadmits.symm.trans hadmits')
    · next hadmits =>
      rw [Bool.not_eq_false] at hadmits
      split
      · next taken htaken =>
        rcases hload : ({ s.swapOut with engine := taken } : ControllerState ρ).loadModelWith
            config env (buildLoadRequest load mmprojPath (plannedSettings plan settings)) with
          ⟨_ | _, s₂⟩
        · rw [loadWeights_error hload]
          exact .unloadable _ ⟨plan, hplan, hadmits, .inl ⟨taken, htaken⟩⟩ rfl
            (.inr ⟨taken, _, htaken, rfl⟩) hload
        · rw [loadWeights_none (by exact hadmits) hload]
          exact .loadedAfter rfl ⟨hplan, hadmits, htaken, hload⟩
      · next hdeferred =>
        rcases hload : (s.swapOut).loadModelWith config env
            (buildLoadRequest load mmprojPath (plannedSettings plan settings)) with ⟨_ | _, s₂⟩
        · rw [loadWeights_error hload]
          exact .unloadable _ ⟨plan, hplan, hadmits, .inr hdeferred⟩ rfl (.inl rfl) hload
        rw [loadWeights_some hadmits hload]
        split
        · next err hupload => exact .late _ ⟨hplan, hadmits, hdeferred, hload⟩ hupload
        · next engine hupload =>
          exact .loadedBefore rfl ⟨hplan, hadmits, hdeferred, hload⟩ hupload
      · next err hmissing hrefused =>
        refine .stopped _ ?_
        rintro ⟨plan', h, -, htaken | hdeferred⟩
        all_goals obtain rfl := Except.ok.inj (hplan.symm.trans h)
        · obtain ⟨taken, htaken⟩ := htaken
          exact nomatch hrefused.symm.trans htaken
        · exact hmissing (Except.error.inj (hrefused.symm.trans hdeferred))

/-! ## The ladder -/

/-- One rung as it is tried. -/
structure Attempt (ρ : Type) where
  n : Nat
  rung : LoadRung
  loadedFileBytes : Option Nat
  before : ControllerState ρ

namespace Attempt

variable (config : ControllerConfig ρ) (env : Env ρ) (load : LoadModel ρ)

/-- The projector that a rung is tried with. -/
def mmprojPath (t : Attempt ρ) : Option String :=
  if t.rung.dropMmproj then none else load.mmprojPath

/-- The settings that a rung is tried with. -/
def settings (t : Attempt ρ) : EngineSettings ρ := t.rung.apply load.settings

/-- What `attempt_load` makes of it. -/
def outcome (t : Attempt ρ) : Except LoadAttemptError Unit × ControllerState ρ × Option Nat :=
  t.before.attemptLoad config env t.n load (t.mmprojPath load) (t.settings load) t.loadedFileBytes

theorem attempted (t : Attempt ρ) :
    Attempted config env t.n load (t.mmprojPath load) (t.settings load) t.before
      (t.outcome config env load).1 (t.outcome config env load).2.1 :=
  attemptLoad_attempted config env t.n load _ _ _ _

variable {config : ControllerConfig ρ} {env : Env ρ} {load : LoadModel ρ}

theorem attempted_of_error {t : Attempt ρ} {e : LoadAttemptError}
    (h : (t.outcome config env load).1 = .error e) :
    Attempted config env t.n load (t.mmprojPath load) (t.settings load) t.before (.error e)
      (t.outcome config env load).2.1 :=
  h ▸ t.attempted config env load

end Attempt

/-- The rungs that the ladder tries, from the `n`-th on. -/
def triedFrom (config : ControllerConfig ρ) (env : Env ρ) (load : LoadModel ρ) :
    List LoadRung → Nat → Option Nat → ControllerState ρ → List (Attempt ρ)
  | [], _, _, _ => []
  | rung :: rungs, n, loadedFileBytes, s =>
    let t : Attempt ρ := ⟨n, rung, loadedFileBytes, s⟩
    t :: match t.outcome config env load with
      | (.ok (), _, _) => []
      | (.error e, s, loadedFileBytes) =>
        if e.fatal then [] else triedFrom config env load rungs (n + 1) loadedFileBytes s

/-- The rungs that a `LoadModel` tries. -/
def tried (config : ControllerConfig ρ) (env : Env ρ) (load : LoadModel ρ)
    (s : ControllerState ρ) : List (Attempt ρ) :=
  triedFrom config env load (loadFallbackRungs load.settings load.mmprojPath.isSome) 0 none s

section Ladder

variable {load : LoadModel ρ} {total : Nat}

theorem loadLadder_cons (config : ControllerConfig ρ) (env : Env ρ) (load : LoadModel ρ)
    (total : Nat) (rung : LoadRung) (rungs : List LoadRung) (n : Nat) (history : List String)
    (r : Except String LoadOutcome) (bytes : Option Nat) (s : ControllerState ρ) :
    s.loadLadder config env load total (rung :: rungs) n history r bytes =
      match (⟨n, rung, bytes, s⟩ : Attempt ρ).outcome config env load with
      | (.ok (), s, bytes) => (.ok (rungOutcome rung), s, bytes)
      | (.error e, s, bytes) =>
        let history := history ++ [rung.label ++ ": " ++ e.message]
        let r := .error (ladderMessage total n history e.message)
        if e.fatal then
          (r, s, bytes)
        else
          s.loadLadder config env load total rungs (n + 1) history r bytes :=
  rfl

/-- **One rung**: the ladder ends there, or goes on from the state that the attempt leaves. -/
theorem loadLadder_step (config : ControllerConfig ρ) (env : Env ρ) (load : LoadModel ρ)
    (total : Nat) (rung : LoadRung) (rungs : List LoadRung) (n : Nat) (history : List String)
    (r : Except String LoadOutcome) (bytes : Option Nat) (s : ControllerState ρ) :
    (triedFrom config env load (rung :: rungs) n bytes s = [⟨n, rung, bytes, s⟩] ∧
        (s.loadLadder config env load total (rung :: rungs) n history r bytes).2.1 =
          ((⟨n, rung, bytes, s⟩ : Attempt ρ).outcome config env load).2.1) ∨
      ∃ s₁ bytes₁ history₁ r₁,
        ((⟨n, rung, bytes, s⟩ : Attempt ρ).outcome config env load).2.1 = s₁ ∧
        triedFrom config env load (rung :: rungs) n bytes s =
          ⟨n, rung, bytes, s⟩ :: triedFrom config env load rungs (n + 1) bytes₁ s₁ ∧
        s.loadLadder config env load total (rung :: rungs) n history r bytes =
          s₁.loadLadder config env load total rungs (n + 1) history₁ r₁ bytes₁ := by
  rw [loadLadder_cons, triedFrom]
  rcases (⟨n, rung, bytes, s⟩ : Attempt ρ).outcome config env load with ⟨e | _, s₁, bytes₁⟩
  · dsimp only
    split
    · exact .inl ⟨rfl, rfl⟩
    · exact .inr ⟨s₁, bytes₁, _, _, rfl, rfl, rfl⟩
  · exact .inl ⟨rfl, rfl⟩

/-- **What every attempt preserves, the ladder preserves.** -/
theorem loadLadder_invariant {I : ControllerState ρ → Prop} {rungs : List LoadRung} {n : Nat}
    {history : List String} {r : Except String LoadOutcome} {bytes : Option Nat}
    (hstep : ∀ t ∈ triedFrom config env load rungs n bytes s, I t.before →
      I (t.outcome config env load).2.1)
    (h0 : I s) : I (s.loadLadder config env load total rungs n history r bytes).2.1 := by
  induction rungs generalizing n history r bytes s with
  | nil => exact h0
  | cons rung rungs ih =>
    have h1 := hstep ⟨n, rung, bytes, s⟩ mem_cons_self h0
    rcases loadLadder_step config env load total rung rungs n history r bytes s with
      ⟨-, hend⟩ | ⟨s₁, bytes₁, _, _, rfl, htried, hnext⟩
    · rw [hend]
      exact h1
    · rw [htried] at hstep
      rw [hnext]
      exact ih (fun t ht => hstep t (mem_cons_of_mem _ ht)) h1

/-- It is enough that it holds once the first has been made. -/
theorem loadLadder_invariant_cons {I : ControllerState ρ → Prop} {rung : LoadRung}
    {rungs : List LoadRung} {n : Nat} {history : List String} {r : Except String LoadOutcome}
    {bytes : Option Nat}
    (hstep : ∀ t ∈ triedFrom config env load (rung :: rungs) n bytes s, I t.before →
      I (t.outcome config env load).2.1)
    (h₁ : I ((⟨n, rung, bytes, s⟩ : Attempt ρ).outcome config env load).2.1) :
    I (s.loadLadder config env load total (rung :: rungs) n history r bytes).2.1 := by
  rcases loadLadder_step config env load total rung rungs n history r bytes s with
    ⟨-, hend⟩ | ⟨s₁, bytes₁, _, _, rfl, htried, hnext⟩
  · rw [hend]
    exact h₁
  · rw [htried] at hstep
    rw [hnext]
    exact loadLadder_invariant (fun t ht => hstep t (mem_cons_of_mem _ ht)) h₁

/-- A ladder that works ends with the rung that did. -/
theorem loadLadder_ok {rungs : List LoadRung} {n : Nat} {history : List String} {message : String}
    {bytes bytes' : Option Nat} {outcome : LoadOutcome}
    (h : s.loadLadder config env load total rungs n history (.error message) bytes =
      (.ok outcome, s', bytes')) :
    ∃ t, (triedFrom config env load rungs n bytes s).getLast? = some t ∧
      t.outcome config env load = (.ok (), s', bytes') ∧ outcome = rungOutcome t.rung := by
  induction rungs generalizing n history message bytes s with
  | nil => exact nomatch h
  | cons rung rungs ih =>
    rw [loadLadder_cons] at h
    rw [triedFrom]
    rcases hout : (⟨n, rung, bytes, s⟩ : Attempt ρ).outcome config env load with ⟨e | _, s₁, bytes₁⟩
    · rw [hout] at h
      dsimp only at h ⊢
      split at h
      · exact nomatch h
      · next hfatal =>
        obtain ⟨t, hlast, ht, hrung⟩ := ih h
        refine ⟨t, ?_, ht, hrung⟩
        rw [if_neg hfatal, getLast?_cons, hlast]
        rfl
    · rw [hout] at h
      obtain ⟨hr, hs⟩ := Prod.mk.inj h
      exact ⟨⟨n, rung, bytes, s⟩, rfl, by rw [hout, hs], (Except.ok.inj hr).symm⟩

/-- Where the ladder fails, so did all it tried. -/
theorem loadLadder_error {rungs : List LoadRung} {n : Nat} {history : List String}
    {r : Except String LoadOutcome} {bytes bytes' : Option Nat} {message : String}
    (h : s.loadLadder config env load total rungs n history r bytes = (.error message, s',
      bytes')) :
    ∀ t ∈ triedFrom config env load rungs n bytes s,
      ∃ e, (t.outcome config env load).1 = .error e := by
  induction rungs generalizing n history r bytes s with
  | nil => exact fun t ht => absurd ht not_mem_nil
  | cons rung rungs ih =>
    rw [loadLadder_cons] at h
    intro t ht
    rw [triedFrom] at ht
    rcases hout : (⟨n, rung, bytes, s⟩ : Attempt ρ).outcome config env load with ⟨e | _, s₁, bytes₁⟩
    · rw [hout] at h ht
      dsimp only at h ht
      rcases mem_cons.1 ht with rfl | ht
      · exact ⟨e, by rw [hout]⟩
      split at h
      · next hfatal =>
        rw [if_pos hfatal] at ht
        exact absurd ht not_mem_nil
      · next hfatal =>
        rw [if_neg hfatal] at ht
        exact ih h t ht
    · rw [hout] at h
      exact nomatch h

end Ladder

/-! ## The settings after a load that works -/

theorem swapOut_backend (s : ControllerState ρ) :
    s.swapOut.engine = s.engine ∨ s.swapOut.engine = s.engine.unloadModel := by
  unfold swapOut
  split
  · exact .inr rfl
  · exact .inl rfl

theorem needsSwitch_swapOut (s : ControllerState ρ) (kind : BackendKind) :
    s.swapOut.engine.needsSwitch kind = s.engine.needsSwitch kind := by
  rcases swapOut_backend s with h | h
  · rw [h]
  · rw [h, needsSwitch_unloadModel]

/-- The path of the load belongs to another backend than the one in use. -/
def Switches (env : Env ρ) (load : LoadModel ρ) (s : ControllerState ρ) : Prop :=
  ∃ kind, env.detectBackend load.modelPath = .ok kind ∧ s.engine.needsSwitch kind = true

/-- The settings of a load once its backend had taken them: there still where the backend is kept,
and those of a new backend where it is not. -/
theorem settings_of_uploaded {n : Nat} {load : LoadModel ρ} {mmprojPath : Option String}
    {settings : EngineSettings ρ} {plan : Option ModelMemoryPlan} {taken : Engine ρ}
    (h : Uploaded config env n load mmprojPath settings plan taken s s₂) :
    (s.Switches env load → s₂.engine.settings config.build = config.build.defaultSettings) ∧
      (¬ s.Switches env load → s₂.engine.settings config.build = plannedSettings plan settings) := by
  have hengine := engine_of_loadModelWith h.loads
  obtain ⟨kind, -, hkind, -⟩ := loadModelWith_ok hengine
  have hswitch : taken.needsSwitch kind = s.engine.needsSwitch kind := by
    rw [needsSwitch_uploadSettings h.uploaded, needsSwitch_swapOut]
  rw [settings_loadModelWith hengine hkind]
  constructor
  · rintro ⟨kind', hkind', hswitches⟩
    obtain rfl := Except.ok.inj (hkind.symm.trans hkind')
    exact settings_ensureBackend (hswitch.trans hswitches)
  intro hkeeps
  have hsame : taken.needsSwitch kind = false := by
    rw [hswitch, Bool.eq_false_iff]
    exact fun htrue => hkeeps ⟨kind, hkind, htrue⟩
  rw [ensureBackend_of_needsSwitch hsame]
  exact settings_uploadSettings h.uploaded

/-- **The settings after a load that works.**  They are those of its last rung, which is the one
that worked, with the context that was planned, exactly where no backend had taken them before, or
the backend that had was kept, or a new one starts with the same. -/
theorem loaded_settings_iff {load : LoadModel ρ} {outcome : LoadOutcome}
    (h : (s.loadModel config env load).1 = .ok outcome) :
    ∃ t plan, (s.tried config env load).getLast? = some t ∧ outcome = rungOutcome t.rung ∧
      t.before.swapOut.memoryPlan config env t.n load (t.mmprojPath load) (t.settings load) =
        .ok plan ∧
      ((s.loadModel config env load).2.engine.settings config.build =
          plannedSettings plan (t.settings load) ↔
        t.before.swapOut.engine.uploadSettings config.build
            (plannedSettings plan (t.settings load)) = .error .modelNotLoaded ∨
          ¬ t.before.Switches env load ∨
          config.build.defaultSettings = plannedSettings plan (t.settings load)) := by
  unfold loadModel at h ⊢
  rcases hladder : s.runLadder config env load with ⟨message | outcome', s₁, bytes⟩
  · rw [hladder] at h
    exact nomatch h
  rw [hladder] at h
  cases h
  obtain ⟨t, hlast, hout, hrung⟩ := loadLadder_ok hladder
  have hattempted := t.attempted config env load
  rw [hout] at hattempted
  cases hattempted with
  | @loadedAfter plan taken s₂ entry _ hup =>
    refine ⟨t, plan, hlast, hrung, hup.planned, ?_⟩
    have hsettings := settings_of_uploaded hup
    have htaken : t.before.swapOut.engine.uploadSettings config.build
        (plannedSettings plan (t.settings load)) ≠ .error .modelNotLoaded := by
      rw [hup.uploaded]
      exact nofun
    constructor
    · intro heq
      by_cases hswitch : t.before.Switches env load
      · exact .inr (.inr ((hsettings.1 hswitch).symm.trans heq))
      · exact .inr (.inl hswitch)
    · rintro (hno | hkeeps | hdefault)
      · exact absurd hno htaken
      · exact hsettings.2 hkeeps
      · by_cases hswitch : t.before.Switches env load
        · exact (hsettings.1 hswitch).trans hdefault
        · exact hsettings.2 hswitch
  | @loadedBefore plan engine s₂ entry _ hdef htaken =>
    exact ⟨t, plan, hlast, hrung, hdef.planned,
      iff_of_true (Engine.settings_uploadSettings htaken) (.inl hdef.deferred)⟩

/-- A load of a GGUF file by a controller whose backend is llama.cpp. -/
theorem loaded_settings_gguf :
    let s := ControllerState.initial ⟨some (.new (ControllerConfig.plain 1).build .llamaCpp)⟩ 0
    let load : LoadModel Unit := ⟨"m.gguf", none, ⟨none, none, none, none, some 64, none, ()⟩, none,
      none, none⟩
    (s.loadModel (.plain 1) (.smooth Unit) load).2.engine.settings (ControllerConfig.plain 1).build =
      load.settings := by
  intro s load
  have hworks : (s.loadModel (.plain 1) (.smooth Unit) load).1 = .ok [] := rfl
  obtain ⟨t, plan, hlast, -, hplan, hiff⟩ := loaded_settings_iff hworks
  obtain rfl : (⟨0, ⟨"requested", false, false⟩, none, s⟩ : Attempt Unit) = t :=
    Option.some.inj hlast
  obtain rfl : none = plan := Except.ok.inj hplan
  refine hiff.2 (.inr (.inl ?_))
  rintro ⟨kind, hkind, hswitch⟩
  obtain rfl : BackendKind.llamaCpp = kind := Except.ok.inj hkind
  exact nomatch hswitch

/-- A load of an MLX model by the same controller, which says that it works. -/
theorem loaded_settings_not_always :
    let env := { Env.smooth Unit with detectBackend := fun _ => .ok .mlx }
    let s := ControllerState.initial ⟨some (.new (ControllerConfig.plain 1).build .llamaCpp)⟩ 0
    let load : LoadModel Unit := ⟨"m.mlx", none, ⟨none, none, none, none, some 64, none, ()⟩, none,
      none, none⟩
    (s.loadModel (.plain 1) env load).1 = .ok [] ∧
      (s.loadModel (.plain 1) env load).2.engine.settings (ControllerConfig.plain 1).build ≠
        load.settings := by
  decide

/-! ## What a load that fails leaves -/

/-- What no part of a load touches until it has worked. -/
structure LoadFrame (s s' : ControllerState ρ) : Prop where
  chats : s'.runtimes.chats = s.runtimes.chats
  emissions : s'.runtimes.emissions = s.runtimes.emissions
  utilities : s'.utilities = s.utilities
  helpers : ∀ kind ≠ .llm, s'.residency.slot kind = s.residency.slot kind
  loadedModelFileBytes : s'.loadedModelFileBytes = s.loadedModelFileBytes
  idleUnloadedLlm : s'.idleUnloadedLlm = s.idleUnloadedLlm
  turns : s'.turns = s.turns
  running : s'.running = s.running

theorem LoadFrame.refl (s : ControllerState ρ) : LoadFrame s s :=
  ⟨rfl, rfl, rfl, fun _ _ => rfl, rfl, rfl, rfl, rfl⟩

theorem LoadFrame.trans {s₁ s₂ s₃ : ControllerState ρ} (h : LoadFrame s₁ s₂)
    (h' : LoadFrame s₂ s₃) : LoadFrame s₁ s₃ :=
  ⟨h'.chats.trans h.chats, h'.emissions.trans h.emissions, h'.utilities.trans h.utilities,
    fun kind hk => (h'.helpers kind hk).trans (h.helpers kind hk),
    h'.loadedModelFileBytes.trans h.loadedModelFileBytes,
    h'.idleUnloadedLlm.trans h.idleUnloadedLlm, h'.turns.trans h.turns,
    h'.running.trans h.running⟩

theorem swapOut_frame (s : ControllerState ρ) : LoadFrame s s.swapOut := by
  unfold swapOut
  split
  · exact ⟨rfl, rfl, rfl, fun kind hk => by simp [hk], rfl, rfl, rfl, rfl⟩
  · exact .refl s

theorem loadModelWith_loadFrame {req : LoadRequest} {r : Except ExecError Unit}
    (h : s.loadModelWith config env req = (r, s₂)) : LoadFrame s s₂ := by
  obtain rfl : _ = s₂ := congrArg Prod.snd h
  refine ⟨?_, ?_, rfl, fun _ _ => rfl, rfl, rfl, rfl, rfl⟩ <;>
    · dsimp only [loadModelWith]
      cases env.detectBackend req.modelPath <;> dsimp only <;> split <;> rfl

section Attempts

variable {n : Nat} {load : LoadModel ρ} {mmprojPath : Option String} {settings : EngineSettings ρ}
  {r : Except LoadAttemptError Unit}

theorem Attempted.frame (h : Attempted config env n load mmprojPath settings s r s') :
    LoadFrame s s' := by
  cases h with
  | stopped e _ => exact swapOut_frame s
  | @unloadable e err s₁ _ req _ hreq hs₁ hload =>
    have h₁ : LoadFrame s s₁ := by
      rcases hs₁ with rfl | ⟨taken, settings', -, rfl⟩
      · exact swapOut_frame s
      · obtain ⟨h1, h2, h3, h4, h5, h6, h7, h8⟩ := swapOut_frame s
        exact ⟨h1, h2, h3, h4, h5, h6, h7, h8⟩
    exact h₁.trans (loadModelWith_loadFrame hload)
  | late e hdef _ => exact (swapOut_frame s).trans (loadModelWith_loadFrame hdef.loads)
  | @loadedAfter plan taken s₂ entry hkind hup =>
    have h₂ := loadModelWith_loadFrame hup.loads
    obtain ⟨h1, h2, h3, h4, h5, h6, h7, h8⟩ := (swapOut_frame s).trans
      (⟨h₂.chats, h₂.emissions, h₂.utilities, h₂.helpers, h₂.loadedModelFileBytes,
        h₂.idleUnloadedLlm, h₂.turns, h₂.running⟩ : LoadFrame s.swapOut s₂)
    refine ⟨h1, h2, h3, fun kind hk => ?_, h5, h6, h7, h8⟩
    rw [slot_put, hkind, if_neg hk]
    exact h4 kind hk
  | loadedBefore hkind hdef _ =>
    obtain ⟨h1, h2, h3, h4, h5, h6, h7, h8⟩ :=
      (swapOut_frame s).trans (loadModelWith_loadFrame hdef.loads)
    refine ⟨h1, h2, h3, fun kind hk => ?_, h5, h6, h7, h8⟩
    rw [slot_put, hkind, if_neg hk]
    exact h4 kind hk

/-- **What the engine's calls preserve, an attempt preserves.** -/
theorem Attempted.engine_invariant {K : Engine ρ → Prop}
    (hunload : ∀ e : Engine ρ, K e → K e.unloadModel)
    (hupload : ∀ e e' settings, K e → e.uploadSettings config.build settings = .ok e' → K e')
    (hload : ∀ e req, req.modelPath = load.modelPath → K e →
      K (e.loadModelWith config.build env.detectBackend env.loads req).2)
    (h : K s.engine) (ha : Attempted config env n load mmprojPath settings s r s') :
    K s'.engine := by
  have hout : K s.swapOut.engine := by
    rcases swapOut_backend s with heq | heq
    · rw [heq]
      exact h
    · rw [heq]
      exact hunload _ h
  have hafter : ∀ {s₁ s₂ : ControllerState ρ} {req : LoadRequest} {r : Except ExecError Unit},
      req.modelPath = load.modelPath → K s₁.engine →
        s₁.loadModelWith config env req = (r, s₂) → K s₂.engine := by
    intro s₁ s₂ req r hreq hs₁ hloads
    obtain rfl : _ = s₂ := congrArg Prod.snd hloads
    exact hload _ _ hreq hs₁
  cases ha with
  | stopped _ _ => exact hout
  | unloadable _ _ hreq hs₁ hloads =>
    rcases hs₁ with rfl | ⟨taken, settings', hup, rfl⟩
    · exact hafter hreq hout hloads
    · exact hafter hreq (hupload _ _ _ hout hup) hloads
  | late _ hdef _ => exact hafter rfl hout hdef.loads
  | loadedAfter _ hup =>
    have hend := hafter rfl (hupload _ _ _ hout hup.uploaded) hup.loads
    exact hend
  | loadedBefore _ hdef htakes => exact hupload _ _ _ (hafter rfl hout hdef.loads) htakes

/-- The residency of the model once a load has begun. -/
theorem slot_swapOut (s : ControllerState ρ) : s.swapOut.residency.slot .llm = none := by
  unfold swapOut
  split
  · simp
  · next h =>
    rw [not_and] at h
    simpa using h rfl

theorem swapOut_of_slot (h : s.residency.slot .llm = none) : s.swapOut = s := by
  rw [swapOut, h]
  rfl

/-- Nothing is loaded and nothing is entered as loaded. -/
def Empty (s : ControllerState ρ) : Prop :=
  s.engine.isModelLoaded = false ∧ s.residency.slot .llm = none

/-- Once the old model is out, nothing is loaded, if a model that is loaded is always entered. -/
theorem empty_swapOut (h : s.engine.isModelLoaded = true → (s.residency.slot .llm).isSome = true) :
    s.swapOut.Empty := by
  refine ⟨?_, slot_swapOut s⟩
  unfold swapOut
  split
  · exact isModelLoaded_unloadModel _
  · next hno =>
    rw [Bool.eq_false_iff]
    exact fun hloaded => hno ⟨rfl, h hloaded⟩


end Attempts

/-- An attempt gets the weights in, and then has its settings refused. -/
def Attempt.Late (config : ControllerConfig ρ) (env : Env ρ) (load : LoadModel ρ)
    (t : Attempt ρ) : Prop :=
  ∃ plan s₂ err,
    Deferred config env t.n load (t.mmprojPath load) (t.settings load) plan t.before s₂ ∧
      s₂.engine.uploadSettings config.build (plannedSettings plan (t.settings load)) = .error err

/-- An attempt gets as far as the engine. -/
def Attempt.Asks (config : ControllerConfig ρ) (env : Env ρ) (load : LoadModel ρ)
    (t : Attempt ρ) : Prop :=
  ControllerState.Asks config env t.n load (t.mmprojPath load) (t.settings load) t.before

section Failing

variable {load : LoadModel ρ} {t : Attempt ρ} {e : LoadAttemptError}

/-- The kinds of attempt that fail, once the old model is out and where it was in the ledger: each
but the late one leaves nothing loaded. -/
theorem Attempt.empty_of_error (hempty : t.before.swapOut.Empty)
    (hlate : ¬ t.Late config env load) (h : (t.outcome config env load).1 = .error e) :
    (t.outcome config env load).2.1.Empty := by
  have hattempted := attempted_of_error h
  generalize (t.outcome config env load).2.1 = s' at hattempted ⊢
  cases hattempted with
  | stopped _ _ => exact hempty
  | @unloadable _ err s₁ _ req _ hreq hs₁ hload =>
    have h₁ : s₁.Empty := by
      rcases hs₁ with rfl | ⟨taken, settings', htaken, rfl⟩
      · exact hempty
      · refine ⟨?_, hempty.2⟩
        have := hempty.1
        rwa [isModelLoaded, ← loaded_uploadSettings htaken] at this
    refine ⟨isModelLoaded_of_loadModelWith_error h₁.1 hload, ?_⟩
    rw [residency_of_loadModelWith hload]
    exact h₁.2
  | @late _ err plan _ hdef hrefused => exact absurd ⟨plan, _, err, hdef, hrefused⟩ hlate

/-- An attempt that fails leaves no entry. -/
theorem Attempt.slot_of_error (h : (t.outcome config env load).1 = .error e) :
    (t.outcome config env load).2.1.residency.slot .llm = none := by
  have hattempted := attempted_of_error h
  generalize (t.outcome config env load).2.1 = s' at hattempted ⊢
  cases hattempted with
  | stopped _ _ => exact slot_swapOut _
  | @unloadable _ err s₁ _ req _ hreq hs₁ hload =>
    rw [residency_of_loadModelWith hload]
    rcases hs₁ with rfl | ⟨taken, settings', htaken, rfl⟩
    · exact slot_swapOut _
    · exact slot_swapOut _
  | @late _ err plan _ hdef hrefused =>
    rw [residency_of_loadModelWith hdef.loads]
    exact slot_swapOut _

/-- Weights are in that nothing is entered for, in a backend of the kind that the path belongs
to. -/
def Stranded (env : Env ρ) (load : LoadModel ρ) (loaded : Option LoadRequest)
    (s : ControllerState ρ) : Prop :=
  s.engine.loaded = loaded ∧ s.residency.slot .llm = none ∧ ¬ s.Switches env load

/-- A load of the same kind that does not work leaves weights that are not in the ledger where they
are. -/
theorem Attempt.stranded_of_error {loaded : Option LoadRequest}
    (hs : t.before.Stranded env load loaded) (hlate : ¬ t.Late config env load)
    (h : (t.outcome config env load).1 = .error e) :
    (t.outcome config env load).2.1.Stranded env load loaded := by
  obtain ⟨hloaded, hslot, hkeeps⟩ := hs
  have hswap := swapOut_of_slot hslot
  have hattempted := attempted_of_error h
  generalize (t.outcome config env load).2.1 = s' at hattempted ⊢
  cases hattempted with
  | stopped _ _ =>
    rw [hswap]
    exact ⟨hloaded, hslot, hkeeps⟩
  | @unloadable _ err s₁ _ req _ hreq hs₁ hload =>
    rw [hswap] at hs₁
    have h₁ : s₁.engine.loaded = loaded ∧ s₁.residency.slot .llm = none ∧
        ¬ s₁.Switches env load := by
      rcases hs₁ with rfl | ⟨taken, settings', htaken, rfl⟩
      · exact ⟨hloaded, hslot, hkeeps⟩
      · refine ⟨(loaded_uploadSettings htaken).trans hloaded, hslot, ?_⟩
        rintro ⟨kind, hkind, hswitch⟩
        rw [needsSwitch_uploadSettings htaken] at hswitch
        exact hkeeps ⟨kind, hkind, hswitch⟩
    have hsame : s'.engine = s₁.engine := by
      rcases loadModelWith_error (engine_of_loadModelWith hload) with
        heq | ⟨kind, hkind, hswitch, -⟩
      · exact heq
      · rw [hreq] at hkind
        exact absurd ⟨kind, hkind, hswitch⟩ h₁.2.2
    refine ⟨by rw [hsame]; exact h₁.1, by rw [residency_of_loadModelWith hload]; exact h₁.2.1, ?_⟩
    rintro ⟨kind, hkind, hswitch⟩
    rw [hsame] at hswitch
    exact h₁.2.2 ⟨kind, hkind, hswitch⟩
  | @late _ err plan _ hdef hrefused => exact absurd ⟨plan, _, err, hdef, hrefused⟩ hlate

/-- An attempt that does not get as far as the engine leaves a state with no entry as it was. -/
theorem Attempt.unchanged_of_error (hslot : t.before.residency.slot .llm = none)
    (hno : ¬ t.Asks config env load) (h : (t.outcome config env load).1 = .error e) :
    (t.outcome config env load).2.1 = t.before := by
  have hattempted := attempted_of_error h
  generalize (t.outcome config env load).2.1 = s' at hattempted ⊢
  cases hattempted with
  | stopped _ _ => exact swapOut_of_slot hslot
  | unloadable _ hasks _ _ _ => exact absurd hasks hno
  | @late _ err plan _ hdef _ =>
    exact absurd ⟨plan, hdef.planned, hdef.admitted, .inr hdef.deferred⟩ hno

/-- One that does, and asks for another backend, costs the weights that are not in the ledger. -/
theorem Attempt.empty_of_switches (hslot : t.before.residency.slot .llm = none)
    (hswitches : t.before.Switches env load) (hasks : t.Asks config env load)
    (hlate : ¬ t.Late config env load) (h : (t.outcome config env load).1 = .error e) :
    (t.outcome config env load).2.1.Empty := by
  have hswap := swapOut_of_slot hslot
  have hattempted := attempted_of_error h
  generalize (t.outcome config env load).2.1 = s' at hattempted ⊢
  cases hattempted with
  | stopped _ hno => exact absurd hasks hno
  | @unloadable _ err s₁ _ req _ hreq hs₁ hload =>
    rw [hswap] at hs₁
    have h₁ : s₁.residency.slot .llm = none ∧ s₁.Switches env load := by
      rcases hs₁ with rfl | ⟨taken, settings', htaken, rfl⟩
      · exact ⟨hslot, hswitches⟩
      · obtain ⟨kind, hkind, hswitch⟩ := hswitches
        exact ⟨hslot, kind, hkind, (needsSwitch_uploadSettings htaken kind).trans hswitch⟩
    refine ⟨?_, by rw [residency_of_loadModelWith hload]; exact h₁.1⟩
    obtain ⟨kind, hkind, hswitch⟩ := h₁.2
    rw [← hreq] at hkind
    rw [loadModelWith_switches (engine_of_loadModelWith hload) hkind]
    exact isModelLoaded_ensureBackend hswitch
  | @late _ err plan _ hdef hrefused => exact absurd ⟨plan, _, err, hdef, hrefused⟩ hlate

/-- A late attempt ends where it says. -/
theorem attemptLoad_of_deferred {n : Nat} {mmprojPath : Option String}
    {settings : EngineSettings ρ} {bytes : Option Nat} {plan : Option ModelMemoryPlan}
    {err : ExecError} (h : Deferred config env n load mmprojPath settings plan s s₂)
    (hrefused : s₂.engine.uploadSettings config.build (plannedSettings plan settings) =
      .error err) :
    (s.attemptLoad config env n load mmprojPath settings bytes).2.1 = s₂ := by
  rw [attemptLoad]
  rw [h.planned]
  dsimp only
  rw [h.admitted, if_neg (by decide), h.deferred]
  rw [loadWeights_some h.admitted h.loads, hrefused]

/-- After a late attempt weights are in that are not in the ledger, and no later one of the ladder
takes them out. -/
theorem Attempt.stranded_of_late (hlate : t.Late config env load) :
    ∃ req, (t.outcome config env load).2.1.Stranded env load (some req) := by
  obtain ⟨plan, s₂, err, hdef, hrefused⟩ := hlate
  refine ⟨buildLoadRequest load (t.mmprojPath load) (plannedSettings plan (t.settings load)), ?_⟩
  rw [Attempt.outcome, attemptLoad_of_deferred hdef hrefused]
  have hengine := engine_of_loadModelWith hdef.loads
  obtain ⟨kind, b, hkind, -, -, he⟩ := loadModelWith_ok hengine
  refine ⟨congrArg _ he, by rw [residency_of_loadModelWith hdef.loads]; exact slot_swapOut _, ?_⟩
  rintro ⟨kind', hkind', hswitch⟩
  rw [needsSwitch_loadModelWith hengine hkind'] at hswitch
  exact Bool.false_ne_true hswitch

end Failing

section Failed

variable {load : LoadModel ρ} {rungs : List LoadRung} {n total : Nat} {bytes : Option Nat}
  {history : List String} {r : Except String LoadOutcome}

/-- Weights that are not in the ledger stay in through the rest of a ladder that fails. -/
theorem loadLadder_stranded
    (hfail : ∀ t ∈ triedFrom config env load rungs n bytes s,
      ∃ e, (t.outcome config env load).1 = .error e)
    (h0 : ∃ req, s.Stranded env load (some req)) :
    ∃ req, (s.loadLadder config env load total rungs n history r bytes).2.1.Stranded env load
      (some req) := by
  refine loadLadder_invariant (I := fun s => ∃ req, s.Stranded env load (some req))
    (fun t ht ⟨req, hs⟩ => ?_) h0
  by_cases hlate : t.Late config env load
  · exact Attempt.stranded_of_late hlate
  · obtain ⟨e, he⟩ := hfail t ht
    exact ⟨req, Attempt.stranded_of_error hs hlate he⟩

/-- So a late attempt shows at the end of the ladder. -/
theorem loadLadder_late
    (hfail : ∀ t ∈ triedFrom config env load rungs n bytes s,
      ∃ e, (t.outcome config env load).1 = .error e)
    (hlate : ∃ t ∈ triedFrom config env load rungs n bytes s, t.Late config env load) :
    ∃ req, (s.loadLadder config env load total rungs n history r bytes).2.1.Stranded env load
      (some req) := by
  induction rungs generalizing n history r bytes s with
  | nil =>
    obtain ⟨t, ht, -⟩ := hlate
    exact absurd ht not_mem_nil
  | cons rung rungs ih =>
    obtain ⟨t, ht, hlate⟩ := hlate
    rcases loadLadder_step config env load total rung rungs n history r bytes s with
      ⟨htried, hend⟩ | ⟨s₁, bytes₁, _, _, rfl, htried, hnext⟩
    · rw [htried, mem_singleton] at ht
      rw [hend, ← ht]
      exact Attempt.stranded_of_late hlate
    rw [htried] at ht hfail
    rw [hnext]
    have hrest := fun t ht => hfail t (mem_cons_of_mem _ ht)
    rcases mem_cons.1 ht with rfl | ht
    · exact loadLadder_stranded hrest (Attempt.stranded_of_late hlate)
    · exact ih hrest ⟨t, ht, hlate⟩

/-- Without one, a ladder that fails ends with nothing loaded once its first rung does. -/
theorem loadLadder_emptied {rung : LoadRung}
    (hfail : ∀ t ∈ triedFrom config env load (rung :: rungs) n bytes s,
      ∃ e, (t.outcome config env load).1 = .error e)
    (hlate : ∀ t ∈ triedFrom config env load (rung :: rungs) n bytes s, ¬ t.Late config env load)
    (h₁ : ((⟨n, rung, bytes, s⟩ : Attempt ρ).outcome config env load).2.1.Empty) :
    (s.loadLadder config env load total (rung :: rungs) n history r bytes).2.1.Empty := by
  refine loadLadder_invariant_cons (fun t ht hempty => ?_) h₁
  obtain ⟨e, he⟩ := hfail t ht
  refine Attempt.empty_of_error ?_ (hlate t ht) he
  rw [swapOut_of_slot hempty.2]
  exact hempty

/-- So it does where the old model was entered, and its first rung takes it out. -/
theorem loadLadder_empty (hrungs : rungs ≠ [])
    (hfail : ∀ t ∈ triedFrom config env load rungs n bytes s,
      ∃ e, (t.outcome config env load).1 = .error e)
    (hlate : ∀ t ∈ triedFrom config env load rungs n bytes s, ¬ t.Late config env load)
    (h0 : s.swapOut.Empty) :
    (s.loadLadder config env load total rungs n history r bytes).2.1.Empty := by
  cases rungs with
  | nil => exact absurd rfl hrungs
  | cons rung rungs =>
    obtain ⟨e, he⟩ := hfail ⟨n, rung, bytes, s⟩ mem_cons_self
    exact loadLadder_emptied hfail hlate
      (Attempt.empty_of_error (t := ⟨n, rung, bytes, s⟩) h0 (hlate _ mem_cons_self) he)

/-- A ladder that fails, is never late and asks for another backend ends with nothing loaded. -/
theorem loadLadder_switches
    (hfail : ∀ t ∈ triedFrom config env load rungs n bytes s,
      ∃ e, (t.outcome config env load).1 = .error e)
    (hlate : ∀ t ∈ triedFrom config env load rungs n bytes s, ¬ t.Late config env load)
    (hasks : ∃ t ∈ triedFrom config env load rungs n bytes s, t.Asks config env load)
    (hslot : s.residency.slot .llm = none) (hswitches : s.Switches env load) :
    (s.loadLadder config env load total rungs n history r bytes).2.1.Empty := by
  induction rungs generalizing n history r bytes with
  | nil =>
    obtain ⟨t, ht, -⟩ := hasks
    exact absurd ht not_mem_nil
  | cons rung rungs ih =>
    obtain ⟨e, he⟩ := hfail ⟨n, rung, bytes, s⟩ mem_cons_self
    have hnotLate := hlate ⟨n, rung, bytes, s⟩ mem_cons_self
    by_cases hhead : (⟨n, rung, bytes, s⟩ : Attempt ρ).Asks config env load
    · exact loadLadder_emptied hfail hlate
        (Attempt.empty_of_switches hslot hswitches hhead hnotLate he)
    obtain ⟨t, ht, hasks⟩ := hasks
    rcases loadLadder_step config env load total rung rungs n history r bytes s with
      ⟨htried, -⟩ | ⟨s₁, bytes₁, _, _, hsame, htried, hnext⟩
    · rw [htried, mem_singleton] at ht
      exact absurd (ht ▸ hasks) hhead
    rw [Attempt.unchanged_of_error hslot hhead he] at hsame
    subst hsame
    rw [htried] at hfail hlate ht
    rw [hnext]
    rcases mem_cons.1 ht with rfl | ht
    · exact absurd hasks hhead
    · exact ih (fun t ht => hfail t (mem_cons_of_mem _ ht))
        (fun t ht => hlate t (mem_cons_of_mem _ ht)) ⟨t, ht, hasks⟩

/-- A ladder that fails and never gets as far as the engine leaves a state with no entry as it
was. -/
theorem loadLadder_unchanged
    (hfail : ∀ t ∈ triedFrom config env load rungs n bytes s,
      ∃ e, (t.outcome config env load).1 = .error e)
    (hno : ∀ t ∈ triedFrom config env load rungs n bytes s, ¬ t.Asks config env load)
    (hslot : s.residency.slot .llm = none) :
    (s.loadLadder config env load total rungs n history r bytes).2.1 = s := by
  refine loadLadder_invariant (I := fun s' => s' = s) (fun t ht hs => ?_) rfl
  obtain ⟨e, he⟩ := hfail t ht
  rw [Attempt.unchanged_of_error (by rw [hs]; exact hslot) (hno t ht) he, hs]

end Failed

/-- The two states that a load which fails may leave: the old model with its chats, its entry and
its file size, or no model, and nothing that was built on one. -/
def Consistent (s s' : ControllerState ρ) : Prop :=
  (s.engine.isModelLoaded = true ∧ s'.engine.loaded = s.engine.loaded ∧
      s'.runtimes.chats = s.runtimes.chats ∧
      (s.residency.slot .llm).isSome = true ∧ s'.residency.slot .llm = s.residency.slot .llm ∧
      s'.loadedModelFileBytes = s.loadedModelFileBytes) ∨
    s'.engine.isModelLoaded = false ∧ s'.runtimes.chats = ∅ ∧
      s'.residency.slot .llm = none ∧ s'.loadedModelFileBytes = none

theorem loadFallbackRungs_ne_nil (settings : EngineSettings ρ) (hasMmproj : Bool) :
    loadFallbackRungs settings hasMmproj ≠ [] := by
  simp [loadFallbackRungs]

/-- Everything a load does before it has worked leaves the frame as it was. -/
theorem runLadder_frame (config : ControllerConfig ρ) (env : Env ρ) (load : LoadModel ρ)
    (s : ControllerState ρ) : LoadFrame s (s.runLadder config env load).2.1 := by
  exact loadLadder_invariant (fun t _ ht => ht.trans (t.attempted config env load).frame) (.refl s)

/-- A load that fails leaves what its ladder does. -/
theorem loadModel_error {load : LoadModel ρ} {message : String}
    (h : (s.loadModel config env load).1 = .error message) :
    (s.runLadder config env load).1 = .error message ∧
      (s.loadModel config env load).2 = (s.runLadder config env load).2.1 := by
  unfold loadModel at h ⊢
  rcases hladder : s.runLadder config env load with ⟨message' | outcome, s', bytes⟩
  · rw [hladder] at h
    exact ⟨h, rfl⟩
  · rw [hladder] at h
    exact nomatch h

theorem tried_error {load : LoadModel ρ} {message : String}
    (h : (s.runLadder config env load).1 = .error message) :
    ∀ t ∈ s.tried config env load, ∃ e, (t.outcome config env load).1 = .error e := by
  rcases hladder : s.runLadder config env load with ⟨message' | outcome, s', bytes⟩
  · unfold runLadder at hladder
    exact loadLadder_error hladder
  · rw [hladder] at h
    exact nomatch h

/-- A load that fails leaves no entry for the model. -/
theorem runLadder_slot {load : LoadModel ρ}
    (hfail : ∀ t ∈ s.tried config env load, ∃ e, (t.outcome config env load).1 = .error e) :
    (s.runLadder config env load).2.1.residency.slot .llm = none := by
  have hstep : ∀ t ∈ s.tried config env load,
      (t.outcome config env load).2.1.residency.slot .llm = none := by
    intro t ht
    obtain ⟨e, he⟩ := hfail t ht
    exact Attempt.slot_of_error he
  unfold runLadder
  exact loadLadder_invariant_cons (I := fun s => s.residency.slot .llm = none)
    (fun t ht _ => hstep t ht) (hstep _ mem_cons_self)

/-- Whether nothing is loaded after a load that fails. -/
theorem runLadder_loaded_iff {load : LoadModel ρ}
    (hfail : ∀ t ∈ s.tried config env load, ∃ e, (t.outcome config env load).1 = .error e) :
    (s.runLadder config env load).2.1.engine.isModelLoaded = false ↔
      (∀ t ∈ s.tried config env load, ¬ t.Late config env load) ∧
        (s.engine.isModelLoaded = true → (s.residency.slot .llm).isSome = true ∨
          s.Switches env load ∧ ∃ t ∈ s.tried config env load, t.Asks config env load) := by
  have hrungs := loadFallbackRungs_ne_nil load.settings load.mmprojPath.isSome
  have hend : ∀ {s' : ControllerState ρ}, s'.engine.loaded = s.engine.loaded →
      s'.engine.isModelLoaded = s.engine.isModelLoaded := fun h => congrArg Option.isSome h
  constructor
  · intro hnone
    have hlate : ∀ t ∈ s.tried config env load, ¬ t.Late config env load := by
      intro t ht hlate
      obtain ⟨req, h1, -, -⟩ : ∃ req,
          (s.runLadder config env load).2.1.Stranded env load (some req) :=
        loadLadder_late hfail ⟨t, ht, hlate⟩
      rw [isModelLoaded, h1] at hnone
      exact Bool.noConfusion hnone
    refine ⟨hlate, fun hloaded => ?_⟩
    by_cases hslot : s.residency.slot .llm = none
    · right
      constructor
      · by_contra hkeeps
        obtain ⟨h1, -, -⟩ :
            (s.runLadder config env load).2.1.Stranded env load s.engine.loaded :=
          loadLadder_invariant (fun t ht hs =>
            (hfail t ht).elim fun _ he => Attempt.stranded_of_error hs (hlate t ht) he)
            ⟨rfl, hslot, hkeeps⟩
        exact Bool.false_ne_true (hnone.symm.trans ((hend h1).trans hloaded))
      · by_contra hno
        have hsame : (s.runLadder config env load).2.1 = s :=
          loadLadder_unchanged hfail (fun t ht hasks => hno ⟨t, ht, hasks⟩) hslot
        rw [hsame] at hnone
        exact Bool.false_ne_true (hnone.symm.trans hloaded)
    · exact .inl (Option.isSome_iff_ne_none.2 hslot)
  · rintro ⟨hlate, hlost⟩
    have hempty : (s.runLadder config env load).2.1.Empty := by
      by_cases hentered : s.engine.isModelLoaded = true → (s.residency.slot .llm).isSome = true
      · exact loadLadder_empty hrungs hfail hlate (empty_swapOut hentered)
      obtain ⟨hloaded, hslot⟩ := Classical.not_imp.1 hentered
      rcases hlost hloaded with h | ⟨hswitches, hasks⟩
      · exact absurd h hslot
      · exact loadLadder_switches hfail hlate hasks
          (Option.not_isSome_iff_eq_none.1 hslot) hswitches
    exact hempty.1

/-- A load that works leaves the model in, and an entry for it. -/
theorem runLadder_ok {load : LoadModel ρ} {outcome : LoadOutcome}
    (h : (s.runLadder config env load).1 = .ok outcome) :
    (s.runLadder config env load).2.1.engine.isModelLoaded = true ∧
      ((s.runLadder config env load).2.1.residency.slot .llm).isSome = true := by
  rcases hladder : s.runLadder config env load with ⟨message | outcome', s', bytes⟩
  · rw [hladder] at h
    exact nomatch h
  obtain ⟨t, -, hout, -⟩ := loadLadder_ok hladder
  have hattempted := t.attempted config env load
  rw [hout] at hattempted
  cases hattempted with
  | @loadedAfter plan taken s₂ entry hkind hup =>
    have hin := isModelLoaded_loadModelWith hup.loads
    refine ⟨hin, ?_⟩
    rw [slot_put, hkind]
    rfl
  | @loadedBefore plan engine s₂ entry hkind hdef htaken =>
    refine ⟨?_, ?_⟩
    · rw [isModelLoaded, loaded_uploadSettings htaken]
      exact isModelLoaded_loadModelWith hdef.loads
    · rw [slot_put, hkind]
      rfl

/-- **What a load that fails leaves.**  It is one of the two exactly where there was no chat and no
file size to be left over, no rung fails after its weights are in, and the model that was loaded, if
any, was in the ledger, or was lost with a backend that the path asks to replace. -/
theorem failed_load_iff {load : LoadModel ρ} {message : String}
    (h : (s.loadModel config env load).1 = .error message) :
    s.Consistent (s.loadModel config env load).2 ↔
      s.runtimes.chats = ∅ ∧ s.loadedModelFileBytes = none ∧
        (∀ t ∈ s.tried config env load, ¬ t.Late config env load) ∧
        (s.engine.isModelLoaded = true → (s.residency.slot .llm).isSome = true ∨
          s.Switches env load ∧ ∃ t ∈ s.tried config env load, t.Asks config env load) := by
  obtain ⟨hr, hs'⟩ := loadModel_error h
  have hfail := tried_error hr
  have hframe := runLadder_frame config env load s
  have hslot := runLadder_slot hfail
  rw [hs', Consistent, runLadder_loaded_iff hfail, hframe.chats, hframe.loadedModelFileBytes, hslot]
  constructor
  · rintro (⟨-, -, -, hentered, hsame, -⟩ | ⟨⟨hlate, hlost⟩, hchats, -, hbytes⟩)
    · rw [← hsame] at hentered
      exact nomatch hentered
    · exact ⟨hchats, hbytes, hlate, hlost⟩
  · rintro ⟨hchats, hbytes, hlate, hlost⟩
    exact .inr ⟨⟨hlate, hlost⟩, hchats, rfl, hbytes⟩

/-- A first load, of a file that does not load. -/
theorem failed_load_first :
    let env := { Env.smooth Unit with loads := fun _ => .error (.other "no") }
    let s := ControllerState.initial ⟨some (.new (ControllerConfig.plain 1).build .llamaCpp)⟩ 0
    let load : LoadModel Unit := ⟨"m.gguf", none, ⟨none, none, none, none, none, none, ()⟩, none,
      none, none⟩
    s.Consistent (s.loadModel (.plain 1) env load).2 := by
  intro env s load
  refine (failed_load_iff (s := s) rfl).2 ⟨rfl, rfl, fun t _ => ?_, fun hloaded => nomatch hloaded⟩
  rintro ⟨plan, s₂, err, hdef, -⟩
  obtain ⟨-, -, -, -, hloads, -⟩ := Engine.loadModelWith_ok (engine_of_loadModelWith hdef.loads)
  exact nomatch hloads

/-- The same load once a model is in and has a chat. -/
theorem failed_load_not_always :
    let config := ControllerConfig.plain 1
    let env := { Env.smooth Unit with loads := fun _ => .error (.other "no") }
    let load : LoadModel Unit := ⟨"m.gguf", none, ⟨none, none, none, none, none, none, ()⟩, none,
      none, none⟩
    let s₀ := ControllerState.initial ⟨some (.new config.build .llamaCpp)⟩ 0
    let s := ((s₀.loadModel config (.smooth Unit) load).2).startChat config (.smooth Unit) 0
      "a".toList [] ⟨.text, false, none, none⟩
    ∃ message, (s.loadModel config env load).1 = .error message ∧
      ¬ s.Consistent (s.loadModel config env load).2 := by
  refine ⟨_, rfl, ?_⟩
  rintro (⟨-, -, -, -, hsame, -⟩ | ⟨-, hchats, -⟩)
  · exact Bool.false_ne_true (congrArg Option.isSome hsame)
  · exact absurd (congrArg (fun chats => chats.entries.length) hchats) (by decide)

end ControllerState

end Gen2.Controller
