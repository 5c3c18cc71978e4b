import Gen2.Engine.Types
import Gen2.Types.Message

/-!
# The engine: one backend at a time

The `Engine` of `backend/facade.rs` holds the backend that the last load asked for.  A load looks at
the path, and where the path belongs to another backend the one in use is thrown away and a new one
made, with the settings every backend starts with.

What a backend is here is what the seven of them have in common: the request whose weights are in
memory, the last request that was loaded (it outlives an unload, so a reload can bring the weights
back), and the settings.  A load that fails leaves all three as they were.

* Whether a load works, and which backend a path belongs to, is up to the files and the libraries
  below; both are arguments.
* `Settings` there is `EngineSettings` here: the fields that a load or the controller reads, and the
  rest as a parameter.  `Settings::validate` is given with the build, as is the answer of a plugin.
-/

namespace Gen2

/-- `DFlash2Config`. -/
structure DFlash2Config where
  modelPath : String
  maxTokens : Nat
  deriving DecidableEq

/-- `Settings`, with `ρ` for the fields that are only passed on. -/
structure EngineSettings (ρ : Type) where
  ctxSize : Option Nat
  threads : Option Nat
  gpuLayers : Option Nat
  dflash2 : Option DFlash2Config
  maxTokens : Option Nat
  temperature : Option F32
  rest : ρ
  deriving DecidableEq

/-- `LoadRequest`. -/
structure LoadRequest where
  modelPath : String
  mmprojPath : Option String
  nCtx : Option Nat
  threads : Option Nat
  gpuLayers : Option Nat
  apiKey : Option String
  apiFormat : Option String
  apiModel : Option String
  deriving DecidableEq

/-- `BackendKind`.  A plugin is told from another by the name it answers with. -/
inductive BackendKind
  | plugin (name : String)
  | llamaCpp
  | mlx
  | externalApi
  | mistralRs
  | liteRtLm
  | onnx
  deriving DecidableEq

/-- What the build fixes: which backends are compiled in, the settings they start with, and what
settings they accept. -/
structure Build (ρ : Type) where
  compiled : BackendKind → Bool
  defaultSettings : EngineSettings ρ
  validate : EngineSettings ρ → Except ExecError Unit
  pluginAccepts : String → EngineSettings ρ → Except ExecError Unit

/-- A backend, by its weights and its settings. -/
structure Backend (ρ : Type) where
  kind : BackendKind
  loaded : Option LoadRequest
  lastLoad : Option LoadRequest
  settings : EngineSettings ρ

variable {ρ : Type}

namespace Backend

/-- A backend as its constructor makes it. -/
def new (build : Build ρ) (kind : BackendKind) : Backend ρ :=
  ⟨kind, none, none, build.defaultSettings⟩

/-- The check before `upload_settings` stores anything.  `mistral.rs` checks nothing, and
`llama.cpp` refuses another draft model while one is loaded. -/
def accepts (build : Build ρ) (b : Backend ρ) (settings : EngineSettings ρ) :
    Except ExecError Unit :=
  match b.kind with
  | .mistralRs => .ok ()
  | .plugin name => build.pluginAccepts name settings
  | .llamaCpp => do
    build.validate settings
    if b.loaded.isSome ∧ settings.dflash2 ≠ b.settings.dflash2 then
      .error (.settingsError
        "DFlash2 configuration is fixed at model load; unload before changing it")
  | _ => build.validate settings

/-- `upload_settings`. -/
def uploadSettings (build : Build ρ) (b : Backend ρ) (settings : EngineSettings ρ) :
    Except ExecError (Backend ρ) :=
  (b.accepts build settings).map fun _ => { b with settings := settings }

/-- `load_model`, where `loads` says what becomes of the request. -/
def loadModel (loads : LoadRequest → Except ExecError Unit) (b : Backend ρ) (req : LoadRequest) :
    Except ExecError (Backend ρ) :=
  (loads req).map fun _ => { b with loaded := some req, lastLoad := some req }

/-- `reload_model`. -/
def reloadModel (loads : LoadRequest → Except ExecError Unit) (b : Backend ρ) :
    Except ExecError (Backend ρ) :=
  match b.lastLoad with
  | none => .error .modelNotLoaded
  | some req => b.loadModel loads req

/-- `unload_model`. -/
def unloadModel (b : Backend ρ) : Backend ρ := { b with loaded := none }

end Backend

/-- `Engine`: the backend in use, or `Uninit`. -/
structure Engine (ρ : Type) where
  backend : Option (Backend ρ)

namespace Engine

/-- The request whose weights are in memory. -/
def loaded (e : Engine ρ) : Option LoadRequest := e.backend.bind Backend.loaded

/-- `is_model_loaded`. -/
def isModelLoaded (e : Engine ρ) : Bool := e.loaded.isSome

/-- `settings`. -/
def settings (build : Build ρ) (e : Engine ρ) : EngineSettings ρ :=
  (e.backend.map Backend.settings).getD build.defaultSettings

/-- `upload_settings`. -/
def uploadSettings (build : Build ρ) (e : Engine ρ) (settings : EngineSettings ρ) :
    Except ExecError (Engine ρ) :=
  match e.backend with
  | none => .error .modelNotLoaded
  | some b => (b.uploadSettings build settings).map fun b => ⟨some b⟩

/-- Whether `ensure_backend` replaces the backend. -/
def needsSwitch (e : Engine ρ) (kind : BackendKind) : Bool :=
  match e.backend with
  | none => true
  | some b => decide (b.kind ≠ kind)

/-- `ensure_backend`. -/
def ensureBackend (build : Build ρ) (e : Engine ρ) (kind : BackendKind) : Engine ρ :=
  if e.needsSwitch kind then
    ⟨if build.compiled kind then some (.new build kind) else none⟩
  else
    e

/-- `load_model_with`: what it answers, and the engine after.  By the time the load fails the
backend has been switched. -/
def loadModelWith (build : Build ρ) (detectBackend : String → Except ExecError BackendKind)
    (loads : LoadRequest → Except ExecError Unit) (e : Engine ρ) (req : LoadRequest) :
    Except ExecError Unit × Engine ρ :=
  match detectBackend req.modelPath with
  | .error err => (.error err, e)
  | .ok kind =>
    let e := e.ensureBackend build kind
    match e.backend with
    | none => (.error (.other "no backend for model format"), e)
    | some b =>
      match b.loadModel loads req with
      | .error err => (.error err, e)
      | .ok b => (.ok (), ⟨some b⟩)

/-- `reload_model`. -/
def reloadModel (loads : LoadRequest → Except ExecError Unit) (e : Engine ρ) :
    Except ExecError (Engine ρ) :=
  match e.backend with
  | none => .error .modelNotLoaded
  | some b => (b.reloadModel loads).map fun b => ⟨some b⟩

/-- `unload_model`. -/
def unloadModel (e : Engine ρ) : Engine ρ := ⟨e.backend.map Backend.unloadModel⟩

/-! ## What the calls leave -/

section Lemmas

variable {build : Build ρ} {e e' : Engine ρ} {b : Backend ρ}
  {loads : LoadRequest → Except ExecError Unit}
  {detectBackend : String → Except ExecError BackendKind}

@[simp] theorem isModelLoaded_unloadModel (e : Engine ρ) : e.unloadModel.isModelLoaded = false := by
  cases h : e.backend <;> simp [isModelLoaded, loaded, unloadModel, Backend.unloadModel, h]

variable {settings : EngineSettings ρ}

/-- An upload that is accepted changes the settings and nothing else. -/
theorem uploadSettings_ok (h : e.uploadSettings build settings = .ok e') :
    ∃ b, e.backend = some b ∧ e' = ⟨some { b with settings := settings }⟩ := by
  unfold uploadSettings at h
  split at h
  · exact nomatch h
  · next b hb =>
    refine ⟨b, hb, ?_⟩
    unfold Backend.uploadSettings at h
    cases hcheck : b.accepts build settings with
    | error err => rw [hcheck] at h; exact nomatch h
    | ok _ =>
      rw [hcheck] at h
      exact (Except.ok.inj h).symm

theorem loaded_uploadSettings (h : e.uploadSettings build settings = .ok e') :
    e'.loaded = e.loaded := by
  obtain ⟨b, hb, rfl⟩ := uploadSettings_ok h
  simp [loaded, hb]

theorem settings_uploadSettings (h : e.uploadSettings build settings = .ok e') :
    e'.settings build = settings := by
  obtain ⟨b, hb, rfl⟩ := uploadSettings_ok h
  rfl

theorem needsSwitch_uploadSettings (h : e.uploadSettings build settings = .ok e')
    (kind : BackendKind) : e'.needsSwitch kind = e.needsSwitch kind := by
  obtain ⟨b, hb, rfl⟩ := uploadSettings_ok h
  simp [needsSwitch, hb]

theorem isSome_uploadSettings (h : e.uploadSettings build settings = .ok e') :
    e'.backend.isSome = e.backend.isSome := by
  obtain ⟨b, hb, rfl⟩ := uploadSettings_ok h
  rw [hb]
  rfl

@[simp] theorem isSome_unloadModel (e : Engine ρ) :
    e.unloadModel.backend.isSome = e.backend.isSome := by
  simp [unloadModel]

/-- A reload that works brings back the last request that was loaded. -/
theorem reloadModel_ok (h : e.reloadModel loads = .ok e') :
    ∃ b req, e.backend = some b ∧ b.lastLoad = some req ∧ loads req = .ok () ∧
      e' = ⟨some { b with loaded := some req, lastLoad := some req }⟩ := by
  unfold reloadModel at h
  split at h
  · exact nomatch h
  · next b hb =>
    unfold Backend.reloadModel at h
    split at h
    · exact nomatch h
    · next req hreq =>
      unfold Backend.loadModel at h
      rcases hloads : loads req with err | _
      · rw [hloads] at h
        exact nomatch h
      · rw [hloads] at h
        exact ⟨b, req, hb, hreq, hloads, (Except.ok.inj h).symm⟩

theorem isModelLoaded_reloadModel (h : e.reloadModel loads = .ok e') :
    e'.isModelLoaded = true := by
  obtain ⟨b, req, -, -, -, rfl⟩ := reloadModel_ok h
  rfl

theorem isSome_reloadModel (h : e.reloadModel loads = .ok e') :
    e'.backend.isSome = e.backend.isSome := by
  obtain ⟨b, req, hb, -, -, rfl⟩ := reloadModel_ok h
  rw [hb]
  rfl

/-- Unloading does not change which backend is in use. -/
theorem needsSwitch_unloadModel (e : Engine ρ) (kind : BackendKind) :
    e.unloadModel.needsSwitch kind = e.needsSwitch kind := by
  rcases hb : e.backend with _ | b <;>
    simp [needsSwitch, unloadModel, Backend.unloadModel, hb]

variable {req : LoadRequest}

/-- A load that works: the backend that the path belongs to, with the weights in. -/
theorem loadModelWith_ok (h : e.loadModelWith build detectBackend loads req = (.ok (), e')) :
    ∃ kind b, detectBackend req.modelPath = .ok kind ∧
      (e.ensureBackend build kind).backend = some b ∧ loads req = .ok () ∧
      e' = ⟨some { b with loaded := some req, lastLoad := some req }⟩ := by
  unfold loadModelWith at h
  split at h
  · exact nomatch h
  · next kind hkind =>
    dsimp only at h
    split at h
    · exact nomatch h
    · next b hb =>
      unfold Backend.loadModel at h
      cases hloads : loads req with
      | error err =>
        rw [hloads] at h
        exact nomatch h
      | ok _ =>
        rw [hloads] at h
        exact ⟨kind, b, hkind, hb, rfl, (Prod.mk.inj h).2.symm⟩

theorem isModelLoaded_loadModelWith
    (h : e.loadModelWith build detectBackend loads req = (.ok (), e')) :
    e'.isModelLoaded = true := by
  obtain ⟨kind, b, -, -, -, rfl⟩ := loadModelWith_ok h
  rfl

variable {kind : BackendKind}

/-- The backend that a load ends in is of the kind that its path belongs to. -/
theorem needsSwitch_loadModelWith (h : e.loadModelWith build detectBackend loads req = (.ok (), e'))
    (hkind : detectBackend req.modelPath = .ok kind) : e'.needsSwitch kind = false := by
  obtain ⟨kind', b, hkind', hb, -, rfl⟩ := loadModelWith_ok h
  obtain rfl := Except.ok.inj (hkind.symm.trans hkind')
  have hbkind : b.kind = kind := by
    rw [ensureBackend] at hb
    split at hb
    · split at hb
      · rw [← Option.some.inj hb]
        rfl
      · exact nomatch hb
    · next hkeep =>
      rw [needsSwitch, hb] at hkeep
      simpa using hkeep
  simp [needsSwitch, hbkind]

/-- A load that fails: the engine as it was, or the backend the path belongs to, new. -/
theorem loadModelWith_error {err : ExecError}
    (h : e.loadModelWith build detectBackend loads req = (.error err, e')) :
    e' = e ∨ ∃ kind, detectBackend req.modelPath = .ok kind ∧ e.needsSwitch kind = true ∧
      e' = e.ensureBackend build kind := by
  unfold loadModelWith at h
  split at h
  · exact .inl (Prod.mk.inj h).2.symm
  · next kind hkind =>
    dsimp only at h
    have he' : e' = e.ensureBackend build kind := by
      split at h
      · exact (Prod.mk.inj h).2.symm
      · split at h
        · exact (Prod.mk.inj h).2.symm
        · exact nomatch h
    cases hswitch : e.needsSwitch kind with
    | false =>
      rw [he', ensureBackend, hswitch]
      exact .inl rfl
    | true => exact .inr ⟨kind, hkind, hswitch, he'⟩

/-- A load of what belongs to the backend in use keeps it. -/
theorem isSome_loadModelWith (hkind : detectBackend req.modelPath = .ok kind)
    (hkeeps : e.needsSwitch kind = false) :
    (e.loadModelWith build detectBackend loads req).2.backend.isSome = e.backend.isSome := by
  have hsame : e.ensureBackend build kind = e := by
    rw [ensureBackend, hkeeps]
    rfl
  rw [loadModelWith, hkind]
  dsimp only
  rw [hsame]
  split
  · rfl
  · next b hb =>
    rw [hb]
    split
    · rw [hb]
    · rfl

/-- A load that fails after it has asked for another backend leaves that, new. -/
theorem loadModelWith_switches {err : ExecError}
    (h : e.loadModelWith build detectBackend loads req = (.error err, e'))
    (hkind : detectBackend req.modelPath = .ok kind) : e' = e.ensureBackend build kind := by
  rw [loadModelWith, hkind] at h
  dsimp only at h
  split at h
  · exact (Prod.mk.inj h).2.symm
  · split at h
    · exact (Prod.mk.inj h).2.symm
    · exact nomatch h

theorem settings_ensureBackend (h : e.needsSwitch kind = true) :
    (e.ensureBackend build kind).settings build = build.defaultSettings := by
  rw [ensureBackend, if_pos h]
  split <;> rfl

theorem ensureBackend_of_needsSwitch (h : e.needsSwitch kind = false) :
    e.ensureBackend build kind = e := by
  rw [ensureBackend, h]
  rfl

theorem needsSwitch_loadModelWith_of_keeps (hkind : detectBackend req.modelPath = .ok kind)
    (hkeeps : e.needsSwitch kind = false) :
    (e.loadModelWith build detectBackend loads req).2.needsSwitch kind = false := by
  rcases hload : e.loadModelWith build detectBackend loads req with ⟨err | _, e'⟩
  · rw [loadModelWith_switches hload hkind, ensureBackend_of_needsSwitch hkeeps]
    exact hkeeps
  · exact needsSwitch_loadModelWith hload hkind

/-- A load that works leaves the settings of the backend it ends in. -/
theorem settings_loadModelWith (h : e.loadModelWith build detectBackend loads req = (.ok (), e'))
    (hkind : detectBackend req.modelPath = .ok kind) :
    e'.settings build = (e.ensureBackend build kind).settings build := by
  obtain ⟨kind', b, hkind', hb, -, rfl⟩ := loadModelWith_ok h
  obtain rfl := Except.ok.inj (hkind.symm.trans hkind')
  simp [settings, hb]

/-- A backend that has just been made has no weights in. -/
theorem isModelLoaded_ensureBackend (h : e.needsSwitch kind = true) :
    (e.ensureBackend build kind).isModelLoaded = false := by
  rw [ensureBackend, if_pos h]
  split <;> rfl

/-! ### What is remembered -/

/-- The backend knows the request whose weights are in. -/
def Remembers (e : Engine ρ) : Prop :=
  ∀ b, e.backend = some b → b.loaded.isSome = true → b.lastLoad.isSome = true

theorem remembers_of_not_loaded (h : e.isModelLoaded = false) : e.Remembers := by
  intro b hb hloaded
  rw [isModelLoaded, loaded, hb] at h
  exact absurd (hloaded.symm.trans h) Bool.true_eq_false.mp

theorem remembers_unloadModel (e : Engine ρ) : e.unloadModel.Remembers :=
  remembers_of_not_loaded (isModelLoaded_unloadModel e)

theorem remembers_uploadSettings (he : e.Remembers) (h : e.uploadSettings build settings = .ok e') :
    e'.Remembers := by
  obtain ⟨b, hb, rfl⟩ := uploadSettings_ok h
  intro b' hb' hloaded
  obtain rfl := Option.some.inj hb'
  exact he b hb hloaded

theorem remembers_reloadModel (h : e.reloadModel loads = .ok e') : e'.Remembers := by
  obtain ⟨b, req, -, -, -, rfl⟩ := reloadModel_ok h
  intro b' hb' _
  obtain rfl := Option.some.inj hb'
  rfl

theorem remembers_loadModelWith (he : e.Remembers) :
    (e.loadModelWith build detectBackend loads req).2.Remembers := by
  rcases hload : e.loadModelWith build detectBackend loads req with ⟨err | _, e'⟩
  · rcases loadModelWith_error hload with rfl | ⟨kind, -, hswitch, rfl⟩
    · exact he
    · exact remembers_of_not_loaded (isModelLoaded_ensureBackend hswitch)
  · obtain ⟨kind, b, -, -, -, rfl⟩ := loadModelWith_ok hload
    intro b' hb' _
    obtain rfl := Option.some.inj hb'
    rfl

/-- What is remembered can be brought back once it has been taken out. -/
theorem reloadModel_unloadModel (he : e.Remembers) (hloaded : e.isModelLoaded = true)
    (hloads : ∀ req, loads req = .ok ()) :
    ∃ e', e.unloadModel.reloadModel loads = .ok e' ∧ e'.isModelLoaded = true := by
  rcases hb : e.backend with _ | b
  · rw [isModelLoaded, loaded, hb] at hloaded
    exact nomatch hloaded
  rw [isModelLoaded, loaded, hb] at hloaded
  obtain ⟨req, hreq⟩ := Option.isSome_iff_exists.1 (he b hb hloaded)
  refine ⟨⟨some { b with loaded := some req, lastLoad := some req }⟩, ?_, rfl⟩
  simp [unloadModel, reloadModel, Backend.unloadModel, Backend.reloadModel, Backend.loadModel, hb,
    hreq, hloads, Except.map]

end Lemmas

end Engine

end Gen2
