import Gen2.Controller.Defs

/-!
# The controller's commands and its tick

`controller/commands.rs`: what the controller does with each command it is sent, and on each tick.
`step` takes one input, together with what the outside answers meanwhile; the controller's loop is a
run of it.

* A turn is given its channel here: the first turn's is 0, the next one's 1, and so on.
* What is only passed on from a command to the backend (the thinking mode, the tools, a saved KV
  cache) is left out, as are the commands that only ask a question.
* The KV blobs that `save_all_chat_kv` writes are files, and not part of the controller's state.
-/

namespace Gen2.Controller

open Generation

variable {ρ : Type}

/-- `LoadedUtility`. -/
structure LoadedUtility where
  name : String
  estimatedResidentMb : Nat

/-- `UtilityWorker`, by the helpers it holds. -/
structure UtilityWorker where
  embedder : Option LoadedUtility
  reranker : Option LoadedUtility

namespace UtilityWorker

/-- The helper in one of the worker's two places. -/
def held (w : UtilityWorker) : Helper → Option LoadedUtility
  | .embedder => w.embedder
  | .reranker => w.reranker

/-- What a load or an unload leaves in a helper's place. -/
def set (w : UtilityWorker) (helper : Helper) (utility : Option LoadedUtility) : UtilityWorker :=
  match helper with
  | .embedder => { w with embedder := utility }
  | .reranker => { w with reranker := utility }

end UtilityWorker

/-- `ControllerState`. -/
structure ControllerState (ρ : Type) where
  engine : Engine ρ
  runtimes : Runtimes
  residency : ResidencyInventory
  utilities : UtilityWorker
  loadedModelFileBytes : Option Nat
  lastLlmActivityUnix : Int
  idleUnloadedLlm : Option (String × Nat)
  lastMaintenance : Option Nat
  /-- How many turns have been asked for: the channel of the next one. -/
  turns : Nat
  /-- Whether the loop is still running. -/
  running : Bool

/-- What a `LoadModel` asks for. -/
structure LoadModel (ρ : Type) where
  modelPath : String
  mmprojPath : Option String
  settings : EngineSettings ρ
  apiKey : Option String
  apiFormat : Option String
  apiModel : Option String

/-- `ControllerCmd`. -/
inductive ControllerCmd (ρ : Type)
  | loadModel (load : LoadModel ρ)
  | applySettings (settings : EngineSettings ρ)
  | loadHelper (helper : Helper) (modelPath : String)
  | unloadModel
  | reloadModel
  | useHelper (helper : Helper)
  | startChat (chatId : ChatId) (messages : List Message) (genSpec : GenSpec)
  | continueChat (chatId : ChatId) (newMessages transcript : List Message) (genSpec : GenSpec)
  | pushMicrophone (chatId : ChatId)
  | commitMicrophone (chatId : ChatId)
  | stopChat (chatId : ChatId)
  | pauseChat (chatId : ChatId)
  | resumeChat (chatId : ChatId)
  | systemInfer (task : SystemTask) (chatId : ChatId) (messages : List Message) (genSpec : GenSpec)
  | query
  | shutdown

/-! ## Loading a model -/

/-- `LoadRung`. -/
structure LoadRung where
  label : String
  dropMmproj : Bool
  cpuOnly : Bool

/-- `LoadRung::apply`. -/
def LoadRung.apply (rung : LoadRung) (settings : EngineSettings ρ) : EngineSettings ρ :=
  if rung.cpuOnly then { settings with gpuLayers := some 0 } else settings

/-- `load_fallback_rungs`. -/
def loadFallbackRungs (settings : EngineSettings ρ) (hasMmproj : Bool) : List LoadRung :=
  [⟨"requested", false, false⟩] ++
    (if hasMmproj then [⟨"no-mmproj", true, false⟩] else []) ++
    (if settings.gpuLayers ≠ some 0 then [⟨"cpu-only", hasMmproj, true⟩] else [])

/-- `Degraded`. -/
inductive Degraded
  | visionProjector
  | gpuOffload
  deriving DecidableEq

/-- `LoadOutcome`: what was given up for the load to work. -/
abbrev LoadOutcome := List Degraded

/-- `LoadAttemptError`. -/
structure LoadAttemptError where
  message : String
  fatal : Bool

/-- `load_error_is_fatal`. -/
def loadErrorIsFatal : ExecError → Bool
  | .invalidModelFile _ | .unsupportedArchitecture _ | .settingsError _ | .invalidArg _ |
    .featureUnsupported _ | .modelNotLoaded => true
  | _ => false

/-- `available_for_model_mb`. -/
def availableForModelMb (g : MemoryGovernor) : Nat :=
  min g.inferenceResidentMb (g.processSoftLimitMb - g.estimatedProcessMb - 1)

/-- `build_load_request`, with what `attempt_load` adds. -/
def buildLoadRequest (load : LoadModel ρ) (mmprojPath : Option String)
    (settings : EngineSettings ρ) : LoadRequest where
  modelPath := load.modelPath
  mmprojPath := mmprojPath
  nCtx := settings.ctxSize
  threads := settings.threads
  gpuLayers := settings.gpuLayers
  apiKey := load.apiKey
  apiFormat := load.apiFormat
  apiModel := load.apiModel

/-- The settings of a load, with the context that was planned for. -/
def plannedSettings (plan : Option ModelMemoryPlan) (settings : EngineSettings ρ) :
    EngineSettings ρ :=
  match plan with
  | none => settings
  | some plan => { settings with ctxSize := some plan.contextTokens }

/-- `ControllerState::residency_policy`, which nothing changes. -/
def residencyPolicy : ResidencyPolicy := {}

namespace ControllerState

variable (config : ControllerConfig ρ) (env : Env ρ)

/-- The model unloaded before another takes its place. -/
def swapOut (s : ControllerState ρ) : ControllerState ρ :=
  if residencyPolicy.llmSwapRequiresUnload ∧ (s.residency.slot .llm).isSome then
    { s with engine := s.engine.unloadModel, residency := s.residency.remove .llm }
  else
    s

/-- `Engine::load_model_with`.  Another backend comes with its own sessions and hook bus. -/
def loadModelWith (req : LoadRequest) (s : ControllerState ρ) :
    Except ExecError Unit × ControllerState ρ :=
  let (r, engine) := s.engine.loadModelWith config.build env.detectBackend env.loads req
  let switched := match env.detectBackend req.modelPath with
    | .ok kind => s.engine.needsSwitch kind
    | .error _ => false
  (r, { s with
    engine := engine
    runtimes := if switched then
        { s.runtimes with sessions := s.runtimes.sessions.switched engine.backend.isSome }
      else
        s.runtimes })

/-- What is left of `attempt_load` once the settings are with the backend, or, where there is none
to take them, are kept for later. -/
def loadWeights (n : Nat) (req : LoadRequest) (estimatedMb : Nat)
    (deferredSettings : Option (EngineSettings ρ)) (s : ControllerState ρ) :
    Except LoadAttemptError Unit × ControllerState ρ :=
  let fromExec := fun e => (⟨config.debug e, loadErrorIsFatal e⟩ : LoadAttemptError)
  match s.loadModelWith config env req with
  | (.error e, s) => (.error (fromExec e), s)
  | (.ok (), s) =>
    let uploaded : Except ExecError (Engine ρ) := match deferredSettings with
      | none => .ok s.engine
      | some settings => s.engine.uploadSettings config.build settings
    match uploaded with
    | .error e => (.error (fromExec e), s)
    | .ok engine =>
      let s := { s with engine := engine }
      match s.residency.admitRuntime ⟨.llm, req.modelPath, estimatedMb, env.unixNow⟩
          (env.governor n) with
      | (true, residency) => (.ok (), { s with residency := residency })
      | (false, _) =>
        (.error ⟨"llm residency registration denied after load", true⟩,
          { s with engine := s.engine.unloadModel })

/-- The memory plan of a rung, and with it the budget there is once the old model is out. -/
def memoryPlan (n : Nat) (load : LoadModel ρ) (mmprojPath : Option String)
    (settings : EngineSettings ρ) (s : ControllerState ρ) :
    Except String (Option ModelMemoryPlan) :=
  let governor := env.governor n
  let budget := min (availableForModelMb governor)
    (governor.inferenceResidentMb - s.residency.totalEstimatedMb)
  env.planGguf load.modelPath mmprojPath settings config.maxActiveChats budget

/-- What a load is thought to need. -/
def estimatedMb (plan : Option ModelMemoryPlan) (req : LoadRequest) : Nat :=
  match plan with
  | none => env.estimateResidentMbOffloaded req.modelPath req.gpuLayers
  | some plan => plan.totalMb

/-- `attempt_load`, on the `n`-th rung: what it comes to, the state after, and the size of the model
file once that has been looked up. -/
def attemptLoad (n : Nat) (load : LoadModel ρ) (mmprojPath : Option String)
    (settings : EngineSettings ρ) (loadedFileBytes : Option Nat) (s : ControllerState ρ) :
    Except LoadAttemptError Unit × ControllerState ρ × Option Nat :=
  let s := s.swapOut
  let governor := env.governor n
  match s.memoryPlan config env n load mmprojPath settings with
  | .error message => (.error ⟨message, true⟩, s, loadedFileBytes)
  | .ok plan =>
    let settings := plannedSettings plan settings
    let req := buildLoadRequest load mmprojPath settings
    let loadedFileBytes := env.modelFileBytesOf req.modelPath
    let estimatedMb := estimatedMb env plan req
    if s.residency.canAdmit .llm estimatedMb governor = false then
      (.error ⟨"llm admission denied by residency policy: model_mb=" ++ toString estimatedMb ++
        ", inference_budget_mb=" ++ toString governor.inferenceResidentMb ++
        ", process_mb=" ++ toString governor.estimatedProcessMb ++
        ", process_soft_limit_mb=" ++ toString governor.processSoftLimitMb, true⟩,
        s, loadedFileBytes)
    else
      match s.engine.uploadSettings config.build settings with
      | .ok engine =>
        let (r, s) := ({ s with engine := engine } : ControllerState ρ).loadWeights config env n req
          estimatedMb none
        (r, s, loadedFileBytes)
      | .error .modelNotLoaded =>
        let (r, s) := s.loadWeights config env n req estimatedMb (some settings)
        (r, s, loadedFileBytes)
      | .error e => (.error ⟨config.debug e, loadErrorIsFatal e⟩, s, loadedFileBytes)

/-- What a rung that works gave up. -/
def rungOutcome (rung : LoadRung) : LoadOutcome :=
  (if rung.dropMmproj then [.visionProjector] else []) ++
    (if rung.cpuOnly then [.gpuOffload] else [])

/-- What is reported when the `n`-th of `total` rungs fails, after what `history` says of it and of
those before. -/
def ladderMessage (total n : Nat) (history : List String) (message : String) : String :=
  if 1 < history.length ∨ n + 1 = total then
    "model load failed after " ++ toString history.length ++ " attempt(s): [" ++
      " | ".intercalate history ++ "]"
  else
    message

/-- The ladder of `LoadModel`, from the `n`-th of its `total` rungs on. -/
def loadLadder (load : LoadModel ρ) (total : Nat) :
    List LoadRung → Nat → List String → Except String LoadOutcome → Option Nat →
      ControllerState ρ → Except String LoadOutcome × ControllerState ρ × Option Nat
  | [], _, _, r, loadedFileBytes, s => (r, s, loadedFileBytes)
  | rung :: rungs, n, history, _, loadedFileBytes, s =>
    match s.attemptLoad config env n load (if rung.dropMmproj then none else load.mmprojPath)
        (rung.apply load.settings) loadedFileBytes with
    | (.ok (), s, loadedFileBytes) => (.ok (rungOutcome rung), s, loadedFileBytes)
    | (.error e, s, loadedFileBytes) =>
      let history := history ++ [rung.label ++ ": " ++ e.message]
      let r := .error (ladderMessage total n history e.message)
      if e.fatal then
        (r, s, loadedFileBytes)
      else
        loadLadder load total rungs (n + 1) history r loadedFileBytes s

/-- The whole ladder. -/
def runLadder (load : LoadModel ρ) (s : ControllerState ρ) :
    Except String LoadOutcome × ControllerState ρ × Option Nat :=
  let rungs := loadFallbackRungs load.settings load.mmprojPath.isSome
  s.loadLadder config env load rungs.length rungs 0 [] (.error "load ladder never ran") none

/-- `LoadModel`. -/
def loadModel (load : LoadModel ρ) (s : ControllerState ρ) :
    Except String LoadOutcome × ControllerState ρ :=
  match s.runLadder config env load with
  | (.ok outcome, s, loadedFileBytes) =>
    let r := s.runtimes.drain config env (.completed .modelReloaded)
    (.ok outcome,
      { s with
        runtimes := { r with sessions := r.sessions.clear }
        loadedModelFileBytes := loadedFileBytes })
  | (.error message, s, _) => (.error message, s)

/-- `ApplySettings`. -/
def applySettings (settings : EngineSettings ρ) (s : ControllerState ρ) :
    Except String Unit × ControllerState ρ :=
  match s.engine.uploadSettings config.build settings with
  | .ok engine => (.ok (), { s with engine := engine })
  | .error e => (.error (config.debug e), s)

/-! ## Unloading and reloading -/

/-- The model taken out, its identity kept so that a reload can admit it again. -/
def unloadLlm (s : ControllerState ρ) : ControllerState ρ :=
  { s with
    engine := s.engine.unloadModel
    residency := s.residency.remove .llm
    idleUnloadedLlm := match s.residency.slot .llm with
      | some runtime => some (runtime.name, runtime.estimatedResidentMb)
      | none => s.idleUnloadedLlm
    loadedModelFileBytes := none }

/-- `UnloadModel`. -/
def unloadModel (s : ControllerState ρ) : ControllerState ρ :=
  unloadLlm { s with
    runtimes := s.runtimes.terminateEach config env (.completed .evicted)
      ((env.order.arrange s.runtimes.chats.entries).map (·.1)) }

/-- `reload_with_admission`. -/
def reloadWithAdmission (s : ControllerState ρ) : Except String Unit × ControllerState ρ :=
  let governor := env.governor 0
  match s.idleUnloadedLlm with
  | none =>
    match s.engine.reloadModel env.loads with
    | .error e => (.error (config.debug e), s)
    | .ok engine => (.ok (), { s with engine := engine })
  | some (name, mb) =>
    if s.residency.canAdmit .llm mb governor = false then
      (.error "llm reload admission denied by residency policy", s)
    else
      match s.engine.reloadModel env.loads with
      | .error e => (.error (config.debug e), s)
      | .ok engine =>
        match s.residency.admitRuntime ⟨.llm, name, mb, env.unixNow⟩ governor with
        | (false, _) =>
          (.error "llm reload residency registration denied",
            { s with engine := engine.unloadModel })
        | (true, residency) =>
          (.ok (), { s with
            engine := engine
            residency := residency
            loadedModelFileBytes := env.modelFileBytesOf name
            idleUnloadedLlm := none
            lastLlmActivityUnix := env.unixNow })

/-- `maybe_wake_llm`. -/
def maybeWakeLlm (s : ControllerState ρ) : ControllerState ρ :=
  if s.engine.isModelLoaded then
    s
  else if s.idleUnloadedLlm.isNone then
    s
  else
    (s.reloadWithAdmission config env).2

/-! ## Helpers, and residency maintenance -/

/-- `LoadEmbedder` and `LoadReranker`, which are the same but for the helper. -/
def loadHelper (helper : Helper) (modelPath : String) (s : ControllerState ρ) :
    Except String Unit × ControllerState ρ :=
  let estimatedMb := env.estimateResidentMb modelPath
  let governor := env.governor 0
  if s.residency.canAdmit helper.kind estimatedMb governor = false then
    (.error (helper.label ++ " admission denied by residency policy"), s)
  else
    match env.loadsHelper helper modelPath with
    | .error message => (.error message, s)
    | .ok () =>
      let utilities := s.utilities.set helper (some ⟨modelPath, estimatedMb⟩)
      match s.residency.admitRuntime ⟨helper.kind, modelPath, estimatedMb,
        env.unixNow⟩ governor with
      | (true, residency) => (.ok (), { s with utilities := utilities, residency := residency })
      | (false, _) =>
        (.error (helper.label ++ " residency registration denied after load"),
          { s with utilities := utilities.set helper none })

/-- `unload_evicted_helper`. -/
def unloadEvictedHelper (utilities : UtilityWorker) (kind : RuntimeKind) : UtilityWorker :=
  match kind with
  | .embedder => utilities.set .embedder none
  | .reranker => utilities.set .reranker none
  -- the model is not the worker's, and the other two have no runtime yet
  | .llm | .stt | .tts => utilities

/-- The helpers that were evicted, unloaded. -/
def unloadEvicted (utilities : UtilityWorker) (evicted : List ResidentRuntime) : UtilityWorker :=
  evicted.foldl (fun utilities runtime => unloadEvictedHelper utilities runtime.kind) utilities

/-- `maybe_idle_unload_llm`. -/
def maybeIdleUnloadLlm (s : ControllerState ρ) : ControllerState ρ :=
  if env.keepwarmEnabled = false ∨ (s.residency.slot .llm).isNone then
    s
  else
    match env.idleUnloadSecs.filter (0 < ·) with
    | none => s
    | some timeout =>
      if s.runtimes.chats.entries.any fun entry => entry.2.state.isInFlight then
        { s with lastLlmActivityUnix := env.unixNow }
      else if env.unixNow - s.lastLlmActivityUnix < timeout then
        s
      else
        unloadLlm { s with runtimes := s.runtimes.drain config env (.completed .evicted) }

/-- `run_residency_maintenance`. -/
def runResidencyMaintenance (s : ControllerState ρ) : ControllerState ρ :=
  let activeForeground := if s.runtimes.chats.entries.isEmpty then none else some RuntimeKind.llm
  let (evictedForPressure, residency) :=
    s.residency.unloadForPressure (env.governor 0) activeForeground
  let s := { s with
    residency := residency
    utilities := unloadEvicted s.utilities evictedForPressure }
  let (evictedIdle, residency) :=
    s.residency.evictIdleHelpers env.unixNow residencyPolicy
  let s := ({ s with residency := residency } : ControllerState ρ).maybeIdleUnloadLlm config env
  { s with utilities := unloadEvicted s.utilities evictedIdle }

end ControllerState

/-! ## Chats -/

/-- `apply_generation_defaults`. -/
def applyGenerationDefaults (config : ControllerConfig ρ) (engine : Engine ρ) (spec : GenSpec) :
    GenSpec :=
  let defaults := engine.settings config.build
  { spec with
    maxTokens := spec.maxTokens.or defaults.maxTokens
    temperature := spec.temperature.or defaults.temperature }

/-- `has_microphone`. -/
def hasMicrophone (messages : List Message) : Bool :=
  messages.any fun message =>
    match message.body with
    | .content (.multipleChunks chunks) =>
      chunks.any fun chunk => match chunk with
        | .microphone => true
        | _ => false
    | _ => false

/-- `Backend::backend_name`. -/
def backendName : BackendKind → String
  | .plugin name => name
  | .llamaCpp => "llamacpp"
  | .mlx => "mlx"
  | .externalApi => "external-api"
  | .mistralRs => "mistralrs"
  | .liteRtLm => "litertlm"
  | .onnx => "onnx"

/-- `Engine::start_session`: the session and how many messages were dropped for it, and the sessions
after.  A backend uses up a number for a session that it fails to open. -/
def startSession (env : Env ρ) (engine : Engine ρ) (strictRequest : Bool) (sessions : Sessions) :
    Except ExecError (SessionKey × Nat) × Sessions :=
  match engine.backend with
  | none => (.error .modelNotLoaded, sessions)
  | some b =>
    if strictRequest ∧ backendName b.kind ≠ "llamacpp" then
      (.error (.featureUnsupported "exact context text request"), sessions)
    else if b.loaded.isNone then
      (.error .modelNotLoaded, sessions)
    else
      match env.startSession with
      | .error e => (.error e, { sessions with nextId := sessions.nextId + 1 })
      | .ok dropped => (.ok (sessions.start.1, dropped), sessions.start.2)

namespace Runtimes

variable (config : ControllerConfig ρ) (env : Env ρ)

/-- Where there are as many chats as there may be, the one used longest ago is taken down. -/
def makeRoom (r : Runtimes) : Runtimes :=
  if config.maxActiveChats ≤ r.chats.entries.length then
    match r.evictLru env with
    | (some victim, r) => r.terminateRuntimeOwned config env victim (.completed .evicted)
    | (none, r) => r
  else
    r

/-- A runtime put in the map, and the one it displaces taken down. -/
def insertChat (chatId : ChatId) (chat : ChatRuntime) (r : Runtimes) : Runtimes :=
  match r.chats.lookup chatId with
  | none => r.setChat chatId chat
  | some displaced =>
    (r.setChat chatId chat).terminateRuntimeOwned config env displaced (.completed .evicted)

/-- The runtime that a session is wrapped in. -/
def newRuntime (session : SessionKey) (tx : TxId) (workload : WorkloadKind) (spec : GenSpec) :
    ChatRuntime where
  session := session
  tx := tx
  workload := workload
  lastUsed := env.now
  lastGenSpec := spec
  state := .idle
  health := {}

/-- What is said of a session that messages were dropped for. -/
def noteTruncated (tx : TxId) (dropped : Nat) (r : Runtimes) : Runtimes :=
  if 0 < dropped then (r.emit env tx (.contextTruncated dropped)).2 else r

/-- `StartChat`, from the session on. -/
def openChat (engine : Engine ρ) (tx : TxId) (chatId : ChatId) (messages : List Message)
    (spec : GenSpec) (r : Runtimes) : Runtimes :=
  let microphone := hasMicrophone messages
  match startSession env engine spec.requireFullContext r.sessions with
  | (.error e, sessions) =>
    ((r.withSessions sessions).emit env tx (backendFailure config e)).2
  | (.ok (session, dropped), sessions) =>
    let r := (r.withSessions sessions).noteTruncated env tx dropped
    let r := r.withSessions (r.sessions.register session.id tx)
    match attachUserTurn env (newRuntime env session tx .primaryChat spec) spec microphone with
    | .error e =>
      let r := r.withSessions (r.sessions.deregisterAndEndSession session.id)
      (r.emit env tx (backendFailure config e)).2
    | .ok chat =>
      let (ack, r) := r.emit env tx (.accepted messages.length)
      if microphone ∧ ack ≠ .sent then
        r.terminateRuntimeOwned config env chat (.completed .receiverDropped)
      else
        r.insertChat config env chatId chat

/-- `ContinueChat` of a chat that is there, where it may start a turn.  From the first line on the
runtime has the new turn's channel. -/
def continueTurn (engine : Engine ρ) (tx : TxId) (chatId : ChatId) (newMessages : List Message)
    (genSpec : GenSpec) (chat : ChatRuntime) (r : Runtimes) : Runtimes :=
  let microphone := hasMicrophone newMessages
  let chat := { chat with tx := tx }
  let r := r.setChat chatId chat
  let sid := chat.session.id
  let r := r.withSessions ((r.sessions.deregister sid).register sid tx)
  let refused := fun (e : ExecError) (r : Runtimes) =>
    let r := (r.emit env tx (backendFailure config e)).2
    if microphone then
      r.terminateRuntime config env chatId (.failed .startSessionFailed)
    else
      r
  match env.appendMessages chat.session newMessages with
  | .error e => refused e r
  | .ok dropped =>
    let r := r.noteTruncated env tx dropped
    let spec := applyGenerationDefaults config engine genSpec
    match attachUserTurn env chat spec microphone with
    | .error e => refused e r
    | .ok chat =>
      let (ack, r) := (r.setChat chatId chat).emit env tx (.accepted newMessages.length)
      if microphone ∧ ack ≠ .sent then
        r.terminateRuntime config env chatId (.completed .receiverDropped)
      else
        r

/-- The end of `handle_microphone_command`: a capture that failed, or whose caller has gone, is
taken down. -/
def afterMicrophone (chatId : ChatId) (failed : Bool) (r : Runtimes) : Runtimes :=
  if failed then
    r.terminateRuntime config env chatId (.failed .generationError)
  else if env.replyDropped then
    r.terminateRuntime config env chatId (.completed .receiverDropped)
  else
    r

/-- `handle_microphone_command`, where `work` is what becomes of the chat, or `none` where it
panics: the reply, and the runtimes after. -/
def handleMicrophoneCommand (chatId : ChatId)
    (work : ChatRuntime → Option (Except ExecError ChatRuntime)) (r : Runtimes) :
    Except ExecError Unit × Runtimes :=
  match r.chats.lookup chatId with
  | none => (.error (.invalidArg "no microphone capture is active"), r)
  | some chat =>
    if chat.state.isCapturingMicrophone = false then
      (.error (.invalidArg "no microphone capture is active"), r)
    else if config.generationTimeout ≤ env.now - chat.lastUsed then
      (.error microphoneTimeout, r.terminateRuntime config env chatId (.failed .timeout))
    else
      match work chat with
      | some (.ok chat) =>
        (.ok (), (r.setChat chatId { chat with lastUsed := env.now }).afterMicrophone config env
          chatId false)
      | some (.error e) =>
        (.error e, r.afterMicrophone config env chatId
          (!env.isCapturingMicrophone chat.session || env.isPoisoned chat.session))
      | none =>
        (.error (.sessionPoisoned "microphone prefill panicked"),
          r.afterMicrophone config env chatId true)

/-- `PushMicrophone`. -/
def pushMicrophone (chatId : ChatId) (r : Runtimes) : Except ExecError Unit × Runtimes :=
  r.handleMicrophoneCommand config env chatId fun chat =>
    env.microphone.map fun result => result.map fun _ => chat

/-- `CommitMicrophone`. -/
def commitMicrophone (chatId : ChatId) (r : Runtimes) : Except ExecError Unit × Runtimes :=
  r.handleMicrophoneCommand config env chatId fun chat =>
    env.microphone.map fun result => result.bind fun _ =>
      (env.pull chat.session chat.lastGenSpec).map fun _ =>
        attachGeneratingPuller env chat.lastGenSpec chat

/-- Whether a chat can be paused and resumed at all. -/
def pausable (chat : ChatRuntime) : Bool :=
  !chat.state.isCapturingMicrophone && !chat.lastGenSpec.requireFullContext &&
    decide (chat.lastGenSpec.outputMode = .text)

/-- `PauseChat`. -/
def pauseChat (chatId : ChatId) (r : Runtimes) : Runtimes :=
  match r.chats.lookup chatId with
  | none => r
  | some chat =>
    if pausable chat then
      match chat.state with
      | .generating _ lastGenSpec _ =>
        r.setChat chatId { chat with lastGenSpec := lastGenSpec, state := .paused lastGenSpec }
      | _ => r
    else
      r

/-- `ResumeChat`. -/
def resumeChat (chatId : ChatId) (r : Runtimes) : Runtimes :=
  match r.chats.lookup chatId with
  | none => r
  | some chat =>
    if pausable chat ∧ chat.state.isGenerating = false then
      let spec := match chat.state with
        | .paused lastGenSpec => lastGenSpec
        | _ => chat.lastGenSpec
      match env.pull chat.session spec with
      | .ok () => r.setChat chatId (attachGeneratingPuller env spec chat)
      | .error e => (r.emit env chat.tx (backendFailure config e)).2
    else
      r

/-- The name `start_ephemeral` files a system task under. -/
def ephemeralId (task : SystemTask) (chatId : ChatId) (r : Runtimes) : ChatId :=
  let base := chatId ++ "::".toList ++ task.label
  if base ∈ r.chats then base ++ ":".toList ++ Nat.toDigits 10 env.unixMillis else base

/-- `start_ephemeral`. -/
def startEphemeral (engine : Engine ρ) (tx : TxId) (task : SystemTask) (chatId : ChatId)
    (genSpec : GenSpec) (r : Runtimes) : Runtimes :=
  let chatId := r.ephemeralId env task chatId
  let spec := applyGenerationDefaults config engine genSpec
  match startSession env engine spec.requireFullContext r.sessions with
  | (.error e, sessions) =>
    ((r.withSessions sessions).emit env tx (backendFailure config e)).2
  | (.ok (session, _), sessions) =>
    let r := r.withSessions (sessions.register session.id tx)
    match env.pull session spec with
    | .error e =>
      let r := (r.emit env tx (backendFailure config e)).2
      r.withSessions (r.sessions.deregisterAndEndSession session.id)
    | .ok () =>
      -- what was filed under this name is dropped
      r.setChat chatId
        (attachGeneratingPuller env spec (newRuntime env session tx (.systemTask task) spec))

/-! ## The tick -/

/-- What a step of the puller does to its chat: the event to put on the channel, if any, and the
chat after. -/
def applyStep (chat : ChatRuntime) (step : PullStep) : Option ControllerEvent × ChatRuntime :=
  match step with
  | .panicked =>
    (some (.error "session_poisoned" "inference panic: session state lost; restart chat"),
      { chat with
        health := { chat.health with decodePanics := chat.health.decodePanics + 1 }
        state := .failed .sessionPoisoned })
  | .event (.token tok) =>
    let chat := { chat with health := { chat.health with consecutiveErrors := 0 } }
    if tok.text.isEmpty then
      (none, chat)
    else
      (some (.token tok.text), { chat with lastUsed := env.now })
  | .event .eos => (some .eos, { chat with state := .completed .eos })
  | .event .stopped => (some .stopped, { chat with state := .completed .stoppedByUser })
  | .event (.speech chunk) =>
    (none, { chat with state := match chat.state with
      | .generating genStarted lastGenSpec _ => .generating genStarted lastGenSpec (some chunk)
      | state => state })
  | .event (.mediaBoundary boundary) => (some (.mediaBoundary boundary), chat)
  | .event (.toolCall call) => (some (.toolCall call), { chat with lastUsed := env.now })
  | .event .paused | .event (.special _) => (none, chat)
  | .error e =>
    let health := { chat.health with
      poisonedByBackend := env.isPoisoned chat.session
      consecutiveErrors := chat.health.consecutiveErrors + 1 }
    if health.isUnhealthy then
      (some (.error "session_poisoned" ("session state lost: " ++ config.debug e)),
        { chat with health := health, state := .failed .sessionPoisoned })
    else
      (some (backendFailure config e),
        { chat with health := health, state := .failed .generationError })
  | .exhausted => (some .stopped, { chat with state := .completed .stoppedByUser })

/-- The chunk of speech that a tick could not deliver, offered again: whether the tick goes on to
the puller, the chat after and the runtimes after. -/
def offerSpeech (chat : ChatRuntime) (r : Runtimes) : Bool × ChatRuntime × Runtimes :=
  match chat.state with
  | .generating genStarted lastGenSpec (some chunk) =>
    match r.emit env chat.tx (.speech chunk) with
    | (.sent, r) =>
      (true, { chat with
        state := .generating genStarted lastGenSpec none, lastUsed := env.now }, r)
    | (.full, r) => (false, chat, r)
    | (.disconnected, r) => (false, { chat with state := .completed .receiverDropped }, r)
  | _ => (true, chat, r)

/-- `apply_receiver_disconnect_override`. -/
def applyReceiverDisconnectOverride (receiverDead : Bool) (chat : ChatRuntime) : ChatRuntime :=
  if receiverDead then { chat with state := .completed .receiverDropped } else chat

/-- Whether a generation has taken too long. -/
def timedOut (chat : ChatRuntime) : Bool :=
  chat.state.generationStartedAt.any fun t => config.generationTimeout < env.now - t

/-- One chat's part of a tick: the chat after and the runtimes after. -/
def tickChat (chat : ChatRuntime) (r : Runtimes) : ChatRuntime × Runtimes :=
  if timedOut config env chat then
    ({ chat with state := .failed .timeout },
      (r.emit env chat.tx (.error "timeout" ("generation timed out after " ++
        toString (config.generationTimeout / 1000) ++ "s"))).2)
  else
    match r.offerSpeech env chat with
    | (false, chat, r) => (chat, r)
    | (true, chat, r) =>
      match applyStep config env chat (env.next chat.session) with
      | (none, chat) => (chat, r)
      | (some event, chat) =>
        let (result, r) := r.emit env chat.tx event
        (applyReceiverDisconnectOverride (decide (result = .disconnected)) chat, r)

/-- The chats of a tick one after the other, and those that are to be removed. -/
def tickEach : List ChatId → Runtimes × List ChatId → Runtimes × List ChatId
  | [], acc => acc
  | id :: ids, (r, toRemove) =>
    match r.chats.lookup id with
    | none => tickEach ids (r, toRemove)
    | some chat =>
      if chat.shouldTick then
        let (chat, r) := r.tickChat config env chat
        tickEach ids
          (r.setChat id chat, if chat.shouldCleanup then toRemove ++ [id] else toRemove)
      else
        tickEach ids (r, toRemove)

/-- The chats to be removed, taken down as they ended. -/
def cleanUp (ids : List ChatId) (r : Runtimes) : Runtimes :=
  ids.foldl
    (fun r id => match r.chats.lookup id with
      | none => r
      | some chat => r.terminateRuntime config env id (runtimeOutcomeFromState chat)) r

/-- The captures that have heard nothing for too long. -/
def expired (r : Runtimes) : List ChatId :=
  ((env.order.arrange r.chats.entries).filter fun entry =>
    entry.2.state.isCapturingMicrophone &&
      decide (config.generationTimeout ≤ env.now - entry.2.lastUsed)).map (·.1)

/-- The generating chats, each a step further. -/
def tickGenerating (r : Runtimes) : Runtimes :=
  let (r, toRemove) := tickEach config env (r.tickOrder env) (r, [])
  r.cleanUp config env toRemove

end Runtimes

/-- `MAINTENANCE_INTERVAL`, in milliseconds. -/
def maintenanceInterval : Nat := 250

namespace ControllerState

variable (config : ControllerConfig ρ) (env : Env ρ)

/-- `StartChat`. -/
def startChat (tx : TxId) (chatId : ChatId) (messages : List Message) (genSpec : GenSpec)
    (s : ControllerState ρ) : ControllerState ρ :=
  let spec := applyGenerationDefaults config s.engine genSpec
  if (s.runtimes.chats.lookup chatId).any fun chat => !chat.state.allowsUserPullStart then
    { s with runtimes := (s.runtimes.emit env tx
      (.error "generation_error" "chat already has an active turn")).2 }
  else
    -- the runtime that holds the old transcript goes, and is built again below
    let r := s.runtimes.terminateRuntime config env chatId (.completed .evicted)
    let s := ({ s with runtimes := r.makeRoom config env } : ControllerState ρ).maybeWakeLlm
      config env
    { s with
      lastLlmActivityUnix := env.unixNow
      runtimes := s.runtimes.openChat config env s.engine tx chatId messages spec }

/-- `ContinueChat`. -/
def continueChat (tx : TxId) (chatId : ChatId) (newMessages transcript : List Message)
    (genSpec : GenSpec) (s : ControllerState ρ) : ControllerState ρ :=
  if genSpec.requireFullContext then
    { s with runtimes := (s.runtimes.emit env tx (.error "unsupported"
      "Full context requests require a fresh complete transcript.")).2 }
  else
    match s.runtimes.chats.lookup chatId with
    | some chat =>
      if !chat.state.allowsUserPullStart || (hasMicrophone newMessages && chat.state.isPaused) then
        { s with runtimes := (s.runtimes.emit env tx (.error "generation_error"
          "chat cannot start a new turn in its current state")).2 }
      else
        { s with runtimes :=
          s.runtimes.continueTurn config env s.engine tx chatId newMessages genSpec chat }
    | none => s.startChat config env tx chatId (transcript ++ newMessages) genSpec

/-- What is done before the chats, every so often. -/
def maintain (s : ControllerState ρ) : ControllerState ρ :=
  if s.lastMaintenance.all fun t => maintenanceInterval ≤ env.now - t then
    ({ s with
      lastMaintenance := some env.now
      runtimes := s.runtimes.terminateEach config env (.failed .timeout)
        (s.runtimes.expired config env) } : ControllerState ρ).runResidencyMaintenance config env
  else
    s

/-- `tick_active_chats`. -/
def tickActiveChats (s : ControllerState ρ) : ControllerState ρ :=
  let s := s.maintain config env
  { s with runtimes := s.runtimes.tickGenerating config env }

/-- `dispatch_cmd`, for a command whose turn, if it is one, has the channel `s.turns`. -/
def dispatchCmd (cmd : ControllerCmd ρ) (s : ControllerState ρ) : ControllerState ρ :=
  match cmd with
  | .loadModel load => (s.loadModel config env load).2
  | .applySettings settings => (s.applySettings config settings).2
  | .loadHelper helper modelPath => (s.loadHelper env helper modelPath).2
  | .unloadModel => s.unloadModel config env
  | .reloadModel => (s.reloadWithAdmission config env).2
  | .useHelper helper => { s with residency := s.residency.touch helper.kind env.unixNow }
  | .startChat chatId messages genSpec =>
    ({ s with turns := s.turns + 1 } : ControllerState ρ).startChat config env s.turns chatId
      messages genSpec
  | .continueChat chatId newMessages transcript genSpec =>
    ({ s with turns := s.turns + 1 } : ControllerState ρ).continueChat config env s.turns chatId
      newMessages transcript genSpec
  | .pushMicrophone chatId =>
    { s with runtimes := (s.runtimes.pushMicrophone config env chatId).2 }
  | .commitMicrophone chatId =>
    { s with runtimes := (s.runtimes.commitMicrophone config env chatId).2 }
  | .stopChat chatId =>
    { s with runtimes :=
      s.runtimes.terminateRuntime config env chatId (.completed .stoppedByUser) }
  | .pauseChat chatId => { s with runtimes := s.runtimes.pauseChat chatId }
  | .resumeChat chatId => { s with runtimes := s.runtimes.resumeChat config env chatId }
  | .systemInfer task chatId _ genSpec =>
    { s with
      turns := s.turns + 1
      runtimes := s.runtimes.startEphemeral config env s.engine s.turns task chatId genSpec }
  | .query => s
  | .shutdown => { s with
      running := false
      runtimes := s.runtimes.drain config env (.completed .controllerShutdown) }

end ControllerState

/-- What drives the controller's loop. -/
inductive Input (ρ : Type)
  | command (cmd : ControllerCmd ρ)
  | tick

/-- One round of the controller, with what the outside answers during it.  Once the loop has been
left nothing happens any more. -/
def step (config : ControllerConfig ρ) (input : Env ρ × Input ρ) (s : ControllerState ρ) :
    Option (ControllerState ρ) :=
  some <|
    if s.running then
      match input with
      | (env, .command cmd) => s.dispatchCmd config env cmd
      | (env, .tick) => s.tickActiveChats config env
    else
      s

/-- The controller as it starts, over an engine with nothing loaded. -/
def ControllerState.initial (engine : Engine ρ) (unixNow : Int) : ControllerState ρ where
  engine := engine
  runtimes := ⟨∅, ⟨0, 1, engine.backend.map fun _ => [], []⟩, []⟩
  residency := .empty
  utilities := ⟨none, none⟩
  loadedModelFileBytes := none
  lastLlmActivityUnix := unixNow
  idleUnloadedLlm := none
  lastMaintenance := none
  turns := 0
  running := true

end Gen2.Controller
