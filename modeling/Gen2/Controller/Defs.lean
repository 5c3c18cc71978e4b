import Gen2.Backend.Facade
import Gen2.Generation.Events
import Gen2.Lib.Channels
import Gen2.Lib.Leases
import Gen2.Residency
import Mathlib.Data.List.AList
import Mathlib.Data.List.MinMax

/-!
# The controller's runtimes

What `controller/mod.rs`, `controller/scheduler.rs` and `controller/lifecycle.rs` say of the chats a
controller holds: the state each is in, the events it puts on its channel, the session it has open
in the backend, and how it is taken down.

* `Runtimes` is the part of the controller's state that chats live in: the map, the sessions of the
  backend with its hook bus, and a record of everything offered to an event channel, with what
  became of it.  The record, and the log of sessions started and ended, are there to be spoken
  about; nothing reads them.
* `Env` is what the outside answers while the controller takes one step: clocks, files, memory, the
  backend, the channels, the order in which a hash map is iterated.  Nothing is assumed of it.
* Sessions are numbered by the backend that opened them, from one.  A session is named by that
  number together with which of the controller's backends it was.
* The controller's counters, the text it logs, and the statistics that a backend's hooks forward are
  left out.
-/

namespace Gen2.Controller

open Generation

/-! ## States and events -/

/-- `CompletionReason`. -/
inductive CompletionReason
  | eos
  | stoppedByUser
  | evicted
  | receiverDropped
  | modelReloaded
  | controllerShutdown
  deriving DecidableEq

/-- `FailureReason`. -/
inductive FailureReason
  | timeout
  | generationError
  | sessionPoisoned
  | startSessionFailed
  | pullerCreateFailed
  deriving DecidableEq

/-- `OutputMode`. -/
inductive OutputMode
  | text
  | speech
  | textAndSpeech
  deriving DecidableEq

/-- `GenSpec`, by the fields that the controller reads or fills in. -/
structure GenSpec where
  outputMode : OutputMode
  requireFullContext : Bool
  maxTokens : Option Nat
  temperature : Option F32
  deriving DecidableEq

/-- `ChatRunState`.  A puller is the backend's, and is told by the session it was opened on. -/
inductive ChatRunState
  | idle
  | capturingMicrophone
  | generating (genStarted : Nat) (lastGenSpec : GenSpec) (pendingSpeech : Option SpeechChunk)
  | paused (lastGenSpec : GenSpec)
  | completed (reason : CompletionReason)
  | failed (reason : FailureReason)

namespace ChatRunState

def isGenerating : ChatRunState → Bool
  | generating .. => true
  | _ => false

def isCapturingMicrophone : ChatRunState → Bool
  | capturingMicrophone => true
  | _ => false

def isPaused : ChatRunState → Bool
  | paused _ => true
  | _ => false

def isTerminal : ChatRunState → Bool
  | completed _ | failed _ => true
  | _ => false

def isInFlight (s : ChatRunState) : Bool := s.isGenerating || s.isCapturingMicrophone

def allowsUserPullStart (s : ChatRunState) : Bool := !s.isInFlight

def generationStartedAt : ChatRunState → Option Nat
  | generating genStarted _ _ => some genStarted
  | _ => none

end ChatRunState

/-- `SystemTask`. -/
inductive SystemTask
  | title
  | suggestions
  | compact
  | summary
  | custom (label : Text)
  deriving DecidableEq

/-- `SystemTask::label`. -/
def SystemTask.label : SystemTask → Text
  | title => "title".toList
  | suggestions => "suggestions".toList
  | compact => "compact".toList
  | summary => "summary".toList
  | custom label => label

/-- `WorkloadKind`. -/
inductive WorkloadKind
  | primaryChat
  | systemTask (task : SystemTask)
  deriving DecidableEq

/-- `WorkloadKind::is_system_task`. -/
def WorkloadKind.isSystemTask : WorkloadKind → Bool
  | primaryChat => false
  | systemTask _ => true

/-- `ControllerEvent`, by the events that the controller itself puts on a channel. -/
inductive ControllerEvent
  | token (text : Text)
  | mediaBoundary (boundary : MediaBoundary)
  | speech (chunk : SpeechChunk)
  | toolCall (call : Generation.ToolCall)
  | eos
  | stopped
  | error (code message : String)
  | contextTruncated (dropped : Nat)
  | accepted (delivered : Nat)

/-- `SessionHealth`.  The counters saturate, which is above every bound they are held against. -/
structure SessionHealth where
  decodePanics : Nat := 0
  consecutiveErrors : Nat := 0
  poisonedByBackend : Bool := false

/-- `SessionHealth::is_unhealthy`. -/
def SessionHealth.isUnhealthy (h : SessionHealth) : Bool :=
  h.poisonedByBackend || decide (0 < h.decodePanics) || decide (3 ≤ h.consecutiveErrors)

/-! ## Sessions -/

/-- An event channel, by the turn it was made for. -/
abbrev TxId := Nat

/-- A session: which backend it belongs to, counting those the controller has had, and its number
there. -/
structure SessionKey where
  backend : Nat
  id : Nat
  deriving DecidableEq

/-- A session opened or ended. -/
abbrev SessionCall := Lib.LeaseCall SessionKey

/-- The sessions of the backend in use, and its hook bus (there is none without a backend). -/
structure Sessions where
  backend : Nat
  nextId : Nat
  hooks : Option (List (Nat × TxId))
  calls : List SessionCall

namespace Sessions

/-- `HookBus::register_with_id`. -/
def register (s : Sessions) (id : Nat) (tx : TxId) : Sessions :=
  { s with hooks := s.hooks.map (· ++ [(id, tx)]) }

/-- `HookBus::deregister`. -/
def deregister (s : Sessions) (id : Nat) : Sessions :=
  if id = 0 then s else { s with hooks := s.hooks.map (·.filter fun hook => hook.1 ≠ id) }

/-- `HookBus::clear`. -/
def clear (s : Sessions) : Sessions := { s with hooks := s.hooks.map fun _ => [] }

/-- A session opened. -/
def start (s : Sessions) : SessionKey × Sessions :=
  (⟨s.backend, s.nextId⟩,
    { s with nextId := s.nextId + 1, calls := s.calls ++ [.started ⟨s.backend, s.nextId⟩] })

/-- `end_session`, which goes to the backend in use. -/
def endSession (s : Sessions) (id : Nat) : Sessions :=
  if s.hooks.isSome then { s with calls := s.calls ++ [.ended ⟨s.backend, id⟩] } else s

/-- `deregister_and_end_session`. -/
def deregisterAndEndSession (s : Sessions) (id : Nat) : Sessions :=
  (s.deregister id).endSession id

/-- Another backend in its place: a bus of its own, and numbers from one. -/
def switched (s : Sessions) (present : Bool) : Sessions :=
  { s with backend := s.backend + 1, nextId := 1, hooks := if present then some [] else none }

end Sessions

/-! ## Runtimes -/

/-- `ChatRuntime`. -/
structure ChatRuntime where
  session : SessionKey
  tx : TxId
  workload : WorkloadKind
  lastUsed : Nat
  lastGenSpec : GenSpec
  state : ChatRunState
  health : SessionHealth

abbrev ChatId := Text

/-- `HashMap<String, ChatRuntime>`. -/
abbrev ChatMap := AList fun _ : ChatId => ChatRuntime

/-- `EmitResult`. -/
abbrev EmitResult := Lib.OfferResult

/-- One event offered to a channel. -/
abbrev Emission := Lib.Offer ControllerEvent

/-- The chats, their sessions, and what was offered to their channels so far. -/
structure Runtimes where
  chats : ChatMap
  sessions : Sessions
  emissions : List Emission

/-- What one call of `TokenPuller::next` comes to. -/
inductive PullStep
  | event (e : TokenEvent)
  | error (e : ExecError)
  | exhausted
  | panicked

/-- An order in which a hash map is iterated. -/
structure IterationOrder where
  arrange : List (Sigma fun _ : ChatId => ChatRuntime) → List (Sigma fun _ : ChatId => ChatRuntime)
  perm : ∀ entries, (arrange entries).Perm entries

/-- The runtimes that the utility worker has a place for. -/
inductive Helper
  | embedder
  | reranker
  deriving DecidableEq

/-- The kind a helper is filed under. -/
def Helper.kind : Helper → RuntimeKind
  | embedder => .embedder
  | reranker => .reranker

/-- What a helper is called in messages. -/
def Helper.label : Helper → String
  | embedder => "embedder"
  | reranker => "reranker"

/-- `ModelMemoryPlan`, by what a load takes from it. -/
structure ModelMemoryPlan where
  totalMb : Nat
  contextTokens : Nat

/-- What the outside answers during one step. -/
structure Env (ρ : Type) where
  /-- `Instant::now()`, in milliseconds. -/
  now : Nat
  /-- `chrono::Utc::now().timestamp()`. -/
  unixNow : Int
  /-- `SystemTime::now()`, in milliseconds since the epoch. -/
  unixMillis : Nat
  keepwarmEnabled : Bool
  /-- `PIO_LLM_IDLE_UNLOAD_SECS`, where it is a number. -/
  idleUnloadSecs : Option Int
  /-- The memory governor, each time it is asked for in this step. -/
  governor : Nat → MemoryGovernor
  planGguf : String → Option String → EngineSettings ρ → Nat → Nat →
    Except String (Option ModelMemoryPlan)
  estimateResidentMb : String → Nat
  estimateResidentMbOffloaded : String → Option Nat → Nat
  modelFileBytesOf : String → Option Nat
  detectBackend : String → Except ExecError BackendKind
  loads : LoadRequest → Except ExecError Unit
  loadsHelper : Helper → String → Except String Unit
  order : IterationOrder
  trySend : TxId → Nat → EmitResult
  /-- `Backend::start_session` on a loaded model: how many messages were dropped to fit. -/
  startSession : Except ExecError Nat
  pull : SessionKey → GenSpec → Except ExecError Unit
  appendMessages : SessionKey → List Message → Except ExecError Nat
  isCapturingMicrophone : SessionKey → Bool
  isPoisoned : SessionKey → Bool
  /-- `push_microphone` or `commit_microphone`; `none` where it panics. -/
  microphone : Option (Except ExecError Unit)
  /-- Whether the caller of a microphone command has stopped waiting for its reply. -/
  replyDropped : Bool
  next : SessionKey → PullStep

/-- An outside in which everything works, and every puller has come to its end. -/
def Env.smooth (ρ : Type) : Env ρ where
  now := 0
  unixNow := 0
  unixMillis := 0
  keepwarmEnabled := false
  idleUnloadSecs := none
  governor _ := ⟨.normal, 1000, 1000, 0⟩
  planGguf _ _ _ _ _ := .ok none
  estimateResidentMb _ := 1
  estimateResidentMbOffloaded _ _ := 1
  modelFileBytesOf _ := some 1
  detectBackend _ := .ok .llamaCpp
  loads _ := .ok ()
  loadsHelper _ _ := .ok ()
  order := ⟨id, fun _ => .rfl⟩
  trySend _ _ := .sent
  startSession := .ok 0
  pull _ _ := .ok ()
  appendMessages _ _ := .ok 0
  isCapturingMicrophone _ := false
  isPoisoned _ := false
  microphone := none
  replyDropped := false
  next _ := .event .eos

/-- `ControllerConfig`, with what the build fixes. -/
structure ControllerConfig (ρ : Type) where
  build : Build ρ
  /-- `format!("{error:?}")`. -/
  debug : ExecError → String
  maxActiveChats : Nat
  generationTimeout : Nat

/-- A controller of `chats` chats over a build that accepts everything. -/
def ControllerConfig.plain (chats : Nat) : ControllerConfig Unit where
  build :=
    { compiled := fun _ => true
      defaultSettings := ⟨none, none, none, none, none, none, ()⟩
      validate := fun _ => .ok ()
      pluginAccepts := fun _ _ => .ok () }
  debug _ := ""
  maxActiveChats := chats
  generationTimeout := 120000

variable {ρ : Type}

/-- `backend_failure`. -/
def backendFailure (config : ControllerConfig ρ) (error : ExecError) : ControllerEvent :=
  .error
    (match error with
      | .contextOverflow _ => "context_overflow"
      | .coded code _ => code
      | _ => "generation_error")
    (config.debug error)

/-- `microphone_timeout`. -/
def microphoneTimeout : ExecError :=
  .coded "timeout" "microphone capture timed out waiting for audio"

/-! ## Scheduling -/

namespace ChatRuntime

/-- `should_tick`. -/
def shouldTick (chat : ChatRuntime) : Bool := chat.state.isGenerating

/-- `scheduler::should_cleanup` of the view of a chat. -/
def shouldCleanup (chat : ChatRuntime) : Bool :=
  chat.state.isTerminal && chat.workload.isSystemTask

end ChatRuntime

namespace Runtimes

/-- `scheduler::pick_eviction_target`: the first of those used longest ago. -/
def pickEvictionTarget (env : Env ρ) (r : Runtimes) : Option ChatId :=
  ((env.order.arrange r.chats.entries).argmin fun entry => entry.2.lastUsed).map (·.1)

/-- `scheduler::tick_order`: primary chats first, of those that are ready. -/
def tickOrder (env : Env ρ) (r : Runtimes) : List ChatId :=
  let ready := (env.order.arrange r.chats.entries).filter fun entry =>
    !entry.2.state.isPaused && !entry.2.state.isTerminal && entry.2.state.isGenerating
  (ready.filter fun entry => !entry.2.workload.isSystemTask).map (·.1) ++
    (ready.filter fun entry => entry.2.workload.isSystemTask).map (·.1)

/-! ## Events, and the end of a runtime -/

/-- The same chats with other sessions in the backend. -/
def withSessions (sessions : Sessions) (r : Runtimes) : Runtimes := { r with sessions := sessions }

/-- An event offered to a channel: whether it was taken.  Where it is delivered at any cost
(`emit_must_deliver`) this is what the last of its attempts came to. -/
def emit (env : Env ρ) (tx : TxId) (event : ControllerEvent) (r : Runtimes) :
    EmitResult × Runtimes :=
  let result := env.trySend tx r.emissions.length
  (result, { r with emissions := r.emissions ++ [⟨tx, event, result⟩] })

end Runtimes

/-- `RuntimeOutcome`. -/
inductive RuntimeOutcome
  | completed (reason : CompletionReason)
  | failed (reason : FailureReason)
  deriving DecidableEq

/-- `runtime_outcome_from_state`. -/
def runtimeOutcomeFromState (chat : ChatRuntime) : RuntimeOutcome :=
  match chat.state with
  | .completed reason => .completed reason
  | .failed reason => .failed reason
  | _ => .completed .stoppedByUser

/-- The event with which `terminate_runtime_owned` ends a turn. -/
def terminalEvent (config : ControllerConfig ρ) (chat : ChatRuntime) (outcome : RuntimeOutcome) :
    ControllerEvent :=
  if chat.state.isCapturingMicrophone ∧ outcome = .failed .timeout then
    backendFailure config microphoneTimeout
  else
    .stopped

namespace Runtimes

variable (config : ControllerConfig ρ) (env : Env ρ)

/-- `terminate_runtime_owned`, with `finalize_runtime_session`.  The outcome is recorded in a
runtime that is about to be dropped, and counted. -/
def terminateRuntimeOwned (chat : ChatRuntime) (outcome : RuntimeOutcome) (r : Runtimes) :
    Runtimes :=
  let r := (r.emit env chat.tx (terminalEvent config chat outcome)).2
  r.withSessions (r.sessions.deregisterAndEndSession chat.session.id)

/-- `terminate_runtime`. -/
def terminateRuntime (id : ChatId) (outcome : RuntimeOutcome) (r : Runtimes) : Runtimes :=
  match r.chats.lookup id with
  | none => r
  | some chat =>
    ({ r with chats := r.chats.erase id } : Runtimes).terminateRuntimeOwned config env chat outcome

/-- `terminate_runtime` of one chat after the other. -/
def terminateEach (outcome : RuntimeOutcome) (ids : List ChatId) (r : Runtimes) : Runtimes :=
  ids.foldl (fun r id => r.terminateRuntime config env id outcome) r

/-- Every chat drained from the map, and taken down. -/
def drain (outcome : RuntimeOutcome) (r : Runtimes) : Runtimes :=
  (env.order.arrange r.chats.entries).foldl
    (fun r entry => r.terminateRuntimeOwned config env entry.2 outcome) { r with chats := ∅ }

/-- `evict_lru`. -/
def evictLru (r : Runtimes) : Option ChatRuntime × Runtimes :=
  match r.pickEvictionTarget env with
  | none => (none, r)
  | some id => (r.chats.lookup id, { r with chats := r.chats.erase id })

/-- A runtime changed in place. -/
def setChat (id : ChatId) (chat : ChatRuntime) (r : Runtimes) : Runtimes :=
  { r with chats := r.chats.insert id chat }

end Runtimes

/-- `attach_generating_puller`. -/
def attachGeneratingPuller (env : Env ρ) (spec : GenSpec) (chat : ChatRuntime) : ChatRuntime :=
  { chat with lastGenSpec := spec, state := .generating env.now spec none }

/-- `attach_user_turn`. -/
def attachUserTurn (env : Env ρ) (chat : ChatRuntime) (spec : GenSpec) (microphone : Bool) :
    Except ExecError ChatRuntime :=
  if microphone then
    if env.isCapturingMicrophone chat.session then
      .ok { chat with lastGenSpec := spec, state := .capturingMicrophone, lastUsed := env.now }
    else
      .error (.featureUnsupported "incremental microphone input")
  else
    (env.pull chat.session spec).map fun _ =>
      { attachGeneratingPuller env spec chat with lastUsed := env.now }

end Gen2.Controller
