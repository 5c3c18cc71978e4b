import Gen2.Chat.Agreement
import Gen2.Controller.Defs

/-!
# A turn that is refused

`Turn` of `api/turn.rs`: what `run`, `stream` and `start_microphone` do with a session before the
engine has taken their command.

* `Turn.validate` is everything that `Turn::dispatch` checks before it commits, and `dispatch` the
  whole of it.  `Env` is what the engine and other threads answer meanwhile: the capabilities are
  asked for anew each time, and may be others.
* `call` is one of the three entry points, up to where the engine takes the command.
* `noted_opened` and `proved_opened_eq` say in terms of the session before when a conversation is
  still open after the notes and the proof of `begin_with_wire_tail`; `begin_spec` and
  `dispatch_spec` what else there is left of both.
* `refused_unmoved_iff`: a refused turn leaves the session as it was unless it has got past the
  checks, and has pushed messages or moved the open state.
-/

namespace Gen2
namespace Chat

open List Session

open Session (SameTalk)
open Controller (OutputMode)

/-! ## A turn -/

/-- `ToolChoice`. -/
inductive ToolChoice
  | auto
  | none
  | required
  | tool (name : String)
  deriving DecidableEq

/-- `Error`, as far as a turn is refused with it. -/
inductive Error
  | invalidRequest (message : String)
  | unsupported (what : String)
  | controllerGone
  | generation (code message : String)
  | load (message : String)
  deriving DecidableEq

/-- `Turn`.  Of its options there is what `dispatch` looks at; the sampling that goes to the backend
is left out. -/
structure Turn where
  staged : List Message
  maxTokens : Option Nat
  reasoning : ThinkingMode
  outputMode : OutputMode
  toolChoice : ToolChoice
  systemOverride : Option String
  toolsOverride : Option ToolSet
  /-- Whether there is a grammar. -/
  grammar : Bool
  requireFullContext : Bool
  requestSchema : Bool

/-- What becomes of a command. -/
inductive Fate
  /-- The controller is gone, and the command cannot be sent. -/
  | unsent
  /-- The controller goes before it takes the command off its channel. -/
  | untaken
  | taken
  deriving DecidableEq

/-- What a turn is told from outside. -/
structure Env where
  /-- `Model::ensure_resident`. -/
  resident : Except Error Unit
  /-- `Model::supports_request_schema`. -/
  supportsRequestSchema : Except Error Bool
  /-- Whether the engine can take a microphone, when that is asked. -/
  microphone : Bool
  /-- The media that the engine can take, when the messages are checked. -/
  media : Capabilities
  /-- Whether it can speak, when that is asked. -/
  speech : Bool
  /-- Whether the turn has been cancelled before it commits. -/
  cancelled : Bool
  engineId : Nat
  /-- The engine as `begin_with_wire_tail` finds it. -/
  engine : Engine
  fate : Fate

namespace Turn

variable (t : Turn) (s : Session)

/-- There is an explicit budget, and it is positive. -/
def positiveBudget : Bool := t.maxTokens.any (0 < ·)

/-- `effective`. -/
def effective : ToolSet := t.toolsOverride.getD s.tools

/-- `suppress`: nothing is offered. -/
def suppress : Bool :=
  t.toolChoice = .none ||
    (t.toolChoice = .auto && t.toolsOverride.any fun set => set.tools.isEmpty)

/-- The tools of the turn and the prompt that introduces them. -/
def offers : Except Error (Option (List ToolSpec × String)) :=
  match t.toolChoice with
  | .none => .ok none
  | .auto => .ok ((t.toolsOverride.filter fun set => !set.tools.isEmpty).map fun set =>
      (toWire set, toolPrompt))
  | .required =>
    if (t.effective s).tools.isEmpty then
      .error (.invalidRequest "tool_choice is Required but no tools are offered")
    else .ok (some (toWire (t.effective s),
      toolPrompt ++ " You must call one of the tools before answering."))
  | .tool name =>
    match (t.effective s).tools.find? (·.name == name) with
    | none => .error (.invalidRequest
        ("tool_choice names `" ++ name ++ "`, which is not among the tools offered"))
    | some only => .ok (some (toWire (ToolSet.new.add only),
        toolPrompt ++ " You must call the tool `" ++ name ++ "`."))

/-- `per_turn_prefix`: the prefix is not the one that the engine holds. -/
def perTurnPrefix : Bool :=
  t.requireFullContext || t.systemOverride.isSome || t.toolsOverride.isSome ||
    t.toolChoice ≠ .auto

/-- What is checked before anything is committed, and the tools of the turn. -/
def validate (env : Env) (microphone : Bool) : Except Error (Option (List ToolSpec × String)) := do
  if microphone && t.requireFullContext then
    throw (.invalidRequest
      "microphone input cannot be combined with full context enforcement")
  if t.requestSchema && (!t.requireFullContext || !t.positiveBudget) then
    throw (.invalidRequest
      "request schemas require full context and a positive explicit output budget")
  env.resident
  if t.requestSchema then
    if !(← env.supportsRequestSchema) then
      throw (.unsupported "strict request-scoped JSON schemas on this backend")
  if microphone && !env.microphone then
    throw (.unsupported "microphone input")
  if t.requireFullContext && !t.positiveBudget then
    throw (.invalidRequest "full context requires a positive explicit output budget")
  if let some media := unsupportedMedia (s.projection ++ t.staged) env.media then
    throw (.unsupported media)
  if t.outputMode ≠ .text then
    if !env.speech then
      throw (.unsupported "speech output")
    if t.grammar || t.requireFullContext then
      throw (.invalidRequest
        "speech output cannot be combined with grammar or full context enforcement")
  if t.requestSchema && !(t.effective s).tools.isEmpty && !t.suppress then
    throw (.invalidRequest "request schemas require tools to be suppressed")
  t.offers s

/-- The chat that a turn is dispatched as. -/
def spec (tools : Option (List ToolSpec × String)) : TurnSpec where
  via := .turn
  staged := t.staged
  thinking := t.reasoning
  tools := tools
  suppressTools := tools.isNone && t.suppress
  systemOverride := t.systemOverride.map some
  perTurnPrefix := t.perTurnPrefix
  overrideIsPerTurn h := by
    have h : t.systemOverride.isSome = true := by simpa using h
    exact ⟨rfl, by simp [perTurnPrefix, h]⟩

/-- What `begin_microphone` puts behind the session's messages. -/
def wireTail (microphone : Bool) : List Message :=
  if microphone then t.staged ++ [⟨"user", .content (.multipleChunks [.microphone]), none, none⟩]
  else []

end Turn

/-! ## Dispatching it -/

/-- `Dispatch`. -/
inductive Dispatch
  | started (cmd : Cmd)
  | cancelled

/-- The entry points. -/
inductive Entry
  | run
  | stream
  | startMicrophone
  deriving DecidableEq

/-- `microphone_cancelled`. -/
def microphoneCancelled : Error := .generation "cancelled" "microphone capture was cancelled"

section
variable [SerdeJson]

/-- The staged messages are pushed, but for a microphone's, and a prefix that is not the engine's
closes the conversation. -/
def Turn.commit (t : Turn) (microphone : Bool) (s : Session) : Session :=
  let s := if microphone then s else pushAll s t.staged
  if t.perTurnPrefix then { s with opened := false } else s

/-- `Turn::dispatch`.  What has been done to the session by then is there, whatever is returned. -/
def dispatch (env : Env) (microphone : Bool) (t : Turn) (s : Session) :
    Option (Except Error Dispatch × Session) :=
  match t.validate s env microphone with
  | .error e => some (.error e, s)
  | .ok tools =>
    if env.cancelled then some (.ok .cancelled, s)
    else
      let s := t.commit microphone s
      -- the chat takes its mark here, behind what has been pushed
      match beginWithWireTail env.engine env.engineId s.active.length (t.spec tools)
          (t.wireTail microphone) s with
      | none => none
      | some (.error media, s) => some (.error (.unsupported media), s)
      | some (.ok cmd, s) =>
        if env.fate = .unsent then some (.error .controllerGone, s)
        else some (.ok (.started cmd), s)

/-- `stream`, up to where the engine takes the command, as are the next two: they return an error,
or else the rest is the engine's. -/
def stream (env : Env) (t : Turn) (s : Session) : Option (Except Error Dispatch × Session) :=
  dispatch env false t s

/-- `run`.  If the command is never taken, the stream ends at once and `finish` hands the error
on. -/
def run (env : Env) (t : Turn) (s : Session) : Option (Except Error Dispatch × Session) :=
  match stream env t s with
  | some (.ok (.started cmd), s) =>
    if env.fate = .untaken then some (.error .controllerGone, s) else some (.ok (.started cmd), s)
  | r => r

/-- `start_microphone`.  If the command is never taken, `wait_until_accepted` fails and the capture
is dropped. -/
def startMicrophone (env : Env) (t : Turn) (s : Session) :
    Option (Except Error Dispatch × Session) :=
  match dispatch env true t s with
  | some (.ok .cancelled, s) => some (.error microphoneCancelled, s)
  | some (.ok (.started cmd), s) =>
    if env.fate = .untaken then some (.error .controllerGone, { s with opened := false })
    else some (.ok (.started cmd), s)
  | r => r

/-- One of them. -/
def call : Entry → Env → Turn → Session → Option (Except Error Dispatch × Session)
  | .run => run
  | .stream => stream
  | .startMicrophone => startMicrophone

end

/-! ## What is left of it -/

/-- The records of a session, its active projection, revision, events and open state are as they
were. -/
structure Unmoved (s s' : Session) : Prop where
  records : s'.records = s.records
  active : s'.active = s.active
  projection : s'.projection = s.projection
  revision : s'.revision = s.revision
  events : s'.events = s.events
  opened : s'.opened = s.opened

theorem Unmoved.refl (s : Session) : Unmoved s s := ⟨rfl, rfl, rfl, rfl, rfl, rfl⟩

/-- Where nothing is different but what a session knows of its engines, that is the open state. -/
theorem unmoved_iff_opened {s s' : Session} (h : SameTalk s s') :
    Unmoved s s' ↔ s'.opened = s.opened :=
  ⟨Unmoved.opened, fun hopened => ⟨congrArg Session.Core.records h.core, h.active, h.projection,
    h.revision, h.events, hopened⟩⟩

/-- What `note_engine` brings forward is the binding of the engine. -/
theorem noteEngine_binding (s : Session) (engine : Nat) :
    let s' := (s.noteEngine engine).2
    s'.opened = (s.bindingOf engine).opened ∧
      s'.modelGeneration = (s.bindingOf engine).modelGeneration ∧
      s'.thinking = (s.bindingOf engine).thinking ∧
      s'.prefixFingerprint = (s.bindingOf engine).prefixFingerprint ∧
      s'.ownReplyFollows = (s.bindingOf engine).ownReplyFollows := by
  by_cases hbound : s.boundEngine = some engine
  · simp only [noteEngine, bindingOf, if_pos hbound, and_self]
  -- what is parked on the way is another engine's
  have hparked : ∀ binding previous, s.boundEngine = some previous →
      (s.parked.insert previous binding).lookup engine = s.parked.lookup engine := by
    intro binding previous hprevious
    refine AList.lookup_insert_ne fun heq => hbound ?_
    rw [hprevious, heq]
  simp only [noteEngine, bindingOf, if_neg hbound]
  cases hprevious : s.boundEngine with
  | none => simp only [and_self]
  | some previous =>
    dsimp only
    split
    · simp only [hparked _ previous hprevious, and_self]
    · simp only [and_self]

/-- `note_model` leaves the conversation open if it was opened under this generation. -/
theorem noteModel_opened (s : Session) (generation : Nat) :
    let s' := (s.noteModel generation).2
    s'.opened = (s.opened && decide (s.modelGeneration = some generation)) ∧
      s'.thinking = s.thinking ∧ s'.prefixFingerprint = s.prefixFingerprint ∧
      s'.ownReplyFollows = s.ownReplyFollows := by
  rw [noteModel]
  cases hgeneration : s.modelGeneration with
  | none => cases s.opened <;> simp
  | some current => by_cases hcurrent : current = generation <;> simp [hcurrent]

/-- `note_thinking` leaves it open if it was opened with this reasoning. -/
theorem noteThinking_opened (s : Session) (mode : ThinkingMode) :
    let s' := (s.noteThinking mode).2
    s'.opened = (s.opened && decide (s.thinking = some mode)) ∧
      s'.prefixFingerprint = s.prefixFingerprint ∧ s'.ownReplyFollows = s.ownReplyFollows := by
  rw [noteThinking]
  cases hthinking : s.thinking with
  | none => cases s.opened <;> simp
  | some current => by_cases hcurrent : current = mode <;> simp [hcurrent]

/-- The conversation that is bound to an engine is open, under the engine's model and with the
reasoning of the turn, and the turn brings nothing that closes it. -/
def staysOpen (b : Binding) (e : Engine) (t : TurnSpec) (wireTail : List Message) : Bool :=
  b.opened && decide (b.modelGeneration = some e.generation) &&
    decide (b.thinking = some t.thinking) &&
    !(t.systemOverride.isSome || wireTail.any (·.role == "assistant"))

/-- The notes leave a conversation open just then. -/
theorem noted_opened (e : Engine) (engine : Nat) (t : TurnSpec) (wireTail : List Message)
    (s : Session) :
    let s' := noted e engine t wireTail s
    SameTalk s s' ∧ s'.opened = staysOpen (s.bindingOf engine) e t wireTail ∧
      s'.prefixFingerprint = (s.bindingOf engine).prefixFingerprint ∧
      s'.ownReplyFollows = (s.bindingOf engine).ownReplyFollows := by
  let s₁ := (s.noteEngine engine).2
  let s₂ := (s₁.noteModel e.generation).2
  let s₃ := (s₂.noteThinking t.thinking).2
  obtain ⟨hopened₁, hgeneration₁, hthinking₁, hprint₁, hfollows₁⟩ := noteEngine_binding s engine
  obtain ⟨hopened₂, hthinking₂, hprint₂, hfollows₂⟩ := noteModel_opened s₁ e.generation
  obtain ⟨hopened₃, hprint₃, hfollows₃⟩ := noteThinking_opened s₂ t.thinking
  have htalk : SameTalk s s₃ := ((s.sameTalk_noteEngine engine).trans
    (s₁.sameTalk_noteModel _)).trans (s₂.sameTalk_noteThinking _)
  have hopened : s₃.opened = ((s.bindingOf engine).opened &&
      decide ((s.bindingOf engine).modelGeneration = some e.generation) &&
        decide ((s.bindingOf engine).thinking = some t.thinking)) := by
    rw [hopened₃, hopened₂, hthinking₂, hopened₁, hgeneration₁, hthinking₁]
  have hprint := (hprint₃.trans hprint₂).trans hprint₁
  have hfollows := (hfollows₃.trans hfollows₂).trans hfollows₁
  have hnoted : noted e engine t wireTail s =
      if t.systemOverride.isSome || wireTail.any (·.role == "assistant") then
        { s₃ with opened := false } else s₃ := rfl
  dsimp only
  rw [hnoted, staysOpen, ← hopened]
  cases hclose : t.systemOverride.isSome || wireTail.any (·.role == "assistant") with
  | true =>
    refine ⟨htalk.trans ⟨rfl, rfl, rfl, rfl, rfl, rfl⟩, ?_, hprint, hfollows⟩
    simp
  | false => exact ⟨htalk, by simp, hprint, hfollows⟩

section
variable [SerdeJson]

/-- What the engine holds is still there, by the digest it is bound with, and the rest can be
appended. -/
def stillHeld (b : Binding) (held : Nat) (offered : UInt64) (s : Session) : Bool :=
  let s := { s with prefixFingerprint := b.prefixFingerprint, ownReplyFollows := b.ownReplyFollows }
  s.prefixStillHeld held offered && s.tailIsAppendable held

variable {s' : Session}

/-- The proof leaves open what was open and is still held. -/
theorem proved_opened_eq {s : Session} {b : Binding} (h : SameTalk s s')
    (hprint : s'.prefixFingerprint = b.prefixFingerprint)
    (hfollows : s'.ownReplyFollows = b.ownReplyFollows) (held : Nat) :
    (proved held s').opened = (s'.opened && stillHeld b held s'.offeredFingerprint s) := by
  have hdigest (offered : UInt64) : s'.prefixDigest held offered = s.prefixDigest held offered := by
    rw [prefixDigest, prefixDigest, h.system, h.projection, h.active]
  have hstill : (s'.prefixStillHeld held s'.offeredFingerprint && s'.tailIsAppendable held) =
      stillHeld b held s'.offeredFingerprint s := by
    rw [prefixStillHeld, tailIsAppendable, hdigest, transcriptLen,
      h.system, h.projection, hprint, hfollows]
    rfl
  rw [← hstill, proved]
  generalize (s'.prefixStillHeld held s'.offeredFingerprint && s'.tailIsAppendable held) = held
  cases hopened : s'.opened <;> cases held <;> simp [hopened]

/-- What begins on a session, with the mark behind all its messages: a refusal takes none of them
back. -/
theorem begin_spec (e : Engine) (engine : Nat) (t : TurnSpec) (wireTail : List Message)
    (s : Session) : ∃ result s',
      beginWithWireTail e engine s.active.length t wireTail s = some (result, s') ∧
        SameTalk s s' ∧
        s'.opened = (staysOpen (s.bindingOf engine) e t wireTail &&
          ((unsupportedMedia s.projection e.capabilities).isSome ||
            stillHeld (s.bindingOf engine) (e.sent s.id) (offeredFingerprint (offered t s)) s)) ∧
        ((∃ media, unsupportedMedia s.projection e.capabilities = some media ∧
          result = .error media) ∨
          unsupportedMedia s.projection e.capabilities = none ∧ ∃ cmd, result = .ok cmd) := by
  obtain ⟨htalk, hopened, hprint, hfollows⟩ := noted_opened e engine t wireTail s
  rw [beginWithWireTail]
  dsimp only
  generalize noted e engine t wireTail s = s₁ at *
  have hsame : unsupportedMedia s₁.projection e.capabilities =
      unsupportedMedia s.projection e.capabilities := by
    rw [htalk.projection]
  cases hmedia : unsupportedMedia s.projection e.capabilities with
  | some media =>
    refine ⟨.error media, s₁, ?_, htalk, by simpa using hopened, .inl ⟨media, rfl, rfl⟩⟩
    rw [hsame, hmedia]
    dsimp only
    rw [rollbackTo, if_pos (Nat.le_of_eq (congrArg length htalk.active))]
    rfl
  | none =>
    have htools : offered t s₁ = offered t s := by
      rw [offered, offered, show s₁.tools = s.tools from congrArg Session.Core.tools htalk.core]
    let s₂ : Session := { s₁ with offeredFingerprint := offeredFingerprint (offered t s₁) }
    have htalk₂ : SameTalk s s₂ := htalk.trans ⟨rfl, rfl, rfl, rfl, rfl, rfl⟩
    refine ⟨.ok (command t (e.sent s₂.id) (offered t s₁) wireTail (proved (e.sent s₂.id) s₂)),
      proved (e.sent s₂.id) s₂, by rw [hsame, hmedia], ?_, ?_, .inr ⟨rfl, _, rfl⟩⟩
    · refine htalk₂.trans ?_
      rw [proved]
      split <;> exact ⟨rfl, rfl, rfl, rfl, rfl, rfl⟩
    · rw [proved_opened_eq htalk₂ hprint hfollows, show s₂.opened = s₁.opened from rfl, hopened,
        show s₂.id = s.id from htalk.id,
        show s₂.offeredFingerprint = offeredFingerprint (offered t s₁) from rfl, htools]
      rfl

/-- Every message that is pushed is an event. -/
theorem length_pushAll_events (s : Session) (ms : List Message) :
    (pushAll s ms).events.length = s.events.length + ms.length := by
  induction ms generalizing s with
  | nil => rfl
  | cons m ms ih =>
    have hpush : (s.push m).2.events.length = s.events.length + 1 := by
      simp [push, mint, log, SessionEvent.movesRevision]
    rw [show pushAll s (m :: ms) = pushAll (s.push m).2 ms from rfl, ih, hpush, length_cons]
    omega

/-! ## Refusals -/

/-- Only `start_microphone` pushes nothing. -/
def Entry.microphone (entry : Entry) : Bool := entry = .startMicrophone

/-- Whether the conversation is open when a turn that has pushed nothing is refused behind the
checks: if it is bound to the engine and stays open, and if either the media are refused, or what
the engine holds is still there and no capture has been dropped. -/
def leftOpen (entry : Entry) (env : Env) (t : Turn) (tools : Option (List ToolSpec × String))
    (s : Session) : Bool :=
  let b := (if t.perTurnPrefix then { s with opened := false } else s).bindingOf env.engineId
  staysOpen b env.engine (t.spec tools) (t.wireTail entry.microphone) &&
    ((unsupportedMedia s.projection env.engine.capabilities).isSome ||
      (stillHeld b (env.engine.sent s.id) (offeredFingerprint (offered (t.spec tools) s)) s &&
        !(entry.microphone && env.fate = .untaken)))

/-- Nothing is pushed, and the conversation is open just if it was. -/
structure Harmless (entry : Entry) (env : Env) (t : Turn) (tools : Option (List ToolSpec × String))
    (s : Session) : Prop where
  unpushed : entry = .startMicrophone ∨ t.staged = []
  opened : s.opened = leftOpen entry env t tools s

variable {env : Env}

/-- What a turn does behind the checks. -/
theorem dispatch_spec {microphone : Bool} {t : Turn} {s : Session}
    {tools : Option (List ToolSpec × String)} (hvalid : t.validate s env microphone = .ok tools)
    (hgo : env.cancelled = false) : ∃ result s', dispatch env microphone t s = some (result, s') ∧
      SameTalk (t.commit microphone s) s' ∧
      s'.opened = (staysOpen ((t.commit microphone s).bindingOf env.engineId) env.engine
          (t.spec tools) (t.wireTail microphone) &&
        ((unsupportedMedia (t.commit microphone s).projection env.engine.capabilities).isSome ||
          stillHeld ((t.commit microphone s).bindingOf env.engineId)
            (env.engine.sent (t.commit microphone s).id)
            (offeredFingerprint (offered (t.spec tools) (t.commit microphone s)))
            (t.commit microphone s))) ∧
      ((∃ media, unsupportedMedia (t.commit microphone s).projection env.engine.capabilities =
          some media ∧ result = .error (.unsupported media)) ∨
        unsupportedMedia (t.commit microphone s).projection env.engine.capabilities = none ∧
          ((env.fate = .unsent ∧ result = .error .controllerGone) ∨
            ∃ cmd, env.fate ≠ .unsent ∧ result = .ok (.started cmd))) := by
  obtain ⟨result, s', hbegin, htalk, hopened, hresult⟩ := begin_spec env.engine env.engineId
    (t.spec tools) (t.wireTail microphone) (t.commit microphone s)
  simp only [dispatch, hvalid, hgo, Bool.false_eq_true, if_false, hbegin]
  rcases hresult with ⟨media, hmedia, rfl⟩ | ⟨hmedia, cmd, rfl⟩
  · exact ⟨_, s', rfl, htalk, hopened, .inl ⟨media, hmedia, rfl⟩⟩
  by_cases hfate : env.fate = .unsent
  · refine ⟨.error .controllerGone, s', by simp [hfate], htalk, hopened, .inr ⟨hmedia, .inl ?_⟩⟩
    exact ⟨hfate, rfl⟩
  · refine ⟨.ok (.started cmd), s', by simp [hfate], htalk, hopened, .inr ⟨hmedia, .inr ?_⟩⟩
    exact ⟨cmd, hfate, rfl⟩

/-- Where nothing is pushed, a turn commits to no more than closing the conversation. -/
theorem commit_unpushed {microphone : Bool} {t : Turn} (h : microphone = true ∨ t.staged = [])
    (s : Session) :
    t.commit microphone s = if t.perTurnPrefix then { s with opened := false } else s := by
  have hpushed : (if microphone then s else pushAll s t.staged) = s := by
    rcases h with rfl | hnil
    · rfl
    · rw [hnil]
      exact ite_self s
  rw [Turn.commit, hpushed]

variable {entry : Entry}

/-- Such a turn, refused behind the checks. -/
theorem unmoved_iff_harmless {t : Turn} {s : Session} {tools : Option (List ToolSpec × String)}
    (htalk : SameTalk (t.commit entry.microphone s) s')
    (hopened : (entry = .startMicrophone ∨ t.staged = []) →
      s'.opened = leftOpen entry env t tools s) : Unmoved s s' ↔ Harmless entry env t tools s := by
  by_cases hunpushed : entry = .startMicrophone ∨ t.staged = []
  · have hunpushed' : entry.microphone = true ∨ t.staged = [] :=
      hunpushed.imp_left fun h => by rw [h]; rfl
    have hsame : SameTalk s s' := by
      rw [commit_unpushed hunpushed'] at htalk
      refine SameTalk.trans ?_ htalk
      split <;> exact ⟨rfl, rfl, rfl, rfl, rfl, rfl⟩
    rw [unmoved_iff_opened hsame, hopened hunpushed]
    exact ⟨fun h => ⟨hunpushed, h.symm⟩, fun h => h.opened.symm⟩
  · refine iff_of_false (fun hunmoved => ?_) fun h => hunpushed h.unpushed
    obtain ⟨hentry, hstaged⟩ := not_or.mp hunpushed
    -- what has been pushed is among the events
    have hevents : (pushAll s t.staged).events = s.events := by
      rw [← hunmoved.events, htalk.events, Turn.commit,
        show entry.microphone = false from decide_eq_false hentry]
      split <;> rfl
    have hlength := congrArg length hevents
    rw [length_pushAll_events] at hlength
    exact hstaged (length_eq_zero_iff.mp (by omega))

/-- What a committed turn has left open, where it has pushed nothing. -/
theorem leftOpen_eq {t : Turn} {s : Session} (tools : Option (List ToolSpec × String))
    (hunpushed : entry = .startMicrophone ∨ t.staged = []) :
    leftOpen entry env t tools s =
      (staysOpen ((t.commit entry.microphone s).bindingOf env.engineId) env.engine (t.spec tools)
          (t.wireTail entry.microphone) &&
        ((unsupportedMedia (t.commit entry.microphone s).projection
            env.engine.capabilities).isSome ||
          (stillHeld ((t.commit entry.microphone s).bindingOf env.engineId)
            (env.engine.sent (t.commit entry.microphone s).id)
            (offeredFingerprint (offered (t.spec tools) (t.commit entry.microphone s)))
            (t.commit entry.microphone s) && !(entry.microphone && env.fate = .untaken)))) := by
  have hunpushed : entry.microphone = true ∨ t.staged = [] :=
    hunpushed.imp_left fun h => by rw [h]; rfl
  rw [leftOpen, commit_unpushed hunpushed]
  cases t.perTurnPrefix <;> rfl

/-- An error of `dispatch` is handed on. -/
theorem call_of_error {t : Turn} {s : Session} {e : Error}
    (h : dispatch env entry.microphone t s = some (.error e, s')) :
    call entry env t s = some (.error e, s') := by
  cases entry with
  | run => simp only [call, run, stream, show dispatch env false t s = _ from h]
  | stream => exact h
  | startMicrophone => simp only [call, startMicrophone, show dispatch env true t s = _ from h]

/-- A turn that is cancelled is refused by `start_microphone` only. -/
theorem call_of_cancelled {t : Turn} {s : Session}
    (h : dispatch env entry.microphone t s = some (.ok .cancelled, s')) :
    ∃ result, call entry env t s = some (result, s') := by
  cases entry with
  | run =>
    refine ⟨.ok .cancelled, ?_⟩
    simp only [call, run, stream, show dispatch env false t s = _ from h]
  | stream => exact ⟨_, h⟩
  | startMicrophone =>
    refine ⟨.error microphoneCancelled, ?_⟩
    simp only [call, startMicrophone, show dispatch env true t s = _ from h]

/-- What is made of a command. -/
theorem call_of_started {t : Turn} {s : Session} {cmd : Cmd}
    (h : dispatch env entry.microphone t s = some (.ok (.started cmd), s')) :
    (env.fate = .untaken ∧ entry ≠ .stream ∧ call entry env t s =
      some (.error .controllerGone, if entry.microphone then { s' with opened := false } else s')) ∨
      call entry env t s = some (.ok (.started cmd), s') := by
  by_cases hfate : env.fate = .untaken
  · cases entry with
    | run =>
      refine .inl ⟨hfate, by simp, ?_⟩
      simp only [call, run, stream, show dispatch env false t s = _ from h, if_pos hfate]
      rfl
    | stream => exact .inr h
    | startMicrophone =>
      refine .inl ⟨hfate, by simp, ?_⟩
      simp only [call, startMicrophone, show dispatch env true t s = _ from h, if_pos hfate]
      rfl
  · refine .inr ?_
    cases entry with
    | run => simp only [call, run, stream, show dispatch env false t s = _ from h, if_neg hfate]
    | stream => exact h
    | startMicrophone =>
      simp only [call, startMicrophone, show dispatch env true t s = _ from h, if_neg hfate]

/-- **A refused turn leaves the session as it was** unless it gets past the checks and has then
pushed a message, or moved the open state. -/
theorem refused_unmoved_iff (entry : Entry) (env : Env) (t : Turn) (s : Session) :
    ∃ result s', call entry env t s = some (result, s') ∧ ∀ e, result = .error e →
      (Unmoved s s' ↔ ∀ tools, t.validate s env entry.microphone = .ok tools →
        env.cancelled = false → Harmless entry env t tools s) := by
  cases hvalid : t.validate s env entry.microphone with
  | error e =>
    have hdispatch : dispatch env entry.microphone t s = some (.error e, s) := by
      simp only [dispatch, hvalid]
    exact ⟨.error e, s, call_of_error hdispatch,
      fun _ _ => iff_of_true (Unmoved.refl s) fun _ h => by cases h⟩
  | ok tools =>
    cases hgo : env.cancelled with
    | true =>
      have hdispatch : dispatch env entry.microphone t s = some (.ok .cancelled, s) := by
        simp only [dispatch, hvalid, hgo, if_true]
      obtain ⟨result, hcall⟩ := call_of_cancelled hdispatch
      exact ⟨result, s, hcall, fun _ _ => iff_of_true (Unmoved.refl s) fun _ _ h => by cases h⟩
    | false =>
      have hiff (s' : Session) (h : Unmoved s s' ↔ Harmless entry env t tools s) :
          Unmoved s s' ↔ ∀ tools', (.ok tools : Except Error _) = .ok tools' → false = false →
            Harmless entry env t tools' s := by
        refine h.trans ⟨fun hharmless tools' heq _ => ?_, fun hall => hall tools rfl rfl⟩
        cases heq
        exact hharmless
      obtain ⟨result, s', hdispatch, htalk, hopened, hresult⟩ := dispatch_spec hvalid hgo
      rcases hresult with ⟨media, hmedia, rfl⟩ | ⟨hmedia, ⟨hfate, rfl⟩ | ⟨cmd, hfate, rfl⟩⟩
      · -- other media than before are taken now
        refine ⟨_, s', call_of_error hdispatch, fun _ _ => hiff s' ?_⟩
        refine unmoved_iff_harmless htalk fun hunpushed => ?_
        rw [hopened, leftOpen_eq tools hunpushed, hmedia]
        rfl
      · refine ⟨_, s', call_of_error hdispatch, fun _ _ => hiff s' ?_⟩
        refine unmoved_iff_harmless htalk fun hunpushed => ?_
        rw [hopened, leftOpen_eq tools hunpushed, hfate]
        simp
      · rcases call_of_started hdispatch with ⟨hfate, hentry, hcall⟩ | hcall
        · refine ⟨_, _, hcall, fun _ _ => hiff _ ?_⟩
          refine unmoved_iff_harmless ?_ fun hunpushed => ?_
          · refine htalk.trans ?_
            split <;> exact ⟨rfl, rfl, rfl, rfl, rfl, rfl⟩
          rw [leftOpen_eq tools hunpushed, hmedia, hfate]
          cases hmicrophone : entry.microphone with
          | true => simp
          | false =>
            rw [hmicrophone] at hopened hmedia
            simp [hopened, hmedia]
        · exact ⟨_, s', hcall, fun _ h => by cases h⟩

end

/-! ### A controller that is gone -/

/-- A turn that says one thing and asks for nothing else. -/
def Turn.say (text : String) : Turn where
  staged := [.user text]
  maxTokens := none
  reasoning := .auto
  outputMode := .text
  toolChoice := .auto
  systemOverride := none
  toolsOverride := none
  grammar := false
  requireFullContext := false
  requestSchema := false

/-- Every check is passed, and then the command cannot be sent. -/
def Env.gone : Env where
  resident := .ok ()
  supportsRequestSchema := .ok false
  microphone := false
  media := ⟨false, false, false, false⟩
  speech := false
  cancelled := false
  engineId := 1
  engine := ⟨0, ⟨false, false, false, false⟩, ∅, ∅⟩
  fate := .unsent

/-- The message of a turn that could not be sent stays in the session. -/
theorem message_left_behind :
    letI := SerdeJson.plain
    ∃ s', call .run .gone (.say "hello") (Session.blank "s") = some (.error .controllerGone, s') ∧
      ¬ Unmoved (Session.blank "s") s' := by
  let _ := SerdeJson.plain
  refine ⟨_, rfl, fun hunmoved => ?_⟩
  have hlength : 1 = 0 := congrArg List.length hunmoved.events
  cases hlength

end Chat
end Gen2
