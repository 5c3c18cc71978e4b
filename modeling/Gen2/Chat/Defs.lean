import Gen2.Session.Engine

/-!
# A turn of a chat

`api/chat.rs`, with what `api/turn.rs`, `api/event.rs`, `api/engine.rs` and
`controller/commands.rs` add to it: how one turn decides what to send, what the controller does with
it, and what the session keeps of the outcome.

* `Engine` is one engine: the facade's count of what it has delivered for each session, and the
  controller's runtimes.
* `beginWithWireTail` is the decision: `StartChat` with everything, or `ContinueChat` with what is
  new.
* `handle` is the controller's side, and `settle` the session's.
* `step` puts them together.  A turn is one step, because the session is borrowed while its stream
  is; whatever the backend, the stream's reader and other threads make of it is its `Outcome`.
* `World.given` is not in the source.  It remembers which beginning of a transcript each engine's
  digest was taken of, and which reply came after; the code reads neither.
-/

namespace Gen2
namespace Chat

/-! ## What a model takes -/

/-- The media of `Capabilities`. -/
structure Capabilities where
  images : Bool
  audio : Bool
  microphone : Bool
  video : Bool

/-- `media_parts`. -/
def mediaParts (messages : List Message) : List MessageChunk :=
  (messages.flatMap fun message =>
    match message.body with
    | .content (.multipleChunks chunks) => chunks
    | _ => []).filter fun
      | .text _ => false
      | _ => true

/-- `unsupported_media`. -/
def unsupportedMedia (messages : List Message) (available : Capabilities) : Option String :=
  (mediaParts messages).findSome? fun
    | .imageUrl _ => if available.images then none else some "images"
    | .audioPcm _ => if available.audio then none else some "audio input"
    | .microphone => if available.microphone then none else some "microphone input"
    | .video _ => if available.video then none else some "video input"
    | .text _ => none

/-! ## Tools on the wire -/

/-- `types::message::ToolSpec`. -/
structure ToolSpec where
  type : String
  function : FunctionDefinition

/-- `ToolSet::to_wire`. -/
def toWire (set : ToolSet) : List ToolSpec :=
  set.tools.map fun tool =>
    ⟨"function", ⟨some tool.description, tool.name, tool.inputSchema⟩⟩

/-- `TOOL_PROMPT`. -/
def toolPrompt : String :=
  "Call a tool when you need information or an action. Answer directly when you don't."

/-- `offered_fingerprint`. -/
def offeredFingerprint [SerdeJson] (tools : Option (List ToolSpec × String)) : UInt64 :=
  match tools with
  | none => 0
  | some (specs, prompt) =>
    (specs.foldl (fun h spec =>
      ((h.feed (asBytes spec.function.name)).feed
        (asBytes (spec.function.description.getD ""))).feed
          (asBytes (SerdeJson.valueToString spec.function.arguments)))
      (Fnv.new.feed (asBytes prompt))).hash

/-! ## The engine -/

/-- A conversation as the controller runs it. -/
structure Runtime where
  /-- What it was started with, and what has been appended since. -/
  messages : List Message
  /-- What the model has generated after the last of them. -/
  reply : Option Message
  thinking : ThinkingMode
  tools : Option (List ToolSpec × String)

structure Engine where
  /-- Bumped every time the chat model changes. -/
  generation : Nat
  capabilities : Capabilities
  /-- How many messages of each session have been delivered. -/
  sentThrough : AList (fun _ : SessionId => Nat)
  /-- The controller's runtimes. -/
  chats : AList (fun _ : SessionId => Runtime)

namespace Engine

/-- `Engine::sent_through`. -/
def sent (e : Engine) (id : SessionId) : Nat := (e.sentThrough.lookup id).getD 0

/-- `MAX_TRACKED`. -/
def maxTracked : Nat := 1024

/-- `Engine::mark_sent`. -/
def markSent (e : Engine) (id : SessionId) (count : Nat) : Engine :=
  let m := if maxTracked ≤ e.sentThrough.entries.length ∧ id ∉ e.sentThrough then ∅
    else e.sentThrough
  { e with sentThrough := m.insert id count }

/-- `Engine::forget`. -/
def forget (e : Engine) (id : SessionId) : Engine :=
    { e with sentThrough := e.sentThrough.erase id }

/-- `Engine::load_model`, `Engine::reload_model`: other weights, and nothing held. -/
def swapModel (e : Engine) (capabilities : Capabilities) : Engine :=
  ⟨e.generation + 1, capabilities, ∅, ∅⟩

end Engine

/-! ## Beginning a turn -/

/-- The two ways of putting a turn together: the chat builder, which appends messages as it is
configured, and `Turn`, which stages them. -/
inductive Via
  | chat
  | turn
  deriving DecidableEq

/-- A turn, configured. -/
structure TurnSpec where
  via : Via
  /-- The messages it adds. -/
  staged : List Message
  thinking : ThinkingMode
  /-- The tools of this turn, resolved to what goes on the wire. -/
  tools : Option (List ToolSpec × String)
  suppressTools : Bool
  /-- A system prompt for this turn only; `some none` is no prompt at all. -/
  systemOverride : Option (Option String)
  /-- Whether the turn has a prompt or tools of its own. -/
  perTurnPrefix : Bool
  overrideIsPerTurn : systemOverride.isSome = true → via = .turn ∧ perTurnPrefix = true

/-- What is sent to the controller. -/
inductive Cmd
  | startChat (chatId : SessionId) (messages : List Message) (thinking : ThinkingMode)
      (tools : Option (List ToolSpec × String))
  | continueChat (chatId : SessionId) (newMessages transcript : List Message)
      (thinking : ThinkingMode) (tools : Option (List ToolSpec × String))

section
variable [SerdeJson]

/-- The notes at the top of `begin_with_wire_tail`: whose runtime this is about, and whether it was
opened under another model, another reasoning policy or another prompt. -/
def noted (e : Engine) (engine : Nat) (t : TurnSpec) (wireTail : List Message) (s : Session) :
    Session :=
  let s := (s.noteEngine engine).2
  let s := (s.noteModel e.generation).2
  let s := (s.noteThinking t.thinking).2
  if t.systemOverride.isSome || wireTail.any (·.role == "assistant") then
    { s with opened := false }
  else s

/-- The tools of a turn: its own, else the session's. -/
def offered (t : TurnSpec) (s : Session) : Option (List ToolSpec × String) :=
  if t.suppressTools then none
  else match t.tools with
    | some tools => some tools
    | none => if s.tools.tools.isEmpty then none else some (toWire s.tools, toolPrompt)

/-- The proof of `opened`: what the engine was given is still there, and what comes after it can be
appended.  Without it the conversation is closed. -/
def proved (held : Nat) (s : Session) : Session :=
  if s.opened && !(s.prefixStillHeld held s.offeredFingerprint && s.tailIsAppendable held) then
    { s with opened := false }
  else s

/-- The command for a session that has been noted and proved. -/
def command (t : TurnSpec) (held : Nat) (tools : Option (List ToolSpec × String))
    (wireTail : List Message) (s : Session) : Cmd :=
  let messages := match t.systemOverride with
    | some system => s.transcriptWithSystem system
    | none => s.pending held
  let messages := messages ++ wireTail
  if !s.opened then
    .startChat s.id messages t.thinking tools
  else
    .continueChat s.id messages (s.transcript.take held) t.thinking tools

/-- `begin_with_wire_tail`, up to the sending: the command, or the medium the model does not take.
-/
def beginWithWireTail (e : Engine) (engine mark : Nat) (t : TurnSpec) (wireTail : List Message)
    (s : Session) : Option (Except String Cmd × Session) :=
  let s := noted e engine t wireTail s
  match unsupportedMedia s.projection e.capabilities with
  | some media => do
    let s ← s.rollbackTo mark
    return (.error media, s)
  | none =>
    let tools := offered t s
    let s := { s with offeredFingerprint := offeredFingerprint tools }
    let held := e.sent s.id
    let s := proved held s
    some (.ok (command t held tools wireTail s), s)

/-- Push messages one after another. -/
def pushAll (s : Session) (messages : List Message) : Session :=
  messages.foldl (fun s m => (s.push m).2) s

/-- A turn up to its command: stage, then begin. -/
def beginTurn (e : Engine) (engine : Nat) (t : TurnSpec) (s : Session) :
    Option (Except String Cmd × Session) :=
  let staged := pushAll s t.staged
  let mark := match t.via with
    | .chat => s.active.length
    | .turn => staged.active.length
  let staged := if t.perTurnPrefix then { staged with opened := false } else staged
  beginWithWireTail e engine mark t [] staged

end

/-! ## What becomes of it -/

/-- What the controller, the backend and the reader of the stream make of a turn. -/
inductive Outcome
  /-- The controller is gone. -/
  | undelivered
  /-- The controller answers with an error and touches nothing. -/
  | refused
  /-- The backend fails.  A continuation's messages may have been appended by then. -/
  | failed (appended : Bool)
  /-- The reply is read to its end. -/
  | finished (reply : Message) (shed : Nat)
  /-- The turn is stopped, before or after it was acknowledged, and the stream read to its end. -/
  | stopped (acknowledged : Bool) (reply : Option Message) (shed : Nat)
  /-- The turn is acknowledged, but its stream is dropped, or fails, before its end. -/
  | dropped (generated : Option Message)
  /-- The asynchronous stream is dropped: that one stops the turn. -/
  | abandoned

/-- `StartChat`: a runtime with exactly these messages, whatever there was before.  The count is the
acknowledgement. -/
def startChat (chats : AList (fun _ : SessionId => Runtime)) (id : SessionId)
    (messages : List Message) (thinking : ThinkingMode) (tools : Option (List ToolSpec × String)) :
    Outcome → AList (fun _ : SessionId => Runtime) × Option Nat
  | .undelivered | .refused => (chats, none)
  | .failed _ => (chats.erase id, none)
  | .finished reply _ =>
    (chats.insert id ⟨messages, some reply, thinking, tools⟩, some messages.length)
  | .stopped acknowledged _ _ =>
    (chats.erase id, if acknowledged then some messages.length else none)
  | .dropped generated =>
    (chats.insert id ⟨messages, generated, thinking, tools⟩, some messages.length)
  | .abandoned => (chats.erase id, some messages.length)

/-- `ContinueChat` on a runtime. -/
def continueRuntime (chats : AList (fun _ : SessionId => Runtime)) (id : SessionId) (r : Runtime)
    (newMessages : List Message) : Outcome → AList (fun _ : SessionId => Runtime) × Option Nat
  | .undelivered | .refused | .failed false => (chats, none)
  | .failed true =>
    (chats.insert id { r with messages := r.messages ++ newMessages, reply := none }, none)
  | .finished reply _ =>
    (chats.insert id { r with messages := r.messages ++ newMessages, reply := some reply },
      some newMessages.length)
  | .stopped acknowledged _ _ =>
    (chats.erase id, if acknowledged then some newMessages.length else none)
  | .dropped generated =>
    (chats.insert id { r with messages := r.messages ++ newMessages, reply := generated },
      some newMessages.length)
  | .abandoned => (chats.erase id, some newMessages.length)

/-- The controller's handling of a command.  A continuation that finds no runtime is rebuilt from
the transcript it carries. -/
def handle (chats : AList (fun _ : SessionId => Runtime)) :
    Cmd → Outcome → AList (fun _ : SessionId => Runtime) × Option Nat
  | .startChat id messages thinking tools, o => startChat chats id messages thinking tools o
  | .continueChat id newMessages transcript thinking tools, o =>
    match chats.lookup id with
    | some r => continueRuntime chats id r newMessages o
    | none => startChat chats id (transcript ++ newMessages) thinking tools o

section
variable [SerdeJson]

/-- `settle`: record what the engine acknowledged holding. -/
def settle (e : Engine) (s : Session) : Option Nat → Engine × Session
  | none => (e, s)
  | some delivered =>
    let already := if s.opened then e.sent s.id else 0
    (e.markSent s.id (already + delivered),
      ({ s with opened := true } : Session).recordPrefix (already + delivered))

/-- The end of a turn whose stream was read to its end: `StreamCore::complete`, and the same lines
of `Chat::send_streaming`, which never closes. -/
def complete (t : TurnSpec) (s : Session) (reply : Option Message) (shed : Nat) (stopped : Bool) :
    Session :=
  let s := s.noteShed shed
  let s := match reply with
    | some reply => (s.push reply).2
    | none => s
  if t.via = .turn ∧ (stopped = true ∨ t.perTurnPrefix = true) then { s with opened := false } else s

/-! ## The system -/

/-- What a digest was taken of, and the reply recorded after it. -/
structure Given where
  lead : Session.Lead
  offered : UInt64
  reply : Option (MessageId × Message)

/-- One session, and the engines it is run on. -/
structure World where
  session : Session
  engines : Nat → Engine
  given : Nat → Option Given

/-- What a settled turn leaves in `World.given`. -/
def givenAfter (e : Engine) (s : Session) (delivered : Nat) (reply : Option Message) : Given :=
  let already := if s.opened then e.sent s.id else 0
  ⟨s.lead (already + delivered), s.offeredFingerprint, reply.map fun m => (s.nextId, m)⟩

namespace World

/-- A turn of the session on one of the engines, up to its command. -/
def begins (w : World) (engine : Nat) (t : TurnSpec) : Option (Except String Cmd × Session) :=
  beginTurn (w.engines engine) engine t w.session

/-- The rest of a turn that was read to its end. -/
def settled (w : World) (engine : Nat) (t : TurnSpec) (e : Engine) (s : Session)
    (accepted : Option Nat) (reply : Option Message) (shed : Nat) (stopped : Bool) : World :=
  let given := match accepted with
    | some delivered => some (givenAfter e s delivered reply)
    | none => w.given engine
  let (e, s) := settle e s accepted
  { session := complete t s reply shed stopped
    engines := Function.update w.engines engine e
    given := Function.update w.given engine given }

/-- A turn, from its command to its end. -/
def finishTurn (w : World) (engine : Nat) (t : TurnSpec) (cmd : Cmd) (s : Session) (o : Outcome) :
    World :=
  let (chats, accepted) := handle (w.engines engine).chats cmd o
  let e := { w.engines engine with chats := chats }
  match o with
  | .finished reply shed => w.settled engine t e s accepted (some reply) shed false
  | .stopped _ reply shed => w.settled engine t e s accepted reply shed true
  | .abandoned =>
    { w with session := { s with opened := false }, engines := Function.update w.engines engine e }
  | .undelivered | .refused | .failed _ | .dropped _ =>
    { w with session := s, engines := Function.update w.engines engine e }

def turn (w : World) (engine : Nat) (t : TurnSpec) (o : Outcome) : Option World := do
  match ← w.begins engine t with
  | (.error _, s) => return { w with session := s }
  | (.ok cmd, s) => return w.finishTurn engine t cmd s o

end World

/-- What can happen. -/
inductive Step
  | edit (op : Session.Op)
  /-- A run of the agent layer declares its tools. -/
  | noteTools (fingerprint : UInt64)
  | turn (engine : Nat) (t : TurnSpec) (o : Outcome)
  /-- The controller gives up a runtime: for room, for idleness, or because it is told to stop. -/
  | evict (engine : Nat) (id : SessionId)
  | forget (engine : Nat) (id : SessionId)
  | swapModel (engine : Nat) (capabilities : Capabilities)

/-- One step; `none` is a panic. -/
def step : Step → World → Option World
  | .edit op, w => (Session.apply op w.session).map fun s => { w with session := s }
  | .noteTools fingerprint, w => some { w with session := (w.session.noteTools fingerprint).2 }
  | .turn engine t o, w => w.turn engine t o
  | .evict engine id, w =>
    let e := w.engines engine
    some { w with engines := Function.update w.engines engine { e with chats := e.chats.erase id } }
  | .forget engine id, w =>
    some { w with engines := Function.update w.engines engine ((w.engines engine).forget id) }
  | .swapModel engine capabilities, w =>
    some { w with
      engines := Function.update w.engines engine ((w.engines engine).swapModel capabilities) }

end

end Chat
end Gen2
