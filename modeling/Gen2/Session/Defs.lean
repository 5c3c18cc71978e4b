import Gen2.Types.Message
import Mathlib.Data.List.AList

/-!
# The session

`api/session.rs`: a conversation and everything that can be done to it.  A `Session` holds the
append-only event log, and beside it what the log determines — the system prompt, the tools, the
message records, the active projection — kept up to date by every operation rather than recomputed.
It also holds what one engine knows about the conversation (`opened` and the fields after it), which
`Gen2.Chat` is about.

* An operation that the source writes `fn f(&mut self, …) -> Result<T>` is here a function from the
  session to the answer **and** the session it leaves behind, so that a refusal that had already
  changed something would show.
* `self.records[self.index[id]]` panics when the id has no record.  Where an operation can panic its
  result is an `Option`, and `none` is the panic; `Gen2.Session.Replay` proves that no session that
  can be reached ever panics.
* The two `HashMap`s are association lists with distinct keys (`AList`), and ids are natural
  numbers.
-/

namespace Gen2

/-! ## Identity, history, records -/

abbrev SessionId := String

/-- Identifies one immutable message record within a session. -/
abbrev MessageId := Nat

/-- The reasoning-channel policy a turn runs under. -/
inductive ThinkingMode
  | auto
  | off
  | on
  deriving DecidableEq

/-- One thing that happened to a session. -/
inductive SessionEvent
  | systemSet (system : Option String)
  | toolsSet (tools : ToolSet)
  | messageAdded (id : MessageId) (message : Message)
  | messageReplaced (old new : MessageId) (message : Message)
  | messageRemoved (id : MessageId)
  | messageRecorded (id : MessageId) (message : Message)
  | contextReplaced (active : List MessageId) (reason : Option String)
  | forked (parent : SessionId) («at» : Option MessageId)

/-- Whether an event moves the revision: every one but `MessageRecorded` does. -/
def SessionEvent.movesRevision : SessionEvent → Bool
  | .messageRecorded .. => false
  | _ => true

/-- A stored message version. -/
structure StoredRecord where
  id : MessageId
  message : Message
  replacedBy : Option MessageId

/-- Why a session mutation was refused. -/
inductive SessionError
  | unknownMessage (id : MessageId)
  | notActive (id : MessageId)
  | duplicate (id : MessageId)
  | orphanResult (callId : String)
  | unansweredCall (callId : String)
  deriving DecidableEq

/-- What one engine holds for a session. -/
structure Binding where
  opened : Bool
  toolsFingerprint : Option UInt64
  modelGeneration : Option Nat
  thinking : Option ThinkingMode
  prefixFingerprint : Option UInt64
  ownReplyFollows : Bool

/-- `Binding::default`. -/
def Binding.default : Binding := ⟨false, none, none, none, none, false⟩

/-! ## The tool-round invariant

A tool call and its results are one unit.  The check below walks a candidate projection; `lookup` is
how it reads a message by id, so that messages not yet minted can be checked too. -/

/-- The call ids an assistant tool-call message makes. -/
def callsOf (message : Message) : List String :=
  match message.body with
  | .tool toolCalls => toolCalls.map (·.id)
  | .content _ => []

def makesCall (message : Message) (callId : String) : Bool := (callsOf message).contains callId

def isResult (message : Message) : Bool := message.role == "tool"

/-- What the walk of `check_rounds_over` has seen so far. -/
structure RoundWalk where
  declared : List String
  answered : List String
  legacyOpen : List String

/-- One message of the walk: a result must answer a call already shown. -/
def RoundWalk.step (w : RoundWalk) (m : Message) : Except SessionError RoundWalk :=
  let calls := callsOf m
  if !calls.isEmpty then
    .ok { w with declared := w.declared ++ calls, legacyOpen := calls }
  else if isResult m then
    match m.toolCallId with
    | some cid =>
      if !w.declared.contains cid then
        .error (.orphanResult cid)
      else
        .ok { w with answered := w.answered ++ [cid], legacyOpen := w.legacyOpen.filter (· != cid) }
    | none =>
      match w.legacyOpen with
      | [] => .error (.orphanResult "")
      | call :: rest => .ok { w with answered := w.answered ++ [call], legacyOpen := rest }
  else
    .ok w

/-- The first half of `check_rounds_over`, over the messages that the ids name. -/
def walkRounds : RoundWalk → List Message → Except SessionError RoundWalk
  | w, [] => .ok w
  | w, m :: ms =>
    match w.step m with
    | .error e => .error e
    | .ok w => walkRounds w ms

/-- The call ids that some record answers, shown or not. -/
def answeredSomewhere (records : List StoredRecord) : List String :=
  records.filterMap fun r => if isResult r.message then r.message.toolCallId else none

/-- `check_rounds_over`: no result without its call, and no call without a result that exists. -/
def checkRoundsOver (lookup : MessageId → Option Message) (ids : List MessageId)
    (records : List StoredRecord) : Except SessionError Unit :=
  match walkRounds ⟨[], [], []⟩ (ids.filterMap lookup) with
  | .error e => .error e
  | .ok w =>
    match w.declared.find? fun call =>
        !w.answered.contains call && (answeredSomewhere records).contains call with
    | some call => .error (.unansweredCall call)
    | none => .ok ()

/-- The loop of `attribute_legacy`: each id-less result answers the first unanswered call of the
nearest call message before it, or `""`.  The source returns references to the messages; here it is
the id a message was reached by that stands for the reference. -/
def attributeLegacyLoop (lookup : MessageId → Option Message) :
    List String → List MessageId → List (MessageId × String)
  | _, [] => []
  | opens, id :: ids =>
    match lookup id with
    | none => attributeLegacyLoop lookup opens ids
    | some m =>
      let calls := callsOf m
      if !calls.isEmpty then
        attributeLegacyLoop lookup calls ids
      else if isResult m then
        match m.toolCallId with
        | some cid => attributeLegacyLoop lookup (opens.filter (· != cid)) ids
        | none =>
          match opens with
          | [] => (id, "") :: attributeLegacyLoop lookup [] ids
          | call :: rest => (id, call) :: attributeLegacyLoop lookup rest ids
      else
        attributeLegacyLoop lookup opens ids

/-- `attribute_legacy`. -/
def attributeLegacy (lookup : MessageId → Option Message) (ids : List MessageId) :
    List (MessageId × String) :=
  attributeLegacyLoop lookup [] ids

/-! ## The session itself -/

structure Session where
  id : SessionId
  events : List SessionEvent
  -- derived from `events`
  /-- Context-affecting events so far. -/
  revision : Nat
  system : Option String
  tools : ToolSet
  records : List StoredRecord
  index : AList (fun _ : MessageId => Nat)
  active : List MessageId
  /-- The messages of `active`, rebuilt on every mutation so that reads are borrows. -/
  projection : List Message
  nextId : Nat
  -- engine bookkeeping, process-local
  opened : Bool
  shed : Nat
  toolsFingerprint : Option UInt64
  modelGeneration : Option Nat
  thinking : Option ThinkingMode
  prefixFingerprint : Option UInt64
  ownReplyFollows : Bool
  offeredFingerprint : UInt64
  boundEngine : Option Nat
  parked : AList (fun _ : Nat => Binding)
  /-- The cached `Session::fingerprint`. -/
  fingerprint : UInt64

namespace Session

/-- `Session::blank`. -/
def blank (id : SessionId) : Session where
  id := id
  events := []
  revision := 0
  system := none
  tools := ToolSet.new
  records := []
  index := ∅
  active := []
  projection := []
  nextId := 0
  opened := false
  shed := 0
  toolsFingerprint := none
  modelGeneration := none
  thinking := none
  prefixFingerprint := none
  ownReplyFollows := false
  offeredFingerprint := 0
  boundEngine := none
  parked := ∅
  fingerprint := 0

/-! ### Reading records -/

/-- `self.records[self.index[&id]].message`; `none` is the panic. -/
def messageBy (s : Session) (id : MessageId) : Option Message :=
  (s.index.lookup id).bind fun i => s.records[i]?.map (·.message)

/-- `lookup_with`: stored records, behind messages staged under ids not yet minted. -/
def lookupWith (s : Session) (staged : List (MessageId × Message)) (id : MessageId) :
    Option Message :=
  match staged.lookup id with
  | some m => some m
  | none => s.messageBy id

/-- `check_rounds`: a candidate projection, with an optional message about to be minted. -/
def checkRounds (s : Session) (ids : List MessageId) (staged : Option (MessageId × Message)) :
    Except SessionError Unit :=
  checkRoundsOver (s.lookupWith staged.toList) ids s.records

/-- Where an active id sits in the projection. -/
def activeSlot (s : Session) (id : MessageId) : Except SessionError Nat :=
  if (s.index.lookup id).isNone then
    .error (.unknownMessage id)
  else
    match s.active.findIdx? (· == id) with
    | some slot => .ok slot
    | none => .error (.notActive id)

section
variable [SerdeJson]

/-! ### Fingerprints -/

/-- `Fnv::message`. -/
def feedMessage (h : Fnv) (id : MessageId) (message : Message) : Fnv :=
  let h := h.feedU64 (.ofNat id)
  match SerdeJson.messageToVec message with
  | some bytes => h.feed bytes
  -- a message that cannot serialize still has a role and text
  | none => (h.feed (asBytes message.role)).feed (asBytes message.text)

/-- `compute_fingerprint`: the prompt, the tools, and the active messages by id and content. -/
def computeFingerprint (s : Session) : UInt64 :=
  let h := Fnv.new
  let h := match s.system with
    | some system => h.feed (asBytes system)
    | none => h.feedU64 0
  let h := h.feedU64 s.tools.fingerprint
  ((s.active.zip s.projection).foldl (fun h p => feedMessage h p.1 p.2) h).hash

/-! ### The primitives every operation is made of -/

/-- `log`: append an event, moving the revision when it is context-affecting. -/
def log (s : Session) (event : SessionEvent) : Session :=
  let s := if event.movesRevision then
      let s := { s with revision := s.revision + 1 }
      { s with fingerprint := s.computeFingerprint }
    else s
  { s with events := s.events ++ [event] }

/-- `mint`: store a new record and return its id; the caller logs it. -/
def mint (s : Session) (message : Message) : MessageId × Session :=
  (s.nextId, { s with
    nextId := s.nextId + 1
    index := s.index.insert s.nextId s.records.length
    records := s.records ++ [⟨s.nextId, message, none⟩] })

/-- `record`: a new record for a context replacement to name, logged so that a replay has it. -/
def record (s : Session) (message : Message) : MessageId × Session :=
  let (id, s) := s.mint message
  (id, s.log (.messageRecorded id message))

/-- `rebuild_projection`. -/
def rebuildProjection (s : Session) : Option Session := do
  let projection ← s.active.mapM s.messageBy
  let s := { s with projection := projection }
  return { s with fingerprint := s.computeFingerprint }

/-- `after_projection_change`: the engine's cached prefill describes the old projection. -/
def afterProjectionChange (s : Session) : Option Session := do
  let s ← s.rebuildProjection
  return { s with opened := false }

/-- `set_active`: commit a new projection as a `ContextReplaced` event. -/
def setActive (s : Session) (active : List MessageId) (reason : String) (close : Bool) :
    Option Session :=
  if active = s.active then
    some s
  else
    let s := { s with active := active }
    let s := s.log (.contextReplaced active (some reason))
    if close then s.afterProjectionChange else s.rebuildProjection

/-! ### System prompt and tools -/

/-- `put_system`: the text already in place is not a change. -/
def putSystem (s : Session) (system : Option String) : Session :=
  if s.system = system then
    s
  else
    { ({ s with system := system } : Session).log (.systemSet system) with opened := false }

def setSystem (s : Session) (text : String) : Session := s.putSystem (some text)

def appendSystem (s : Session) (text : String) : Session :=
  s.putSystem (some (s.system.getD "" ++ text))

def clearSystem (s : Session) : Session := s.putSystem none

/-- `put_tools`. -/
def putTools (s : Session) (tools : ToolSet) : Session :=
  if s.tools == tools then
    s
  else
    { ({ s with tools := tools } : Session).log (.toolsSet tools) with opened := false }

def setTools (s : Session) (tools : ToolSet) : Session := s.putTools tools

def addTool (s : Session) (tool : ToolDefinition) : Session := s.putTools (s.tools.add tool)

def removeTool (s : Session) (name : String) : Bool × Session :=
  let (removed, tools) := s.tools.remove name
  (removed.isSome, s.putTools tools)

/-! ### Appending and editing -/

/-- `push`: append a message to the active projection. -/
def push (s : Session) (message : Message) : MessageId × Session :=
  let (id, s) := s.mint message
  let s := { s with active := s.active ++ [id], projection := s.projection ++ [message] }
  (id, s.log (.messageAdded id message))

/-- `replace_message`: a new version of an active message, in the same position. -/
def replaceMessage (s : Session) (old : MessageId) (message : Message) :
    Option (Except SessionError MessageId × Session) :=
  match s.activeSlot old with
  | .error e => some (.error e, s)
  | .ok slot =>
    let next := s.active.set slot s.nextId
    match s.checkRounds next (some (s.nextId, message)) with
    | .error e => some (.error e, s)
    | .ok () => do
      let (new, s) := s.mint message
      let i ← s.index.lookup old
      let s := { s with records := s.records.modify i fun r => { r with replacedBy := some new } }
      let s := { s with active := next }
      let s := s.log (.messageReplaced old new message)
      let s ← s.afterProjectionChange
      return (.ok new, s)

/-- `remove_message`: the record stays, the projection loses it. -/
def removeMessage (s : Session) (id : MessageId) : Option (Except SessionError Unit × Session) :=
  match s.activeSlot id with
  | .error e => some (.error e, s)
  | .ok slot =>
    let next := s.active.eraseIdx slot
    match s.checkRounds next none with
    | .error e => some (.error e, s)
    | .ok () => do
      let s := { s with active := next }
      let s := s.log (.messageRemoved id)
      let s ← s.afterProjectionChange
      return (.ok (), s)

/-- Record each message in turn, keeping the ids. -/
def recordAll (s : Session) : List Message → List MessageId × Session
  | [] => ([], s)
  | m :: ms =>
    let (id, s) := s.record m
    let (ids, s) := s.recordAll ms
    (id :: ids, s)

/-- `replace_messages`: every message given becomes a new record.  The check comes before anything
is minted, over the records as they are then. -/
def replaceMessages (s : Session) (messages : List Message) :
    Option (Except SessionError Unit × Session) :=
  let ids := (List.range messages.length).map (s.nextId + ·)
  match checkRoundsOver (s.lookupWith (ids.zip messages)) ids s.records with
  | .error e => some (.error e, s)
  | .ok () => do
    let (ids, s) := s.recordAll messages
    let s ← s.setActive ids "replace_messages" true
    return (.ok (), s)

/-- The validation loop of `restore_context`. -/
def validateIds (s : Session) : List MessageId → List MessageId → Except SessionError Unit
  | _, [] => .ok ()
  | seen, id :: ids =>
    if (s.index.lookup id).isNone then .error (.unknownMessage id)
    else if seen.contains id then .error (.duplicate id)
    else s.validateIds (id :: seen) ids

/-- `restore_context`: an earlier projection by id. -/
def restoreContext (s : Session) (ids : List MessageId) :
    Option (Except SessionError Unit × Session) :=
  match s.validateIds [] ids with
  | .error e => some (.error e, s)
  | .ok () =>
    match s.checkRounds ids none with
    | .error e => some (.error e, s)
    | .ok () => do
      let s ← s.setActive ids "restore_context" true
      return (.ok (), s)

/-- Where in `ids` a record equal to `message` is; the outer `none` is the panic. -/
def position (s : Session) (message : Message) : List MessageId → Option (Option Nat)
  | [] => some none
  | id :: ids => do
    let m ← s.messageBy id
    if m == message then return some 0
    return (← s.position message ids).map (· + 1)

/-- The loop of `ids_for_edited`: an unchanged message keeps its record, a changed one gets a new
one.  The cursor only moves forward. -/
def idsForEditedLoop (cursor : Nat) (s : Session) : List Message → Option (List MessageId × Session)
  | [] => some ([], s)
  | m :: ms => do
    match ← s.position m (s.active.drop cursor) with
    | some offset =>
      let id ← s.active[cursor + offset]?
      let (ids, s) ← s.idsForEditedLoop (cursor + (offset + 1)) ms
      return (id :: ids, s)
    | none =>
      let (id, s) := s.record m
      let (ids, s) ← s.idsForEditedLoop cursor ms
      return (id :: ids, s)

/-- `ids_for_edited`. -/
def idsForEdited (s : Session) (messages : List Message) : Option (List MessageId × Session) :=
  s.idsForEditedLoop 0 messages

/-- What one round of `trim_to_round_boundary` drops, given why the projection was refused.  Every
id it is asked about has a record, so the `none` branches stand for panics that do not happen. -/
def trimDrop (s : Session) (ids : List MessageId) : SessionError → List MessageId
  | .orphanResult callId =>
    if callId.isEmpty then
      -- id-less: the first one the walk could not attribute
      match (attributeLegacy (s.lookupWith []) ids).find? fun p => p.2.isEmpty with
      | some (orphan, _) => (ids.find? fun id => s.index.lookup id == s.index.lookup orphan).toList
      | none => []
    else
      ids.filter fun id =>
        match s.messageBy id with
        | some m => isResult m && m.toolCallId == some callId
        | none => false
  | .unansweredCall callId =>
    ids.filter fun id =>
      match s.messageBy id with
      | some m => makesCall m callId
      | none => false
  | _ => []

/-- `trim_to_round_boundary` with a bound on the rounds of its loop: drop whatever half-rounds a
projection contains, to a fixpoint.  Every round but the last drops an id, so as many rounds as
there are ids, and one more, are enough (`trimLoop_eq`). -/
def trimLoop (s : Session) : Nat → List MessageId → List MessageId
  | 0, ids => ids
  | fuel + 1, ids =>
    match checkRoundsOver (s.lookupWith []) ids s.records with
    | .ok () => ids
    | .error e =>
      let drop := s.trimDrop ids e
      -- nothing addressable to drop; better a stale round than a loop that never ends
      if drop.isEmpty then ids
      else s.trimLoop fuel (ids.filter fun id => !drop.contains id)

/-- `trim_to_round_boundary`. -/
def trimToRoundBoundary (s : Session) (ids : List MessageId) : List MessageId :=
  s.trimLoop (ids.length + 1) ids

/-- `edit`: let a closure rewrite the projection, and trim what it leaves to a round boundary. -/
def edit (s : Session) (f : List Message → List Message) : Option Session := do
  let (ids, s) ← s.idsForEdited (f s.projection)
  let ids := s.trimToRoundBoundary ids
  if ids ≠ s.active then
    s.setActive ids "edit" true
  else
    return { s with opened := false }

/-- `clear`: empty the projection and forget what every engine holds. -/
def clear (s : Session) : Option Session := do
  let s ← if s.active.isEmpty then some s else s.setActive [] "clear" true
  return { s with
    opened := false
    shed := 0
    toolsFingerprint := none
    modelGeneration := none
    prefixFingerprint := none
    ownReplyFollows := false
    parked := ∅ }

/-- `rollback_to`: undo messages appended since the projection had `len` of them. -/
def rollbackTo (s : Session) (len : Nat) : Option Session :=
  if s.active.length ≤ len then
    some s
  else
    s.setActive (s.trimToRoundBoundary (s.active.take len)) "rollback" false

/-! ### Forking -/

/-- `fork_with`.  The random id of the new session is an argument. -/
def forkWith (s : Session) (id : SessionId) (active : List MessageId) («at» : Option MessageId) :
    Option Session :=
  let fork := { blank id with
    events := s.events
    system := s.system
    tools := s.tools
    records := s.records
    index := s.index
    active := active
    nextId := s.nextId
    revision := s.revision }
  (fork.log (.forked s.id «at»)).rebuildProjection

/-- `fork`. -/
def fork (s : Session) (id : SessionId) : Option Session := s.forkWith id s.active none

/-- `fork_at`: keep the projection only up to and including `at`. -/
def forkAt (s : Session) (id : SessionId) («at» : MessageId) : Option
    (Except SessionError Session) :=
  match s.activeSlot «at» with
  | .error e => some (.error e)
  | .ok slot =>
    let active := s.active.take (slot + 1)
    match s.checkRounds active none with
    | .error e => some (.error e)
    | .ok () => (s.forkWith id active (some «at»)).map .ok

/-! ## Replay -/

/-- `store`: a record under a given id. -/
def store (s : Session) (id : MessageId) (message : Message) : Session :=
  { s with
    nextId := max s.nextId (id + 1)
    index := s.index.insert id s.records.length
    records := s.records ++ [⟨id, message, none⟩] }

/-- What one event of a replayed log does. -/
def replayEvent (s : Session) : SessionEvent → Session
  | .systemSet system => { s with system := system }
  | .toolsSet tools => { s with tools := tools }
  | .messageAdded id message =>
    let s := s.store id message
    { s with active := s.active ++ [id] }
  | .messageReplaced old new message =>
    let s := s.store new message
    let s := match s.index.lookup old with
      | some i => { s with records := s.records.modify i fun r => { r with replacedBy := some new } }
      | none => s
    match s.active.findIdx? (· == old) with
    | some slot => { s with active := s.active.set slot new }
    | none => { s with active := s.active ++ [new] }
  | .messageRemoved id => { s with active := s.active.filter (· != id) }
  | .messageRecorded id message => s.store id message
  | .contextReplaced active _ =>
    { s with active := active.filter fun id => (s.index.lookup id).isSome }
  | .forked _ (some «at») =>
    match s.active.findIdx? (· == «at») with
    | some slot => { s with active := s.active.take (slot + 1) }
    | none => s
  | .forked _ none => s

/-- `Session::replay`: rebuild every derived field from an event log. -/
def replay (id : SessionId) (events : List SessionEvent) : Option Session :=
  let s := events.foldl replayEvent (blank id)
  let s := { s with revision := events.countP SessionEvent.movesRevision, events := events }
  s.rebuildProjection

end

end Session

end Gen2
