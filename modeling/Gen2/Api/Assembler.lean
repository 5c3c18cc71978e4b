import Gen2.Generation.ReplyParts
import Mathlib.Data.List.DropRight

/-!
# The assembly of a reply

The `Assembler` of `api/event.rs`: the events of a stream become semantic events and, at the end, a
message.  The text of a reply arrives in tokens, is split into what is said and what is reasoned by
`ReplyStateMachine`, and loses the white space that is the scaffold's.

* `Assembler.emit_append`: a slice may be emitted in two pieces.
* `Assembler.push_append`: so may a token be pushed.
* `Assembler.reply_joined`: the message depends on the tokens only through their text, taken
  together as far as no speech comes between.
* `Assembler.reply_of_silent`: a stream without speech says and reasons what its whole text does.

Token counts are left out, and with them the finish reason that only they can tell.
-/

namespace Gen2.Api

open Generation Lib ReplyStateMachine
open List hiding isEmpty_iff

/-! ## The assembler -/

/-- `ToolCall`, its arguments as they were written. -/
structure ToolCall where
  id : Text
  name : Text
  arguments : Text
  deriving DecidableEq

/-- `OutputPart`. -/
inductive OutputPart
  | text (text : Text)
  | speech (chunk : SpeechChunk)
  | reasoning (text : Text)
  | toolCall (call : ToolCall)

/-- `AssistantMessage`. -/
structure AssistantMessage where
  content : List OutputPart

namespace AssistantMessage

/-- `AssistantMessage::text`. -/
def text (m : AssistantMessage) : Text :=
  m.content.flatMap fun
    | .text t => t
    | _ => []

/-- `AssistantMessage::reasoning`. -/
def reasoning (m : AssistantMessage) : Option Text :=
  let parts := m.content.filterMap fun
    | .reasoning r => some r
    | _ => none
  if parts.isEmpty then none else some parts.flatten

/-- `AssistantMessage::tool_calls`. -/
def toolCalls (m : AssistantMessage) : List ToolCall :=
  m.content.filterMap fun
    | .toolCall call => some call
    | _ => none

end AssistantMessage

/-- The events of `api/stream.rs`. -/
inductive StreamEvent
  | token (text : Text)
  | toolCall (call : Generation.ToolCall)
  | mediaBoundary (boundary : MediaBoundary)
  | speech (chunk : SpeechChunk)
  | contextTruncated (dropped : Nat)

/-- `Finish`. -/
inductive Finish
  | eos
  | stopped
  deriving DecidableEq

/-- `FinishReason`. -/
inductive FinishReason
  | stop
  | toolCall
  | cancelled
  deriving DecidableEq

/-- `Event`. -/
inductive Event
  | textDelta (text : Text)
  | speechDelta (chunk : SpeechChunk)
  | reasoningDelta (text : Text)
  | toolCallStart (id name : Text)
  | toolCallArgumentsDelta (id delta : Text)
  | toolCallEnd (call : ToolCall)
  | finished (reason : FinishReason)

/-- `CallIds`. -/
structure CallIds where
  message : Nat
  next : Nat

/-- `CallIds::mint`. -/
def CallIds.mint (ids : CallIds) : Text × CallIds :=
  ("call_".toList ++ Nat.toDigits 10 ids.message ++ "_".toList ++ Nat.toDigits 10 ids.next,
    { ids with next := ids.next + 1 })

/-- `Channel`. -/
inductive Channel
  | text
  | reasoning
  deriving DecidableEq

/-- `Assembler`. -/
structure Assembler where
  splitter : ReplyStateMachine
  parts : List OutputPart
  «open» : Option Channel
  held : Text
  scaffolded : Bool
  calls : List ToolCall
  callIds : CallIds
  shed : Nat

/-- `all_markers`. -/
def allMarkers : ChannelMarkers where
  «open» := ["<|channel>thought\n".toList, "<|channel>thought".toList, "<think>".toList]
  close := ["\n<channel|>".toList, "<channel|>".toList, "</think>".toList]

namespace Assembler

/-- `Assembler::new`. -/
def new (callIds : CallIds) : Assembler where
  splitter := .new allMarkers
  parts := []
  «open» := none
  held := []
  scaffolded := false
  calls := []
  callIds := callIds
  shed := 0

/-- `close_run`. -/
def closeRun (a : Assembler) : Assembler := { a with «open» := none, held := [] }

/-- The first steps of `emit`: a slice of reasoning is a scaffold seen, and the run of the other
channel is over. -/
def enter (channel : Channel) (a : Assembler) : Assembler :=
  let a := if channel = .reasoning then { a with scaffolded := true } else a
  if a.open ≠ some channel then a.closeRun else a

/-- What is left of a slice that begins a run. -/
def leading (channel : Channel) (text : Text) (a : Assembler) : Text :=
  match channel with
  | .reasoning => text.dropWhile isWhitespace
  | .text => if a.scaffolded then text.dropWhile (· = '\n') else text

/-- What of a run is not held back. -/
def settled (channel : Channel) (chunk : Text) : Text :=
  match channel with
  | .reasoning => trimEnd chunk
  | .text => chunk

/-- A run's text added to the parts. -/
def addPart (channel : Channel) (fresh : Bool) (chunk : Text) (parts : List OutputPart) :
    List OutputPart :=
  match channel, fresh, parts.getLast? with
  | .text, false, some (.text buf) => parts.dropLast ++ [.text (buf ++ chunk)]
  | .reasoning, false, some (.reasoning buf) => parts.dropLast ++ [.reasoning (buf ++ chunk)]
  | .text, _, _ => parts ++ [.text chunk]
  | .reasoning, _, _ => parts ++ [.reasoning chunk]

/-- The event that a piece of a run amounts to. -/
def delta (channel : Channel) (chunk : Text) : Event :=
  match channel with
  | .text => .textDelta chunk
  | .reasoning => .reasoningDelta chunk

/-- The rest of `emit`, in the run that the slice belongs to. -/
def extend (channel : Channel) (text : Text) (a : Assembler) : List Event × Assembler :=
  let fresh := a.open.isNone
  let text := if fresh then a.leading channel text else text
  if text.isEmpty then
    ([], a)
  else
    let chunk := a.held ++ text
    let body := settled channel chunk
    let a := { a with «open» := some channel, held := chunk.drop body.length }
    if body.isEmpty then
      ([], a)
    else
      ([delta channel body], { a with parts := addPart channel fresh body a.parts })

/-- `emit`. -/
def emit (a : Assembler) (emission : StreamEmission) : List Event × Assembler :=
  match emission with
  | .content text => (a.enter .text).extend .text text
  | .reasoning text => (a.enter .reasoning).extend .reasoning text

/-- One emission after the other. -/
def emitAll (a : Assembler) : List StreamEmission → List Event × Assembler
  | [] => ([], a)
  | emission :: emissions =>
    let (events, a) := a.emit emission
    let (events', a) := a.emitAll emissions
    (events ++ events', a)

/-- What the splitter has held back. -/
def flush (a : Assembler) : List Event × Assembler :=
  let (emissions, splitter) := a.splitter.flushPending
  { a with splitter := splitter }.emitAll emissions

/-- A chunk of speech added to the parts. -/
def addSpeech (chunk : SpeechChunk) (parts : List OutputPart) : List OutputPart :=
  match parts.getLast? with
  | some (.speech previous) =>
    if previous.sampleRate = chunk.sampleRate then
      parts.dropLast ++ [.speech { previous with samples := previous.samples ++ chunk.samples }]
    else
      parts ++ [.speech chunk]
  | _ => parts ++ [.speech chunk]

/-- `Assembler::push`. -/
def push (a : Assembler) (event : StreamEvent) : List Event × Assembler :=
  match event with
  | .token text =>
    let (emissions, splitter) := a.splitter.pushEmit text
    { a with splitter := splitter }.emitAll emissions
  | .speech chunk =>
    let (events, a) := a.flush
    let a := a.closeRun
    (events ++ [.speechDelta chunk], { a with parts := addSpeech chunk a.parts })
  | .toolCall call =>
    let (id, callIds) := match call.id with
      | some id => if id.isEmpty then a.callIds.mint else (id, a.callIds)
      | none => a.callIds.mint
    let made : ToolCall := ⟨id, call.name, call.arguments⟩
    ([.toolCallStart id call.name, .toolCallArgumentsDelta id call.arguments, .toolCallEnd made],
      { a with calls := a.calls ++ [made], callIds := callIds })
  | .contextTruncated dropped => ([], { a with shed := a.shed + dropped })
  | .mediaBoundary _ => ([], a)

/-- `Assembler::finish`. -/
def finish (a : Assembler) (finish : Finish) : List Event × Assembler :=
  let (events, a) := a.flush
  let a := a.closeRun
  let reason := if a.calls ≠ [] ∧ finish ≠ .stopped then FinishReason.toolCall else
    match finish with
    | .eos => .stop
    | .stopped => .cancelled
  (events ++ [.finished reason], a)

/-- `Assembler::take`: the message. -/
def message (a : Assembler) : AssistantMessage :=
  let content := if a.calls.isEmpty ∧ a.parts.isEmpty then [.text []] else a.parts
  ⟨content ++ a.calls.map .toolCall⟩

/-- One event after the other, without what is reported of them. -/
def pushAll (a : Assembler) (events : List StreamEvent) : Assembler :=
  events.foldl (fun a event => (a.push event).2) a

theorem pushAll_append (a : Assembler) (events events' : List StreamEvent) :
    a.pushAll (events ++ events') = (a.pushAll events).pushAll events' :=
  foldl_append

/-! ## Slices -/

theorem trimEnd_append (x y : Text) :
    trimEnd (x ++ y) = if trimEnd y = [] then trimEnd x else x ++ trimEnd y := by
  unfold trimEnd
  rw [reverse_append, dropWhile_append]
  split
  · next h =>
    rw [if_pos (reverse_eq_nil_iff.2 (List.isEmpty_iff.1 h))]
  · next h =>
    rw [if_neg fun hnil => h (List.isEmpty_iff.2 (reverse_eq_nil_iff.1 hnil)),
      reverse_append, reverse_reverse]

/-- What is settled comes first, and is settled for good. -/
theorem settled_append_drop (channel : Channel) (x : Text) :
    settled channel x ++ x.drop (settled channel x).length = x ∧
      settled channel (settled channel x) = settled channel x := by
  rcases channel with _ | _
  · simp [settled]
  have hpre : trimEnd x <+: x := by
    rw [← reverse_suffix, trimEnd, reverse_reverse]
    exact dropWhile_suffix _
  refine ⟨?_, ?_⟩
  · exact prefix_iff_eq_append.1 hpre
  · simp [settled, trimEnd, dropWhile_idempotent]

/-- What is settled of a text in two pieces. -/
theorem settled_append (channel : Channel) (x y : Text) :
    settled channel (x ++ y) =
      settled channel x ++ settled channel (x.drop (settled channel x).length ++ y) := by
  obtain ⟨hx, hfix⟩ := settled_append_drop channel x
  rcases channel with _ | _
  · simp [settled]
  generalize settled .reasoning x = b at hx hfix ⊢
  conv_lhs => rw [← hx, append_assoc]
  unfold settled at hfix ⊢
  dsimp only at hfix ⊢
  rw [trimEnd_append]
  split
  · next hnil => rw [hfix, hnil, append_nil]
  · rfl

/-- What is held back of a text in two pieces. -/
theorem drop_settled_append (channel : Channel) (x y : Text) :
    (x ++ y).drop (settled channel (x ++ y)).length =
      (x.drop (settled channel x).length ++ y).drop
        (settled channel (x.drop (settled channel x).length ++ y)).length := by
  have hx := (settled_append_drop channel x).1
  rw [settled_append, length_append]
  generalize settled channel x = b at hx ⊢
  have hsplit : x ++ y = b ++ (x.drop b.length ++ y) := by
    rw [← append_assoc, hx]
  rw [hsplit, drop_length_add_append]

theorem addPart_addPart (channel : Channel) (fresh : Bool) (chunk chunk' : Text)
    (parts : List OutputPart) :
    addPart channel false chunk' (addPart channel fresh chunk parts) =
      addPart channel fresh (chunk ++ chunk') parts := by
  unfold addPart
  rcases channel with _ | _
  · rcases fresh with _ | _
    · rcases parts.getLast? with _ | p
      · simp
      · rcases p with _ | _ | _ | _ <;> simp
    · simp
  · rcases fresh with _ | _
    · rcases parts.getLast? with _ | p
      · simp
      · rcases p with _ | _ | _ | _ <;> simp
    · simp

/-- A run that the assembler is in, or is about to begin. -/
def In (channel : Channel) (a : Assembler) : Prop :=
  (a.open = some channel ∨ a.open = none ∧ a.held = []) ∧
    (channel = .reasoning → a.scaffolded = true)

theorem in_enter (channel : Channel) (a : Assembler) : (a.enter channel).In channel := by
  unfold enter
  have hfirst : channel = .reasoning →
      (if channel = .reasoning then { a with scaffolded := true } else a).scaffolded = true := by
    intro h
    rw [if_pos h]
  generalize (if channel = .reasoning then { a with scaffolded := true } else a) = b at hfirst ⊢
  dsimp only
  split
  · exact ⟨.inr ⟨rfl, rfl⟩, hfirst⟩
  · next hopen => exact ⟨.inl (not_not.1 hopen), hfirst⟩

variable {channel : Channel} {a : Assembler}

theorem enter_of_in (h : a.In channel) : a.enter channel = a := by
  obtain ⟨hrun, hscaffold⟩ := h
  have hfirst : (if channel = .reasoning then { a with scaffolded := true } else a) = a := by
    split
    · next hreasoning =>
      rw [← hscaffold hreasoning]
    · rfl
  unfold enter
  rw [hfirst]
  dsimp only
  split
  · next hopen =>
    obtain ⟨hnone, hheld⟩ := hrun.resolve_left hopen
    unfold closeRun
    rw [← hnone, ← hheld]
  · rfl

/-- A run with a piece more. -/
def grown (channel : Channel) (fresh : Bool) (text : Text) (a : Assembler) : Assembler :=
  let chunk := a.held ++ text
  let body := settled channel chunk
  { a with
    «open» := some channel
    held := chunk.drop body.length
    parts := if body.isEmpty then a.parts else addPart channel fresh body a.parts }

theorem extend_eq (channel : Channel) (text : Text) (a : Assembler) :
    (a.extend channel text).2 =
      let text := if a.open.isNone then a.leading channel text else text
      if text.isEmpty then a else a.grown channel a.open.isNone text := by
  unfold extend grown
  dsimp only
  generalize (if a.open.isNone = true then a.leading channel text else text) = piece
  split
  · rfl
  · split <;> rfl

theorem in_extend (h : a.In channel) (text : Text) : (a.extend channel text).2.In channel := by
  rw [extend_eq]
  dsimp only
  generalize (if a.open.isNone = true then a.leading channel text else text) = piece
  split
  · exact h
  · exact ⟨.inl rfl, h.2⟩

/-- Two pieces in a run, of which the first is the run's beginning only if it shows. -/
theorem grown_append {fresh : Bool} {x : Text} (y : Text)
    (hshown : fresh = true → settled channel (a.held ++ x) ≠ []) :
    (a.grown channel fresh x).grown channel false y = a.grown channel fresh (x ++ y) := by
  unfold grown
  dsimp only
  rw [← append_assoc, settled_append channel (a.held ++ x) y, ← settled_append,
    drop_settled_append channel (a.held ++ x) y, settled_append channel (a.held ++ x) y]
  generalize settled channel (drop _ (a.held ++ x) ++ y) = body'
  generalize settled channel (a.held ++ x) = body at hshown ⊢
  congr 1
  by_cases hbody : body = []
  · subst hbody
    have hfresh : fresh = false := Bool.eq_false_iff.2 fun h => hshown h rfl
    simp [hfresh]
  · by_cases hbody' : body' = []
    · simp [hbody']
    · simp [hbody, hbody', addPart_addPart]

theorem leading_append (channel : Channel) (x y : Text) (a : Assembler) :
    a.leading channel (x ++ y) =
      if a.leading channel x = [] then a.leading channel y else a.leading channel x ++ y := by
  unfold leading
  rcases channel with _ | _
  · dsimp only
    split
    · rw [List.dropWhile_append]
      simp only [List.isEmpty_iff]
    · split
      · next h => rw [h, List.nil_append]
      · rfl
  · dsimp only
    rw [List.dropWhile_append]
    simp only [List.isEmpty_iff]

/-- What begins a run shows. -/
theorem settled_leading_ne_nil {x : Text} (h : a.leading channel x ≠ []) :
    settled channel (a.leading channel x) ≠ [] := by
  rcases channel with _ | _
  · exact h
  intro hnil
  have hwhite : ∀ c ∈ x.dropWhile isWhitespace, isWhitespace c = true := by
    intro c hc
    exact dropWhile_eq_nil_iff.1 (reverse_eq_nil_iff.1 hnil) c (mem_reverse.2 hc)
  apply h
  exact (dropWhile_idempotent _ _).symm.trans (dropWhile_eq_nil_iff.2 hwhite)

/-- A run goes on with two pieces as with both of them at once. -/
theorem extend_append (h : a.In channel) {x y : Text} (hx : x ≠ []) (hy : y ≠ []) :
    (a.extend channel (x ++ y)).2 = ((a.extend channel x).2.extend channel y).2 := by
  rw [extend_eq, extend_eq, extend_eq]
  rcases h.1 with hopen | ⟨hopen, hheld⟩
  · have hgrown : (a.grown channel false x).open = some channel := rfl
    have hxy : (x ++ y).isEmpty = false := by simp [hx]
    simp only [hopen, Option.isNone_some, Bool.false_eq_true, if_false, hxy,
      isEmpty_eq_false_iff.2 hx, hgrown, isEmpty_eq_false_iff.2 hy]
    have hshown : false = true → settled channel (a.held ++ x) ≠ [] := fun h => nomatch h
    exact (grown_append y hshown).symm
  · simp only [hopen, Option.isNone_none, if_true]
    rw [leading_append]
    by_cases hlead : a.leading channel x = []
    · simp only [hlead, if_true, isEmpty_nil, hopen, Option.isNone_none]
    have hgrown : (a.grown channel true (a.leading channel x)).open = some channel := rfl
    have hxy : (a.leading channel x ++ y).isEmpty = false := by simp [hlead]
    simp only [hlead, if_false, hxy, isEmpty_eq_false_iff.2 hlead, hgrown,
      Option.isNone_some, Bool.false_eq_true, isEmpty_eq_false_iff.2 hy]
    refine (grown_append y fun _ => ?_).symm
    rw [hheld, nil_append]
    exact settled_leading_ne_nil hlead

/-- **A slice may be emitted in two pieces.** -/
theorem emit_append (channel : Channel) (a : Assembler) {x y : Text} (hx : x ≠ []) (hy : y ≠ []) :
    ((a.enter channel).extend channel (x ++ y)).2 =
      ((((a.enter channel).extend channel x).2.enter channel).extend channel y).2 := by
  have h := in_enter channel a
  rw [enter_of_in (in_extend h x), extend_append h hx hy]

/-! ## Tokens -/

/-- The run that a channel of the splitter goes to. -/
def runOf : ChannelState → Channel
  | .visible => .text
  | .inReasoning => .reasoning

/-- One character emitted. -/
def put (a : Assembler) (p : ChannelState × Char) : Assembler :=
  ((a.enter (runOf p.1)).extend (runOf p.1) [p.2]).2

theorem extend_eq_foldl (q : ChannelState) (a : Assembler) {text : Text} (h : text ≠ []) :
    ((a.enter (runOf q)).extend (runOf q) text).2 = (text.map (q, ·)).foldl put a := by
  induction text generalizing a with
  | nil => exact absurd rfl h
  | cons c text ih =>
    by_cases hrest : text = []
    · subst hrest
      rfl
    · rw [map_cons, foldl_cons, ← ih _ hrest]
      exact emit_append (runOf q) a (cons_ne_nil c []) hrest

/-- A slice that is not empty is its characters, one after the other. -/
theorem emit_eq_foldl (a : Assembler) {emission : StreamEmission} (h : emission.tagged ≠ []) :
    (a.emit emission).2 = emission.tagged.foldl put a := by
  rcases emission with text | text
  · exact extend_eq_foldl .visible a fun hnil => h (by rw [hnil]; rfl)
  · exact extend_eq_foldl .inReasoning a fun hnil => h (by rw [hnil]; rfl)

theorem emitAll_eq_foldl (a : Assembler) {emissions : List StreamEmission}
    (h : ∀ emission ∈ emissions, emission.tagged ≠ []) :
    (a.emitAll emissions).2 = (tagged emissions).foldl put a := by
  induction emissions generalizing a with
  | nil => rfl
  | cons emission emissions ih =>
    have hcons : tagged (emission :: emissions) = emission.tagged ++ tagged emissions := rfl
    rw [hcons, foldl_append, ← emit_eq_foldl a (h _ mem_cons_self)]
    exact ih _ fun e he => h e (mem_cons_of_mem _ he)

theorem enter_with (channel : Channel) (a : Assembler) (splitter : ReplyStateMachine)
    (calls : List ToolCall) (callIds : CallIds) (shed : Nat) :
    ({ a with splitter := splitter, calls := calls, callIds := callIds, shed := shed }).enter
        channel =
      { a.enter channel with
        splitter := splitter, calls := calls, callIds := callIds, shed := shed } := by
  unfold enter
  by_cases hreasoning : channel = .reasoning
  · simp only [hreasoning, if_true]
    split <;> rfl
  · simp only [hreasoning, if_false]
    split <;> rfl

theorem extend_with (channel : Channel) (text : Text) (a : Assembler) (splitter : ReplyStateMachine)
    (calls : List ToolCall) (callIds : CallIds) (shed : Nat) :
    (({ a with splitter := splitter, calls := calls, callIds := callIds, shed := shed }).extend
        channel text).2 =
      { (a.extend channel text).2 with
        splitter := splitter, calls := calls, callIds := callIds, shed := shed } := by
  rw [extend_eq, extend_eq]
  have hleading : ∀ text, leading channel text { a with
      splitter := splitter, calls := calls, callIds := callIds, shed := shed } =
        a.leading channel text := by
    intro text
    rcases channel with _ | _ <;> rfl
  dsimp only
  rw [hleading]
  generalize (if a.open.isNone = true then a.leading channel text else text) = piece
  split <;> rfl

/-- What is emitted has nothing to do with the splitter, the calls and what was shed. -/
theorem foldl_put_with (a : Assembler) (splitter : ReplyStateMachine) (calls : List ToolCall)
    (callIds : CallIds) (shed : Nat) (out : List (ChannelState × Char)) :
    out.foldl put { a with
        splitter := splitter, calls := calls, callIds := callIds, shed := shed } =
      { out.foldl put a with
        splitter := splitter, calls := calls, callIds := callIds, shed := shed } := by
  induction out generalizing a with
  | nil => rfl
  | cons p out ih =>
    rw [foldl_cons, foldl_cons, ← ih]
    unfold put
    rw [enter_with, extend_with]

theorem countToken_markers (m : ReplyStateMachine) : m.countToken.markers = m.markers := by
  unfold countToken
  split <;> rfl

/-- A token pushed: what the splitter's scan puts out. -/
theorem push_token (a : Assembler) (text : Text) :
    (a.push (.token text)).2 =
      { (a.splitter.markers.scanner.scan a.splitter.state (a.splitter.pending ++ text)).1.foldl
          put a with
        splitter := (a.splitter.pushEmit text).2
        calls := a.calls, callIds := a.callIds, shed := a.shed } := by
  have hreads := a.splitter.pushEmit_reads text
  have hshown : ∀ emission ∈ (a.splitter.pushEmit text).1, emission.tagged ≠ [] :=
    pushEmitLoop_ne_nil _ _ _ _ fun _ h => absurd h not_mem_nil
  have hall := emitAll_eq_foldl { a with splitter := (a.splitter.pushEmit text).2 } hshown
  rw [hreads.emitted] at hall
  exact hall.trans (foldl_put_with a _ a.calls a.callIds a.shed _)

/-- What is held back flushed. -/
theorem flush_eq (a : Assembler) :
    a.flush.2 =
      { (a.splitter.pending.map (a.splitter.state, ·)).foldl put a with
        splitter := a.splitter.flushPending.2
        calls := a.calls, callIds := a.callIds, shed := a.shed } := by
  have hshown : ∀ emission ∈ run a.splitter.state a.splitter.pending,
      emission.tagged ≠ [] := tagged_ne_nil_of_mem_run
  have hall := emitAll_eq_foldl { a with splitter := a.splitter.flushPending.2 } hshown
  rw [tagged_run] at hall
  exact hall.trans (foldl_put_with a _ a.calls a.callIds a.shed _)

/-! ## Streams -/

/-- Two splitters that go on alike, with nothing left to decide. -/
structure Alike (m m' : ReplyStateMachine) : Prop where
  markers : m'.markers = m.markers
  state : m'.state = m.state
  pending : m'.pending = m.pending
  stuck : m.markers.scanner.next m.state m.pending = none

/-- Two assemblers that differ in what their splitters have counted. -/
structure Same (a a' : Assembler) : Prop where
  splitter : Alike a.splitter a'.splitter
  rest : a' = { a with splitter := a'.splitter }

variable {a' : Assembler}

theorem Same.trans {a'' : Assembler} (h : Same a a') (h' : Same a' a'') : Same a a'' where
  splitter := ⟨h'.splitter.markers.trans h.splitter.markers,
    h'.splitter.state.trans h.splitter.state, h'.splitter.pending.trans h.splitter.pending,
    h.splitter.stuck⟩
  rest := by
    have hrest := h'.rest
    rw [h.rest] at hrest
    exact hrest

theorem Same.symm (h : Same a a') : Same a' a where
  splitter := by
    refine ⟨h.splitter.markers.symm, h.splitter.state.symm, h.splitter.pending.symm, ?_⟩
    rw [h.splitter.markers, h.splitter.state, h.splitter.pending]
    exact h.splitter.stuck
  rest := by
    rw [h.rest]

/-- What is put is put alike. -/
theorem Same.foldl_put (h : Same a a') (out : List (ChannelState × Char)) (m : ReplyStateMachine) :
    ({ out.foldl put a' with
        splitter := m, calls := a'.calls, callIds := a'.callIds, shed := a'.shed } : Assembler) =
      { out.foldl put a with
        splitter := m, calls := a.calls, callIds := a.callIds, shed := a.shed } := by
  rw [h.rest]
  have hwith := foldl_put_with a a'.splitter a.calls a.callIds a.shed out
  rw [hwith]

theorem Same.push_token (h : Same a a') (text : Text) :
    Same (a.push (.token text)).2 (a'.push (.token text)).2 := by
  have hreads := a.splitter.pushEmit_reads text
  have hreads' := a'.splitter.pushEmit_reads text
  rw [h.splitter.markers, h.splitter.state, h.splitter.pending] at hreads'
  have hmarkers := hreads.markers.trans (countToken_markers a.splitter)
  have hmarkers' := hreads'.markers.trans (countToken_markers a'.splitter)
  rw [Assembler.push_token, Assembler.push_token]
  refine ⟨⟨?_, ?_, ?_, ?_⟩, ?_⟩
  · exact hmarkers'.trans (h.splitter.markers.trans hmarkers.symm)
  · exact hreads'.state.trans hreads.state.symm
  · exact hreads'.pending.trans hreads.pending.symm
  · dsimp only
    rw [hmarkers, hreads.state, hreads.pending]
    exact a.splitter.markers.scanner.next_scan _ _
  · rw [h.splitter.markers, h.splitter.state, h.splitter.pending]
    exact h.foldl_put _ _

/-- The splitter after a token is where a scan is. -/
theorem splitter_pushEmit (m : ReplyStateMachine) (text : Text) :
    (m.pushEmit text).2.markers = m.markers ∧
      (m.pushEmit text).2.state = (m.markers.scanner.scan m.state (m.pending ++ text)).2.1 ∧
      (m.pushEmit text).2.pending = (m.markers.scanner.scan m.state (m.pending ++ text)).2.2 :=
  ⟨(m.pushEmit_reads text).markers.trans (countToken_markers m), (m.pushEmit_reads text).state,
    (m.pushEmit_reads text).pending⟩

/-- **A token may be pushed in two pieces.** -/
theorem push_append (a : Assembler) (x y : Text) :
    Same (a.push (.token (x ++ y))).2 ((a.push (.token x)).2.push (.token y)).2 := by
  obtain ⟨hmarkers, hstate, hpending⟩ := splitter_pushEmit a.splitter x
  obtain ⟨hmarkers', hstate', hpending'⟩ := splitter_pushEmit (a.splitter.pushEmit x).2 y
  obtain ⟨hmarkers₂, hstate₂, hpending₂⟩ := splitter_pushEmit a.splitter (x ++ y)
  rw [hmarkers, hstate, hpending] at hstate' hpending'
  have hscan := a.splitter.markers.scanner.scan_append a.splitter.state (a.splitter.pending ++ x) y
  rw [append_assoc] at hscan
  rw [hscan] at hstate₂ hpending₂
  rw [push_token a x, push_token a (x ++ y), push_token]
  dsimp only
  refine ⟨⟨?_, ?_, ?_, ?_⟩, ?_⟩
  · exact hmarkers'.trans (hmarkers.trans hmarkers₂.symm)
  · exact hstate'.trans hstate₂.symm
  · exact hpending'.trans hpending₂.symm
  · dsimp only
    rw [hmarkers₂, hstate₂, hpending₂]
    exact a.splitter.markers.scanner.next_scan _ _
  · rw [hmarkers, hstate, hpending, hscan, foldl_append, foldl_put_with]

theorem Same.flush (h : Same a a') : Same a.flush.2 a'.flush.2 := by
  have hflushed : ∀ m : ReplyStateMachine, m.flushPending.2.markers = m.markers ∧
      m.flushPending.2.state = m.state ∧ m.flushPending.2.pending = [] := by
    intro m
    rw [flushPending, mirrorIntoBuffers_eq]
    exact ⟨rfl, rfl, rfl⟩
  obtain ⟨hmarkers, hstate, hpending⟩ := hflushed a.splitter
  obtain ⟨hmarkers', hstate', hpending'⟩ := hflushed a'.splitter
  rw [flush_eq, flush_eq]
  refine ⟨⟨?_, ?_, ?_, ?_⟩, ?_⟩
  · exact hmarkers'.trans (h.splitter.markers.trans hmarkers.symm)
  · exact hstate'.trans (h.splitter.state.trans hstate.symm)
  · exact hpending'.trans hpending.symm
  · dsimp only
    rw [hpending]
    exact a.splitter.flushPending.2.markers.scanner.next_nil _
  · rw [h.splitter.state, h.splitter.pending]
    exact h.foldl_put _ _

theorem Same.push (h : Same a a') (event : StreamEvent) :
    Same (a.push event).2 (a'.push event).2 := by
  rcases event with text | call | boundary | chunk | dropped
  · exact h.push_token text
  · rw [h.rest]
    exact ⟨h.splitter, rfl⟩
  · exact h
  · have hflush := h.flush
    unfold Assembler.push
    dsimp only
    rw [hflush.rest]
    exact ⟨hflush.splitter, rfl⟩
  · rw [h.rest]
    exact ⟨h.splitter, rfl⟩

/-- The tokens of a stream taken together, as far as no speech comes between. -/
def joined : Text → List StreamEvent → List StreamEvent
  | text, [] => [.token text]
  | text, .token text' :: events => joined (text ++ text') events
  | text, .speech chunk :: events => .token text :: .speech chunk :: joined [] events
  | text, event :: events => event :: joined text events

/-- An empty token changes nothing but counts. -/
theorem Same.push_nil (h : Same a a') : Same a (a'.push (.token [])).2 := by
  obtain ⟨hmarkers, hstate, hpending⟩ := splitter_pushEmit a'.splitter []
  have hstuck := h.symm.splitter.stuck
  have hscan := a'.splitter.markers.scanner.scan_none hstuck
  refine h.trans ?_
  rw [Assembler.push_token]
  rw [append_nil, hscan] at hstate hpending ⊢
  exact ⟨⟨hmarkers, hstate, hpending, hstuck⟩, rfl⟩

/-- The message of a stream whose tokens are taken together. -/
theorem same_joined (events : List StreamEvent) {text : Text}
    (h : Same a (a'.push (.token text)).2) :
    Same (a.pushAll events) (a'.pushAll (joined text events)) := by
  induction events generalizing text a a' with
  | nil => exact h
  | cons event events ih =>
    -- an event that has nothing to do with the tokens comes before them as well as after
    have hswap : ∀ other : StreamEvent,
      joined text (other :: events) = other :: joined text events →
        ((a'.push (.token text)).2.push other).2 = ((a'.push other).2.push (.token text)).2 →
          Same (a.pushAll (other :: events)) (a'.pushAll (joined text (other :: events))) := by
      intro other hjoined hcomm
      have hpush := h.push other
      rw [hcomm] at hpush
      rw [hjoined]
      exact ih hpush
    rcases event with text' | call | boundary | chunk | dropped
    · exact ih ((h.push (.token text')).trans (push_append a' text text').symm)
    · refine hswap (.toolCall call) rfl ?_
      rw [push_token, push_token]
      exact congrArg (fun b : Assembler => { b with
        splitter := (a'.splitter.pushEmit text).2
        calls := (a'.push (.toolCall call)).2.calls
        callIds := (a'.push (.toolCall call)).2.callIds
        shed := a'.shed }) (foldl_put_with a' a'.splitter
          (a'.push (.toolCall call)).2.calls (a'.push (.toolCall call)).2.callIds a'.shed _).symm
    · exact hswap (.mediaBoundary boundary) rfl rfl
    · exact ih (h.push (.speech chunk)).push_nil
    refine hswap (.contextTruncated dropped) rfl ?_
    rw [push_token, push_token]
    exact congrArg (fun b : Assembler => { b with
      splitter := (a'.splitter.pushEmit text).2
      calls := a'.calls
      callIds := a'.callIds
      shed := a'.shed + dropped }) (foldl_put_with a' a'.splitter a'.calls a'.callIds
        (a'.shed + dropped) _).symm

/-- What a stream comes to: the message when it has ended. -/
def reply (callIds : CallIds) (finish : Finish) (events : List StreamEvent) : AssistantMessage :=
  (((new callIds).pushAll events).finish finish).2.message

/-- **The message depends on the tokens through their text.**  Tokens between which no speech comes
may be taken together, or pushed in other pieces. -/
theorem reply_joined (callIds : CallIds) (finish : Finish) (events : List StreamEvent) :
    reply callIds finish events = reply callIds finish (joined [] events) := by
  have hnew : Same (new callIds) (new callIds) :=
    ⟨⟨rfl, rfl, rfl, allMarkers.scanner.next_nil _⟩, rfl⟩
  have hsame := (same_joined events (Same.push_nil hnew)).flush
  unfold reply Assembler.finish
  dsimp only
  rw [hsame.rest]
  rfl

/-! ## Streams without speech -/

/-- The text of a token. -/
def tokenText : StreamEvent → Option Text
  | .token text => some text
  | _ => none

/-- The tokens of a stream without speech, taken together, are its last event. -/
theorem joined_of_silent {events : List StreamEvent}
    (hsilent : ∀ chunk, StreamEvent.speech chunk ∉ events) (text : Text) :
    ∃ others : List StreamEvent,
      (∀ a : Assembler, ∃ calls callIds shed, a.pushAll others =
        { a with calls := calls, callIds := callIds, shed := shed }) ∧
      joined text events = others ++ [.token (text ++ (events.filterMap tokenText).flatten)] := by
  induction events generalizing text with
  | nil => exact ⟨[], fun a => ⟨a.calls, a.callIds, a.shed, rfl⟩, by simp [joined]⟩
  | cons event events ih =>
    have ih := fun text => ih (fun chunk h => hsilent chunk (mem_cons_of_mem _ h)) text
    have hother : ∀ other : StreamEvent, tokenText other = none →
        (∀ a : Assembler, ∃ calls callIds shed, (a.push other).2 =
          { a with calls := calls, callIds := callIds, shed := shed }) →
        joined text (other :: events) = other :: joined text events →
        ∃ others : List StreamEvent,
          (∀ a : Assembler, ∃ calls callIds shed, a.pushAll others =
            { a with calls := calls, callIds := callIds, shed := shed }) ∧
          joined text (other :: events) =
            others ++ [.token (text ++ ((other :: events).filterMap tokenText).flatten)] := by
      intro other htoken hpush hjoined
      obtain ⟨others, hothers, heq⟩ := ih text
      refine ⟨other :: others, fun a => ?_, ?_⟩
      · obtain ⟨calls, callIds, shed, hfirst⟩ := hpush a
        obtain ⟨calls', callIds', shed', hrest⟩ := hothers (a.push other).2
        refine ⟨calls', callIds', shed', hrest.trans ?_⟩
        rw [hfirst]
      · rw [hjoined, heq, filterMap_cons_none htoken]
        rfl
    rcases event with text' | call | boundary | chunk | dropped
    · obtain ⟨others, hothers, heq⟩ := ih (text ++ text')
      refine ⟨others, hothers, heq.trans ?_⟩
      rw [append_assoc]
      rfl
    · exact hother (.toolCall call) rfl (fun a => ⟨_, _, a.shed, rfl⟩) rfl
    · exact hother (.mediaBoundary boundary) rfl (fun a => ⟨a.calls, a.callIds, a.shed, rfl⟩) rfl
    · exact absurd mem_cons_self (hsilent chunk)
    · exact hother (.contextTruncated dropped) rfl (fun a => ⟨a.calls, a.callIds, _, rfl⟩) rfl

/-- What a message says, and what it reasons, is in the parts. -/
theorem text_message (a : Assembler) : a.message.text = (⟨a.parts⟩ : AssistantMessage).text := by
  have hcalls : (a.calls.map OutputPart.toolCall).flatMap (fun
      | .text t => t
      | _ => []) = ([] : Text) := by
    induction a.calls with
    | nil => rfl
    | cons call calls ih => exact ih
  unfold message AssistantMessage.text
  dsimp only
  rw [flatMap_append, hcalls, append_nil]
  split
  · next h =>
    rw [List.isEmpty_iff.1 h.2]
    rfl
  · rfl

theorem reasoning_message (a : Assembler) :
    a.message.reasoning = (⟨a.parts⟩ : AssistantMessage).reasoning := by
  have hcalls : (a.calls.map OutputPart.toolCall).filterMap (fun
      | .reasoning r => some r
      | _ => none) = ([] : List Text) := by
    induction a.calls with
    | nil => rfl
    | cons call calls ih => exact ih
  unfold message AssistantMessage.reasoning
  dsimp only
  rw [filterMap_append, hcalls, append_nil]
  split
  · next h =>
    rw [List.isEmpty_iff.1 h.2]
    rfl
  · rfl

theorem toolCalls_message (a : Assembler) :
    a.message.toolCalls = (⟨a.parts⟩ : AssistantMessage).toolCalls ++ a.calls := by
  have hcalls : (a.calls.map OutputPart.toolCall).filterMap (fun
      | .toolCall call => some call
      | _ => none) = a.calls := by
    induction a.calls with
    | nil => rfl
    | cons call calls ih => exact congrArg (call :: ·) ih
  unfold message AssistantMessage.toolCalls
  dsimp only
  rw [filterMap_append, hcalls]
  split
  · next h =>
    rw [List.isEmpty_iff.1 h.2]
    rfl
  · rfl

theorem push_token_with (a : Assembler) (calls : List ToolCall) (callIds : CallIds) (shed : Nat)
    (text : Text) :
    (({ a with calls := calls, callIds := callIds, shed := shed }).push (.token text)).2 =
      { (a.push (.token text)).2 with calls := calls, callIds := callIds, shed := shed } := by
  have hwith := foldl_put_with a a.splitter calls callIds shed
    (a.splitter.markers.scanner.scan a.splitter.state (a.splitter.pending ++ text)).1
  rw [push_token, push_token]
  dsimp only at hwith ⊢
  rw [hwith]

theorem flush_with (a : Assembler) (calls : List ToolCall) (callIds : CallIds) (shed : Nat) :
    ({ a with calls := calls, callIds := callIds, shed := shed }).flush.2 =
      { a.flush.2 with calls := calls, callIds := callIds, shed := shed } := by
  have hwith := foldl_put_with a a.splitter calls callIds shed
    (a.splitter.pending.map (a.splitter.state, ·))
  rw [flush_eq, flush_eq]
  dsimp only at hwith ⊢
  rw [hwith]

/-- **A stream without speech** says and reasons what the whole of its text says and reasons. -/
theorem reply_of_silent {events : List StreamEvent} (callIds : CallIds) (finish : Finish)
    (hsilent : ∀ chunk, StreamEvent.speech chunk ∉ events) :
    let whole := reply callIds finish [.token (events.filterMap tokenText).flatten]
    (reply callIds finish events).text = whole.text ∧
      (reply callIds finish events).reasoning = whole.reasoning ∧
      ((reply callIds finish events).toolCalls = [] → whole.toolCalls = []) := by
  intro whole
  obtain ⟨others, hothers, hjoined⟩ := joined_of_silent hsilent []
  obtain ⟨calls, callIds', shed, hpushed⟩ := hothers (new callIds)
  rw [nil_append] at hjoined
  have hall : (new callIds).pushAll (joined [] events) =
      { ((new callIds).push (.token (events.filterMap tokenText).flatten)).2 with
        calls := calls, callIds := callIds', shed := shed } := by
    rw [hjoined, pushAll_append, hpushed]
    exact push_token_with _ _ _ _ _
  have hparts : (((new callIds).pushAll (joined [] events)).finish finish).2.parts =
      (((new callIds).pushAll [.token (events.filterMap tokenText).flatten]).finish
        finish).2.parts := by
    unfold Assembler.finish
    dsimp only
    rw [hall, flush_with]
    rfl
  have hcalls : (((new callIds).pushAll [.token (events.filterMap tokenText).flatten]).finish
      finish).2.calls = [] := by
    unfold Assembler.finish
    dsimp only
    rw [flush_eq]
    unfold pushAll
    rw [foldl_cons, push_token]
    rfl
  rw [reply_joined]
  unfold whole reply
  refine ⟨?_, ?_, ?_⟩
  · rw [text_message, text_message, hparts]
  · rw [reasoning_message, reasoning_message, hparts]
  · rw [toolCalls_message, toolCalls_message, hparts, hcalls, append_nil]
    exact fun h => (append_eq_nil_iff.1 h).1

end Assembler

end Gen2.Api
