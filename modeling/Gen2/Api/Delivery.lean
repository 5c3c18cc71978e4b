import Gen2.Api.Assembler
import Gen2.Controller.Turns

/-!
# The delivery of a reply

A turn's events go from the controller's tick to whoever reads the stream, over a channel that may
be full.  A token that finds it full is dropped; an event that ends the turn is tried again, and may
be dropped in the end.

* `Turn` is one turn with both its ends: the chat that is ticked, what its channel holds, and the
  `StreamCore` that reads it.  A step is a tick, or a read.
* `Turn.Kept` is what every step keeps: the reader has assembled what it has read, a turn's last
  event is the last one on its channel, and the tokens offered are those that the backend produced.
* `reply_whole`: when the stream has ended normally the reply is that of the tokens delivered, and
  where none was dropped, of all of them.

The answers of the channel are left open, so that what is shown holds for channels of every
capacity, and however slowly they are read.
-/

namespace Gen2.Api

open Controller Lib List Runtimes
open Runtimes (timedOut applyStep)

variable {ρ : Type}

/-! ## The reader -/

/-- `TokenStream`, by what it has made of its events. -/
structure TokenStream where
  finish : Option Finish
  done : Bool
  accepted : Option Nat

/-- What `TokenStream::next` makes of one event of its channel. -/
inductive Next
  | event (event : StreamEvent)
  | failed (code message : String)
  | ended
  | readOn

/-- `TokenStream::next`, on the next event of its channel. -/
def TokenStream.next (s : TokenStream) : ControllerEvent → Next × TokenStream
  | .accepted delivered => (.readOn, { s with accepted := some (s.accepted.getD 0 + delivered) })
  | .token text => (.event (.token text), s)
  | .toolCall call => (.event (.toolCall call), s)
  | .mediaBoundary boundary => (.event (.mediaBoundary boundary), s)
  | .speech chunk => (.event (.speech chunk), s)
  | .contextTruncated dropped => (.event (.contextTruncated dropped), s)
  | .error code message => (.failed code message, { s with done := true })
  | .eos => (.ended, { s with finish := some .eos, done := true })
  | .stopped => (.ended, { s with finish := some .stopped, done := true })

/-- What the reader makes of the channel's events, but for the last one. -/
def streamEvent : ControllerEvent → Option StreamEvent
  | .token text => some (.token text)
  | .toolCall call => some (.toolCall call)
  | .mediaBoundary boundary => some (.mediaBoundary boundary)
  | .speech chunk => some (.speech chunk)
  | .contextTruncated dropped => some (.contextTruncated dropped)
  | _ => none

/-- `StreamCore`. -/
structure StreamCore where
  inner : TokenStream
  assembler : Assembler
  queue : List Event
  done : Bool
  failed : Option (String × String)

namespace StreamCore

/-- `StreamCore::new`. -/
def new (callIds : CallIds) : StreamCore := ⟨⟨none, false, none⟩, .new callIds, [], false, none⟩

/-- One turn of the loop of `StreamCore::pull`, on the next event of the channel. -/
def absorb (core : StreamCore) (event : ControllerEvent) : StreamCore :=
  if core.done then
    core
  else
    match core.inner.next event with
    | (.event event, inner) =>
      let (events, assembler) := core.assembler.push event
      { core with inner := inner, assembler := assembler, queue := core.queue ++ events }
    | (.failed code message, inner) =>
      { core with inner := inner, done := true, failed := some (code, message) }
    | (.ended, inner) => { core with inner := inner, done := true }
    | (.readOn, inner) => { core with inner := inner }

theorem absorb_done {core : StreamCore} (event : ControllerEvent) (h : core.done = true) :
    core.absorb event = core :=
  if_pos h

/-- An event that is not the last one is assembled. -/
theorem absorb_going {core : StreamCore} {event : ControllerEvent} (h : core.done = false)
    (hevent : event.isTerminal = false) :
    (core.absorb event).done = false ∧ (core.absorb event).inner.finish = core.inner.finish ∧
      (core.absorb event).assembler =
        core.assembler.pushAll ([event].filterMap streamEvent) := by
  unfold absorb
  rw [if_neg (Bool.eq_false_iff.1 h)]
  rcases event with _ | _ | _ | _ | _ | _ | _ | _ | _
  case eos => exact nomatch hevent
  case stopped => exact nomatch hevent
  case error => exact nomatch hevent
  all_goals exact ⟨h, rfl, rfl⟩

/-- The last event ends the stream, normally only if it says so. -/
theorem absorb_last {core : StreamCore} {event : ControllerEvent} (h : core.done = false)
    (hevent : event.isTerminal = true) :
    (core.absorb event).done = true ∧ (core.absorb event).assembler = core.assembler ∧
      ((core.absorb event).inner.finish = some .eos →
        event = .eos ∨ core.inner.finish = some .eos) := by
  unfold absorb
  rw [if_neg (Bool.eq_false_iff.1 h)]
  rcases event with _ | _ | _ | _ | _ | _ | _ | _ | _
  case eos => exact ⟨rfl, rfl, fun _ => .inl rfl⟩
  case stopped => exact ⟨rfl, rfl, nofun⟩
  case error => exact ⟨rfl, rfl, .inr⟩
  all_goals exact nomatch hevent

/-- The message that `StreamCore::complete` takes from the assembler. -/
def response (core : StreamCore) : AssistantMessage :=
  (core.assembler.finish (core.inner.finish.getD .eos)).2.message

end StreamCore

/-- `record_of`: the message that the session records.  `parse` reads a call's arguments. -/
def recordOf (parse : Text → Json) (message : AssistantMessage) : Message :=
  if message.toolCalls.isEmpty then
    .assistantStructured (String.ofList message.text) (message.reasoning.map String.ofList)
  else
    .assistantToolCalls (message.toolCalls.map fun call =>
      ⟨String.ofList call.id, "function",
        ⟨none, String.ofList call.name, parse call.arguments⟩⟩)

/-! ## A turn with both its ends -/

/-- A turn: the chat, its channel with what was offered to it, and the reader.  `pulled` is what the
backend has produced, which nobody reads. -/
structure Turn where
  chat : ChatRuntime
  runtimes : Runtimes
  core : StreamCore
  /-- How many of the channel's events have been read. -/
  read : Nat
  pulled : List PullStep

/-- What happens next: the controller's tick comes to the chat, or the reader asks for an event. -/
inductive Act (ρ : Type)
  | tick (env : Env ρ)
  | read

namespace Turn

variable (config : ControllerConfig ρ)

/-- Everything that the channel has taken. -/
def sent (t : Turn) : List ControllerEvent := received t.chat.tx t.runtimes.emissions

/-- What a tick pulls from the backend, where it comes to that. -/
def pulls (env : Env ρ) (t : Turn) : Option PullStep :=
  if timedOut config env t.chat then none
  else if (t.runtimes.offerSpeech env t.chat).1 then
    some (env.next (t.runtimes.offerSpeech env t.chat).2.1.session)
  else none

/-- A tick of the chat. -/
def tick (env : Env ρ) (t : Turn) : Turn :=
  if t.chat.shouldTick then
    let (chat, r) := t.runtimes.tickChat config env t.chat
    { t with chat := chat, runtimes := r, pulled := t.pulled ++ (t.pulls config env).toList }
  else
    t

/-- `StreamCore::pull`: what is queued is handed on before more is read, and a reader who finds
nothing waits. -/
def pull (t : Turn) : Turn :=
  match t.core.queue with
  | _ :: queue => { t with core := { t.core with queue := queue } }
  | [] =>
    match t.sent[t.read]? with
    | none => t
    | some event => { t with core := t.core.absorb event, read := t.read + 1 }

/-- One step. -/
def step : Act ρ → Turn → Option Turn
  | .tick env, t => some (t.tick config env)
  | .read, t => some t.pull

end Turn

/-- The text of a token that the backend has produced. -/
def producedToken : PullStep → Option Text
  | .event (.token token) => some token.text
  | _ => none

/-- The text of a token that has been offered to the channel. -/
def offeredToken : ControllerEvent → Option Text
  | .token text => some text
  | _ => none

namespace Turn

/-- The text that the backend has produced. -/
def text (t : Turn) : Text := (t.pulled.filterMap producedToken).flatten

/-- No token of the turn has been refused by its channel. -/
def NoneDropped (t : Turn) : Prop :=
  ∀ o ∈ t.runtimes.emissions, o.tx = t.chat.tx → (offeredToken o.event).isSome = true →
    o.result = .sent

/-- The backend has produced no speech. -/
def Silent (t : Turn) : Prop := ∀ chunk, PullStep.event (.speech chunk) ∉ t.pulled

/-- A turn as it starts: on a channel that has seen no more than how the turn was taken up. -/
structure Starts (callIds : CallIds) (t : Turn) : Prop where
  chat : ∃ started spec, t.chat.state = .generating started spec none
  core : t.core = .new callIds
  read : t.read = 0
  pulled : t.pulled = []
  channel : ∀ o ∈ t.runtimes.emissions, o.tx = t.chat.tx →
    ∃ n, o.event = .accepted n ∨ o.event = .contextTruncated n

/-! ## What a tick offers -/

/-- A chunk of speech that a chat has left over. -/
def leftOver (chat : ChatRuntime) : Option Generation.SpeechChunk :=
  match chat.state with
  | .generating _ _ pendingSpeech => pendingSpeech
  | _ => none

section Tick

variable (config : ControllerConfig ρ)

/-- The events that a tick of a chat offers. -/
def tickEvents (env : Env ρ) (t : Turn) : List ControllerEvent :=
  if timedOut config env t.chat then
    [.error "timeout" ("generation timed out after " ++ toString (config.generationTimeout / 1000) ++
      "s")]
  else
    (leftOver t.chat).toList.map .speech ++
      ((t.pulls config env).bind fun pulled =>
        (applyStep config env (t.runtimes.offerSpeech env t.chat).2.1 pulled).1).toList

theorem offerSpeech_emissions (env : Env ρ) (chat : ChatRuntime) (r : Runtimes) :
    (r.offerSpeech env chat).2.2.emissions = r.emissions ++ (leftOver chat).toList.map fun chunk =>
      ⟨chat.tx, .speech chunk, env.trySend chat.tx r.emissions.length⟩ := by
  unfold offerSpeech leftOver
  rcases hstate : chat.state with _ | _ | ⟨started, spec, _ | chunk⟩ | _ | _ | _
  all_goals dsimp only
  all_goals try exact (append_nil _).symm
  unfold emit
  dsimp only
  rcases env.trySend chat.tx r.emissions.length with _ | _ | _ <;> rfl

/-- A tick offers its events to the channel of the chat, in order. -/
theorem tickChat_emissions (env : Env ρ) (t : Turn) :
    ∃ offers : List Emission,
      (t.runtimes.tickChat config env t.chat).2.emissions = t.runtimes.emissions ++ offers ∧
        (∀ o ∈ offers, o.tx = t.chat.tx) ∧ offers.map Offer.event = t.tickEvents config env := by
  unfold tickChat tickEvents
  split
  · exact ⟨[⟨t.chat.tx, _, _⟩], rfl, by simp, rfl⟩
  · next htime =>
    have hspeech := offerSpeech_emissions env t.chat t.runtimes
    have hpulls : t.pulls config env = if (t.runtimes.offerSpeech env t.chat).1 then
        some (env.next (t.runtimes.offerSpeech env t.chat).2.1.session) else none := if_neg htime
    have htx := (offerSpeech_frame env t.chat t.runtimes).2.2.tx
    rw [hpulls]
    generalize t.runtimes.offerSpeech env t.chat = offered at hspeech htx ⊢
    obtain ⟨_ | _, chat, r⟩ := offered
    · refine ⟨_, hspeech, ?_, ?_⟩
      · intro o ho
        obtain ⟨chunk, -, rfl⟩ := mem_map.1 ho
        rfl
      · simp [Function.comp_def]
    · dsimp only at hspeech htx ⊢
      have happly := (applyStep_sameTurn config env chat (env.next chat.session)).tx
      rcases happlied : applyStep config env chat (env.next chat.session) with ⟨_ | event, chat'⟩
      all_goals rw [happlied] at happly
      · refine ⟨_, hspeech, ?_, ?_⟩
        · intro o ho
          obtain ⟨chunk, -, rfl⟩ := mem_map.1 ho
          rfl
        · simp [Function.comp_def, happlied]
      · let last : Emission := ⟨chat'.tx, event, env.trySend chat'.tx r.emissions.length⟩
        have hemitted : (r.emit env chat'.tx event).2.emissions = r.emissions ++ [last] := rfl
        refine ⟨_, hemitted.trans ((congrArg (· ++ [last]) hspeech).trans (append_assoc _ _ _)),
          ?_, ?_⟩
        · intro o ho
          rcases mem_append.1 ho with ho | ho
          · obtain ⟨chunk, -, rfl⟩ := mem_map.1 ho
            rfl
          · rw [mem_singleton.1 ho]
            exact happly.trans htx
        · simp [Function.comp_def, happlied, last]

/-- A token that is pulled is offered, unless there is nothing to it; nothing else is offered as
one. -/
theorem applyStep_token (env : Env ρ) (chat : ChatRuntime) (pulled : PullStep) :
    ((applyStep config env chat pulled).1.toList.filterMap offeredToken).flatten =
      ([pulled].filterMap producedToken).flatten := by
  rcases pulled with e | e | _ | _
  · rcases e with chunk | token | _ | boundary | call | _ | _ | _
    case token =>
      unfold applyStep
      dsimp only
      split
      · next hempty =>
        rw [List.isEmpty_iff] at hempty
        simp [producedToken, hempty]
      · rfl
    all_goals rfl
  · unfold applyStep
    dsimp only
    split <;> rfl
  · rfl
  · rfl

/-- What is left over and what is offered is speech only where speech is pulled. -/
theorem applyStep_silent (env : Env ρ) {chat : ChatRuntime} {pulled : PullStep}
    (hleft : leftOver chat = none) (hsilent : ∀ chunk, pulled ≠ .event (.speech chunk)) :
    leftOver (applyStep config env chat pulled).2 = none := by
  rcases pulled with e | e | _ | _
  · rcases e with chunk | token | _ | boundary | call | _ | _ | _
    case speech => exact absurd rfl (hsilent chunk)
    case token =>
      unfold applyStep
      dsimp only
      split <;> exact hleft
    all_goals first | exact hleft | rfl
  · unfold applyStep
    dsimp only
    split <;> rfl
  · rfl
  · rfl

theorem applyStep_not_speech (env : Env ρ) (chat : ChatRuntime) (pulled : PullStep)
    (chunk : Generation.SpeechChunk) :
    (applyStep config env chat pulled).1 ≠ some (.speech chunk) := by
  rcases pulled with e | e | _ | _
  · rcases e with _ | token | _ | _ | _ | _ | _ | _
    case token =>
      unfold applyStep
      dsimp only
      split <;> exact nofun
    all_goals exact nofun
  · unfold applyStep
    dsimp only
    split
    · exact nofun
    · exact nofun
  · exact nofun
  · exact nofun

theorem tokens_tickEvents (env : Env ρ) (t : Turn) :
    ((t.tickEvents config env).filterMap offeredToken).flatten =
      ((t.pulls config env).toList.filterMap producedToken).flatten := by
  have hspeech : ∀ chunks : List Generation.SpeechChunk,
      (chunks.map ControllerEvent.speech).filterMap offeredToken = [] := by
    intro chunks
    simp [filterMap_map, Function.comp_def, offeredToken]
  unfold tickEvents
  split
  · next htime => 
    rw [pulls, if_pos htime]
    rfl
  · rw [filterMap_append, hspeech, nil_append]
    rcases t.pulls config env with _ | pulled
    · rfl
    · exact applyStep_token config env _ pulled

theorem offerSpeech_isOpen (env : Env ρ) {chat : ChatRuntime} (r : Runtimes)
    (hopen : chat.state.isOpen = true) (hon : (r.offerSpeech env chat).1 = true) :
    (r.offerSpeech env chat).2.1.state.isOpen = true := by
  unfold offerSpeech at hon ⊢
  split at hon
  · split at hon
    · rfl
    · exact nomatch hon
    · exact nomatch hon
  · exact hopen

/-- A terminal event is the last one of a tick. -/
theorem pairwise_tickEvents (env : Env ρ) (t : Turn) :
    (t.tickEvents config env).Pairwise fun event _ => event.isTerminal = false := by
  unfold tickEvents
  split
  · exact pairwise_singleton _ _
  refine pairwise_append.2 ⟨?_, ?_, ?_⟩
  · rcases leftOver t.chat with _ | chunk
    · exact List.Pairwise.nil
    · exact pairwise_singleton _ _
  · rcases (t.pulls config env).bind _ with _ | event
    · exact List.Pairwise.nil
    · exact pairwise_singleton _ _
  · intro event hevent _ _
    obtain ⟨chunk, -, rfl⟩ := mem_map.1 hevent
    rfl

/-- A chat that is still open after a tick has not been told that its turn is over. -/
theorem isTerminal_of_tickEvents {env : Env ρ} {t : Turn} (hopen : t.chat.state.isOpen = true)
    (hafter : (t.runtimes.tickChat config env t.chat).1.state.isOpen = true) :
    ∀ event ∈ t.tickEvents config env, event.isTerminal = false := by
  unfold tickChat at hafter
  unfold tickEvents
  split at hafter
  · exact nomatch hafter
  · next htime =>
    rw [if_neg htime]
    have hpulls : t.pulls config env = if (t.runtimes.offerSpeech env t.chat).1 then
        some (env.next (t.runtimes.offerSpeech env t.chat).2.1.session) else none := if_neg htime
    have hon := offerSpeech_isOpen env t.runtimes hopen
    rw [hpulls]
    intro event hevent
    rcases mem_append.1 hevent with hevent | hevent
    · obtain ⟨chunk, -, rfl⟩ := mem_map.1 hevent
      rfl
    generalize t.runtimes.offerSpeech env t.chat = offered at hafter hon hevent
    obtain ⟨_ | _, chat, r⟩ := offered
    · exact absurd hevent not_mem_nil
    obtain ⟨hends,
    hlast⟩ := applyStep_ends config env (hon rfl) (env.next chat.session)
    have hevent' : (applyStep config env chat (env.next chat.session)).1 = some event := by
      simpa using hevent
    rw [hevent'] at hlast
    rcases happly : applyStep config env chat (env.next chat.session) with ⟨_, chat'⟩
    dsimp only at hafter
    rw [happly] at hevent' hends hafter
    obtain rfl : _ = some event := hevent'
    dsimp only at hafter hends
    unfold applyReceiverDisconnectOverride at hafter
    split at hafter
    · exact nomatch hafter
    · rw [hends, Bool.not_eq_true'] at hafter
      exact hlast.trans hafter

/-- Without speech from the backend none is offered and none is left over. -/
theorem silent_tick {env : Env ρ} {t : Turn} (hleft : leftOver t.chat = none)
    (hsilent : ∀ chunk, t.pulls config env ≠ some (.event (.speech chunk))) :
    leftOver (t.runtimes.tickChat config env t.chat).1 = none ∧
      ∀ chunk, ControllerEvent.speech chunk ∉ t.tickEvents config env := by
  have hoffer : t.runtimes.offerSpeech env t.chat = (true, t.chat, t.runtimes) := by
    unfold leftOver at hleft
    unfold offerSpeech
    rcases hstate : t.chat.state with _ | _ | ⟨started, spec, _ | chunk⟩ | _ | _ | _
    all_goals first | rfl | skip
    rw [hstate] at hleft
    exact nomatch hleft
  unfold tickChat tickEvents
  unfold pulls at hsilent
  split
  · exact ⟨rfl, by simp⟩
  · next htime =>
    rw [if_neg htime, hoffer] at hsilent
    have hpulls : t.pulls config env = some (env.next t.chat.session) := by
      rw [pulls, if_neg htime, hoffer]
      rfl
    rw [hoffer, hpulls, hleft]
    dsimp only
    have hafter : leftOver (applyStep config env t.chat (env.next t.chat.session)).2 = none :=
      applyStep_silent config env hleft fun chunk heq => hsilent chunk (congrArg some heq)
    have hnone := applyStep_not_speech config env t.chat (env.next t.chat.session)
    rcases happly : applyStep config env t.chat (env.next t.chat.session) with ⟨_ | event, chat'⟩
    all_goals rw [happly] at hafter hnone
    · exact ⟨hafter, fun chunk hmem => absurd hmem (by simp [happly])⟩
    refine ⟨?_, fun chunk hmem => ?_⟩
    · dsimp only
      unfold applyReceiverDisconnectOverride
      split
      · rfl
      · exact hafter
    · have heq : ControllerEvent.speech chunk = event := by simpa [happly] using hmem
      exact hnone chunk (congrArg some heq.symm)

end Tick

/-! ## What a turn keeps -/

/-- The events that have been offered to the channel. -/
def offered (t : Turn) : List ControllerEvent :=
  (t.runtimes.emissions.filter fun o => decide (o.tx = t.chat.tx)).map Offer.event

/-- What every step keeps. -/
structure Kept (callIds : CallIds) (t : Turn) : Prop where
  bound : t.read ≤ t.sent.length
  reading : t.core.done = false → t.core.inner.finish = none ∧
    (∀ event ∈ t.sent.take t.read, event.isTerminal = false) ∧
    t.core.assembler = (Assembler.new callIds).pushAll ((t.sent.take t.read).filterMap streamEvent)
  finished : t.core.inner.finish = some .eos → ∃ before after, t.sent = before ++ .eos :: after ∧
    t.core.assembler = (Assembler.new callIds).pushAll (before.filterMap streamEvent)
  last : t.sent.Pairwise fun event _ => event.isTerminal = false
  going : t.chat.state.isOpen = true → ∀ event ∈ t.sent, event.isTerminal = false
  tokens : (t.offered.filterMap offeredToken).flatten = t.text
  silent : t.Silent → leftOver t.chat = none ∧ ∀ chunk, ControllerEvent.speech chunk ∉ t.sent

variable {config : ControllerConfig ρ} {callIds : CallIds} {t : Turn}

theorem Starts.kept (h : t.Starts callIds) : t.Kept callIds := by
  obtain ⟨started, spec, hstate⟩ := h.chat
  have hsent : ∀ event ∈ t.sent,
      ∃ n, event = ControllerEvent.accepted n ∨ event = .contextTruncated n := by
    intro event hevent
    obtain ⟨o, ho, rfl⟩ := mem_map.1 hevent
    obtain ⟨hmem, hon⟩ := mem_filter.1 ho
    exact h.channel o hmem (of_decide_eq_true hon).1
  have hopen : ∀ event ∈ t.sent, event.isTerminal = false := by
    intro event hevent
    obtain ⟨n, rfl | rfl⟩ := hsent event hevent <;> rfl
  have hoffered : t.offered.filterMap offeredToken = [] := by
    refine filterMap_eq_nil_iff.2 fun event hevent => ?_
    obtain ⟨o, ho, rfl⟩ := mem_map.1 hevent
    obtain ⟨hmem, hon⟩ := mem_filter.1 ho
    obtain ⟨n, heq | heq⟩ := h.channel o hmem (of_decide_eq_true hon)
    · rw [heq]
      rfl
    · rw [heq]
      rfl
  refine ⟨?_, ?_, ?_, ?_, fun _ => hopen, ?_, fun _ => ⟨?_, ?_⟩⟩
  · rw [h.read]
    exact Nat.zero_le _
  · rw [h.core, h.read]
    exact fun _ => ⟨rfl, fun _ hevent => absurd hevent not_mem_nil, rfl⟩
  · rw [h.core]
    exact nofun
  · exact pairwise_of_forall_mem_list fun event hevent _ _ => hopen event hevent
  · rw [hoffered, text, h.pulled]
    rfl
  · rw [leftOver, hstate]
  · intro chunk hchunk
    obtain ⟨n, heq | heq⟩ := hsent _ hchunk <;> exact nomatch heq

/-- What a tick does to a turn, as far as it can be seen on the channel. -/
theorem tick_cases (config : ControllerConfig ρ) (env : Env ρ) (t : Turn) :
    t.tick config env = t ∨
      t.chat.state.isOpen = true ∧
      (t.tick config env).core = t.core ∧ (t.tick config env).read = t.read ∧
      (t.tick config env).pulled = t.pulled ++ (t.pulls config env).toList ∧
      (t.tick config env).chat = (t.runtimes.tickChat config env t.chat).1 ∧
      (t.tick config env).offered = t.offered ++ t.tickEvents config env ∧
      ∃ new : List ControllerEvent, new.Sublist (t.tickEvents config env) ∧
        (t.tick config env).sent = t.sent ++ new := by
  unfold tick
  split
  · next hgen =>
    obtain ⟨offers, hemissions, htx, hevents⟩ := tickChat_emissions config env t
    have hsame := (tickChat_frame config env t.chat t.runtimes).2.2.tx
    rcases hticked : t.runtimes.tickChat config env t.chat with ⟨chat, r⟩
    rw [hticked] at hemissions hsame
    dsimp only at hemissions hsame
    refine .inr ⟨ChatRunState.isOpen_of_isGenerating hgen, rfl, rfl, rfl, rfl, ?_,
      received t.chat.tx offers, ?_, ?_⟩
    · unfold offered
      dsimp only
      rw [hemissions, hsame, filter_append, map_append,
        filter_eq_self.2 fun o ho => decide_eq_true (htx o ho), hevents]
    · rw [← hevents]
      exact (filter_sublist).map _
    · unfold sent received
      dsimp only
      rw [hemissions, hsame, filter_append, map_append]
  · exact .inl rfl

theorem Kept.tick (h : t.Kept callIds) (env : Env ρ) : (t.tick config env).Kept callIds := by
  rcases tick_cases config env t with hsame | ⟨hopen, hcore, hread, hpulled, hchat, hoffered, new,
    hnew, hsent⟩
  · rw [hsame]
    exact h
  have hbefore := h.going hopen
  have htake : (t.tick config env).sent.take (t.tick config env).read = t.sent.take t.read := by
    rw [hsent, hread, take_append_of_le_length h.bound]
  refine ⟨?_, ?_, ?_, ?_, ?_, ?_, ?_⟩
  · rw [hread, hsent, length_append]
    exact Nat.le_add_right_of_le h.bound
  · rw [hcore, htake]
    exact h.reading
  · rw [hcore, hsent]
    intro heos
    obtain ⟨before, after, heq, hassembler⟩ := h.finished heos
    exact ⟨before, after ++ new, by rw [heq, append_assoc, cons_append], hassembler⟩
  · rw [hsent]
    exact pairwise_append.2 ⟨h.last, (pairwise_tickEvents config env t).sublist hnew,
      fun event hevent _ _ => hbefore event hevent⟩
  · intro hafter event hevent
    rw [hsent] at hevent
    rw [hchat] at hafter
    rcases mem_append.1 hevent with hevent | hevent
    · exact hbefore event hevent
    · exact isTerminal_of_tickEvents config hopen hafter event (hnew.subset hevent)
  · rw [hoffered, filterMap_append, flatten_append, h.tokens, tokens_tickEvents, text,
      text, hpulled, filterMap_append, flatten_append]
  intro hsilent
  unfold Silent at hsilent
  rw [hpulled] at hsilent
  obtain ⟨hleft, hquiet⟩ :=
    h.silent fun chunk hchunk => hsilent chunk (mem_append_left _ hchunk)
  obtain ⟨hleft', hquiet'⟩ := silent_tick config hleft fun chunk hchunk =>
    hsilent chunk (mem_append_right _ (by rw [hchunk]; exact mem_singleton_self _))
  rw [hchat, hsent]
  refine ⟨hleft', fun chunk hchunk => ?_⟩
  rcases mem_append.1 hchunk with hchunk | hchunk
  · exact hquiet chunk hchunk
  · exact hquiet' chunk (hnew.subset hchunk)

theorem Kept.pull (h : t.Kept callIds) : t.pull.Kept callIds := by
  unfold Turn.pull
  split
  · exact ⟨h.bound, h.reading, h.finished, h.last, h.going, h.tokens, h.silent⟩
  split
  · exact h
  · next event hevent =>
    obtain ⟨hlt, hget⟩ := List.getElem?_eq_some_iff.1 hevent
    have htake : t.sent.take (t.read + 1) = t.sent.take t.read ++ [event] := by
      rw [List.take_succ_eq_append_getElem hlt, hget]
    have hsplit : t.sent = t.sent.take t.read ++ event :: t.sent.drop (t.read + 1) := by
      rw [← hget, ← List.drop_eq_getElem_cons hlt, List.take_append_drop]
    have hread : ({ t with core := t.core.absorb event, read := t.read + 1 } : Turn).sent.take
        (t.read + 1) = t.sent.take t.read ++ [event] := htake
    rcases hdone : t.core.done with _ | _
    · obtain ⟨hnone, hbefore, hassembler⟩ := h.reading hdone
      rcases hterminal : event.isTerminal with _ | _
      · -- the reader goes on, with one event more
        obtain ⟨hdone', hfinish', hassembler'⟩ := StreamCore.absorb_going hdone hterminal
        refine ⟨hlt, fun _ => ⟨hfinish'.trans hnone, ?_, ?_⟩, ?_, h.last, h.going, h.tokens,
          h.silent⟩
        · intro event' hevent'
          rw [hread] at hevent'
          rcases List.mem_append.1 hevent' with hevent' | hevent'
          · exact hbefore event' hevent'
          · rw [List.mem_singleton.1 hevent']
            exact hterminal
        · rw [hread, List.filterMap_append, Assembler.pushAll_append, ← hassembler]
          exact hassembler'
        · intro heos
          exact nomatch (hfinish'.trans hnone).symm.trans heos
      · -- the event is the last one
        obtain ⟨hdone', hassembler', hfinish'⟩ := StreamCore.absorb_last hdone hterminal
        refine ⟨hlt, fun hgoing => (nomatch hdone'.symm.trans hgoing), ?_, h.last, h.going,
          h.tokens, h.silent⟩
        intro heos
        rcases hfinish' heos with rfl | hold
        · exact ⟨_, _, hsplit, hassembler'.trans hassembler⟩
        · exact nomatch hnone.symm.trans hold
    · have hsame := StreamCore.absorb_done event hdone
      refine ⟨hlt, ?_, ?_, h.last, h.going, h.tokens, h.silent⟩
      · dsimp only
        rw [hsame]
        exact fun hgoing => nomatch hdone.symm.trans hgoing
      · dsimp only
        rw [hsame]
        exact h.finished

/-- The invariant holds in every run. -/
theorem kept_always {acts : List (Act ρ)} {t₀ : Turn} (h₀ : t₀.Starts callIds) :
    Always (step config) (fun t => t.Kept callIds) acts t₀ := by
  refine always_of_step (fun t act ht _ => ?_) h₀.kept (everyStep_true _ _)
  rcases act with env | _
  · exact ⟨_, rfl, ht.tick env⟩
  · exact ⟨_, rfl, ht.pull⟩

/-! ## The reply -/

/-- Where none is dropped the channel carries what was offered. -/
theorem NoneDropped.tokens (h : t.NoneDropped) :
    t.sent.filterMap offeredToken = t.offered.filterMap offeredToken := by
  unfold NoneDropped at h
  unfold sent received offered
  generalize t.runtimes.emissions = offers at h ⊢
  induction offers with
  | nil => rfl
  | cons o offers ih =>
    have ih := ih fun o' ho' => h o' (mem_cons_of_mem _ ho')
    by_cases htx : o.tx = t.chat.tx
    · by_cases hsent : o.result = .sent
      · rw [filter_cons_of_pos (by simp [htx, hsent]),
          filter_cons_of_pos (by simp [htx]), map_cons, map_cons,
          filterMap_cons, filterMap_cons, ih]
      have hnone : offeredToken o.event = none := by
        rcases htoken : offeredToken o.event with _ | text
        · rfl
        · exact absurd (h o mem_cons_self htx (by rw [htoken]; rfl)) hsent
      rw [filter_cons_of_neg (by simp [hsent]),
        filter_cons_of_pos (by simp [htx]), map_cons,
        filterMap_cons_none hnone, ih]
    · rw [filter_cons_of_neg (by simp [htx]), filter_cons_of_neg (by simp [htx]), ih]

theorem filterMap_tokenText (events : List ControllerEvent) :
    (events.filterMap streamEvent).filterMap Assembler.tokenText =
      events.filterMap offeredToken := by
  rw [filterMap_filterMap]
  refine filterMap_congr fun event _ => ?_
  rcases event with _ | _ | _ | _ | _ | _ | _ | _ | _ <;> rfl

theorem speech_notMem_filterMap {events : List ControllerEvent}
    (h : ∀ chunk, ControllerEvent.speech chunk ∉ events) (chunk : Generation.SpeechChunk) :
    StreamEvent.speech chunk ∉ events.filterMap streamEvent := by
  intro hmem
  obtain ⟨event, hevent, heq⟩ := mem_filterMap.1 hmem
  rcases event with _ | _ | _ | _ | _ | _ | _ | _ | _
  case speech => exact h _ hevent
  all_goals exact nomatch heq

/-- When the stream has ended normally, the reader has assembled all that the channel carried. -/
theorem Kept.assembled (h : t.Kept callIds) (heos : t.core.inner.finish = some .eos) :
    t.core.response = Assembler.reply callIds .eos (t.sent.filterMap streamEvent) := by
  obtain ⟨before, after, heq, hassembler⟩ := h.finished heos
  -- nothing comes after the end
  have hafter : after = [] := by
    have hlast := h.last
    rw [heq] at hlast
    rcases after with _ | ⟨event, after⟩
    · rfl
    · exact nomatch (pairwise_cons.1 (pairwise_append.1 hlast).2.1).1 event
        mem_cons_self
  have hevents : t.sent.filterMap streamEvent = before.filterMap streamEvent := by
    rw [heq, hafter, filterMap_append]
    exact append_nil _
  unfold StreamCore.response Assembler.reply
  rw [heos, hassembler, hevents]
  rfl

end Turn

/-- **A completed reply is that of the tokens delivered.**  They may be taken together as far as no
speech comes between, and where none was dropped and nothing was spoken they are all that the
backend has produced: then the session records what the backend's text says. -/
theorem reply_whole (config : ControllerConfig ρ) (parse : Text → Json) (callIds : CallIds)
    (acts : List (Act ρ)) (t₀ : Turn) (h₀ : t₀.Starts callIds) :
    Always (Turn.step config) (fun t => t.core.inner.finish = some .eos →
      t.core.response =
        Assembler.reply callIds .eos (Assembler.joined [] (t.sent.filterMap streamEvent)) ∧
      (t.NoneDropped → t.Silent →
        let whole := Assembler.reply callIds .eos [.token t.text]
        t.core.response.text = whole.text ∧ t.core.response.reasoning = whole.reasoning ∧
          (t.core.response.toolCalls = [] →
            recordOf parse t.core.response = recordOf parse whole))) acts t₀ := by
  refine Always.mono (fun t ht heos => ?_) (Turn.kept_always h₀)
  have hresponse := ht.assembled heos
  refine ⟨hresponse.trans (Assembler.reply_joined callIds .eos _), fun hnone hsilent => ?_⟩
  obtain ⟨htext, hreasoning, hcalls⟩ := Assembler.reply_of_silent callIds .eos
    (Turn.speech_notMem_filterMap (ht.silent hsilent).2)
  rw [← hresponse, Turn.filterMap_tokenText, hnone.tokens, ht.tokens] at htext hreasoning hcalls
  refine ⟨htext, hreasoning, fun hno => ?_⟩
  unfold recordOf
  rw [hno, hcalls hno, htext, hreasoning]

/-! ## Two runs -/

/-- A turn that has just begun. -/
def Turn.opening (callIds : CallIds) : Turn where
  chat :=
    { session := ⟨0, 0⟩
      tx := 0
      workload := .primaryChat
      lastUsed := 0
      lastGenSpec := ⟨.text, false, none, none⟩
      state := .generating 0 ⟨.text, false, none, none⟩ none
      health := {} }
  runtimes := ⟨∅, ⟨0, 1, some [(0, 0)], []⟩, []⟩
  core := .new callIds
  read := 0
  pulled := []

theorem Turn.starts_opening (callIds : CallIds) : (Turn.opening callIds).Starts callIds where
  chat := ⟨_, _, rfl⟩
  core := rfl
  read := rfl
  pulled := rfl
  channel _ ho := absurd ho not_mem_nil

/-- A tick that pulls `event` and has it answered so. -/
def Act.pulling (event : Generation.TokenEvent) (answer : EmitResult) : Act Unit :=
  .tick { Env.smooth Unit with next := fun _ => .event event, trySend := fun _ _ => answer }

/-- How a channel of `capacity` events answers a tick that offers one. -/
def Turn.Answered (capacity : Nat) (t : Turn) (act : Act ρ) : Prop :=
  ∀ env, act = .tick env → ∀ tx n,
    env.trySend tx n = if t.sent.length < t.read + capacity then .sent else .full

theorem Turn.answered_pulling {capacity : Nat} {t : Turn} {event : Generation.TokenEvent}
    {answer : EmitResult}
    (h : answer = if t.sent.length < t.read + capacity then .sent else .full) :
    t.Answered capacity (.pulling event answer) := by
  rintro env ⟨rfl⟩ tx n
  exact h

theorem Turn.answered_read {capacity : Nat} {t : Turn} :
    t.Answered capacity (.read : Act ρ) := by
  rintro env ⟨⟩

/-- Two tokens, both delivered. -/
theorem reply_whole_for_two :
    let acts := [.pulling (.token ⟨0, "a".toList, none⟩) .sent,
      .pulling (.token ⟨1, "b".toList, none⟩) .sent, .pulling .eos .sent, .read, .read, .read, .read,
      .read]
    Always (Turn.step (ControllerConfig.plain 1)) (fun t => t.core.inner.finish = some .eos →
      t.core.response =
        Assembler.reply ⟨0, 0⟩ .eos (Assembler.joined [] (t.sent.filterMap streamEvent)) ∧
      (t.NoneDropped → t.Silent →
        let whole := Assembler.reply ⟨0, 0⟩ .eos [.token t.text]
        t.core.response.text = whole.text ∧ t.core.response.reasoning = whole.reasoning ∧
          (t.core.response.toolCalls = [] →
            recordOf (fun _ => .null) t.core.response = recordOf (fun _ => .null) whole)))
      acts (.opening ⟨0, 0⟩) ∧
    (runAll (Turn.step (ControllerConfig.plain 1)) acts (.opening ⟨0, 0⟩)).map
      (fun t => (decide (t.core.inner.finish = some .eos), t.core.response.text)) =
        some (true, "ab".toList) :=
  ⟨reply_whole _ _ ⟨0, 0⟩ _ _ (Turn.starts_opening _), by decide +kernel⟩

/-- A channel of one event, whose reader is slow: the second token is lost, and the turn ends
normally. -/
theorem reply_not_always_whole :
    let acts := [.pulling (.token ⟨0, "a".toList, none⟩) .sent,
      .pulling (.token ⟨1, "b".toList, none⟩) .full, .read, .pulling .eos .sent, .read, .read]
    EveryStep (Turn.step (ControllerConfig.plain 1)) (Turn.Answered 1) acts (.opening ⟨0, 0⟩) ∧
    ¬ Always (Turn.step (ControllerConfig.plain 1)) (fun t => t.core.inner.finish = some .eos →
      t.core.response.text = (Assembler.reply ⟨0, 0⟩ .eos [.token t.text]).text ∧
        t.core.response.reasoning = (Assembler.reply ⟨0, 0⟩ .eos [.token t.text]).reasoning)
      acts (.opening ⟨0, 0⟩) := by
  intro acts
  constructor
  · refine ⟨Turn.answered_pulling rfl, fun t₁ h₁ => ⟨?_, fun t₂ h₂ => ⟨Turn.answered_read,
      fun t₃ h₃ => ⟨?_, fun t₄ h₄ => ⟨Turn.answered_read, fun t₅ h₅ => ⟨Turn.answered_read,
        fun _ _ => trivial⟩⟩⟩⟩⟩⟩
    · obtain rfl := Option.some.inj h₁
      exact Turn.answered_pulling (by decide +kernel)
    · obtain rfl := Option.some.inj h₁
      obtain rfl := Option.some.inj h₂
      obtain rfl := Option.some.inj h₃
      exact Turn.answered_pulling (by decide +kernel)
  · intro h
    obtain ⟨t, ht, hwhole⟩ := h.final
    have hend : (runAll (Turn.step (ControllerConfig.plain 1)) acts (.opening ⟨0, 0⟩)).map
        (fun t => (decide (t.core.inner.finish = some .eos), t.core.response.text,
          (Assembler.reply ⟨0, 0⟩ .eos [.token t.text]).text)) =
        some (true, "a".toList, "ab".toList) := by decide +kernel
    rw [ht] at hend
    obtain ⟨heos, htexts⟩ := Prod.mk.inj (Option.some.inj hend)
    obtain ⟨htext, hall⟩ := Prod.mk.inj htexts
    have heq := (hwhole (of_decide_eq_true heos)).1
    rw [htext, hall] at heq
    exact absurd heq (by decide)

end Gen2.Api
