import Gen2.Api.CallIds
import Gen2.Chat.Defs

/-!
# The asynchronous stream

`api/async_turn.rs`: a worker pulls the events of a turn, a bounded channel brings them to the task
that polls, and when the worker is done it hands the stream's state back, so that the outcome is
written where the session is.  `EventStream` of `api/event.rs` does all of it in one place.

* A schedule is a list of `Act`s: the worker takes a step, its handle becomes ready, the task polls.
* `Bridged` relates the two streams: what is in the channel and in the worker's hands is what the
  blocking stream would pull next.
* `async_eq_blocking`: the answers that polling gets are those that the blocking stream gives, and
  where they end the sessions are the same.
* `close_of_drop`: what a drop leaves behind.

The statistics of a response are left out, and of the engine there is what settling a turn writes.
-/

namespace Gen2.Api.Async

open Controller List

/-! ## The core of both -/

/-- `Error`, as far as a stream reports one. -/
inductive Error
  | controllerGone
  | generation (code message : String)
  deriving DecidableEq

/-- `Error::code`. -/
def Error.code : Error → Option String
  | .controllerGone => none
  | .generation code _ => some code

/-- The message that a failure keeps. -/
def Error.message : Error → String
  | .controllerGone => "the inference controller is no longer running"
  | .generation _ message => message

/-- `Result<Event>`. -/
abbrev Item := Except Error Event

/-- `Response`. -/
structure Response where
  message : AssistantMessage
  finishReason : Option FinishReason
  messageId : Option MessageId

/-- `StreamCore`, with the events that its channel still brings before it closes. -/
structure StreamCore extends Api.StreamCore where
  arriving : List ControllerEvent
  settled : Bool
  response : Option Response
  closeAfter : Bool

/-- Why a finish is reported: what `Assembler::finish` puts last. -/
def reasonOf (events : List Event) : Option FinishReason :=
  match events.getLast? with
  | some (.finished reason) => some reason
  | _ => none

namespace StreamCore

/-- `StreamCore::new`. -/
def new (callIds : CallIds) (arriving : List ControllerEvent) (closeAfter : Bool) : StreamCore :=
  ⟨.new callIds, arriving, false, none, closeAfter⟩

/-- `StreamCore::cancelled_before_start`. -/
def cancelledBeforeStart (callIds : CallIds) : StreamCore :=
  ⟨{ Api.StreamCore.new callIds with done := true, queue := [.finished .cancelled] }, [], true,
    some ⟨⟨[]⟩, some .cancelled, none⟩, false⟩

/-- An error pulled: the stream is over, and keeps why. -/
def fail (core : Api.StreamCore) (e : Error) : Api.StreamCore :=
  { core with done := true, failed := some (e.code.getD "stream_failed", e.message) }

/-- The loop of `pull`, over what the channel still brings. -/
def pullLoop : List ControllerEvent → Api.StreamCore →
    Option Item × Api.StreamCore × List ControllerEvent
  | [], core =>
    match core.queue with
    | event :: queue => (some (.ok event), { core with queue := queue }, [])
    | [] =>
      if core.done then
        (none, core, [])
      else if core.inner.done then
        (none, { core with done := true }, [])
      else
        -- the channel is closed: `TokenStream::next` on nothing
        let core := { core with inner := { core.inner with done := true } }
        match core.inner.finish with
        | some _ => (none, { core with done := true }, [])
        | none => (some (.error .controllerGone), fail core .controllerGone, [])
  | event :: rest, core =>
    match core.queue with
    | event' :: queue => (some (.ok event'), { core with queue := queue }, event :: rest)
    | [] =>
      if core.done then
        (none, core, event :: rest)
      else if core.inner.done then
        (none, { core with done := true }, event :: rest)
      else
        match core.inner.next event with
        | (.readOn, inner) => pullLoop rest { core with inner := inner }
        | (.event event, inner) =>
          let (events, assembler) := core.assembler.push event
          pullLoop rest { core with inner := inner, assembler := assembler, queue := events }
        | (.failed code message, inner) =>
          (some (.error (.generation code message)),
            fail { core with inner := inner } (.generation code message), rest)
        | (.ended, inner) => (none, { core with inner := inner, done := true }, rest)

/-- `StreamCore::pull`. -/
def pull (core : StreamCore) : Option Item × StreamCore :=
  let (item, inner, arriving) := pullLoop core.arriving core.toStreamCore
  (item, { core with toStreamCore := inner, arriving := arriving })

/-- `StreamCore::needs_completion`. -/
def needsCompletion (core : StreamCore) : Bool := core.done && !core.settled && core.failed.isNone

/-- `StreamCore::pop_queued`. -/
def popQueued (core : StreamCore) : Option Event × StreamCore :=
  match core.queue with
  | event :: queue => (some event, { core with queue := queue })
  | [] => (none, core)

/-- `StreamCore::take_response`. -/
def takeResponse (core : StreamCore) : Except Error Response :=
  match core.response with
  | some response => .ok response
  | none =>
    let (code, message) :=
      core.failed.getD ("stream_failed", "the stream ended without an outcome")
    .error (.generation code message)

end StreamCore

/-- Where a turn is settled: the session that it borrows or owns, and the engine. -/
structure Home where
  session : Session
  engine : Chat.Engine

section

variable [SerdeJson] (parse : Text → Json)

/-- `StreamCore::complete`. -/
def StreamCore.complete (core : StreamCore) (home : Home) : StreamCore × Home :=
  let finish := core.inner.finish.getD .eos
  let (engine, session) := Chat.settle home.engine home.session core.inner.accepted
  let (events, assembler) := core.assembler.finish finish
  let message := assembler.message
  let session := session.noteShed assembler.shed
  let (messageId, session) :=
    if worthRecording finish message then
      let (id, session) := session.push (recordOf parse message)
      (some id, session)
    else
      (none, session)
  let session := if finish = .stopped ∨ core.closeAfter = true then
      { session with opened := false }
    else session
  ({ core with
      toStreamCore := { core.toStreamCore with
        assembler := assembler, queue := core.queue ++ events }
      settled := true
      response := some ⟨message, reasonOf events, messageId⟩ },
    ⟨session, engine⟩)

/-! ## The blocking stream -/

/-- `EventStream`. -/
structure EventStream where
  core : StreamCore
  home : Home

/-- `EventStream::next`. -/
def EventStream.next (s : EventStream) : Option Item × EventStream :=
  match s.core.pull with
  | (some item, core) => (some item, { s with core := core })
  | (none, core) =>
    if core.needsCompletion then
      let (core, home) := core.complete parse s.home
      let (item, core) := core.pull
      (item, ⟨core, home⟩)
    else
      (none, { s with core := core })

/-- What `n` calls of `next` give. -/
def EventStream.take : Nat → EventStream → List (Option Item) × EventStream
  | 0, s => ([], s)
  | n + 1, s =>
    let (item, s) := s.next parse
    let (items, s) := EventStream.take n s
    (item :: items, s)

/-! ## The asynchronous stream -/

/-- `EVENT_BUFFER`. -/
def eventBuffer : Nat := 64

/-- The worker and its handle. -/
inductive Worker
  /-- Joined, or never spawned. -/
  | gone
  | pulling (core : StreamCore)
  /-- `blocking_send`, which waits for room. -/
  | sending (item : Item) (core : StreamCore)
  /-- The closure has returned, and dropped its sender. -/
  | returned (core : StreamCore)
  /-- And its handle is ready. -/
  | ready (core : StreamCore)

/-- `AsyncEventStream`. -/
structure AsyncEventStream where
  rx : List Item
  worker : Worker
  tail : Option StreamCore
  home : Home

/-- The sender lives as long as the closure runs. -/
def Worker.sends : Worker → Bool
  | .pulling _ | .sending _ _ => true
  | _ => false

namespace AsyncEventStream

/-- `AsyncEventStream::start`. -/
def start (core : StreamCore) (home : Home) : AsyncEventStream :=
  if core.done then ⟨[], .gone, some core, home⟩ else ⟨[], .pulling core, none, home⟩

/-- A step of the worker, `open` saying whether there is a receiver. -/
def work («open» : Bool) (a : AsyncEventStream) : AsyncEventStream :=
  match a.worker with
  | .pulling core =>
    match core.pull with
    | (some item, core) => { a with worker := .sending item core }
    | (none, core) => { a with worker := .returned core }
  | .sending item core =>
    if !«open» then
      { a with worker := .pulling core }
    else if a.rx.length < eventBuffer then
      { a with rx := a.rx ++ [item], worker := .pulling core }
    else
      a
  | .returned core => { a with worker := .ready core }
  | _ => a

/-- `AsyncEventStream::settle`. -/
def settle (core : StreamCore) (a : AsyncEventStream) : AsyncEventStream :=
  if core.needsCompletion then
    let (core, home) := core.complete parse a.home
    { a with worker := .gone, tail := some core, home := home }
  else
    { a with worker := .gone, tail := some core }

/-- What a poll comes to where there is a tail. -/
def popTail (core : StreamCore) (a : AsyncEventStream) : Option Item × AsyncEventStream :=
  let (event, core) := core.popQueued
  (event.map .ok, { a with tail := some core })

/-- `poll_next`, where the outer `none` is `Pending`. -/
def poll (a : AsyncEventStream) : Option (Option Item) × AsyncEventStream :=
  match a.tail with
  | some core => let (item, a) := popTail core a; (some item, a)
  | none =>
    match a.rx with
    | item :: rx => (some (some item), { a with rx := rx })
    | [] =>
      match a.worker with
      | .gone => (some none, a)
      | .ready core =>
        let a := settle parse core a
        match a.tail with
        | some core => let (item, a) := popTail core a; (some item, a)
        | none => (none, a)
      | _ => (none, a)

/-- `drop`. -/
def drop (a : AsyncEventStream) : AsyncEventStream :=
  if a.tail.isNone then
    { a with home := { a.home with session := { a.home.session with opened := false } } }
  else
    a

end AsyncEventStream

/-- What happens next to a stream that is held. -/
inductive Act
  | work
  | poll

/-- One act, with what a poll has been given. -/
def step (a : AsyncEventStream) : Act → List (Option Item) × AsyncEventStream
  | .work => ([], a.work true)
  | .poll =>
    let (answer, a) := a.poll parse
    (answer.toList, a)

/-- A schedule, with what the polls have been given. -/
def run : AsyncEventStream → List Act → List (Option Item) × AsyncEventStream
  | a, [] => ([], a)
  | a, act :: acts =>
    let (answers, a) := step parse a act
    let (answers', a) := run a acts
    (answers ++ answers', a)

end

/-! ## What a pull can do -/

namespace StreamCore

theorem pullLoop_none {arriving rest : List ControllerEvent} {core core' : Api.StreamCore}
    (h : pullLoop arriving core = (none, core', rest)) : core'.done = true ∧ core'.queue = [] := by
  induction arriving generalizing core with
  | nil =>
    unfold pullLoop at h
    rcases hqueue : core.queue with _ | ⟨event, queue⟩
    · rw [hqueue] at h
      dsimp only at h
      split at h
      · next hdone => cases h; exact ⟨hdone, hqueue⟩
      split at h
      · cases h; exact ⟨rfl, rfl⟩
      · split at h
        · cases h; exact ⟨rfl, rfl⟩
        · cases h
    · rw [hqueue] at h
      cases h
  | cons event arriving ih =>
    unfold pullLoop at h
    rcases hqueue : core.queue with _ | ⟨event', queue⟩
    · rw [hqueue] at h
      dsimp only at h
      split at h
      · next hdone => cases h; exact ⟨hdone, hqueue⟩
      split at h
      · cases h; exact ⟨rfl, rfl⟩
      split at h
      · exact ih h
      · exact ih h
      · cases h
      · cases h; exact ⟨rfl, rfl⟩
    · rw [hqueue] at h
      cases h

variable {core : StreamCore}

/-- A pull that gives nothing is the last. -/
theorem pull_none {core' : StreamCore} (h : core.pull = (none, core')) :
    core'.done = true ∧ core'.queue = [] := by
  rcases hloop : pullLoop core.arriving core.toStreamCore with ⟨item, inner, arriving⟩
  unfold pull at h
  rw [hloop] at h
  obtain ⟨rfl, rfl⟩ := Prod.mk.inj h
  exact pullLoop_none hloop

/-- A core that is done gives what it has queued. -/
theorem pull_done (h : core.done = true) :
    core.pull = (core.popQueued.1.map .ok, core.popQueued.2) := by
  obtain ⟨⟨inner, assembler, queue, done, failed⟩, arriving, settled, response, closeAfter⟩ := core
  obtain rfl : done = true := h
  rcases queue with _ | ⟨event, queue⟩
  · rcases arriving with _ | ⟨event', arriving⟩
    · rfl
    · rfl
  · rcases arriving with _ | ⟨event', arriving⟩
    · rfl
    · rfl

theorem popQueued_done (core : StreamCore) :
    core.popQueued.2.done = core.done ∧ core.popQueued.2.settled = core.settled ∧
      core.popQueued.2.failed = core.failed := by
  unfold popQueued
  split
  · exact ⟨rfl, rfl, rfl⟩
  · exact ⟨rfl, rfl, rfl⟩

theorem popQueued_none (h : core.popQueued.1 = none) : core.popQueued.2.queue = [] := by
  unfold popQueued at h ⊢
  split at h
  · exact nomatch h
  · assumption

theorem popQueued_needs (core : StreamCore) :
    core.popQueued.2.needsCompletion = core.needsCompletion := by
  obtain ⟨hdone, hsettled, hfailed⟩ := core.popQueued_done
  rw [needsCompletion, needsCompletion, hdone, hsettled, hfailed]

end StreamCore

/-- These items are what the first core pulls on its way to the second. -/
inductive Pulls : StreamCore → List Item → StreamCore → Prop
  | nil (core : StreamCore) : Pulls core [] core
  | cons {core core' last : StreamCore} {item : Item} {items : List Item} :
      core.pull = (some item, core') → Pulls core' items last → Pulls core (item :: items) last

theorem Pulls.snoc {core core' last : StreamCore} {items : List Item} {item : Item}
    (h : Pulls core items core') (hpull : core'.pull = (some item, last)) :
    Pulls core (items ++ [item]) last := by
  induction h with
  | nil core => exact .cons hpull (.nil last)
  | cons hfirst _ ih => exact .cons hfirst (ih hpull)

/-! ## The bridge -/

/-- What is in the channel and in the worker's hands is what the blocking stream pulls next. -/
inductive Bridged : AsyncEventStream → EventStream → Prop
  | pulling {core core' : StreamCore} {rx : List Item} {home : Home} (h : Pulls core rx core') :
      Bridged ⟨rx, .pulling core', none, home⟩ ⟨core, home⟩
  | sending {core core' : StreamCore} {rx : List Item} {item : Item} {home : Home}
      (h : Pulls core (rx ++ [item]) core') :
      Bridged ⟨rx, .sending item core', none, home⟩ ⟨core, home⟩
  | returned {core core' last : StreamCore} {rx : List Item} {home : Home}
      (h : Pulls core rx core') (hlast : core'.pull = (none, last)) :
      Bridged ⟨rx, .returned last, none, home⟩ ⟨core, home⟩
  | ready {core core' last : StreamCore} {rx : List Item} {home : Home}
      (h : Pulls core rx core') (hlast : core'.pull = (none, last)) :
      Bridged ⟨rx, .ready last, none, home⟩ ⟨core, home⟩
  | tail {core : StreamCore} {home : Home} (hdone : core.done = true)
      (hneeds : core.needsCompletion = false) :
      Bridged ⟨[], .gone, some core, home⟩ ⟨core, home⟩

/-- Both have ended. -/
inductive Ended : AsyncEventStream → EventStream → Prop
  | mk {core : StreamCore} {home : Home} (hdone : core.done = true)
      (hneeds : core.needsCompletion = false) (hqueue : core.queue = []) :
      Ended ⟨[], .gone, some core, home⟩ ⟨core, home⟩

theorem Bridged.work {a : AsyncEventStream} {s : EventStream} (h : Bridged a s) :
    Bridged (a.work true) s := by
  cases h with
  | pulling h =>
    rename_i core core' rx home
    unfold AsyncEventStream.work
    dsimp only
    rcases hpull : core'.pull with ⟨_ | item, last⟩
    · exact .returned h hpull
    · exact .sending (h.snoc hpull)
  | sending h =>
    unfold AsyncEventStream.work
    dsimp only
    split
    · contradiction
    · split
      · exact .pulling h
      · exact .sending h
  | returned h hlast => exact .ready h hlast
  | ready h hlast => exact .ready h hlast
  | tail hdone hneeds => exact .tail hdone hneeds

section

variable [SerdeJson] {parse : Text → Json}

theorem complete_done (parse : Text → Json) (core : StreamCore) (home : Home) :
    (core.complete parse home).1.done = core.done ∧
      (core.complete parse home).1.needsCompletion = false := by
  refine ⟨rfl, ?_⟩
  show (core.done && !true && core.failed.isNone) = false
  simp

open EventStream

/-- A tail is polled as the blocking stream is asked. -/
theorem next_tail {core : StreamCore} (home : Home) (hdone : core.done = true)
    (hneeds : core.needsCompletion = false) :
    next parse ⟨core, home⟩ =
      (core.popQueued.1.map .ok, ⟨core.popQueued.2, home⟩) := by
  unfold EventStream.next
  rw [StreamCore.pull_done hdone]
  rcases hqueued : core.popQueued.1 with _ | event
  · simp only [Option.map_none, core.popQueued_needs, hneeds]
    rfl
  · rfl

variable {a : AsyncEventStream} {s : EventStream}

open AsyncEventStream

/-- **The step of a poll.**  It gives what the blocking stream gives, or nothing yet. -/
theorem Bridged.poll (parse : Text → Json) (h : Bridged a s) :
    ((a.poll parse).1 = none ∧ (a.poll parse).2 = a) ∨
      ((a.poll parse).1 = some (s.next parse).1 ∧ Bridged (a.poll parse).2 (s.next parse).2 ∧
        ((s.next parse).1 = none → Ended (a.poll parse).2 (s.next parse).2)) := by
  -- what is in the channel is what is pulled
  have hrx : ∀ {core core' : StreamCore} {item : Item} {rx : List Item} (home : Home),
      Pulls core (item :: rx) core' → ∃ core₁, Pulls core₁ rx core' ∧
        next parse ⟨core, home⟩ = (some item, ⟨core₁, home⟩) := by
    intro core core' item rx home h
    cases h with
    | cons hpull hrest =>
      refine ⟨_, hrest, ?_⟩
      unfold EventStream.next
      rw [hpull]
  cases h with
  | pulling h =>
    rename_i core core' rx home
    rcases rx with _ | ⟨item, rx⟩
    · exact .inl ⟨rfl, rfl⟩
    · obtain ⟨core₁, hrest, hnext⟩ := hrx home h
      rw [hnext]
      exact .inr ⟨rfl, .pulling hrest, nofun⟩
  | sending h =>
    rename_i core core' rx item home
    rcases rx with _ | ⟨item', rx⟩
    · exact .inl ⟨rfl, rfl⟩
    · obtain ⟨core₁, hrest, hnext⟩ := hrx home h
      rw [hnext]
      exact .inr ⟨rfl, .sending hrest, nofun⟩
  | returned h hlast =>
    rename_i core core' last rx home
    rcases rx with _ | ⟨item, rx⟩
    · exact .inl ⟨rfl, rfl⟩
    · obtain ⟨core₁, hrest, hnext⟩ := hrx home h
      rw [hnext]
      exact .inr ⟨rfl, .returned hrest hlast, nofun⟩
  | ready h hlast =>
    rename_i core core' last rx home
    rcases rx with _ | ⟨item, rx⟩
    · -- the worker is joined, and the outcome written
      refine .inr ?_
      cases h
      obtain ⟨hdone, hqueue⟩ := StreamCore.pull_none hlast
      by_cases hneeds : last.needsCompletion = true
      · obtain ⟨hdone', hneeds'⟩ := complete_done parse last home
        have hdone' := hdone'.trans hdone
        rcases hcomplete : last.complete parse home with ⟨core₁, home₁⟩
        rw [hcomplete] at hdone' hneeds'
        have hpoll : poll parse ⟨[], .ready last, none, home⟩ =
            (some (core₁.popQueued.1.map .ok), ⟨[], .gone, some core₁.popQueued.2, home₁⟩) := by
          unfold poll settle
          simp only [hneeds, hcomplete, if_true]
          rfl
        have hnext : next parse ⟨core, home⟩ =
            (core₁.popQueued.1.map .ok, ⟨core₁.popQueued.2, home₁⟩) := by
          unfold EventStream.next
          simp only [hlast, hneeds, hcomplete, if_true, StreamCore.pull_done hdone']
        rw [hpoll, hnext]
        have hdone₂ := core₁.popQueued_done.1.trans hdone'
        have hneeds₂ := core₁.popQueued_needs.trans hneeds'
        exact ⟨rfl, .tail hdone₂ hneeds₂, fun hnone =>
          .mk hdone₂ hneeds₂ (StreamCore.popQueued_none (Option.map_eq_none_iff.1 hnone))⟩
      · have hneeds : last.needsCompletion = false := Bool.eq_false_iff.2 hneeds
        have hnone : last.popQueued = (none, last) := by rw [StreamCore.popQueued, hqueue]
        have hpoll : poll parse ⟨[], .ready last, none, home⟩ =
            (some none, ⟨[], .gone, some last, home⟩) := by
          unfold poll settle popTail
          simp only [hneeds, Bool.false_eq_true, if_false, hnone]
          rfl
        have hnext : next parse ⟨core, home⟩ = (none, ⟨last, home⟩) := by
          unfold EventStream.next
          simp only [hlast, hneeds, Bool.false_eq_true, if_false]
        rw [hpoll, hnext]
        exact ⟨rfl, .tail hdone hneeds, fun _ => .mk hdone hneeds hqueue⟩
    · obtain ⟨core₁, hrest, hnext⟩ := hrx home h
      rw [hnext]
      exact .inr ⟨rfl, .ready hrest hlast, nofun⟩
  | tail hdone hneeds =>
    rename_i core home
    rw [next_tail home hdone hneeds]
    have hdone₂ := core.popQueued_done.1.trans hdone
    have hneeds₂ := core.popQueued_needs.trans hneeds
    exact .inr ⟨rfl, .tail hdone₂ hneeds₂, fun hnone =>
      .mk hdone₂ hneeds₂ (StreamCore.popQueued_none (Option.map_eq_none_iff.1 hnone))⟩

/-! ## Runs -/

theorem step_poll (a : AsyncEventStream) :
    step parse a .poll = ((a.poll parse).1.toList, (a.poll parse).2) := rfl

theorem run_cons (a : AsyncEventStream) (act : Act) (acts : List Act) :
    Async.run parse a (act :: acts) =
      ((step parse a act).1 ++ (Async.run parse (step parse a act).2 acts).1,
        (Async.run parse (step parse a act).2 acts).2) := rfl

theorem take_succ (n : Nat) (s : EventStream) :
    take parse (n + 1) s =
      ((s.next parse).1 :: (take parse n (s.next parse).2).1,
        (take parse n (s.next parse).2).2) := rfl

theorem Bridged.run (parse : Text → Json) (h : Bridged a s) (acts : List Act) :
    ∃ s', take parse (Async.run parse a acts).1.length s =
        ((Async.run parse a acts).1, s') ∧ Bridged (Async.run parse a acts).2 s' := by
  induction acts generalizing a s with
  | nil => exact ⟨s, rfl, h⟩
  | cons act acts ih =>
    cases act with
    | work => exact ih h.work
    | poll =>
      rw [run_cons, step_poll]
      rcases h.poll parse with ⟨hpending, hsame⟩ | ⟨hanswer, hbridged, -⟩
      · rw [hpending, hsame]
        exact ih h
      obtain ⟨s', htake, hs'⟩ := ih hbridged
      rw [hanswer]
      refine ⟨s', ?_, hs'⟩
      show take parse ((Async.run parse (a.poll parse).2 acts).1.length + 1) s = _
      rw [take_succ, htake]
      rfl

/-- After the end there is nothing. -/
theorem Ended.run (parse : Text → Json) (h : Ended a s) (acts : List Act) :
    (∃ k, (Async.run parse a acts).1 = replicate k none) ∧ (Async.run parse a acts).2 = a := by
  induction acts with
  | nil => exact ⟨⟨0, rfl⟩, rfl⟩
  | cons act acts ih =>
    obtain ⟨⟨k, hanswers⟩, hsame⟩ := ih
    cases act with
    | work =>
      cases h
      exact ⟨⟨k, hanswers⟩, hsame⟩
    | poll =>
      have hpoll : a.poll parse = (some none, a) := by
        cases h with
        | mk hdone hneeds hqueue =>
          rename_i core home
          have hnone : core.popQueued = (none, core) := by rw [StreamCore.popQueued, hqueue]
          simp only [poll, popTail, hnone]
          rfl
      rw [run_cons, step_poll, hpoll]
      refine ⟨⟨k + 1, ?_⟩, hsame⟩
      rw [replicate_succ, ← hanswers]
      rfl

/-- What a schedule gives: items, and then nothing. -/
theorem Bridged.answers (parse : Text → Json) (h : Bridged a s) (acts : List Act) :
    ∃ (items : List Item) (k : Nat),
      (Async.run parse a acts).1 = items.map some ++ replicate k none ∧
        (0 < k → ∃ s', Ended (Async.run parse a acts).2 s') := by
  induction acts generalizing a s with
  | nil => exact ⟨[], 0, rfl, fun hk => absurd hk (Nat.lt_irrefl 0)⟩
  | cons act acts ih =>
    cases act with
    | work => exact ih h.work
    | poll =>
      rw [run_cons, step_poll]
      rcases h.poll parse with ⟨hpending, hsame⟩ | ⟨hanswer, hbridged, hended⟩
      · rw [hpending, hsame]
        exact ih h
      rw [hanswer]
      rcases hnext : (s.next parse).1 with _ | item
      · obtain ⟨⟨k, hanswers⟩, hsame⟩ := (hended hnext).run parse acts
        refine ⟨[], k + 1, ?_, fun _ => ⟨(s.next parse).2, ?_⟩⟩
        · show none :: (Async.run parse (a.poll parse).2 acts).1 = _
          rw [hanswers]
          rfl
        · show Ended (Async.run parse (a.poll parse).2 acts).2 _
          rw [hsame]
          exact hended hnext
      · obtain ⟨items, k, hanswers, hend⟩ := ih hbridged
        refine ⟨item :: items, k, ?_, hend⟩
        show some item :: (Async.run parse (a.poll parse).2 acts).1 = _
        rw [hanswers]
        rfl

end

/-! ## Every turn ends -/

namespace StreamCore

/-- A pull that gives something with nothing queued ends the stream, or reads on. -/
theorem pullLoop_some {arriving rest : List ControllerEvent} {core core' : Api.StreamCore}
    {item : Item} (hqueue : core.queue = [])
    (h : pullLoop arriving core = (some item, core', rest)) :
    core'.done = true ∨ rest.length < arriving.length := by
  have hle : ∀ {arriving rest : List ControllerEvent} {core core' : Api.StreamCore} {item : Item},
      pullLoop arriving core = (some item, core', rest) →
        core'.done = true ∨ rest.length ≤ arriving.length := by
    intro arriving
    induction arriving with
    | nil =>
      intro rest core core' item h
      unfold pullLoop at h
      split at h
      · cases h; exact .inr (Nat.le_refl _)
      split at h
      · cases h
      split at h
      · cases h
      · dsimp only at h
        split at h
        · cases h
        · cases h; exact .inl rfl
    | cons event arriving ih =>
      intro rest core core' item h
      unfold pullLoop at h
      split at h
      · cases h; exact .inr (Nat.le_refl _)
      split at h
      · cases h
      split at h
      · cases h
      split at h
      · exact (ih h).imp_right Nat.le_succ_of_le
      · exact (ih h).imp_right Nat.le_succ_of_le
      · cases h; exact .inl rfl
      · cases h
  cases arriving with
  | nil =>
    unfold pullLoop at h
    rw [hqueue] at h
    dsimp only at h
    split at h
    · cases h
    split at h
    · cases h
    · split at h
      · cases h
      · cases h; exact .inl rfl
  | cons event arriving =>
    unfold pullLoop at h
    rw [hqueue] at h
    dsimp only at h
    split at h
    · cases h
    split at h
    · cases h
    split at h
    · exact (hle h).imp_right Nat.lt_succ_of_le
    · exact (hle h).imp_right Nat.lt_succ_of_le
    · cases h; exact .inl rfl
    · cases h

theorem pull_queued {core : StreamCore} {event : Event} {queue : List Event}
    (h : core.queue = event :: queue) :
    ∃ core', core.pull = (some (.ok event), core') ∧ core'.queue = queue ∧
      core'.done = core.done ∧ core'.arriving = core.arriving := by
  obtain ⟨⟨inner, assembler, queue', done, failed⟩, arriving, settled, response, closeAfter⟩ := core
  obtain rfl : queue' = event :: queue := h
  rcases arriving with _ | ⟨event', arriving⟩
  · exact ⟨_, rfl, rfl, rfl, rfl⟩
  · exact ⟨_, rfl, rfl, rfl, rfl⟩

end StreamCore

/-- A core that is done has so many items left. -/
theorem exists_last_of_done {core : StreamCore} (h : core.done = true) :
    ∃ items core' last, Pulls core items core' ∧ core'.pull = (none, last) := by
  induction hq : core.queue generalizing core with
  | nil =>
    have hpop : core.popQueued = (none, core) := by rw [StreamCore.popQueued, hq]
    refine ⟨[], core, core, .nil core, ?_⟩
    rw [StreamCore.pull_done h, hpop]
    rfl
  | cons event queue ih =>
    obtain ⟨core₁, hpull, hqueue, hdone, -⟩ := StreamCore.pull_queued hq
    obtain ⟨items, core', last, hpulls, hlast⟩ := ih (hdone.trans h) hqueue
    exact ⟨_, core', last, .cons hpull hpulls, hlast⟩

/-- So has every core. -/
theorem exists_last (core : StreamCore) :
    ∃ items core' last, Pulls core items core' ∧ core'.pull = (none, last) := by
  induction hn : core.arriving.length using Nat.strongRecOn generalizing core with
  | ind n ih =>
    induction hq : core.queue generalizing core with
    | nil =>
      rcases hpull : core.pull with ⟨_ | item, core₁⟩
      · exact ⟨[], core, core₁, .nil core, hpull⟩
      have hloop : StreamCore.pullLoop core.arriving core.toStreamCore =
          (some item, core₁.toStreamCore, core₁.arriving) := by
        rcases hloop : StreamCore.pullLoop core.arriving core.toStreamCore with
          ⟨item', inner, arriving⟩
        rw [StreamCore.pull, hloop] at hpull
        obtain ⟨rfl, rfl⟩ := Prod.mk.inj hpull
        rfl
      rcases StreamCore.pullLoop_some hq hloop with hdone | hlt
      · obtain ⟨items, core', last, hpulls, hlast⟩ := exists_last_of_done hdone
        exact ⟨_, core', last, .cons hpull hpulls, hlast⟩
      · obtain ⟨items, core', last, hpulls, hlast⟩ := ih _ (hn ▸ hlt) core₁ rfl
        exact ⟨_, core', last, .cons hpull hpulls, hlast⟩
    | cons event queue ihq =>
      obtain ⟨core₁, hpull, hqueue, -, harriving⟩ := StreamCore.pull_queued hq
      obtain ⟨items, core', last, hpulls, hlast⟩ := ihq core₁ (harriving ▸ hn) hqueue
      exact ⟨_, core', last, .cons hpull hpulls, hlast⟩

section

variable [SerdeJson] {parse : Text → Json}

/-- A schedule from here tells the task that there is nothing left. -/
def Ends (parse : Text → Json) (a : AsyncEventStream) : Prop :=
  ∃ acts, none ∈ (Async.run parse a acts).1

theorem Ends.of_step {a : AsyncEventStream} (act : Act) (h : Ends parse (step parse a act).2) :
    Ends parse a := by
  obtain ⟨acts, hacts⟩ := h
  exact ⟨act :: acts, mem_append_right _ hacts⟩

variable {core : StreamCore}

theorem ends_tail (home : Home) : Ends parse ⟨[], .gone, some core, home⟩ := by
  induction hq : core.queue generalizing core with
  | nil =>
    refine ⟨[.poll], ?_⟩
    simp [run_cons, step_poll, AsyncEventStream.poll, AsyncEventStream.popTail,
      StreamCore.popQueued, hq]
  | cons event queue ih =>
    refine .of_step .poll ?_
    rw [step_poll]
    simp only [AsyncEventStream.poll, AsyncEventStream.popTail, StreamCore.popQueued, hq]
    exact ih rfl

theorem ends_ready (core : StreamCore) (rx : List Item) (home : Home) :
    Ends parse ⟨rx, .ready core, none, home⟩ := by
  induction rx with
  | nil =>
    refine .of_step .poll ?_
    rw [step_poll]
    by_cases hneeds : core.needsCompletion = true
    · simp only [AsyncEventStream.poll, AsyncEventStream.settle, hneeds, if_true]
      exact ends_tail _
    · simp only [AsyncEventStream.poll, AsyncEventStream.settle, hneeds]
      exact ends_tail _
  | cons item rx ih => exact .of_step .poll ih

/-- A worker that waits to send goes on when the task makes room. -/
theorem ends_sending {home : Home} (h : ∀ rx, Ends parse ⟨rx, .pulling core, none, home⟩)
    (item : Item) (rx : List Item) : Ends parse ⟨rx, .sending item core, none, home⟩ := by
  induction rx with
  | nil => exact .of_step .work (h [item])
  | cons item' rx ih => exact .of_step .poll ih

theorem ends_pulling {core' last : StreamCore} {items : List Item} (h : Pulls core items core')
    (hlast : core'.pull = (none, last)) (rx : List Item) (home : Home) :
    Ends parse ⟨rx, .pulling core, none, home⟩ := by
  induction h generalizing rx with
  | nil core =>
    refine .of_step .work (.of_step .work ?_)
    simp only [step, AsyncEventStream.work, hlast]
    exact ends_ready last rx home
  | cons hpull _ ih =>
    refine .of_step .work ?_
    simp only [step, AsyncEventStream.work, hpull]
    exact ends_sending (ih hlast) _ rx

theorem Bridged.ends {a : AsyncEventStream} {s : EventStream} (h : Bridged a s) : Ends parse a := by
  have hpulling : ∀ core home rx, Ends parse ⟨rx, .pulling core, none, home⟩ := by
    intro core home rx
    obtain ⟨items, core', last, hpulls, hlast⟩ := exists_last core
    exact ends_pulling hpulls hlast rx home
  cases h with
  | pulling _ => exact hpulling _ _ _
  | sending _ => exact ends_sending (hpulling _ _) _ _
  | returned _ _ => exact .of_step .work (ends_ready _ _ _)
  | ready _ _ => exact ends_ready _ _ _
  | tail _ _ => exact ends_tail _

end

/-! ## The result -/

/-- How a turn's stream begins. -/
inductive Beginning
  | dispatched (callIds : CallIds) (arriving : List ControllerEvent) (closeAfter : Bool)
  | cancelled (callIds : CallIds)

def Beginning.core : Beginning → StreamCore
  | .dispatched callIds arriving closeAfter => .new callIds arriving closeAfter
  | .cancelled callIds => .cancelledBeforeStart callIds

theorem bridged_start (b : Beginning) (home : Home) :
    Bridged (.start b.core home) ⟨b.core, home⟩ := by
  cases b with
  | dispatched callIds arriving closeAfter => exact .pulling (.nil _)
  | cancelled callIds => exact .tail rfl rfl

theorem work_home (a : AsyncEventStream) :
    (a.work true).home = a.home ∧ (a.work true).tail = a.tail := by
  unfold AsyncEventStream.work
  rcases a.worker with _ | core | ⟨item, core⟩ | core | core
  · exact ⟨rfl, rfl⟩
  · dsimp only
    rcases core.pull with ⟨_ | item, core'⟩
    · exact ⟨rfl, rfl⟩
    · exact ⟨rfl, rfl⟩
  · dsimp only
    split
    · exact ⟨rfl, rfl⟩
    · split
      · exact ⟨rfl, rfl⟩
      · exact ⟨rfl, rfl⟩
  · exact ⟨rfl, rfl⟩
  · exact ⟨rfl, rfl⟩

section

variable [SerdeJson] {parse : Text → Json}

/-- Without a tail nothing has been written. -/
theorem step_home {a : AsyncEventStream} {act : Act} (h : (step parse a act).2.tail = none) :
    a.tail = none ∧ (step parse a act).2.home = a.home := by
  cases act with
  | work => exact ⟨(work_home a).2 ▸ h, (work_home a).1⟩
  | poll =>
    rw [step_poll] at h ⊢
    obtain ⟨rx, worker, tail, home⟩ := a
    rcases tail with _ | core
    · refine ⟨rfl, ?_⟩
      rcases rx with _ | ⟨item, rx⟩
      · rcases worker with _ | core | ⟨item, core⟩ | core | core
        · rfl
        · rfl
        · rfl
        · rfl
        -- the handle is ready, and there is a tail afterwards
        exfalso
        by_cases hneeds : core.needsCompletion = true
        · simp [AsyncEventStream.poll, AsyncEventStream.settle, AsyncEventStream.popTail,
            hneeds] at h
        · simp [AsyncEventStream.poll, AsyncEventStream.settle, AsyncEventStream.popTail,
            hneeds] at h
      · rfl
    · exact nomatch h

theorem run_home {a : AsyncEventStream} {acts : List Act}
    (h : (Async.run parse a acts).2.tail = none) : (Async.run parse a acts).2.home = a.home := by
  have hboth : a.tail = none ∧ (Async.run parse a acts).2.home = a.home := by
    induction acts generalizing a with
    | nil => exact ⟨h, rfl⟩
    | cons act acts ih =>
      obtain ⟨htail, hhome⟩ := ih h
      obtain ⟨htail', hhome'⟩ := step_home htail
      exact ⟨htail', hhome.trans hhome'⟩
  exact hboth.2

end

/-- What the polls of a schedule have been given, and the stream that they leave, beside what the
blocking stream gives. -/
structure Agrees [SerdeJson] (parse : Text → Json) (b : Beginning) (home : Home)
    (answers : List (Option Item)) (a : AsyncEventStream) : Prop where
  /-- As many calls of `next` give the same. -/
  same : (EventStream.take parse answers.length ⟨b.core, home⟩).1 = answers
  /-- These are items, and then nothing. -/
  fused : ∃ (items : List Item) (k : Nat), answers = items.map some ++ List.replicate k none
  /-- Where they have come to nothing, the response, the session and the engine are the same. -/
  outcome : none ∈ answers →
    a.tail = some (EventStream.take parse answers.length ⟨b.core, home⟩).2.core ∧
      a.home = (EventStream.take parse answers.length ⟨b.core, home⟩).2.home
  /-- From here a schedule goes on to the end. -/
  goesOn : ∃ more, none ∈ (run parse a more).1
  /-- A drop before the outcome is written closes the session, and records nothing. -/
  dropped : a.tail = none →
    a.drop.home = { home with session := { home.session with opened := false } }
  /-- A drop after that changes nothing. -/
  settled : a.tail ≠ none → a.drop = a

/-- **The asynchronous stream is the blocking one**, for every stream of events and every schedule.
-/
theorem async_eq_blocking [SerdeJson] (parse : Text → Json) (b : Beginning) (home : Home)
    (acts : List Act) :
    Agrees parse b home (run parse (.start b.core home) acts).1
      (run parse (.start b.core home) acts).2 := by
  have hstart := bridged_start b home
  obtain ⟨s, htake, hbridged⟩ := hstart.run parse acts
  obtain ⟨items, k, hanswers, hended⟩ := hstart.answers parse acts
  refine ⟨congrArg Prod.fst htake, ⟨items, k, hanswers⟩, fun hnone => ?_, hbridged.ends,
    fun htail => ?_, fun htail => ?_⟩
  · have hk : 0 < k := by
      rw [hanswers] at hnone
      rcases List.mem_append.1 hnone with hmem | hmem
      · obtain ⟨item, -, heq⟩ := List.mem_map.1 hmem
        exact nomatch heq
      · exact Nat.pos_of_ne_zero (List.mem_replicate.1 hmem).1
    obtain ⟨s', hs'⟩ := hended hk
    rw [htake]
    -- where one has ended, there is only one way to be related
    generalize (run parse (.start b.core home) acts).2 = a at hs' hbridged ⊢
    cases hs' with
    | mk _ _ _ =>
      cases hbridged with
      | tail _ _ => exact ⟨rfl, rfl⟩
  · rw [AsyncEventStream.drop, htail, run_home htail]
    have hhome : (AsyncEventStream.start b.core home).home = home := by
      cases b with
      | dispatched callIds arriving closeAfter => rfl
      | cancelled callIds => rfl
    rw [hhome]
    rfl
  · rw [AsyncEventStream.drop, if_neg]
    rwa [Option.isNone_iff_eq_none]

/-- A turn whose one token may still be the beginning of a scaffold: it is given at the end, before
the finish. -/
def heldBack : Beginning := .dispatched ⟨0, 0⟩ [.accepted 1, .token "<".toList, .eos] false

/-- A drop between two closing events leaves the session open: its outcome is written by then. -/
theorem open_after_drop : ¬ ∀ (b : Beginning) (home : Home) (acts : List Act),
    none ∉ (@run SerdeJson.plain (fun _ => .null) (.start b.core home) acts).1 →
      (@run SerdeJson.plain (fun _ => .null) (.start b.core home) acts).2.drop.home.session.opened =
        false := by
  intro h
  have hsome : (@run SerdeJson.plain (fun _ => .null) (.start heldBack.core
      ⟨.blank "s", ⟨0, ⟨false, false, false, false⟩, ∅, ∅⟩⟩)
      [.work, .work, .poll]).1.all Option.isSome = true := by decide +kernel
  have hclosed := h heldBack ⟨.blank "s", ⟨0, ⟨false, false, false, false⟩, ∅, ∅⟩⟩
    [.work, .work, .poll] fun hmem => nomatch List.all_eq_true.1 hsome _ hmem
  exact absurd hclosed (by decide +kernel)

end Gen2.Api.Async
