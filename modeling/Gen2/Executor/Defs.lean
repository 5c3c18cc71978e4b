import Gen2.Lib.Run

/-!
# The tool executor

`executor.rs`: operations come through a channel to one loop, which spawns a task for each that may
run beside others and runs the exclusive ones itself; a task waits for its permits, looks at the
cancel flag, runs the operation and reports to the loop, and the loop keeps the results in the order
of submission.

`Executor.step` takes one thread one access to shared memory further: a caller of `submit`, `close`
or `cancel`, the loop, one of the tasks.  What a thread does between two accesses belongs to the
first of them, and a section under a lock is one step, since nobody sees what is inside it.  So a
list of `Act`s is an interleaving.

* Of an operation there is its guard; what it comes to is said by the step that ends it.  Operations
  do not panic.
* Which of the waiting tasks gets a free permit is left open.
* A flush is one step.  If the receiver goes in the middle of it, what has been sent is read by
  nobody, so it might have gone before.
-/

namespace Gen2.Tools

/-- `ConcurrencyGuard`. -/
inductive ConcurrencyGuard
  | safe
  | gpuBound
  | exclusive
  deriving DecidableEq

/-- `Envelope`, with the operation by its guard. -/
structure Envelope where
  seq : Nat
  guard : ConcurrencyGuard
  deriving DecidableEq

variable {τ : Type}

/-- `Slot`. -/
inductive Slot (τ : Type)
  | pending
  | skipped
  | ready (value : τ)
  deriving DecidableEq

/-- The slot that a report is kept in. -/
def Slot.ofReport : Option τ → Slot τ
  | some output => .ready output
  | none => .skipped

/-- What a flush comes to: whether the receiver is there, the slots from the old cursor on, the new
cursor, and what has been sent, by its position. -/
structure Flushed (τ : Type) where
  ok : Bool
  slots : List (Slot τ)
  cursor : Nat
  sent : List (Nat × τ)

/-- The `while` of `flush_buffer`, over the slots from the cursor on. -/
def flushSlots (receiver : Bool) : Nat → List (Slot τ) → Flushed τ
  | cursor, [] => { ok := true, slots := [], cursor, sent := [] }
  | cursor, .ready value :: slots =>
    if receiver then
      let rest := flushSlots receiver (cursor + 1) slots
      { rest with slots := .pending :: rest.slots, sent := (cursor, value) :: rest.sent }
    else
      { ok := false, slots := .pending :: slots, cursor, sent := [] }
  | cursor, .skipped :: slots =>
    let rest := flushSlots receiver (cursor + 1) slots
    { rest with slots := .pending :: rest.slots }
  | cursor, .pending :: slots => { ok := true, slots := .pending :: slots, cursor, sent := [] }

/-- Where a spawned task is. -/
inductive TaskPc (τ : Type)
  | acquiring
  | acquiringGpu
  | checking
  | running
  | sending (report : Option τ)
  | releasingGpu
  | releasing
  | gone
  deriving DecidableEq

def TaskPc.isGone : TaskPc τ → Bool
  | .gone => true
  | _ => false

/-- A spawned task. -/
structure Task (τ : Type) where
  seq : Nat
  guard : ConcurrencyGuard
  pc : TaskPc τ
  deriving DecidableEq

/-- `needs_gpu`. -/
def Task.needsGpu (task : Task τ) : Bool := task.guard == .gpuBound

/-- Where the loop is: at the first or the second branch of the `select!`, with an envelope it has
taken, in the drain before an exclusive operation, in the operation, in the drain at the end, or at
its end. -/
inductive LoopPc
  | selecting
  | polling
  | taken (envelope : Envelope)
  | draining (envelope : Envelope)
  | executing (envelope : Envelope)
  | closing
  | ended
  deriving DecidableEq

/-- The executor, its loop and its tasks.  `entering` are the calls of `submit` that have found the
flag clear.  The record of a run: the guards of the operations for which `submit` returned `true`,
by their number; the numbers of the operations that were started, with what they came to those that
ended, those whose task (or the loop) found the flag set; and with their numbers the results that
were sent. -/
structure Executor (τ : Type) where
  cancelled : Bool
  closed : Bool
  receiver : Bool
  nextSeq : Nat
  entering : List ConcurrencyGuard
  submitted : List Envelope
  loop : LoopPc
  buffer : List (Slot τ)
  cursor : Nat
  inFlight : Nat
  done : List (Nat × Option τ)
  permits : Nat
  gpuPermits : Nat
  tasks : List (Task τ)
  accepted : List ConcurrencyGuard
  started : List Nat
  finished : List (Nat × τ)
  observed : List Nat
  results : List (Nat × τ)
  deriving DecidableEq

/-- `StreamingToolExecutor::new`: a limit of 0 is treated as 1. -/
def Executor.new (τ : Type) (maxConcurrent : Nat) : Executor τ where
  cancelled := false
  closed := false
  receiver := true
  nextSeq := 0
  entering := []
  submitted := []
  loop := .selecting
  buffer := []
  cursor := 0
  inFlight := 0
  done := []
  permits := max maxConcurrent 1
  gpuPermits := 1
  tasks := []
  accepted := []
  started := []
  finished := []
  observed := []
  results := []

/-! ## The callers -/

/-- `submit`, up to the lock. -/
def Executor.submit (s : Executor τ) (guard : ConcurrencyGuard) : Executor τ :=
  if s.cancelled then s else { s with entering := s.entering ++ [guard] }

/-- `submit`, under the lock: the call at this place among those that are waiting for it. -/
def Executor.send (s : Executor τ) (index : Nat) : Executor τ :=
  match s.entering[index]? with
  | none => s
  | some guard =>
    let s := { s with entering := s.entering.eraseIdx index }
    if s.closed then
      s
    else if s.loop = .ended then
      -- the receiver of the channel went with the loop
      { s with nextSeq := s.nextSeq + 1 }
    else
      { s with
        nextSeq := s.nextSeq + 1
        submitted := s.submitted ++ [{ seq := s.nextSeq, guard }]
        accepted := s.accepted ++ [guard] }

/-! ## The loop -/

/-- What `flush_buffer` leaves. -/
def Executor.flush (s : Executor τ) : Executor τ :=
  let flushed := flushSlots s.receiver s.cursor (s.buffer.drop s.cursor)
  { s with
    buffer := s.buffer.take s.cursor ++ flushed.slots
    cursor := flushed.cursor
    results := s.results ++ flushed.sent }

/-- What `flush_buffer` returns. -/
def Executor.flushOk (s : Executor τ) : Bool :=
  (flushSlots s.receiver s.cursor (s.buffer.drop s.cursor)).ok

/-- The loop returns, and the receivers go with it. -/
def Executor.leave (s : Executor τ) : Executor τ :=
  { s with loop := .ended, submitted := [], done := [] }

/-- `if !flush_buffer(..) { return; }`, and on with the loop. -/
def Executor.flushThen (s : Executor τ) (loop : LoopPc) : Executor τ :=
  if s.flushOk then { s.flush with loop } else s.flush.leave

/-- A slot is resolved. -/
def Executor.resolve (s : Executor τ) (seq : Nat) (slot : Slot τ) : Executor τ :=
  { s with buffer := s.buffer.set seq slot }

/-- A report is taken from the channel. -/
def Executor.complete (s : Executor τ) (seq : Nat) (report : Option τ)
    (done : List (Nat × Option τ)) : Executor τ :=
  { s with inFlight := s.inFlight - 1, done }.resolve seq (.ofReport report)

/-- `while buffer.len() <= envelope.seq { buffer.push(Slot::Pending); }`. -/
def Executor.reserve (s : Executor τ) (seq : Nat) : Executor τ :=
  { s with buffer := s.buffer ++ List.replicate (seq + 1 - s.buffer.length) .pending }

/-- What the loop does with an envelope: `spawn_concurrent`, or the drain before an exclusive
operation. -/
def Executor.dispatch (s : Executor τ) (envelope : Envelope) : Executor τ :=
  match envelope.guard with
  | .safe | .gpuBound =>
    { s with
      inFlight := s.inFlight + 1
      tasks := s.tasks ++ [{ seq := envelope.seq, guard := envelope.guard, pc := .acquiring }]
      loop := .selecting }
  | .exclusive => { s with loop := .draining envelope }

/-- The loop's next step.  An exclusive operation that is under way ends in it with `output`. -/
def Executor.loopStep (s : Executor τ) (output : τ) : Executor τ :=
  match s.loop with
  | .selecting =>
    match s.done with
    | (seq, report) :: done => (s.complete seq report done).flushThen .selecting
    | [] => { s with loop := .polling }
  | .polling =>
    match s.submitted with
    | envelope :: submitted => { s with submitted, loop := .taken envelope }
    | [] =>
      if s.closed then
        { s with loop := .closing }
      else
        -- both branches were pending: a report is what wakes the loop
        match s.done with
        | (seq, report) :: done => (s.complete seq report done).flushThen .selecting
        | [] => s
  | .taken envelope =>
    if s.cancelled then
      { s with observed := s.observed ++ [envelope.seq], loop := .closing }
    else
      (s.reserve envelope.seq).dispatch envelope
  | .draining envelope =>
    if s.inFlight = 0 then
      if s.cancelled then
        ({ s with observed := s.observed ++ [envelope.seq] }.resolve envelope.seq .skipped).flushThen
          .closing
      else
        { s with started := s.started ++ [envelope.seq], loop := .executing envelope }
    else
      match s.done with
      | (seq, report) :: done => (s.complete seq report done).flush
      | [] => s
  | .executing envelope =>
    ({ s with finished := s.finished ++ [(envelope.seq, output)] }.resolve envelope.seq
      (.ready output)).flushThen .selecting
  | .closing =>
    if s.inFlight = 0 then
      s.flush.leave
    else
      match s.done with
      | (seq, report) :: done => (s.complete seq report done).flush
      | [] =>
        -- the channel is closed once every task has dropped its sender
        if s.tasks.all (·.pc.isGone) then s.flush.leave else s
  | .ended => s

/-! ## The tasks -/

/-- The task at this place goes on to `pc`. -/
def Executor.goTask (s : Executor τ) (index : Nat) (task : Task τ) (pc : TaskPc τ) : Executor τ :=
  { s with tasks := s.tasks.set index { task with pc } }

/-- `tx.send((seq, result))`: nobody receives once the loop has returned. -/
def Executor.report (s : Executor τ) (seq : Nat) (report : Option τ) : Executor τ :=
  if s.loop = .ended then s else { s with done := s.done ++ [(seq, report)] }

/-- The next step of a task.  An operation that is under way ends in it with `output`. -/
def Executor.taskStep (s : Executor τ) (index : Nat) (output : τ) : Executor τ :=
  match s.tasks[index]? with
  | none => s
  | some task =>
    match task.pc with
    | .acquiring =>
      if s.permits = 0 then s
      else { s with permits := s.permits - 1 }.goTask index task
        (if task.needsGpu then .acquiringGpu else .checking)
    | .acquiringGpu =>
      if s.gpuPermits = 0 then s
      else { s with gpuPermits := s.gpuPermits - 1 }.goTask index task .checking
    | .checking =>
      if s.cancelled then
        { s with observed := s.observed ++ [task.seq] }.goTask index task (.sending none)
      else
        { s with started := s.started ++ [task.seq] }.goTask index task .running
    | .running =>
      { s with finished := s.finished ++ [(task.seq, output)] }.goTask index task
        (.sending (some output))
    | .sending report =>
      (s.report task.seq report).goTask index task
        (if task.needsGpu then .releasingGpu else .releasing)
    | .releasingGpu => { s with gpuPermits := s.gpuPermits + 1 }.goTask index task .releasing
    | .releasing => { s with permits := s.permits + 1 }.goTask index task .gone
    | .gone => s

/-! ## Interleavings -/

/-- Whose step it is. -/
inductive Act (τ : Type)
  | submit (guard : ConcurrencyGuard)
  | send (index : Nat)
  | cancel
  | close
  | drop
  | loop (output : τ)
  | task (index : Nat) (output : τ)

/-- One step of a caller, the loop or a task.  `cancel` sets the flag, and `close` is the rest of
it; whoever drops the executor drops the sender and the receiver. -/
def Executor.step (act : Act τ) (s : Executor τ) : Executor τ :=
  match act with
  | .submit guard => s.submit guard
  | .send index => s.send index
  | .cancel => { s with cancelled := true }
  | .close => { s with closed := true }
  | .drop => { s with closed := true, receiver := false }
  | .loop output => s.loopStep output
  | .task index output => s.taskStep index output

/-- `Executor.step`, as a system that does not crash. -/
def next (act : Act τ) (s : Executor τ) : Option (Executor τ) := some (.step act s)

end Gen2.Tools
