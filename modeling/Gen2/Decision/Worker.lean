import Gen2.Lib.Run

/-!
# The decision worker

`decision/worker.rs`: one thread owns the backend and takes jobs from a bounded queue; callers wait
for the reply to their job; anybody may ask for a stop.  They share the stop flag, the status under
its lock, the token of the active job, the queue and the reply channels.

`System.step` takes one thread one access to shared memory further.  What a thread does between two
accesses belongs to the first of them, and a section under a lock is one step, since nobody sees
what is inside it.  So a list of `Act`s is an interleaving.

What is refused because of the request itself (its size, its shape) is left out, and so are the
timings in a result.
-/

namespace Gen2.Decision

/-- `DecisionError`. -/
inductive DecisionError
  | invalidRequest (message : String)
  | invalidBundle (message : String)
  | inputOverflow (message : String)
  | invalidOutput (message : String)
  | backendUnavailable (message : String)
  | execution (message : String)
  | busy
  | cancelled
  | deadlineExceeded
  | unloaded
  | resourceLimit (message : String)

/-- `Cancellation`, by which flag it is. -/
abbrev Cancellation := Nat

/-- `DecisionOptions`, by what `check` reads. -/
structure DecisionOptions where
  deadline : Option Nat
  cancellation : Cancellation
  deriving DecidableEq

/-- `DecisionStatus`. -/
inductive DecisionStatus
  | ready
  | running
  | stopping
  | unloaded
  deriving DecidableEq

/-- `Job`: the call that waits for its reply, how many requests it has, and whether it is a scan. -/
structure Job where
  id : Nat
  requests : Nat
  scan : Bool
  options : DecisionOptions
  deriving DecidableEq

variable {δ : Type}

/-- `WorkerResult`. -/
inductive WorkerResult (δ : Type)
  | batch (results : List δ)
  | long (result : δ)

/-- What a job comes to. -/
abbrev Outcome (δ : Type) := Except DecisionError (WorkerResult δ)

/-- A job's reply channel: nothing yet, a reply, or nobody who could still send one. -/
inductive Reply (δ : Type)
  | waiting
  | sent (outcome : Outcome δ)
  | dropped

/-- How the backend behaves in one step; `none` where it panics. -/
structure Backend (δ : Type) where
  load : Option (Except DecisionError Unit)
  runBatch : Option (Except DecisionError (List δ))
  runLong : Option (Except DecisionError δ)

/-- The job run by the backend, and what the worker makes of the answer. -/
def Backend.run (b : Backend δ) (job : Job) : Option (Outcome δ) :=
  if job.scan then
    b.runLong.map fun answer => answer.map .long
  else
    b.runBatch.map fun answer => match answer with
      | .error e => .error e
      | .ok results =>
        if results.length = job.requests then .ok (.batch results)
        else .error (.invalidOutput "batch result count mismatch")

/-- Where the worker's thread is. -/
inductive WorkerPc (δ : Type)
  | loading
  | top
  | receiving
  | taken (job : Job)
  | refusing (job : Job)
  | starting (job : Job)
  | registering (job : Job)
  | looking (job : Job)
  | cancelling (job : Job)
  | checking (job : Job)
  | running (job : Job)
  | rechecking (job : Job) (result : WorkerResult δ)
  | stopChecking (job : Job) (result : WorkerResult δ)
  | deactivating (job : Job) (outcome : Outcome δ)
  | lastLooking (job : Job) (outcome : Outcome δ)
  | replying (job : Job) (outcome : Outcome δ)
  | settling
  | readying
  | droppingBackend
  | droppingReservation
  | markingStop
  | markingUnloaded
  | draining
  | closing
  | discarding
  | finished

/-- Where a call of `decide` is. -/
inductive CallPc (δ : Type)
  | entering
  | admitting
  | sending
  | receiving
  | looking
  | rechecking
  | returned (outcome : Outcome δ)

/-- A call of `decide_batch` or `decide_long`. -/
structure Call (δ : Type) where
  job : Job
  pc : CallPc δ
  reply : Reply δ

/-- Where a call of `unload` or `shutdown` is. -/
inductive UnloadPc
  | storing
  | cancelling
  | marking
  | waiting
  | returned
  deriving DecidableEq

/-- A call of `unload`, or of `shutdown`, which waits. -/
structure Unload where
  wait : Bool
  pc : UnloadPc

/-- `Inner`, by the handles to it, or where its `drop` is. -/
inductive Inner
  | held (handles : Nat)
  | storing
  | cancelling
  | closing
  | dropped
  deriving DecidableEq

/-- The threads and what they share. -/
structure System (δ : Type) where
  status : DecisionStatus
  stop : Bool
  active : Option Cancellation
  cancelled : List Cancellation
  now : Nat
  queue : List Job
  inner : Inner
  worker : WorkerPc δ
  backend : Bool
  reservation : Bool
  calls : List (Call δ)
  unloads : List Unload
  /-- The jobs that the backend has been run on. -/
  started : List Job

/-- What happens next. -/
inductive Act (δ : Type)
  | worker (b : Backend δ)
  | call (requests : Nat) (scan : Bool) (options : DecisionOptions)
  | proceed (i : Nat)
  | unload (wait : Bool)
  | proceedUnload (i : Nat)
  | clone
  | release
  | proceedDrop
  | cancel (token : Cancellation)
  | pass (time : Nat)

def CallPc.isReturned : CallPc δ → Bool
  | returned _ => true
  | _ => false

namespace System

/-- A worker that is about to load. -/
def initial : System δ where
  status := .ready
  stop := false
  active := none
  cancelled := []
  now := 0
  queue := []
  inner := .held 0
  worker := .loading
  backend := false
  reservation := true
  calls := []
  unloads := []
  started := []

/-- `State::set`. -/
def set (v : DecisionStatus) (s : System δ) : System δ :=
  { s with status := if s.stop = true ∧ v ≠ .unloaded then .stopping else v }

/-- `Cancellation::cancel`. -/
def cancel (token : Cancellation) (s : System δ) : System δ :=
  { s with cancelled := token :: s.cancelled }

/-- The end of `State::stop`: the active job's token is cancelled. -/
def cancelActive (s : System δ) : System δ :=
  match s.active with
  | some token => s.cancel token
  | none => s

/-- `DecisionOptions::check`. -/
def check (options : DecisionOptions) (s : System δ) : Option DecisionError :=
  if options.cancellation ∈ s.cancelled then some .cancelled
  else if options.deadline.any (· ≤ s.now) then some .deadlineExceeded
  else none

/-- A reply sent, or its sender dropped. -/
def answer (id : Nat) (reply : Reply δ) (s : System δ) : System δ :=
  { s with calls := s.calls.modify id fun c => { c with reply := reply } }

/-- The worker's thread goes on elsewhere. -/
def goto (pc : WorkerPc δ) (s : System δ) : System δ := { s with worker := pc }

/-- One step of the worker's thread. -/
def workerStep (b : Backend δ) (s : System δ) : System δ :=
  match s.worker with
  | .loading =>
    match b.load with
    | some (.ok ()) => { s with backend := true, inner := .held 1, worker := .top }
    | _ => s.goto .droppingReservation
  | .top => s.goto (if s.stop then .droppingBackend else .receiving)
  | .receiving =>
    match s.queue with
    | job :: queue => { s with queue := queue, worker := .taken job }
    | [] => s.goto (if s.inner = .dropped then .droppingBackend else .top)
  | .taken job => s.goto (if s.stop then .refusing job else .starting job)
  | .refusing job => (s.answer job.id (.sent (.error .unloaded))).goto .droppingBackend
  | .starting job => (s.set .running).goto (.registering job)
  | .registering job =>
    { s with active := some job.options.cancellation, worker := .looking job }
  | .looking job => s.goto (if s.stop then .cancelling job else .checking job)
  | .cancelling job => (s.cancel job.options.cancellation).goto (.checking job)
  | .checking job =>
    match s.check job.options with
    | some e => s.goto (.deactivating job (.error e))
    | none =>
      if job.scan = true ∧ job.requests = 0 then
        s.goto (.deactivating job (.error (.invalidRequest "missing scan state")))
      else
        { s with started := s.started ++ [job], worker := .running job }
  | .running job =>
    match b.run job with
    | none => (s.answer job.id .dropped).goto .droppingBackend
    | some (.error e) => s.goto (.deactivating job (.error e))
    | some (.ok result) => s.goto (.rechecking job result)
  | .rechecking job result =>
    match s.check job.options with
    | some e => s.goto (.deactivating job (.error e))
    | none => s.goto (.stopChecking job result)
  | .stopChecking job result =>
    s.goto (.deactivating job (if s.stop then .error .unloaded else .ok result))
  | .deactivating job outcome => { s with active := none, worker := .lastLooking job outcome }
  | .lastLooking job outcome =>
    s.goto (.replying job (if s.stop then .error .unloaded else outcome))
  | .replying job outcome => (s.answer job.id (.sent outcome)).goto .settling
  | .settling => s.goto (if s.stop then .top else .readying)
  | .readying => (s.set .ready).goto .top
  | .droppingBackend => { s with backend := false, worker := .droppingReservation }
  | .droppingReservation => { s with reservation := false, worker := .markingStop }
  | .markingStop => { s with stop := true, worker := .markingUnloaded }
  | .markingUnloaded => (s.set .unloaded).goto .draining
  | .draining =>
    match s.queue with
    | job :: queue => { s with queue := queue }.answer job.id (.sent (.error .unloaded))
    | [] => s.goto .closing
  -- from here on the queue has no receiver, and what is still in it is dropped
  | .closing => s.goto .discarding
  | .discarding =>
    match s.queue with
    | job :: queue => { s with queue := queue }.answer job.id .dropped
    | [] => s.goto .finished
  | .finished => s

/-- The queue has somebody to receive from it. -/
def hasReceiver (s : System δ) : Bool :=
  match s.worker with
  | .discarding | .finished => false
  | _ => true

/-- A call goes on elsewhere. -/
def callTo (i : Nat) (c : Call δ) (pc : CallPc δ) (s : System δ) : System δ :=
  { s with calls := s.calls.set i { c with pc := pc } }

/-- One step of a call: `validate_admission`, and then `submit`. -/
def callStep (capacity i : Nat) (c : Call δ) (s : System δ) : System δ :=
  match c.pc with
  | .entering =>
    match s.check c.job.options with
    | some e => s.callTo i c (.returned (.error e))
    | none => s.callTo i c .admitting
  | .admitting => s.callTo i c (if s.stop then .returned (.error .unloaded) else .sending)
  | .sending =>
    if s.hasReceiver = false then
      s.callTo i c (.returned (.error .unloaded))
    else if capacity ≤ s.queue.length then
      s.callTo i c (.returned (.error .busy))
    else
      { s with queue := s.queue ++ [c.job] }.callTo i c .receiving
  | .receiving =>
    match c.reply with
    | .sent outcome => s.callTo i c (.returned outcome)
    | .dropped => s.callTo i c (.returned (.error .unloaded))
    | .waiting => s.callTo i c .looking
  | .looking => s.callTo i c (if s.stop then .returned (.error .unloaded) else .rechecking)
  | .rechecking =>
    match s.check c.job.options with
    | some e => s.callTo i c (.returned (.error e))
    | none => s.callTo i c .receiving
  | .returned _ => s

/-- One step of a call of `unload` or `shutdown`. -/
def unloadStep (i : Nat) (u : Unload) (s : System δ) : System δ :=
  match u.pc with
  | .storing => { s with stop := true, unloads := s.unloads.set i { u with pc := .cancelling } }
  | .cancelling =>
    let s := s.cancelActive
    { s with unloads := s.unloads.set i { u with pc := .marking } }
  | .marking =>
    { s with
      status := if s.status = .unloaded then .unloaded else .stopping
      unloads := s.unloads.set i { u with pc := if u.wait then .waiting else .returned } }
  | .waiting =>
    if s.status = .unloaded then
      { s with unloads := s.unloads.set i { u with pc := .returned } }
    else
      s
  | .returned => s

/-- One step of `Inner::drop`. -/
def dropStep (s : System δ) : System δ :=
  match s.inner with
  | .held _ | .dropped => s
  | .storing => { s with stop := true, inner := .cancelling }
  | .cancelling => { s.cancelActive with inner := .closing }
  | .closing => { s with inner := .dropped }

/-- One step.  What cannot be done changes nothing. -/
def step (capacity : Nat) (act : Act δ) (s : System δ) : System δ :=
  match act with
  | .worker b => s.workerStep b
  | .call requests scan options =>
    match s.inner with
    | .held (_ + 1) =>
      { s with calls :=
          s.calls ++ [⟨⟨s.calls.length, requests, scan, options⟩, .entering, .waiting⟩] }
    | _ => s
  | .proceed i =>
    match s.calls[i]? with
    | some c => s.callStep capacity i c
    | none => s
  | .unload wait =>
    match s.inner with
    | .held (_ + 1) => { s with unloads := s.unloads ++ [⟨wait, .storing⟩] }
    | _ => s
  | .proceedUnload i =>
    match s.unloads[i]? with
    | some u => s.unloadStep i u
    | none => s
  | .clone =>
    match s.inner with
    | .held (n + 1) => { s with inner := .held (n + 2) }
    | _ => s
  | .release =>
    -- a call borrows its handle, so the last one goes only when no call is left
    match s.inner with
    | .held (n + 2) => { s with inner := .held (n + 1) }
    | .held 1 =>
      if (s.calls.all fun c => c.pc.isReturned) = true ∧
          (s.unloads.all fun u => decide (u.pc = .returned)) = true then
        { s with inner := .storing }
      else
        s
    | _ => s
  | .proceedDrop => s.dropStep
  | .cancel token => s.cancel token
  | .pass time => { s with now := s.now + time }

/-- The same as a step that may crash, which it never does. -/
def next (capacity : Nat) (act : Act δ) (s : System δ) : Option (System δ) :=
  some (s.step capacity act)

end System

end Gen2.Decision
