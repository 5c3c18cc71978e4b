import Gen2.Lib.Run
import Gen2.Types.Message

/-!
# A diarization stream

`diarization/stream.rs`, and what serves it: `Native::run_live` and `Session` of
`diarization/nemo.rs`, and the part of the loop of `diarization/worker.rs` around a stream job.  One
thread has the native session; one caller owns the stream; anybody may cancel its token or unload
the diarizer.  PCM goes through a queue of two blocks, the request to finish through a flag, the
outcome through a slot under a lock.

`Stream.step` takes one thread one access to shared memory further.  What a thread does between two
accesses belongs to the first of them, and a section under a lock is one step, since nobody sees
what is inside it.  So a list of `Act`s is an interleaving, and the clock is one of the threads.

A native call answers or panics; what it answers comes with the step that makes it.  Of a
`Diarization` nothing is read here but whether there is one, so its type is a parameter.
-/

namespace Gen2.Diarization

/-- `DiarizationError`. -/
inductive DiarizationError
  | invalidAudio (message : String)
  | invalidBundle (message : String)
  | backendUnavailable (message : String)
  | execution (message : String)
  | invalidOutput (message : String)
  | resourceLimit (message : String)
  | busy
  | cancelled
  | deadlineExceeded
  | unloaded
  | invalidState (message : String)
  deriving DecidableEq

/-- `MAX_PUSH_SAMPLES`. -/
def maxPushSamples : Nat := 16640

/-- `MAX_SESSION_SAMPLES`. -/
def maxSessionSamples : Nat := 3600 * 16000

/-- How many samples go into one native call. -/
def chunkSamples : Nat := 2560

/-- How many blocks the queue of a stream holds. -/
def queueBlocks : Nat := 2

/-- `f32::is_finite`: the exponent is not all ones. -/
def isFinite (x : F32) : Bool := x.bits &&& 0x7f800000 != 0x7f800000

/-- A `Vec<f32>`: what is in it, and what it has room for. -/
structure Pcm where
  samples : List F32
  capacity : Nat
  fits : samples.length ≤ capacity
  deriving DecidableEq

/-- `StreamStatus`. -/
inductive StreamStatus
  | active
  | finishing
  | finished
  | cancelled
  | failed
  deriving DecidableEq

/-- `PushError`. -/
structure PushError where
  samples : Pcm
  error : DiarizationError
  deriving DecidableEq

variable {ρ : Type}

/-- `Snapshot`. -/
structure Snapshot (ρ : Type) where
  revision : Nat
  complete : Bool
  result : ρ

/-- What a stream comes to. -/
abbrev Outcome (ρ : Type) := Except DiarizationError ρ

/-- A call of `try_push` that has returned. -/
structure Call where
  given : Pcm
  outcome : Except PushError Unit

/-- Where the caller is: between two calls, in a `try_push` that has read the status, in one that is
about to send, in a `finish` that waits, or in the drop of the stream. -/
inductive CallerPc
  | idle
  | pushing (samples : Pcm) (sampleRate : UInt32)
  | sending (samples : Pcm)
  | waiting
  | dropping
  | gone

/-- Where the worker is in the stream's job. -/
inductive WorkerPc (ρ : Type)
  | top
  | receiving
  | testing
  | waiting
  | pushing (block : Pcm) (rest : List F32)
  | snapshotting
  | finishing
  | flushed
  | returning (outcome : Outcome ρ)
  | checking (outcome : Outcome ρ)
  | deactivating (outcome : Outcome ρ)
  | publishing (result : ρ)
  | completing (outcome : Outcome ρ)
  | done

/-- What the native calls of one step answer; `none` where one panics. -/
structure Native (ρ : Type) where
  code : Option (Except DiarizationError Unit)
  results : Option (Outcome ρ)

/-- A native call that panicked is an error of the job. -/
def unwound {α : Type} (answer : Option (Except DiarizationError α)) : Except DiarizationError α :=
  answer.getD (.error (.execution "native worker panicked"))

/-- The stream, the caller, the worker and what they share.  `calls`, `pushed`, `native` and
`returned` are the record of a run: what `try_push` was called with and answered, the blocks
`Session::push` went through, the samples that went into the native session, and what `finish`
returned. -/
structure Stream (ρ : Type) where
  now : Nat
  deadline : Option Nat
  cancelled : Bool
  «active» : Bool
  queue : List Pcm
  sender : Bool
  receiver : Bool
  finishRequested : Bool
  status : StreamStatus
  revision : Nat
  snapshot : Option (Snapshot ρ)
  terminal : Option (Outcome ρ)
  caller : CallerPc
  worker : WorkerPc ρ
  accepted : Nat
  samples : Nat
  lastSnapshot : Nat
  calls : List Call
  pushed : List Pcm
  native : List F32
  returned : List (Outcome ρ)

/-- The stream that `start_stream` returns: the worker has opened the native session. -/
def Stream.start (ρ : Type) (now : Nat) (deadline : Option Nat) (cancelled : Bool) : Stream ρ where
  now := now
  deadline := deadline
  cancelled := cancelled
  «active» := true
  queue := []
  sender := true
  receiver := true
  finishRequested := false
  status := .active
  revision := 0
  snapshot := none
  terminal := none
  caller := .idle
  worker := .top
  accepted := 0
  samples := 0
  lastSnapshot := 0
  calls := []
  pushed := []
  native := []
  returned := []

/-- `DiarizeOptions::check`. -/
def Stream.check (s : Stream ρ) : Except DiarizationError Unit :=
  if s.cancelled then
    .error .cancelled
  else if s.deadline.any (· ≤ s.now) then
    .error .deadlineExceeded
  else
    .ok ()

/-! ## The caller -/

/-- `try_push` has refused the block, and handed it back. -/
def Stream.reject (s : Stream ρ) (samples : Pcm) (error : DiarizationError) : Stream ρ :=
  { s with
    caller := .idle
    calls := s.calls ++ [{ given := samples, outcome := .error { samples, error } }] }

/-- What `try_push` tests between the status and the queue. -/
def Stream.validate (s : Stream ρ) (samples : Pcm) (sampleRate : UInt32) :
    Except DiarizationError Unit :=
  match s.check with
  | .error error => .error error
  | .ok () =>
    if sampleRate ≠ 16000 ∨ samples.samples = [] ∨ samples.samples.length > maxPushSamples ∨
        samples.samples.any (! isFinite ·) then
      .error (.invalidAudio "use 1–16640 finite mono samples at 16 kHz per push")
    else if s.accepted + samples.samples.length > maxSessionSamples then
      .error (.resourceLimit "one-hour session limit")
    else if samples.capacity > maxPushSamples then
      .error (.resourceLimit "PCM allocation capacity exceeds the per-push limit")
    else
      .ok ()

/-- `tx.try_send`, and what `try_push` makes of it. -/
def Stream.trySend (s : Stream ρ) (samples : Pcm) : Stream ρ :=
  if ¬ s.receiver then
    s.reject samples (.invalidState "stream worker stopped")
  else if queueBlocks ≤ s.queue.length then
    s.reject samples .busy
  else
    { s with
      caller := .idle
      accepted := s.accepted + samples.samples.length
      queue := s.queue ++ [samples]
      calls := s.calls ++ [{ given := samples, outcome := .ok () }] }

/-- The caller calls `try_push`, which looks at the status first. -/
def Stream.tryPush (s : Stream ρ) (samples : Pcm) (sampleRate : UInt32) : Stream ρ :=
  match s.caller with
  | .idle =>
    if s.status ≠ .active then
      s.reject samples (.invalidState "stream no longer accepts PCM")
    else
      { s with caller := .pushing samples sampleRate }
  | _ => s

/-- `finish` looks at the slot and returns what is in it, or goes on waiting. -/
def Stream.collect (s : Stream ρ) : Stream ρ :=
  match s.terminal with
  | some outcome => { s with caller := .idle, returned := s.returned ++ [outcome] }
  | none => { s with caller := .waiting }

/-- The caller calls `finish`. -/
def Stream.finish (s : Stream ρ) : Stream ρ :=
  match s.caller with
  | .idle =>
    if s.terminal.isNone then
      { s with status := .finishing, finishRequested := true }.collect
    else
      s.collect
  | _ => s

/-- The caller drops the stream, which cancels what has not come to an end. -/
def Stream.drop (s : Stream ρ) : Stream ρ :=
  match s.caller with
  | .idle => { s with caller := .dropping, cancelled := s.cancelled || s.terminal.isNone }
  | _ => s

/-- The caller goes on with the call it is in. -/
def Stream.callerStep (s : Stream ρ) : Stream ρ :=
  match s.caller with
  | .pushing samples sampleRate =>
    match s.validate samples sampleRate with
    | .error error => s.reject samples error
    | .ok () => { s with caller := .sending samples }
  | .sending samples => s.trySend samples
  | .waiting => s.collect
  | .dropping => { s with caller := .gone, sender := false }
  | .idle | .gone => s

/-! ## The worker -/

/-- `Session::push` begins with a block. -/
def Stream.startPush (s : Stream ρ) (block : Pcm) : Stream ρ :=
  if s.samples + block.samples.length > maxSessionSamples then
    { s with worker := .returning (.error (.resourceLimit "one-hour session limit")) }
  else
    { s with worker := .pushing block block.samples }

/-- One chunk of a block, or the end of it. -/
def Stream.pushChunk (s : Stream ρ) (answer : Native ρ) (block : Pcm) (rest : List F32) :
    Stream ρ :=
  match rest with
  | [] =>
    { s with
      pushed := s.pushed ++ [block]
      worker := if s.samples - s.lastSnapshot ≥ 5 * 16000 then .snapshotting else .top }
  | _ :: _ =>
    match s.check with
    | .error error => { s with worker := .returning (.error error) }
    | .ok () =>
      let chunk := rest.take chunkSamples
      let s := { s with native := s.native ++ chunk }
      match unwound answer.code with
      | .error error => { s with worker := .returning (.error error) }
      | .ok () =>
        { s with
          samples := s.samples + chunk.length
          worker := .pushing block (rest.drop chunkSamples) }

/-- `Shared::publish`. -/
def Stream.publish (s : Stream ρ) (result : ρ) (complete : Bool) : Stream ρ :=
  { s with
    revision := s.revision + 1
    snapshot := some { revision := s.revision + 1, complete, result } }

/-- The status that `Shared::complete` leaves. -/
def StreamStatus.after : Outcome ρ → StreamStatus
  | .ok _ => .finished
  | .error .cancelled => .cancelled
  | .error _ => .failed

/-- The worker's next step: `run_live` up to `returning`, and what the loop of the worker does with
its result from there on. -/
def Stream.workerStep (s : Stream ρ) (answer : Native ρ) : Stream ρ :=
  match s.worker with
  | .top =>
    match s.check with
    | .error error => { s with worker := .returning (.error error) }
    | .ok () => { s with worker := .receiving }
  | .receiving =>
    match s.queue with
    | block :: queue => { s with queue }.startPush block
    | [] =>
      if s.sender then { s with worker := .testing }
      else { s with worker := .returning (.error .cancelled) }
  | .testing => { s with worker := if s.finishRequested then .finishing else .waiting }
  | .waiting =>
    match s.queue with
    | block :: queue => { s with queue }.startPush block
    | [] =>
      -- the ten milliseconds are over
      if s.sender then { s with worker := .top }
      else { s with worker := .returning (.error .cancelled) }
  | .pushing block rest => s.pushChunk answer block rest
  | .snapshotting =>
    match unwound answer.results with
    | .error error => { s with worker := .returning (.error error) }
    | .ok result => { s.publish result false with lastSnapshot := s.samples, worker := .top }
  | .finishing =>
    if s.samples < 320 then
      { s with
        worker := .returning (.error (.invalidAudio "recording needs at least 20 ms of PCM")) }
    else
      match s.check with
      | .error error => { s with worker := .returning (.error error) }
      | .ok () =>
        match unwound answer.code with
        | .error error => { s with worker := .returning (.error error) }
        | .ok () => { s with worker := .flushed }
  | .flushed =>
    match s.check with
    | .error error => { s with worker := .returning (.error error) }
    | .ok () => { s with worker := .returning (unwound answer.results) }
  -- the receiver is dropped, and what is in the queue with it
  | .returning outcome => { s with receiver := false, queue := [], worker := .checking outcome }
  | .checking outcome =>
    match outcome, s.check with
    | .ok _, .error error => { s with worker := .deactivating (.error error) }
    | _, _ => { s with worker := .deactivating outcome }
  | .deactivating outcome =>
    match outcome with
    | .ok result => { s with «active» := false, worker := .publishing result }
    | .error _ => { s with «active» := false, worker := .completing outcome }
  | .publishing result => { s.publish result true with worker := .completing (.ok result) }
  | .completing outcome =>
    { s with status := .after outcome, terminal := some outcome, worker := .done }
  | .done => s

/-! ## Interleavings -/

/-- Whose step it is. -/
inductive Act (ρ : Type)
  | tryPush (samples : Pcm) (sampleRate : UInt32)
  | finish
  | drop
  | caller
  | worker (answer : Native ρ)
  | cancel
  | unload
  | tick (elapsed : Nat)

def Act.isWorker : Act ρ → Bool
  | .worker _ => true
  | _ => false

/-- One step of the caller, the worker, the clock, or whoever cancels or unloads. -/
def Stream.step (s : Stream ρ) : Act ρ → Stream ρ
  | .tryPush samples sampleRate => s.tryPush samples sampleRate
  | .finish => s.finish
  | .drop => s.drop
  | .caller => s.callerStep
  | .worker answer => s.workerStep answer
  | .cancel => { s with cancelled := true }
  -- `State::stop` cancels the token of the active job
  | .unload => { s with cancelled := s.cancelled || s.active }
  | .tick elapsed => { s with now := s.now + elapsed }

/-- `Stream.step`, as a system that does not crash. -/
def next (act : Act ρ) (s : Stream ρ) : Option (Stream ρ) := some (s.step act)

/-! ## What a run has come to -/

/-- The block of a call that was answered `Ok`. -/
def Call.taken (call : Call) : Option Pcm :=
  match call.outcome with
  | .ok () => some call.given
  | .error _ => none

/-- The blocks for which `try_push` returned `Ok`, in order. -/
def Stream.taken (s : Stream ρ) : List Pcm := s.calls.filterMap Call.taken

end Gen2.Diarization
