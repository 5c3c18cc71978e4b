import Gen2.Diarization.Stream

/-!
# What becomes of accepted audio

The worker tells that there is nothing left by two looks one after the other: the queue is empty,
the flag is set.  A block that is accepted between the two is dropped with the queue, and `finish`
returns `Ok` all the same.  Nothing else loses audio.

* `Stream.CallerInv`, `Stream.WorkerInv` are what every interleaving keeps: the blocks that were
  pushed are the first ones that were accepted, and while nothing has failed the rest is in the
  worker's hands or in the queue.
* `Stream.Drained` is what is kept by the steps that miss no block (`Unmissed`).
* `work_workerStep` is why `finish` returns: while the flag is set every step of the worker brings
  it nearer to the end.
* `accepted_audio_kept` is the result, `block_missed` the interleaving that loses a block.
-/

namespace Gen2.Diarization

open Lib List Stream

variable {ρ : Type} {s s' : Stream ρ}

/-- What blocks have in them, one after the other. -/
def samplesOf (blocks : List Pcm) : List F32 := blocks.flatMap Pcm.samples

@[simp] theorem samplesOf_append (xs ys : List Pcm) :
    samplesOf (xs ++ ys) = samplesOf xs ++ samplesOf ys := flatMap_append

@[simp] theorem samplesOf_singleton (x : Pcm) : samplesOf [x] = x.samples := by
  simp [samplesOf]

theorem prefix_of_samplesOf {xs ys : List Pcm} (h : xs <+: ys) : samplesOf xs <+: samplesOf ys := by
  obtain ⟨zs, rfl⟩ := h
  exact ⟨samplesOf zs, (samplesOf_append xs zs).symm⟩

/-! ## Where the worker is -/

/-- The worker is in `run_live`, so the receiver is there. -/
@[simp] def WorkerPc.inRun : WorkerPc ρ → Bool
  | .checking _ | .deactivating _ | .publishing _ | .completing _ | .done => false
  | _ => true

@[simp] def WorkerPc.isDone : WorkerPc ρ → Bool
  | .done => true
  | _ => false

/-- The block that has been taken from the queue and not been pushed to its end. -/
@[simp] def WorkerPc.block : WorkerPc ρ → List Pcm
  | .pushing block _ => [block]
  | _ => []

/-- What of that block has not gone into the native session. -/
@[simp] def WorkerPc.rest : WorkerPc ρ → List F32
  | .pushing _ rest => rest
  | _ => []

/-- What `run_live` has come to, as far as it stands. -/
def Stream.outcome (s : Stream ρ) : Option (Outcome ρ) :=
  match s.worker with
  | .returning outcome | .checking outcome | .deactivating outcome | .completing outcome =>
    some outcome
  | .publishing result => some (.ok result)
  | .done => s.terminal
  | _ => none

/-- The worker has stopped over an error. -/
def Stream.failed (s : Stream ρ) : Bool :=
  match s.outcome with
  | some (.error _) => true
  | _ => false

/-- The worker has left the loop since it found nothing more to do, and nothing has failed since. -/
def Stream.past (s : Stream ρ) : Bool :=
  match s.worker with
  | .finishing | .flushed => true
  | _ => match s.outcome with
    | some (.ok _) => true
    | _ => false

/-! ## What every interleaving keeps -/

/-- What is so of the caller, and of what it has got. -/
structure Stream.CallerInv (s : Stream ρ) : Prop where
  asked : s.finishRequested = true → s.terminal = none → s.caller = .waiting
  waits : s.caller = .waiting → s.finishRequested = true
  refused : ∀ call ∈ s.calls, ∀ refusal, call.outcome = .error refusal →
    refusal.samples = call.given
  same : ∀ outcome ∈ s.returned, s.terminal = some outcome

/-- Where the accepted blocks are. -/
structure Stream.WorkerInv (s : Stream ρ) : Prop where
  receiver : s.receiver = s.worker.inRun
  terminal : s.terminal.isSome = s.worker.isDone
  asked : s.past = true → s.finishRequested = true
  pushed : s.pushed <+: s.taken
  native : s.native <+: samplesOf s.taken
  held : s.worker.inRun = true → s.failed = false →
    s.taken = s.pushed ++ s.worker.block ++ s.queue
  whole : s.failed = false →
    s.native ++ s.worker.rest = samplesOf (s.pushed ++ s.worker.block)

/-- Once the worker has left the loop, no accepted block is left. -/
def Stream.Drained (s : Stream ρ) : Prop := s.past = true → s.taken = s.pushed

theorem callerInv_start (now : Nat) (deadline : Option Nat) (cancelled : Bool) :
    (start ρ now deadline cancelled).CallerInv :=
  ⟨nofun, nofun, nofun, nofun⟩

theorem workerInv_start (now : Nat) (deadline : Option Nat) (cancelled : Bool) :
    (start ρ now deadline cancelled).WorkerInv :=
  ⟨rfl, rfl, nofun, prefix_rfl, prefix_rfl, fun _ _ => rfl, fun _ => rfl⟩

/-! ## Steps that are not the worker's -/

/-- What a step of somebody else leaves to the worker: at most one more block, which the caller was
about to send, in a queue that is still there. -/
structure Stream.Outside (s s' : Stream ρ) : Prop where
  worker : s'.worker = s.worker
  terminal : s'.terminal = s.terminal
  pushed : s'.pushed = s.pushed
  native : s'.native = s.native
  receiver : s'.receiver = s.receiver
  finishRequested : s.finishRequested = true → s'.finishRequested = true
  taken : s'.taken = s.taken ∧ s'.queue = s.queue ∨
    ∃ block, s.caller = .sending block ∧ s.receiver = true ∧ s'.taken = s.taken ++ [block] ∧
      s'.queue = s.queue ++ [block]

theorem Stream.Outside.rfl : s.Outside s :=
  ⟨Eq.refl _, Eq.refl _, Eq.refl _, Eq.refl _, Eq.refl _, id, .inl ⟨Eq.refl _, Eq.refl _⟩⟩

theorem taken_reject (samples : Pcm) (error : DiarizationError) :
    (s.reject samples error).taken = s.taken := by
  simp [taken, reject, Call.taken]

theorem outside_reject (samples : Pcm) (error : DiarizationError) :
    s.Outside (s.reject samples error) :=
  ⟨rfl, rfl, rfl, rfl, rfl, id, .inl ⟨taken_reject samples error, rfl⟩⟩

theorem outside_trySend {samples : Pcm} (hc : s.caller = .sending samples) :
    s.Outside (s.trySend samples) := by
  rw [trySend]
  by_cases hr : s.receiver = true
  · rw [if_neg (not_not.2 hr)]
    by_cases hq : queueBlocks ≤ s.queue.length
    · rw [if_pos hq]
      exact outside_reject ..
    · rw [if_neg hq]
      refine ⟨rfl, rfl, rfl, rfl, rfl, id, .inr ⟨samples, hc, hr, ?_, rfl⟩⟩
      simp [taken, Call.taken]
  · rw [if_pos hr]
    exact outside_reject ..

theorem collect_none (h : s.terminal = none) : s.collect = { s with caller := .waiting } := by
  simp only [collect, h]

theorem collect_some {outcome : Outcome ρ} (h : s.terminal = some outcome) :
    s.collect = { s with caller := .idle, returned := s.returned ++ [outcome] } := by
  simp only [collect, h]

theorem outside_collect : s.Outside s.collect := by
  rcases h : s.terminal with _ | outcome
  · rw [collect_none h]
    exact ⟨rfl, rfl, rfl, rfl, rfl, id, .inl ⟨rfl, rfl⟩⟩
  · rw [collect_some h]
    exact ⟨rfl, rfl, rfl, rfl, rfl, id, .inl ⟨rfl, rfl⟩⟩

theorem outside_finish : s.Outside s.finish := by
  rw [finish]
  cases hc : s.caller with
  | idle =>
    by_cases ht : s.terminal.isNone
    · simp only [ht, if_true]
      obtain ⟨h₁, h₂, h₃, h₄, h₅, h₆, h₇⟩ :=
        outside_collect (s := { s with status := .finishing, finishRequested := true })
      refine ⟨h₁, h₂, h₃, h₄, h₅, fun _ => h₆ rfl, ?_⟩
      rcases h₇ with h | ⟨block, h, -⟩
      · exact .inl h
      · exact nomatch hc.symm.trans h
    · simp only [ht]
      exact outside_collect
  | _ => exact .rfl

theorem outside_callerStep : s.Outside s.callerStep := by
  rw [callerStep]
  cases hc : s.caller with
  | pushing samples sampleRate =>
    dsimp only
    cases s.validate samples sampleRate with
    | error error => exact outside_reject ..
    | ok _ => exact ⟨rfl, rfl, rfl, rfl, rfl, id, .inl ⟨rfl, rfl⟩⟩
  | sending samples => exact outside_trySend hc
  | waiting => exact outside_collect
  | dropping => exact ⟨rfl, rfl, rfl, rfl, rfl, id, .inl ⟨rfl, rfl⟩⟩
  | idle => exact .rfl
  | gone => exact .rfl

theorem outside_step (act : Act ρ) (hact : act.isWorker = false) : s.Outside (s.step act) := by
  cases act with
  | tryPush samples sampleRate =>
    rw [step, tryPush]
    cases hc : s.caller with
    | idle =>
      by_cases hs : s.status ≠ .active
      · simp only [if_pos hs]
        exact outside_reject ..
      · simp only [if_neg hs]
        exact ⟨rfl, rfl, rfl, rfl, rfl, id, .inl ⟨rfl, rfl⟩⟩
    | _ => exact .rfl
  | finish => exact outside_finish
  | drop =>
    rw [Stream.step, Stream.drop]
    cases s.caller with
    | idle => exact ⟨rfl, rfl, rfl, rfl, rfl, id, .inl ⟨rfl, rfl⟩⟩
    | _ => exact .rfl
  | caller => exact outside_callerStep
  | worker answer => cases hact
  | cancel => exact ⟨rfl, rfl, rfl, rfl, rfl, id, .inl ⟨rfl, rfl⟩⟩
  | unload => exact ⟨rfl, rfl, rfl, rfl, rfl, id, .inl ⟨rfl, rfl⟩⟩
  | tick elapsed => exact ⟨rfl, rfl, rfl, rfl, rfl, id, .inl ⟨rfl, rfl⟩⟩

theorem Stream.Outside.outcome (h : s.Outside s') : s'.outcome = s.outcome := by
  simp only [Stream.outcome, h.worker, h.terminal]

theorem Stream.Outside.failed (h : s.Outside s') : s'.failed = s.failed := by
  simp only [Stream.failed, h.outcome]

theorem Stream.Outside.past (h : s.Outside s') : s'.past = s.past := by
  simp only [Stream.past, h.worker, h.outcome]

/-- Accepted blocks only get more. -/
theorem Stream.Outside.prefix_taken (h : s.Outside s') : s.taken <+: s'.taken := by
  rcases h.taken with ⟨ht, -⟩ | ⟨block, -, -, ht, -⟩
  · exact ht ▸ prefix_rfl
  · exact ⟨[block], ht.symm⟩

theorem Stream.WorkerInv.outside (hs : s.WorkerInv) (h : s.Outside s') : s'.WorkerInv where
  receiver := by rw [h.receiver, h.worker, hs.receiver]
  terminal := by rw [h.terminal, h.worker, hs.terminal]
  asked hp := h.finishRequested (hs.asked (h.past ▸ hp))
  pushed := h.pushed ▸ hs.pushed.trans h.prefix_taken
  native := h.native ▸ hs.native.trans (prefix_of_samplesOf h.prefix_taken)
  held hr hf := by
    rw [h.worker] at hr ⊢
    rw [h.pushed]
    have hheld := hs.held hr (h.failed ▸ hf)
    rcases h.taken with ⟨ht, hq⟩ | ⟨block, -, -, ht, hq⟩
    · rw [ht, hq, hheld]
    · rw [ht, hq, hheld, append_assoc]
  whole hf := by
    rw [h.native, h.worker, h.pushed]
    exact hs.whole (h.failed ▸ hf)

/-- Nobody accepts a block once the worker has left the loop: until there is an outcome the caller
waits for it, and then the receiver is gone. -/
theorem Stream.Drained.outside (hd : s.Drained) (hc : s.CallerInv) (hw : s.WorkerInv)
    (h : s.Outside s') : s'.Drained := by
  intro hp
  rw [h.past] at hp
  rw [h.pushed, ← hd hp]
  rcases h.taken with ⟨ht, -⟩ | ⟨block, hsend, hr, -, -⟩
  · exact ht
  have hnone : s.terminal = none := by
    have hdone : s.worker.isDone = false := by
      have hrun : s.worker.inRun = true := hw.receiver ▸ hr
      cases hpc : s.worker with
      | done => rw [hpc] at hrun; cases hrun
      | _ => rfl
    have := hw.terminal
    rw [hdone] at this
    simpa using this
  exact nomatch hsend.symm.trans (hc.asked (hw.asked hp) hnone)

/-! ## The worker's steps -/

/-- How far the worker is from the end, once there is nothing to wait for. -/
@[simp] def WorkerPc.ahead : WorkerPc ρ → Nat
  | .pushing _ rest => rest.length + 12
  | .snapshotting | .waiting => 11
  | .top => 10
  | .receiving => 9
  | .testing => 8
  | .finishing => 7
  | .flushed => 6
  | .returning _ => 5
  | .checking _ => 4
  | .deactivating _ => 3
  | .publishing _ => 2
  | .completing _ => 1
  | .done => 0

/-- A step of the worker leaves the caller and its records alone. -/
structure Stream.Inside (s s' : Stream ρ) : Prop where
  caller : s'.caller = s.caller
  calls : s'.calls = s.calls
  finishRequested : s'.finishRequested = s.finishRequested
  returned : s'.returned = s.returned

/-- What a step leaves of what the invariant of the worker is about. -/
structure Stream.Same (s s' : Stream ρ) : Prop where
  receiver : s'.receiver = s.receiver
  terminal : s'.terminal = s.terminal
  pushed : s'.pushed = s.pushed

/-- What the worker's next step can do. -/
inductive Stream.Moved (s s' : Stream ρ) : Prop
  /-- Nothing is left to do. -/
  | stay (done : s.worker = .done) (eq : s' = s)
  /-- Over an error, perhaps one of the native session in the middle of a block. -/
  | fail (error : DiarizationError) (worker : s'.worker = .returning (.error error))
      (run : s.worker.inRun = true) (ahead : 5 < s.worker.ahead) (same : s.Same s')
      (queue : s'.queue <:+ s.queue)
      (native : s'.native = s.native ∨ ∃ block chunk later,
        s.worker = .pushing block (chunk ++ later) ∧ s'.native = s.native ++ chunk)
  /-- To the next point of the program. -/
  | goto (same : s.Same s') (queue : s'.queue = s.queue) (native : s'.native = s.native)
      (run : s'.worker.inRun = s.worker.inRun) (undone : s.worker.isDone = false)
      (undone' : s'.worker.isDone = false)
      (clean : s'.failed = false → s.failed = false ∧ s.worker.block = [] ∧ s.worker.rest = [])
      (block : s'.worker.block = []) (rest : s'.worker.rest = [])
      (past : s'.past = true →
        s.past = true ∨ s.worker = .testing ∧ s.finishRequested = true)
      (ahead : s.finishRequested = true → s'.worker.ahead < s.worker.ahead)
  /-- With a block from the queue. -/
  | take (block : Pcm) (same : s.Same s') (queue : s.queue = block :: s'.queue)
      (native : s'.native = s.native) (worker : s.worker = .receiving ∨ s.worker = .waiting)
      (worker' : s'.worker = .pushing block block.samples)
  /-- With a chunk of a block, into the native session. -/
  | chunk (block : Pcm) (chunk later : List F32) (ne : chunk ≠ []) (same : s.Same s')
      (queue : s'.queue = s.queue) (native : s'.native = s.native ++ chunk)
      (worker : s.worker = .pushing block (chunk ++ later))
      (worker' : s'.worker = .pushing block later)
  /-- To the end of a block. -/
  | pushed (block : Pcm) (receiver : s'.receiver = s.receiver) (terminal : s'.terminal = s.terminal)
      (pushed : s'.pushed = s.pushed ++ [block]) (queue : s'.queue = s.queue)
      (native : s'.native = s.native) (worker : s.worker = .pushing block [])
      (worker' : s'.worker = .snapshotting ∨ s'.worker = .top)
  /-- Out of `run_live`, with which the receiver goes. -/
  | left (outcome : Outcome ρ) (worker : s.worker = .returning outcome)
      (eq : s' = { s with receiver := false, queue := [], worker := .checking outcome })
  /-- To the outcome. -/
  | completed (outcome : Outcome ρ) (worker : s.worker = .completing outcome)
      (eq : s' = { s with
        status := .after outcome, terminal := some outcome, worker := .done })

theorem moved_fail (error : DiarizationError) (run : s.worker.inRun = true)
    (ahead : 5 < s.worker.ahead) :
    s.Moved { s with worker := .returning (.error error) } :=
  .fail error rfl run ahead ⟨rfl, rfl, rfl⟩ suffix_rfl (.inl rfl)

theorem inside_startPush (block : Pcm) : s.Inside (s.startPush block) := by
  rw [startPush]
  split
  · exact ⟨rfl, rfl, rfl, rfl⟩
  · exact ⟨rfl, rfl, rfl, rfl⟩

theorem moved_startPush {block : Pcm} {queue : List Pcm} (hq : s.queue = block :: queue)
    (hw : s.worker = .receiving ∨ s.worker = .waiting) :
    s.Moved ({ s with queue }.startPush block) := by
  rw [startPush]
  split
  · refine .fail _ rfl ?_ ?_ ⟨rfl, rfl, rfl⟩ (hq ▸ suffix_cons block queue) (.inl rfl)
    · rcases hw with hw | hw <;> rw [hw] <;> rfl
    · rcases hw with hw | hw <;> rw [hw] <;> simp [WorkerPc.ahead]
  · exact .take block ⟨rfl, rfl, rfl⟩ hq rfl hw rfl

theorem moves_pushChunk {answer : Native ρ} {block : Pcm} {rest : List F32}
    (hw : s.worker = .pushing block rest) :
    s.Inside (s.pushChunk answer block rest) ∧ s.Moved (s.pushChunk answer block rest) := by
  cases rest with
  | nil =>
    refine ⟨⟨rfl, rfl, rfl, rfl⟩, .pushed block rfl rfl rfl rfl rfl hw ?_⟩
    simp only [pushChunk]
    split
    · exact .inl rfl
    · exact .inr rfl
  | cons x xs =>
    have hrun : s.worker.inRun = true := by rw [hw]; rfl
    have hahead : 5 < s.worker.ahead := by simp [hw]
    have happ : (x :: xs).take chunkSamples ++ (x :: xs).drop chunkSamples = x :: xs :=
      take_append_drop ..
    rw [pushChunk]
    rcases s.check with error | _
    · exact ⟨⟨rfl, rfl, rfl, rfl⟩, moved_fail error hrun hahead⟩
    rcases unwound answer.code with error | _
    · exact ⟨⟨rfl, rfl, rfl, rfl⟩, .fail error rfl hrun hahead ⟨rfl, rfl, rfl⟩ suffix_rfl
        (.inr ⟨block, _, _, happ.symm ▸ hw, rfl⟩)⟩
    · exact ⟨⟨rfl, rfl, rfl, rfl⟩, .chunk block _ _ (by simp [chunkSamples]) ⟨rfl, rfl, rfl⟩ rfl
        rfl (happ.symm ▸ hw) rfl⟩

/-- **What one step of the worker does.** -/
theorem moves_workerStep (answer : Native ρ) :
    s.Inside (s.workerStep answer) ∧ s.Moved (s.workerStep answer) := by
  have hgo : ∀ pc, s.Inside { s with worker := pc } := fun _ => ⟨rfl, rfl, rfl, rfl⟩
  have hfail : ∀ error, s.worker.inRun = true → 5 < s.worker.ahead →
      s.Inside { s with worker := .returning (.error error) } ∧
        s.Moved { s with worker := .returning (.error error) } :=
    fun error hrun hahead => ⟨hgo _, moved_fail error hrun hahead⟩
  cases hw : s.worker with
  | top =>
    simp only [workerStep, hw]
    cases s.check with
    | error error => exact hfail error (by simp [hw]) (by simp [hw])
    | ok _ =>
      refine ⟨hgo _, .goto ⟨rfl, rfl, rfl⟩ rfl rfl ?_ ?_ rfl ?_ rfl rfl nofun ?_⟩ <;>
        simp [hw, failed, outcome]
  | receiving =>
    cases hq : s.queue with
    | cons block queue =>
      simp only [workerStep, hw, hq]
      obtain ⟨h₁, h₂, h₃, h₄⟩ := inside_startPush (s := { s with queue }) block
      exact ⟨⟨h₁, h₂, h₃, h₄⟩, moved_startPush hq (.inl hw)⟩
    | nil =>
      simp only [workerStep, hw, hq]
      split
      · refine ⟨⟨rfl, rfl, rfl, rfl⟩, .goto ⟨rfl, rfl, rfl⟩ hq.symm rfl ?_ ?_ rfl ?_ rfl rfl nofun
          ?_⟩ <;> simp [hw, failed, outcome]
      · exact ⟨⟨rfl, rfl, rfl, rfl⟩, .fail _ rfl (by simp [hw]) (by simp [hw]) ⟨rfl, rfl, rfl⟩
          nil_suffix (.inl rfl)⟩
  | testing =>
    simp only [workerStep, hw]
    by_cases hf : s.finishRequested = true
    · rw [if_pos hf]
      refine ⟨hgo _, .goto ⟨rfl, rfl, rfl⟩ rfl rfl ?_ ?_ rfl ?_ rfl rfl
        (fun _ => .inr ⟨hw, hf⟩) ?_⟩ <;> simp [hw, failed, outcome]
    · rw [if_neg hf]
      refine ⟨hgo _, .goto ⟨rfl, rfl, rfl⟩ rfl rfl ?_ ?_ rfl ?_ rfl rfl nofun
        (fun h => absurd h hf)⟩ <;> simp [hw, failed, outcome]
  | waiting =>
    cases hq : s.queue with
    | cons block queue =>
      simp only [workerStep, hw, hq]
      obtain ⟨h₁, h₂, h₃, h₄⟩ := inside_startPush (s := { s with queue }) block
      exact ⟨⟨h₁, h₂, h₃, h₄⟩, moved_startPush hq (.inr hw)⟩
    | nil =>
      simp only [workerStep, hw, hq]
      split
      · refine ⟨⟨rfl, rfl, rfl, rfl⟩, .goto ⟨rfl, rfl, rfl⟩ hq.symm rfl ?_ ?_ rfl ?_ rfl rfl nofun
          ?_⟩ <;> simp [hw, failed, outcome]
      · exact ⟨⟨rfl, rfl, rfl, rfl⟩, .fail _ rfl (by simp [hw]) (by simp [hw]) ⟨rfl, rfl, rfl⟩
          nil_suffix (.inl rfl)⟩
  | pushing block rest =>
    simp only [workerStep, hw]
    exact moves_pushChunk hw
  | snapshotting =>
    simp only [workerStep, hw]
    cases unwound answer.results with
    | error error => exact hfail error (by simp [hw]) (by simp [hw])
    | ok result =>
      refine ⟨⟨rfl, rfl, rfl, rfl⟩, .goto ⟨rfl, rfl, rfl⟩ rfl rfl ?_ ?_ rfl ?_ rfl rfl nofun ?_⟩ <;>
        simp [hw, failed, outcome]
  | finishing =>
    have hpast : s.past = true := by simp [past, hw]
    simp only [workerStep, hw]
    split
    · exact hfail _ (by simp [hw]) (by simp [hw])
    rcases s.check with error | _
    · exact hfail error (by simp [hw]) (by simp [hw])
    · rcases unwound answer.code with error | _
      · exact hfail error (by simp [hw]) (by simp [hw])
      · refine ⟨hgo _, .goto ⟨rfl, rfl, rfl⟩ rfl rfl ?_ ?_ rfl ?_ rfl rfl
          (fun _ => .inl hpast) ?_⟩ <;> simp [hw, failed, outcome]
  | flushed =>
    have hpast : s.past = true := by simp [past, hw]
    simp only [workerStep, hw]
    rcases s.check with error | _
    · exact hfail error (by simp [hw]) (by simp [hw])
    · refine ⟨hgo _, .goto ⟨rfl, rfl, rfl⟩ rfl rfl ?_ ?_ rfl ?_ rfl rfl
        (fun _ => .inl hpast) ?_⟩ <;> simp [hw, failed, outcome]
  | returning outcome =>
    simp only [workerStep, hw]
    exact ⟨⟨rfl, rfl, rfl, rfl⟩, .left outcome hw rfl⟩
  | checking outcome =>
    simp only [workerStep, hw]
    cases outcome with
    | error error =>
      refine ⟨hgo _, .goto ⟨rfl, rfl, rfl⟩ rfl rfl ?_ ?_ rfl nofun rfl rfl nofun ?_⟩ <;> simp [hw]
    | ok result =>
      have hpast : s.past = true := by simp [past, outcome, hw]
      rcases s.check with error | _
      · refine ⟨hgo _, .goto ⟨rfl, rfl, rfl⟩ rfl rfl ?_ ?_ rfl nofun rfl rfl nofun ?_⟩ <;> simp [hw]
      · refine ⟨hgo _, .goto ⟨rfl, rfl, rfl⟩ rfl rfl ?_ ?_ rfl ?_ rfl rfl
          (fun _ => .inl hpast) ?_⟩ <;> simp [hw, failed, outcome]
  | deactivating outcome =>
    simp only [workerStep, hw]
    cases outcome with
    | error error =>
      refine ⟨⟨rfl, rfl, rfl, rfl⟩, .goto ⟨rfl, rfl, rfl⟩ rfl rfl ?_ ?_ rfl nofun rfl rfl nofun
        ?_⟩ <;> simp [hw]
    | ok result =>
      have hpast : s.past = true := by simp [past, outcome, hw]
      refine ⟨⟨rfl, rfl, rfl, rfl⟩, .goto ⟨rfl, rfl, rfl⟩ rfl rfl ?_ ?_ rfl ?_ rfl rfl
        (fun _ => .inl hpast) ?_⟩ <;> simp [hw, failed, outcome]
  | publishing result =>
    have hpast : s.past = true := by simp [past, outcome, hw]
    simp only [workerStep, hw]
    refine ⟨⟨rfl, rfl, rfl, rfl⟩, .goto ⟨rfl, rfl, rfl⟩ rfl rfl ?_ ?_ rfl ?_ rfl rfl
      (fun _ => .inl hpast) ?_⟩ <;> simp [hw, failed, outcome]
  | completing outcome =>
    simp only [workerStep, hw]
    exact ⟨⟨rfl, rfl, rfl, rfl⟩, .completed outcome hw rfl⟩
  | done =>
    simp only [workerStep, hw]
    exact ⟨⟨rfl, rfl, rfl, rfl⟩, .stay hw rfl⟩

/-- Blocks that are still to be pushed cost a worker that is to come to them. -/
def queueWork (queue : List Pcm) : Nat := (queue.map fun block => block.samples.length + 4).sum

/-- How many steps of the worker are left at most, once there is nothing to wait for. -/
def Stream.work (s : Stream ρ) : Nat := s.worker.ahead + queueWork s.queue

theorem queueWork_suffix {queue queue' : List Pcm} (h : queue' <:+ queue) :
    queueWork queue' ≤ queueWork queue := by
  obtain ⟨front, rfl⟩ := h
  simp [queueWork]

/-- While the flag is set, every step brings the worker nearer to the end. -/
theorem Stream.Moved.work (h : s.Moved s') (hf : s.finishRequested = true)
    (hdone : s.worker ≠ .done) : s'.work < s.work := by
  cases h with
  | stay done => exact absurd done hdone
  | fail error worker run ahead same queue =>
    calc s'.work = 5 + queueWork s'.queue := by rw [Stream.work, worker]; rfl
      _ ≤ 5 + queueWork s.queue := Nat.add_le_add_left (queueWork_suffix queue) 5
      _ < s.work := Nat.add_lt_add_right ahead _
  | goto same queue native run undone undone' clean block rest past ahead =>
    have := ahead hf
    simp only [Stream.work, queue]
    omega
  | take block same queue native worker worker' =>
    rcases worker with worker | worker <;>
      simp [Stream.work, worker, worker', queue, queueWork] <;> omega
  | chunk block chunk later ne same queue native worker worker' =>
    have := length_pos_iff.2 ne
    simp [Stream.work, worker, worker', queue]
    omega
  | pushed block receiver terminal pushed queue native worker worker' =>
    rcases worker' with worker' | worker' <;> simp [Stream.work, worker, worker', queue]
  | left outcome worker eq =>
    subst eq
    simp [Stream.work, worker, queueWork]
    omega
  | completed outcome worker eq =>
    subst eq
    simp [Stream.work, worker]

theorem Stream.Inside.taken (h : s.Inside s') : s'.taken = s.taken := by
  simp only [Stream.taken, h.calls]

theorem failed_of_worker {error : DiarizationError} (h : s.worker = .returning (.error error)) :
    s.failed = true := by
  simp [failed, outcome, h]

theorem Stream.WorkerInv.moved (hs : s.WorkerInv) (hin : s.Inside s') (h : s.Moved s') :
    s'.WorkerInv := by
  have htaken := hin.taken
  have hprefix : s'.pushed = s.pushed → s'.pushed <+: s'.taken := fun h => by
    rw [h, htaken]
    exact hs.pushed
  have hnative : s'.native = s.native → s'.native <+: samplesOf s'.taken := fun h => by
    rw [h, htaken]
    exact hs.native
  -- what has gone in of a block that the worker holds
  have hchunk : ∀ {block : Pcm} {chunk later : List F32},
    s.worker = .pushing block (chunk ++ later) →
      s.native ++ chunk <+: samplesOf s'.taken := by
    intro block chunk later hw
    have hfail : s.failed = false := by simp [Stream.failed, Stream.outcome, hw]
    have hheld := hs.held (by simp [hw]) hfail
    have hwhole := hs.whole hfail
    rw [hw] at hwhole hheld
    rw [htaken, hheld, samplesOf_append]
    refine List.IsPrefix.trans ⟨later, ?_⟩ (prefix_append _ _)
    rw [append_assoc]
    exact hwhole
  cases h with
  | stay done eq => exact eq ▸ hs
  | fail error worker run ahead same queue native =>
    have hfail := failed_of_worker worker
    have hundone : s.worker.isDone = false := by
      cases hw : s.worker with
      | done => rw [hw] at run; cases run
      | _ => rfl
    exact {
      receiver := by rw [same.receiver, hs.receiver, run, worker]; rfl
      terminal := by rw [same.terminal, hs.terminal, hundone, worker]; rfl
      asked := fun hp => by simp [Stream.past, Stream.outcome, worker] at hp
      pushed := hprefix same.pushed
      native := by
        rcases native with native | ⟨block, chunk, later, hw, native⟩
        · exact hnative native
        · exact native ▸ hchunk hw
      held := fun _ hf => nomatch hfail.symm.trans hf
      whole := fun hf => nomatch hfail.symm.trans hf }
  | goto same queue native run undone undone' clean block rest past ahead =>
    exact {
      receiver := by rw [same.receiver, hs.receiver, run]
      terminal := by rw [same.terminal, hs.terminal, undone, undone']
      asked := fun hp => by
        rw [hin.finishRequested]
        rcases past hp with h | ⟨-, h⟩
        · exact hs.asked h
        · exact h
      pushed := hprefix same.pushed
      native := hnative native
      held := fun hr hf => by
        obtain ⟨hf', hb, -⟩ := clean hf
        rw [htaken, same.pushed, queue, block, hs.held (run ▸ hr) hf', hb]
      whole := fun hf => by
        obtain ⟨hf', hb, hrest⟩ := clean hf
        rw [native, same.pushed, block, rest, ← hb, ← hs.whole hf', hrest] }
  | take block same queue native worker worker' =>
    have hrun : s.worker.inRun = true ∧ s.worker.isDone = false ∧ s.worker.block = [] ∧
        s.worker.rest = [] ∧ s.failed = false := by
      rcases worker with worker | worker <;> simp [Stream.failed, Stream.outcome, worker]
    obtain ⟨hrun, hundone, hb, hrest, hf⟩ := hrun
    exact {
      receiver := by rw [same.receiver, hs.receiver, hrun, worker']; rfl
      terminal := by rw [same.terminal, hs.terminal, hundone, worker']; rfl
      asked := fun hp => by simp [Stream.past, Stream.outcome, worker'] at hp
      pushed := hprefix same.pushed
      native := hnative native
      held := fun _ _ => by
        rw [htaken, same.pushed, worker', hs.held hrun hf, hb, queue]
        simp
      whole := fun _ => by
        have hwhole := hs.whole hf
        rw [hb, hrest, append_nil, append_nil] at hwhole
        rw [native, same.pushed, worker', hwhole]
        simp }
  | chunk block chunk later ne same queue native worker worker' =>
    have hf : s.failed = false := by simp [Stream.failed, Stream.outcome, worker]
    have hrun : s.worker.inRun = true := by simp [worker]
    exact {
      receiver := by rw [same.receiver, hs.receiver, worker, worker']; rfl
      terminal := by rw [same.terminal, hs.terminal, worker, worker']; rfl
      asked := fun hp => by simp [Stream.past, Stream.outcome, worker'] at hp
      pushed := hprefix same.pushed
      native := native ▸ hchunk worker
      held := fun _ _ => by
        have hheld := hs.held hrun hf
        rw [worker] at hheld
        rw [htaken, same.pushed, queue, worker', hheld]
        rfl
      whole := fun _ => by
        have hwhole := hs.whole hf
        rw [worker] at hwhole
        rw [native, same.pushed, worker', append_assoc]
        exact hwhole }
  | pushed block receiver terminal pushed queue native worker worker' =>
    have hf : s.failed = false := by simp [Stream.failed, Stream.outcome, worker]
    have hheld := hs.held (by simp [worker]) hf
    have hwhole := hs.whole hf
    have hnew : s'.worker.inRun = true ∧ s'.worker.isDone = false ∧ s'.worker.block = [] ∧
        s'.worker.rest = [] ∧ s'.past = false := by
      rcases worker' with worker' | worker' <;> simp [Stream.past, Stream.outcome, worker']
    obtain ⟨hrun', hundone', hb', hrest', hpast'⟩ := hnew
    rw [worker] at hheld hwhole
    have hheld : s'.taken = s'.pushed ++ s'.worker.block ++ s'.queue := by
      rw [htaken, pushed, hb', queue, hheld, append_nil]
      rfl
    exact {
      receiver := by rw [receiver, hs.receiver, worker, hrun']; rfl
      terminal := by rw [terminal, hs.terminal, worker, hundone']; rfl
      asked := fun hp => nomatch hpast'.symm.trans hp
      pushed := by
        rw [hheld, append_assoc]
        exact prefix_append _ _
      native := hnative native
      held := fun _ _ => hheld
      whole := fun _ => by
        rw [hrest', hb', native, pushed, append_nil (s.pushed ++ [block])]
        exact hwhole }
  | left outcome worker eq =>
    subst eq
    exact {
      receiver := rfl
      terminal := by rw [hs.terminal, worker]; rfl
      asked := fun hp => hs.asked (by simpa [Stream.past, Stream.outcome, worker] using hp)
      pushed := hs.pushed
      native := hs.native
      held := nofun
      whole := fun hf => by
        have hwhole := hs.whole (by simpa [Stream.failed, Stream.outcome, worker] using hf)
        rw [worker] at hwhole
        exact hwhole }
  | completed outcome worker eq =>
    subst eq
    exact {
      receiver := by rw [hs.receiver, worker]; rfl
      terminal := rfl
      asked := fun hp => hs.asked (by simpa [Stream.past, Stream.outcome, worker] using hp)
      pushed := hs.pushed
      native := hs.native
      held := nofun
      whole := fun hf => by
        have hwhole := hs.whole (by simpa [Stream.failed, Stream.outcome, worker] using hf)
        rw [worker] at hwhole
        exact hwhole }

/-- A step of the worker does not come between its two looks at the queue and the flag: where it
finds the flag set, no block has been accepted since it found the queue empty. -/
def Unmissed (s : Stream ρ) (act : Act ρ) : Prop :=
  act.isWorker = true → s.worker = .testing → s.finishRequested = true → s.queue = []

theorem Stream.Drained.moved (hd : s.Drained) (hw : s.WorkerInv) (hin : s.Inside s')
    (h : s.Moved s')
    (hmiss : s.worker = .testing → s.finishRequested = true → s.queue = []) : s'.Drained := by
  intro hp
  have hkeep : s'.pushed = s.pushed → s.past = true → s'.taken = s'.pushed := fun hpushed hpast => by
    rw [hin.taken, hpushed, hd hpast]
  cases h with
  | stay done eq => exact hd (eq ▸ hp) |> (eq ▸ ·)
  | fail error worker => simp [Stream.past, Stream.outcome, worker] at hp
  | goto same queue native run undone undone' clean block rest past ahead =>
    rcases past hp with hpast | ⟨htest, hflag⟩
    · exact hkeep same.pushed hpast
    · have hheld := hw.held (by simp [htest]) (by simp [Stream.failed, Stream.outcome, htest])
      rw [hin.taken, same.pushed, hheld, htest, hmiss htest hflag]
      simp
  | take block same queue native worker worker' =>
    simp [Stream.past, Stream.outcome, worker'] at hp
  | chunk block chunk later ne same queue native worker worker' =>
    simp [Stream.past, Stream.outcome, worker'] at hp
  | pushed block receiver terminal pushed queue native worker worker' =>
    rcases worker' with worker' | worker' <;> simp [Stream.past, Stream.outcome, worker'] at hp
  | left outcome worker eq =>
    subst eq
    exact hkeep rfl (by simpa [Stream.past, Stream.outcome, worker] using hp)
  | completed outcome worker eq =>
    subst eq
    exact hkeep rfl (by simpa [Stream.past, Stream.outcome, worker] using hp)

/-! ## The caller's steps -/

/-- An outcome that is there stays. -/
theorem Stream.Moved.terminal (h : s.Moved s') (hw : s.WorkerInv) {outcome : Outcome ρ}
    (ht : s.terminal = some outcome) : s' = s := by
  have hdone : s.worker = .done := by
    have hsome := hw.terminal
    rw [ht] at hsome
    cases hpc : s.worker with
    | done => rfl
    | _ => rw [hpc] at hsome; cases hsome
  cases h with
  | stay _ eq => exact eq
  | fail _ _ run => rw [hdone] at run; cases run
  | goto _ _ _ _ undone => rw [hdone] at undone; cases undone
  | take _ _ _ _ worker => rcases worker with worker | worker <;> cases hdone.symm.trans worker
  | chunk _ _ _ _ _ _ _ worker => cases hdone.symm.trans worker
  | pushed _ _ _ _ _ _ worker => cases hdone.symm.trans worker
  | left _ worker => cases hdone.symm.trans worker
  | completed _ worker => cases hdone.symm.trans worker

theorem Stream.CallerInv.moved (hs : s.CallerInv) (hw : s.WorkerInv) (hin : s.Inside s')
    (h : s.Moved s') : s'.CallerInv where
  asked hf ht := by
    have hnone : s.terminal = none := by
      rcases hterm : s.terminal with _ | outcome
      · rfl
      · rw [h.terminal hw hterm, hterm] at ht
        cases ht
    rw [hin.caller]
    exact hs.asked (hin.finishRequested ▸ hf) hnone
  waits hc := by
    rw [hin.finishRequested]
    exact hs.waits (hin.caller ▸ hc)
  refused := by
    rw [hin.calls]
    exact hs.refused
  same outcome ho := by
    have hterm := hs.same outcome (hin.returned ▸ ho)
    rw [h.terminal hw hterm, hterm]

/-- A step of a caller that does not wait, neither before nor after. -/
theorem Stream.CallerInv.free (hs : s.CallerInv) (hc : s.caller ≠ .waiting)
    (hc' : s'.caller ≠ .waiting) (hf : s'.finishRequested = s.finishRequested)
    (ht : s'.terminal = s.terminal) (hr : s'.returned = s.returned)
    (hcalls : ∀ call ∈ s'.calls, call ∈ s.calls ∨ ∀ refusal, call.outcome = .error refusal →
      refusal.samples = call.given) : s'.CallerInv where
  asked h h' := absurd (hs.asked (hf ▸ h) (ht ▸ h')) hc
  waits h := absurd h hc'
  refused call hcall := (hcalls call hcall).elim (hs.refused call) id
  same outcome ho := by
    rw [ht]
    exact hs.same outcome (hr ▸ ho)

theorem callerInv_reject (hs : s.CallerInv) (hc : s.caller ≠ .waiting) (samples : Pcm)
    (error : DiarizationError) : (s.reject samples error).CallerInv := by
  refine hs.free hc nofun rfl rfl rfl fun call hcall => ?_
  rcases mem_append.1 hcall with hcall | hcall
  · exact .inl hcall
  · obtain rfl := mem_singleton.1 hcall
    exact .inr fun refusal hrefusal => by cases hrefusal; rfl

theorem callerInv_trySend (hs : s.CallerInv) (hc : s.caller ≠ .waiting) (samples : Pcm) :
    (s.trySend samples).CallerInv := by
  rw [trySend]
  split
  · exact callerInv_reject hs hc ..
  split
  · exact callerInv_reject hs hc ..
  refine hs.free hc nofun rfl rfl rfl fun call hcall => ?_
  rcases mem_append.1 hcall with hcall | hcall
  · exact .inl hcall
  · obtain rfl := mem_singleton.1 hcall
    exact .inr nofun

/-- `finish` may look at the slot when the flag is set or there is an outcome. -/
theorem callerInv_collect (hf : s.terminal = none → s.finishRequested = true)
    (hrefused : ∀ call ∈ s.calls, ∀ refusal, call.outcome = .error refusal →
      refusal.samples = call.given)
    (hsame : ∀ outcome ∈ s.returned, s.terminal = some outcome) : s.collect.CallerInv := by
  rcases h : s.terminal with _ | outcome
  · rw [collect_none h]
    exact ⟨fun _ _ => rfl, fun _ => hf h, hrefused, hsame⟩
  rw [collect_some h]
  refine ⟨fun _ ht => (nomatch h.symm.trans ht), nofun, hrefused, fun o ho => ?_⟩
  rcases mem_append.1 ho with ho | ho
  · exact hsame o ho
  · rw [mem_singleton.1 ho]
    exact h

theorem Stream.CallerInv.outside (hs : s.CallerInv) (act : Act ρ) (hact : act.isWorker = false) :
    (s.step act).CallerInv := by
  cases act with
  | tryPush samples sampleRate =>
    rw [step, tryPush]
    cases hc : s.caller with
    | idle =>
      have hne : s.caller ≠ .waiting := by rw [hc]; nofun
      dsimp only
      split
      · exact callerInv_reject hs hne ..
      · exact hs.free hne nofun rfl rfl rfl fun _ => .inl
    | _ => exact hs
  | finish =>
    rw [step, finish]
    cases hc : s.caller with
    | idle =>
      dsimp only
      split
      · exact callerInv_collect (fun _ => rfl) hs.refused hs.same
      · rename_i ht
        exact callerInv_collect (fun h => by simp [h] at ht) hs.refused hs.same
    | _ => exact hs
  | drop =>
    rw [step, drop]
    cases hc : s.caller with
    | idle => exact hs.free (by rw [hc]; nofun) nofun rfl rfl rfl fun _ => .inl
    | _ => exact hs
  | caller =>
    rw [step, callerStep]
    cases hc : s.caller with
    | pushing samples sampleRate =>
      have hne : s.caller ≠ .waiting := by rw [hc]; nofun
      dsimp only
      split
      · exact callerInv_reject hs hne ..
      · exact hs.free hne nofun rfl rfl rfl fun _ => .inl
    | sending samples => exact callerInv_trySend hs (by rw [hc]; nofun) samples
    | waiting => exact callerInv_collect (fun _ => hs.waits hc) hs.refused hs.same
    | dropping => exact hs.free (by rw [hc]; nofun) nofun rfl rfl rfl fun _ => .inl
    | idle => exact hs
    | gone => exact hs
  | worker answer => cases hact
  | cancel => exact ⟨hs.asked, hs.waits, hs.refused, hs.same⟩
  | unload => exact ⟨hs.asked, hs.waits, hs.refused, hs.same⟩
  | tick elapsed => exact ⟨hs.asked, hs.waits, hs.refused, hs.same⟩

/-! ## Runs -/

theorem inv_step (act : Act ρ) (hs : s.CallerInv ∧ s.WorkerInv) :
    (s.step act).CallerInv ∧ (s.step act).WorkerInv := by
  obtain ⟨hc, hw⟩ := hs
  by_cases hact : act.isWorker = true
  · cases act with
    | worker answer =>
      obtain ⟨hin, hmoved⟩ := moves_workerStep (s := s) answer
      exact ⟨hc.moved hw hin hmoved, hw.moved hin hmoved⟩
    | _ => cases hact
  · have hact : act.isWorker = false := by simpa using hact
    exact ⟨hc.outside act hact, hw.outside (outside_step act hact)⟩

theorem drained_step (act : Act ρ) (hs : s.CallerInv ∧ s.WorkerInv) (hd : s.Drained)
    (hmiss : Unmissed s act) : (s.step act).Drained := by
  obtain ⟨hc, hw⟩ := hs
  by_cases hact : act.isWorker = true
  · cases act with
    | worker answer =>
      obtain ⟨hin, hmoved⟩ := moves_workerStep (s := s) answer
      exact hd.moved hw hin hmoved (hmiss rfl)
    | _ => cases hact
  · exact hd.outside hc hw (outside_step act (by simpa using hact))

/-- Where there is an outcome, no step changes it, or the status. -/
theorem settled_step (act : Act ρ) (hw : s.WorkerInv) {outcome : Outcome ρ}
    (ht : s.terminal = some outcome) :
    (s.step act).terminal = some outcome ∧ (s.step act).status = s.status := by
  cases act with
  | worker answer =>
    have hsame : s.step (.worker answer) = s :=
      (moves_workerStep (s := s) answer).2.terminal hw ht
    rw [hsame]
    exact ⟨ht, rfl⟩
  | tryPush samples sampleRate =>
    refine ⟨(outside_step (.tryPush samples sampleRate) rfl).terminal.trans ht, ?_⟩
    rw [step, tryPush]
    split
    · split <;> rfl
    · rfl
  | finish =>
    refine ⟨(outside_step .finish rfl).terminal.trans ht, ?_⟩
    rw [step, finish, collect_some ht]
    simp only [ht]
    split <;> rfl
  | drop =>
    refine ⟨(outside_step .drop rfl).terminal.trans ht, ?_⟩
    rw [Stream.step, Stream.drop]
    split <;> rfl
  | caller =>
    refine ⟨(outside_step .caller rfl).terminal.trans ht, ?_⟩
    rw [step, callerStep]
    split
    · split <;> rfl
    · rw [trySend]
      split
      · rfl
      · split <;> rfl
    · rw [collect_some ht]
    all_goals rfl
  | cancel => exact ⟨ht, rfl⟩
  | unload => exact ⟨ht, rfl⟩
  | tick elapsed => exact ⟨ht, rfl⟩

variable {acts : List (Act ρ)}

theorem settled_run (hs : s.CallerInv ∧ s.WorkerInv) {outcome : Outcome ρ}
    (ht : s.terminal = some outcome) (hrun : runAll next acts s = some s') :
    s'.status = s.status := by
  induction acts generalizing s with
  | nil =>
    cases hrun
    rfl
  | cons act acts ih =>
    obtain ⟨hterm, hstatus⟩ := settled_step act hs.2 ht
    exact (ih (inv_step act hs) hterm hrun).trans hstatus

/-- What `finish` has returned is not taken back. -/
theorem returned_step (act : Act ρ) : s.returned.length ≤ (s.step act).returned.length := by
  have hcollect : ∀ t : Stream ρ, t.returned.length ≤ t.collect.returned.length := fun t => by
    rcases h : t.terminal with _ | outcome
    · rw [collect_none h]
    · rw [collect_some h]
      simp
  cases act with
  | worker answer => exact (moves_workerStep (s := s) answer).1.returned ▸ Nat.le_refl _
  | tryPush samples sampleRate =>
    rw [step, tryPush]
    split
    · split <;> exact Nat.le_refl _
    · exact Nat.le_refl _
  | finish =>
    rw [step, finish]
    split
    · split
      · exact hcollect { s with status := .finishing, finishRequested := true }
      · exact hcollect s
    · exact Nat.le_refl _
  | drop =>
    rw [Stream.step, Stream.drop]
    split <;> exact Nat.le_refl _
  | caller =>
    rw [step, callerStep]
    split
    · split <;> exact Nat.le_refl _
    · rw [trySend]
      split
      · exact Nat.le_refl _
      · split <;> exact Nat.le_refl _
    · exact hcollect s
    all_goals exact Nat.le_refl _
  | cancel => exact Nat.le_refl _
  | unload => exact Nat.le_refl _
  | tick elapsed => exact Nat.le_refl _

theorem returned_run (hrun : runAll next acts s = some s') :
    s.returned.length ≤ s'.returned.length := by
  induction acts generalizing s with
  | nil =>
    cases hrun
    exact Nat.le_refl _
  | cons act acts ih => exact (returned_step act).trans (ih hrun)

/-- While `finish` waits, nobody but the worker moves the stream, and only the caller ends it. -/
theorem waiting_step {act : Act ρ} (hact : act.isWorker = false) (hc : s.caller = .waiting) :
    (s.step act).caller = .waiting ∧ (s.step act).worker = s.worker ∧
        (s.step act).queue = s.queue ∨
      s.returned.length < (s.step act).returned.length := by
  cases act with
  | worker answer => cases hact
  | caller =>
    simp only [Stream.step, Stream.callerStep, hc]
    rcases h : s.terminal with _ | outcome
    · rw [collect_none h]
      exact .inl ⟨rfl, rfl, rfl⟩
    · rw [collect_some h]
      right
      simp
  | tryPush samples sampleRate => exact .inl (by simp [Stream.step, Stream.tryPush, hc])
  | finish => exact .inl (by simp [Stream.step, Stream.finish, hc])
  | drop => exact .inl (by simp [Stream.step, Stream.drop, hc])
  | cancel => exact .inl ⟨hc, rfl, rfl⟩
  | unload => exact .inl ⟨hc, rfl, rfl⟩
  | tick elapsed => exact .inl ⟨hc, rfl, rfl⟩

/-- **`finish` returns**, once the worker has taken as many steps as it has work left. -/
theorem finish_returns (hs : s.CallerInv ∧ s.WorkerInv) (hc : s.caller = .waiting)
    (hwork : s.worker = .done ∨ s.work ≤ acts.countP Act.isWorker)
    (hrun : runAll next (acts ++ [.caller]) s = some s') :
    s.returned.length < s'.returned.length := by
  induction acts generalizing s with
  | nil =>
    have hdone : s.worker = .done := by
      rcases hwork with hdone | hzero
      · exact hdone
      have hahead : s.worker.ahead = 0 := Nat.eq_zero_of_le_zero
        ((Nat.le_add_right ..).trans hzero)
      cases hw : s.worker with
      | done => rfl
      | _ => rw [hw] at hahead; cases hahead
    obtain ⟨outcome, ht⟩ : ∃ outcome, s.terminal = some outcome :=
      Option.isSome_iff_exists.1 (by rw [hs.2.terminal, hdone]; rfl)
    cases hrun
    simp [step, callerStep, hc, collect_some ht]
  | cons act acts ih =>
    have hrest : runAll next (acts ++ [.caller]) (s.step act) = some s' := hrun
    by_cases hact : act.isWorker = true
    · cases act with
      | worker answer =>
        obtain ⟨hin, hmoved⟩ := moves_workerStep (s := s) answer
        have hc' : (s.step (.worker answer)).caller = .waiting := hin.caller.trans hc
        have hlen : (s.step (.worker answer)).returned = s.returned := hin.returned
        rw [← hlen]
        refine ih (inv_step _ hs) hc' ?_ hrest
        by_cases hdone : s.worker = .done
        · left
          simp [step, workerStep, hdone]
        right
        have hless : (s.step (.worker answer)).work < s.work :=
          hmoved.work (hs.1.waits hc) hdone
        have hle := hwork.resolve_left hdone
        rw [countP_cons_of_pos hact] at hle
        omega
      | _ => cases hact
    · rcases waiting_step (by simpa using hact) hc with ⟨hc', hworker, hqueue⟩ | hlt
      · refine (returned_step act).trans_lt (ih (inv_step _ hs) hc' ?_ hrest)
        rw [countP_cons_of_neg hact] at hwork
        rwa [work, hworker, hqueue]
      · exact hlt.trans_le (returned_run hrest)

/-- When `finish` has returned `Ok`, every accepted block is in the native session, once and in
order. -/
def Stream.Kept (s : Stream ρ) : Prop :=
  ∀ result, .ok result ∈ s.returned → s.pushed = s.taken ∧ s.native = samplesOf s.taken

/-- What a stream promises besides, in a state that a run has reached. -/
structure Stream.Promise (s : Stream ρ) : Prop where
  /-- At any moment what is in the native session are the first of the accepted samples: nothing of
  a refused block, nothing twice, nothing out of order. -/
  order : s.pushed <+: s.taken ∧ s.native <+: samplesOf s.taken
  /-- A refused block is handed back as it was. -/
  refused : ∀ call ∈ s.calls, ∀ refusal, call.outcome = .error refusal →
    refusal.samples = call.given
  /-- All calls of `finish` return the same. -/
  same : ∀ outcome ∈ s.returned, ∀ outcome' ∈ s.returned, outcome = outcome'
  /-- A `finish` that waits returns, whatever else happens, if the worker gets enough steps. -/
  returns : s.caller = .waiting → ∃ steps, ∀ acts s', steps ≤ acts.countP Act.isWorker →
    runAll next (acts ++ [.caller]) s = some s' → s.returned.length < s'.returned.length
  /-- Once `finish` has returned, the status stays as it is. -/
  settled : s.returned ≠ [] → ∀ acts s', runAll next acts s = some s' → s'.status = s.status

theorem kept_of_inv (hs : s.CallerInv ∧ s.WorkerInv) (hd : s.Drained) : s.Kept := by
  intro result hok
  have ht : s.terminal = some (.ok result) := hs.1.same _ hok
  have hdone : s.worker = .done := by
    have hsome := hs.2.terminal
    rw [ht] at hsome
    cases hpc : s.worker with
    | done => rfl
    | _ => rw [hpc] at hsome; cases hsome
  have hpushed : s.taken = s.pushed := hd (by simp [past, outcome, hdone, ht])
  have hwhole := hs.2.whole (by simp [failed, outcome, hdone, ht])
  refine ⟨hpushed.symm, ?_⟩
  rw [hpushed]
  simpa [hdone] using hwhole

theorem promise_of_inv (hs : s.CallerInv ∧ s.WorkerInv) : s.Promise where
  order := ⟨hs.2.pushed, hs.2.native⟩
  refused := hs.1.refused
  same outcome ho outcome' ho' :=
    Option.some.inj ((hs.1.same outcome ho).symm.trans (hs.1.same outcome' ho'))
  returns hc := ⟨s.work, fun _ _ hwork hrun => finish_returns hs hc (.inr hwork) hrun⟩
  settled hne acts s' hrun := by
    obtain ⟨outcome, ho⟩ := exists_mem_of_ne_nil _ hne
    exact settled_run hs (hs.1.same outcome ho) hrun

theorem inv_start (now : Nat) (deadline : Option Nat) (cancelled : Bool) :
    (start ρ now deadline cancelled).CallerInv ∧
      (start ρ now deadline cancelled).WorkerInv :=
  ⟨callerInv_start .., workerInv_start ..⟩

/-- **Accepted audio is kept** by every interleaving in which the worker never finds the flag set
with a block in the queue.  Whatever the interleaving, what is pushed is what was accepted, a block
that is refused is handed back, `finish` returns, and always the same, and the status stays. -/
theorem accepted_audio_kept (now : Nat) (deadline : Option Nat) (cancelled : Bool)
    (acts : List (Act ρ)) :
    Always next Stream.Promise acts (.start ρ now deadline cancelled) ∧
      (EveryStep next Unmissed acts (.start ρ now deadline cancelled) →
        Always next Stream.Kept acts (.start ρ now deadline cancelled)) := by
  constructor
  · refine Always.mono (fun s => promise_of_inv) (always_of_step (C := fun _ _ => True) ?_
      (inv_start now deadline cancelled) (everyStep_true acts _))
    exact fun s act hs _ => ⟨s.step act, rfl, inv_step act hs⟩
  intro hmiss
  have hrun : Always next (fun s => (s.CallerInv ∧ s.WorkerInv) ∧ s.Drained) acts
      (.start ρ now deadline cancelled) := by
    refine always_of_step ?_ ⟨inv_start now deadline cancelled, nofun⟩ hmiss
    rintro s act ⟨hs, hd⟩ hact
    exact ⟨s.step act, rfl, inv_step act hs, drained_step act hs hd hact⟩
  exact hrun.mono fun s h => kept_of_inv h.1 h.2

/-- The worker has pushed twenty milliseconds and finds the queue empty; the caller pushes one more
sample and asks for the end; the worker finds the flag set, and flushes what it has. -/
def missedRun : List (Act Unit) :=
  let first : Pcm :=
    { samples := List.replicate 320 ⟨0⟩, capacity := 320, fits := List.length_replicate.le }
  let second : Pcm := { samples := [⟨0⟩], capacity := 1, fits := Nat.le_refl 1 }
  let worker : Act Unit := .worker { code := some (.ok ()), results := some (.ok ()) }
  [.tryPush first 16000, .caller, .caller] ++ List.replicate 6 worker ++
    [.tryPush second 16000, .caller, .caller, .finish] ++ List.replicate 8 worker ++ [.caller]

/-- `finish` returns `Ok`, and one of the two blocks that were accepted has not been pushed. -/
theorem block_missed :
    ¬ ∀ acts, Always next Stream.Kept acts (.start Unit 0 none false) := by
  intro h
  obtain ⟨s, hrun, hkept⟩ := (h missedRun).final
  have hend : (runAll next missedRun (.start Unit 0 none false)).map
      (fun s => (s.returned, s.pushed.length, s.taken.length)) = some ([.ok ()], 1, 2) := by
    decide +kernel
  rw [hrun, Option.map_some, Option.some.injEq, Prod.mk.injEq, Prod.mk.injEq] at hend
  obtain ⟨hreturned, hpushed, htaken⟩ := hend
  have heq := (hkept () (by simp [hreturned])).1
  rw [heq, htaken] at hpushed
  cases hpushed

end Gen2.Diarization
