import Gen2.Executor.Limits
import Mathlib.Data.List.Nodup

/-!
# Numbers, and what becomes of an operation

An envelope's number is its place in the order of acceptance.  The channel holds the last of them,
the loop the one before, and the tasks have different numbers below that (`Numbered`); so an
operation is started at most once, or called off, and not both (`Fates`), and a result is what its
own operation came to.
-/

namespace Gen2.Tools

open List Executor

variable {τ : Type} {s s' : Executor τ}

/-- How many envelopes the loop has taken. -/
def Executor.base (s : Executor τ) : Nat := s.nextSeq - s.submitted.length

/-- The envelope the loop has in its hands. -/
@[simp] def LoopPc.envelope : LoopPc → Option Envelope
  | .taken envelope | .draining envelope | .executing envelope => some envelope
  | _ => none

/-- Where the numbers are. -/
structure Executor.Numbered (s : Executor τ) : Prop where
  le : s.submitted.length ≤ s.nextSeq
  queue : s.submitted.map (·.seq) = List.range' s.base s.submitted.length
  envelope : ∀ envelope, s.loop.envelope = some envelope →
    envelope.seq + 1 = s.base ∧ ∀ task ∈ s.tasks, task.seq < envelope.seq
  tasks : (s.tasks.map (·.seq)).Pairwise (· < ·)
  tasksLt : ∀ task ∈ s.tasks, task.seq < s.base
  accepted : s.loop ≠ .ended → s.accepted.length = s.nextSeq
  queueGuard : ∀ envelope ∈ s.submitted, s.accepted[envelope.seq]? = some envelope.guard
  envelopeGuard : ∀ envelope, s.loop.envelope = some envelope →
    s.accepted[envelope.seq]? = some envelope.guard
  taskGuard : ∀ task ∈ s.tasks, s.accepted[task.seq]? = some task.guard ∧ task.guard ≠ .exclusive
  left : s.loop = .ended → s.submitted = []

theorem numbered_new (limit : Nat) : (new τ limit).Numbered where
  le := Nat.le_refl 0
  queue := rfl
  envelope := nofun
  tasks := .nil
  tasksLt := nofun
  accepted _ := rfl
  queueGuard := nofun
  envelopeGuard := nofun
  taskGuard := nofun
  left := nofun

/-- A step that leaves the numbers where they are. -/
theorem Executor.Numbered.still (h : s.Numbered) (hsub : s'.submitted = s.submitted)
    (hnext : s'.nextSeq = s.nextSeq) (htasks : s'.tasks = s.tasks)
    (hacc : s'.accepted = s.accepted)
    (hloop : ∀ envelope, s'.loop.envelope = some envelope → s.loop.envelope = some envelope)
    (hend : s'.loop = .ended ↔ s.loop = .ended) : s'.Numbered := by
  have hbase : s'.base = s.base := by rw [base, base, hnext, hsub]
  exact {
    le := by rw [hsub, hnext]; exact h.le
    queue := by rw [hsub, hbase]; exact h.queue
    envelope := fun envelope he => by
      rw [hbase, htasks]
      exact h.envelope envelope (hloop envelope he)
    tasks := htasks ▸ h.tasks
    tasksLt := by rw [htasks, hbase]; exact h.tasksLt
    accepted := fun hne => by rw [hacc, hnext]; exact h.accepted fun he => hne (hend.2 he)
    queueGuard := by rw [hsub, hacc]; exact h.queueGuard
    envelopeGuard := fun envelope he => by
      rw [hacc]
      exact h.envelopeGuard envelope (hloop envelope he)
    taskGuard := by rw [htasks, hacc]; exact h.taskGuard
    left := fun he => by rw [hsub]; exact h.left (hend.1 he) }

/-- When the loop returns it leaves the channel, and what is in it keeps its numbers. -/
theorem Executor.Numbered.leave (h : s.Numbered) : s.leave.Numbered where
  le := Nat.zero_le _
  queue := rfl
  envelope := nofun
  tasks := h.tasks
  tasksLt task ht := (h.tasksLt task ht).trans_le (Nat.sub_le_sub_left (Nat.zero_le _) _)
  accepted hne := absurd rfl hne
  queueGuard := nofun
  envelopeGuard := nofun
  taskGuard := h.taskGuard
  left _ := rfl

theorem Executor.Numbered.loopMoved (h : s.Numbered) (hm : s.LoopMoved s') : s'.Numbered := by
  cases hm with
  | stay => exact h
  | poll loop => exact h.still rfl rfl rfl rfl nofun (by rw [loop]; simp)
  | take envelope submitted loop queue =>
    have hle := h.le
    have hqueue := h.queue
    rw [queue, map_cons, length_cons, range'_succ] at hqueue
    rw [queue, length_cons] at hle
    obtain ⟨hseq, hrest⟩ := cons.inj hqueue
    have hbase : s.nextSeq - submitted.length = s.base + 1 := by
      rw [base, queue, length_cons]
      omega
    exact {
      le := by dsimp only; omega
      queue := by
        rw [base]
        dsimp only
        rw [hbase]
        exact hrest
      envelope := fun other hother => by
        obtain rfl := Option.some.inj hother
        rw [base]
        dsimp only
        rw [hbase, hseq]
        exact ⟨rfl, h.tasksLt⟩
      tasks := h.tasks
      tasksLt := fun task ht => by
        rw [base]
        dsimp only
        rw [hbase]
        exact (h.tasksLt task ht).trans (Nat.lt_succ_self _)
      accepted := fun _ => h.accepted (by rw [loop]; nofun)
      queueGuard := fun other hother => h.queueGuard other (queue ▸ mem_cons_of_mem _ hother)
      envelopeGuard := fun other hother => by
        obtain rfl := Option.some.inj hother
        exact h.queueGuard envelope (queue ▸ mem_cons_self)
      taskGuard := h.taskGuard
      left := nofun }
  | close loop => exact h.still rfl rfl rfl rfl nofun (by rw [loop]; simp)
  | refuse envelope loop => exact h.still rfl rfl rfl rfl nofun (by rw [loop]; simp)
  | spawn envelope loop guard =>
    obtain ⟨hseq, hlt⟩ := h.envelope envelope (by rw [loop]; rfl)
    exact {
      le := h.le
      queue := h.queue
      envelope := nofun
      tasks := by
        rw [map_append, pairwise_append]
        refine ⟨h.tasks, pairwise_singleton .., fun i hi j hj => ?_⟩
        obtain ⟨task, ht, rfl⟩ := mem_map.1 hi
        rw [mem_singleton.1 hj]
        exact hlt task ht
      tasksLt := fun task ht => by
        rcases mem_append.1 ht with ht | ht
        · exact h.tasksLt task ht
        · rw [mem_singleton.1 ht]
          exact Nat.lt_of_succ_le hseq.le
      accepted := fun _ => h.accepted (by rw [loop]; nofun)
      queueGuard := h.queueGuard
      envelopeGuard := nofun
      taskGuard := fun task ht => by
        rcases mem_append.1 ht with ht | ht
        · exact h.taskGuard task ht
        · rw [mem_singleton.1 ht]
          exact ⟨h.envelopeGuard envelope (by rw [loop]; rfl), guard⟩
      left := nofun }
  | drain envelope loop =>
    exact h.still rfl rfl rfl rfl (fun other hother => by rw [loop]; exact hother)
      (by rw [loop]; simp)
  | report seq report done loop queue from_to =>
    refine h.still rfl rfl rfl rfl (fun envelope he => ?_) ?_
    · rcases from_to with ⟨-, rfl⟩ | ⟨-, rfl, -⟩
      · cases he
      · exact he
    · rcases from_to with ⟨hl | hl, rfl⟩ | ⟨-, rfl, -⟩
      · simp [hl]
      · simp [hl]
      · exact .rfl
  | skip envelope loop => exact h.still rfl rfl rfl rfl nofun (by rw [loop]; simp)
  | start envelope loop =>
    exact h.still rfl rfl rfl rfl (fun other hother => by rw [loop]; exact hother)
      (by rw [loop]; simp)
  | finish envelope output loop =>
    exact h.still rfl rfl rfl rfl nofun (by rw [loop]; simp)
  | last loop =>
    have hflush : s.flush.Numbered := h.still rfl rfl rfl rfl (fun _ he => he) .rfl
    exact hflush.leave

variable {index : Nat} {task : Task τ}

/-- A task that moves keeps its number. -/
theorem map_seq_set (ht : s.tasks[index]? = some task) (pc : TaskPc τ) :
    (s.tasks.set index { task with pc }).map (·.seq) = s.tasks.map (·.seq) := by
  refine ext_getElem? fun j => ?_
  rw [getElem?_map, getElem?_map, getElem?_set]
  by_cases hj : index = j
  · subst hj
    rw [if_pos rfl, if_pos (List.getElem?_eq_some_iff.1 ht).1, ht]
    rfl
  · rw [if_neg hj]

/-- After a task has moved, the other tasks are others. -/
theorem Executor.Numbered.mem_set (h : s.Numbered) {other : Task τ}
    (ht : s.tasks[index]? = some task) {pc : TaskPc τ}
    (ho : other ∈ s.tasks.set index { task with pc }) :
    other = { task with pc } ∨ other ∈ s.tasks ∧ other.seq ≠ task.seq := by
  obtain ⟨j, hj⟩ := mem_iff_getElem?.1 ho
  rw [getElem?_set] at hj
  by_cases hij : index = j
  · subst hij
    rw [if_pos rfl, if_pos (List.getElem?_eq_some_iff.1 ht).1] at hj
    exact .inl (Option.some.inj hj).symm
  rw [if_neg hij] at hj
  refine .inr ⟨mem_of_getElem? hj, fun heq => hij ?_⟩
  have hnodup : (s.tasks.map (·.seq)).Nodup := h.tasks.imp Nat.ne_of_lt
  have hi : (s.tasks.map (·.seq))[index]? = some task.seq := by rw [getElem?_map, ht]; rfl
  have hj' : (s.tasks.map (·.seq))[j]? = some task.seq := by
    rw [getElem?_map, hj, Option.map_some, heq]
  exact (List.getElem?_inj (List.getElem?_eq_some_iff.1 hi).1 hnodup).1 (hi.trans hj'.symm)

theorem Executor.Numbered.goTask {pc : TaskPc τ} (h : s.Numbered) (ht : s.tasks[index]? = some task)
    (htasks : s'.tasks = s.tasks.set index { task with pc }) (hsub : s'.submitted = s.submitted)
    (hnext : s'.nextSeq = s.nextSeq) (hacc : s'.accepted = s.accepted) (hloop : s'.loop = s.loop) :
    s'.Numbered := by
  have hbase : s'.base = s.base := by rw [base, base, hnext, hsub]
  have hmem : ∀ other ∈ s'.tasks, ∃ old ∈ s.tasks, old.seq = other.seq ∧
      old.guard = other.guard := fun other ho => by
    rcases h.mem_set ht (htasks ▸ ho) with rfl | ⟨ho, -⟩
    · exact ⟨task, mem_of_getElem? ht, rfl, rfl⟩
    · exact ⟨other, ho, rfl, rfl⟩
  exact {
    le := by rw [hsub, hnext]; exact h.le
    queue := by rw [hsub, hbase]; exact h.queue
    envelope := fun envelope he => by
      rw [hloop] at he
      obtain ⟨hseq, hlt⟩ := h.envelope envelope he
      refine ⟨by rw [hbase]; exact hseq, fun other ho => ?_⟩
      obtain ⟨old, hold, hs, -⟩ := hmem other ho
      exact hs ▸ hlt old hold
    tasks := by rw [htasks, map_seq_set ht]; exact h.tasks
    tasksLt := fun other ho => by
      obtain ⟨old, hold, hs, -⟩ := hmem other ho
      rw [hbase, ← hs]
      exact h.tasksLt old hold
    accepted := fun hne => by rw [hacc, hnext]; exact h.accepted (hloop ▸ hne)
    queueGuard := by rw [hsub, hacc]; exact h.queueGuard
    envelopeGuard := fun envelope he => by
      rw [hacc]
      exact h.envelopeGuard envelope (hloop ▸ he)
    taskGuard := fun other ho => by
      obtain ⟨old, hold, hs, hg⟩ := hmem other ho
      rw [hacc, ← hs, ← hg]
      exact h.taskGuard old hold
    left := fun he => by rw [hsub]; exact h.left (hloop ▸ he) }

theorem Executor.Numbered.taskMoved (h : s.Numbered) (ht : s.tasks[index]? = some task)
    (hm : s.TaskMoved index task s') : s'.Numbered := by
  cases hm with
  | stay => exact h
  | send report pc =>
    have hset : ∀ pc, ((s.report task.seq report).goTask index task pc).tasks =
        s.tasks.set index { task with pc } := fun pc => by
      rw [Executor.goTask, Executor.report]
      split <;> rfl
    refine h.goTask ht (hset _) ?_ ?_ ?_ ?_ <;>
      · rw [Executor.goTask, Executor.report]
        split <;> rfl
  | _ => exact h.goTask ht rfl rfl rfl rfl rfl

/-- A call of `submit` that gets the lock. -/
theorem Executor.Numbered.send (h : s.Numbered) (index : Nat) : (s.send index).Numbered := by
  rw [Executor.send]
  rcases s.entering[index]? with _ | guard
  · exact h
  dsimp only
  by_cases hclosed : s.closed = true
  · rw [if_pos hclosed]
    exact h.still rfl rfl rfl rfl (fun _ he => he) .rfl
  rw [if_neg hclosed]
  have hle := h.le
  by_cases hend : s.loop = .ended
  · rw [if_pos hend]
    exact {
      le := by dsimp only; omega
      queue := by rw [h.left hend]; rfl
      envelope := fun envelope he => by rw [hend] at he; cases he
      tasks := h.tasks
      tasksLt := fun task ht => (h.tasksLt task ht).trans_le (by
        rw [base, base]
        dsimp only
        omega)
      accepted := fun hne => absurd hend hne
      queueGuard := h.queueGuard
      envelopeGuard := fun envelope he => by rw [hend] at he; cases he
      taskGuard := h.taskGuard
      left := h.left }
  · rw [if_neg hend]
    have hacc := h.accepted hend
    have hbase : s.nextSeq + 1 - (s.submitted.length + 1) = s.base := by
      rw [base]
      omega
    have hget : ∀ {i : Nat} {g : ConcurrencyGuard}, s.accepted[i]? = some g →
        (s.accepted ++ [guard])[i]? = some g := fun hi => by
      rw [List.getElem?_append_left (List.getElem?_eq_some_iff.1 hi).1]
      exact hi
    exact {
      le := by simpa using hle
      queue := by
        rw [base]
        simp only [map_append, length_append, length_singleton, map_cons,
          map_nil]
        rw [hbase, h.queue, range'_concat, base]
        congr 2
        omega
      envelope := fun envelope he => by
        rw [base]
        simp only [length_append, length_singleton]
        rw [hbase]
        exact h.envelope envelope he
      tasks := h.tasks
      tasksLt := fun task ht => by
        rw [base]
        simp only [length_append, length_singleton]
        rw [hbase]
        exact h.tasksLt task ht
      accepted := fun _ => by simp [hacc]
      queueGuard := fun envelope he => by
        rcases mem_append.1 he with he | he
        · exact hget (h.queueGuard envelope he)
        · rw [mem_singleton.1 he, ← hacc]
          simp
      envelopeGuard := fun envelope he => hget (h.envelopeGuard envelope he)
      taskGuard := fun task ht => ⟨hget (h.taskGuard task ht).1, (h.taskGuard task ht).2⟩
      left := fun he => absurd he hend }

/-! ## Started, finished, called off -/

/-- The task has not looked at the flag. -/
@[simp] def TaskPc.before : TaskPc τ → Bool
  | .acquiring | .acquiringGpu | .checking => true
  | _ => false

/-- The loop has not looked at the flag for the envelope it has, or not for the last time. -/
@[simp] def LoopPc.fresh : LoopPc → Option Envelope
  | .taken envelope | .draining envelope => some envelope
  | _ => none

/-- What has become of the operations. -/
structure Executor.Fates (s : Executor τ) : Prop where
  nodup : (s.started ++ s.observed).Nodup
  lt : ∀ i ∈ s.started ++ s.observed, i < s.base
  fresh : ∀ task ∈ s.tasks, task.pc.before = true → task.seq ∉ s.started ++ s.observed
  freshEnvelope : ∀ envelope, s.loop.fresh = some envelope →
    envelope.seq ∉ s.started ++ s.observed
  begun : ∀ task ∈ s.tasks, task.pc.isRunning = true →
    task.seq ∈ s.started ∧ task.seq ∉ s.finished.map Prod.fst
  begunEnvelope : ∀ envelope, s.loop = .executing envelope →
    envelope.seq ∈ s.started ∧ envelope.seq ∉ s.finished.map Prod.fst
  finishedNodup : (s.finished.map Prod.fst).Nodup
  finished : ∀ x ∈ s.finished, x.1 ∈ s.started
  sending : ∀ task ∈ s.tasks, ∀ output, task.pc = .sending (some output) →
    (task.seq, output) ∈ s.finished
  done : ∀ i output, (i, some output) ∈ s.done → (i, output) ∈ s.finished

theorem fates_new (limit : Nat) : (new τ limit).Fates where
  nodup := .nil
  lt := nofun
  fresh := nofun
  freshEnvelope := nofun
  begun := nofun
  begunEnvelope := nofun
  finishedNodup := .nil
  finished := nofun
  sending := nofun
  done := nofun

/-- A step that starts, finishes and calls off nothing. -/
theorem Executor.Fates.still (h : s.Fates) (hbase : s.base ≤ s'.base)
    (hstart : s'.started = s.started) (hobs : s'.observed = s.observed)
    (hfin : s'.finished = s.finished) (htasks : s'.tasks = s.tasks)
    (hfresh : ∀ envelope, s'.loop.fresh = some envelope →
      envelope.seq ∉ s.started ++ s.observed)
    (hexec : ∀ envelope, s'.loop = .executing envelope → s.loop = .executing envelope)
    (hdone : ∀ x ∈ s'.done, x ∈ s.done) : s'.Fates where
  nodup := by rw [hstart, hobs]; exact h.nodup
  lt i hi := by
    rw [hstart, hobs] at hi
    exact (h.lt i hi).trans_le hbase
  fresh := by rw [htasks, hstart, hobs]; exact h.fresh
  freshEnvelope := by rw [hstart, hobs]; exact hfresh
  begun := by rw [htasks, hstart, hfin]; exact h.begun
  begunEnvelope envelope he := by
    rw [hstart, hfin]
    exact h.begunEnvelope envelope (hexec envelope he)
  finishedNodup := hfin ▸ h.finishedNodup
  finished := by rw [hfin, hstart]; exact h.finished
  sending := by rw [htasks, hfin]; exact h.sending
  done i output hx := by
    rw [hfin]
    exact h.done i output (hdone _ hx)

variable {xs ys : List Nat} {i : Nat}

theorem nodup_concat_right (h : (xs ++ ys).Nodup) (hi : i ∉ xs ++ ys) :
    (xs ++ (ys ++ [i])).Nodup := by
  rw [← append_assoc]
  exact nodup_append.2 ⟨h, nodup_singleton i,
    fun a ha b hb => by rintro rfl; exact hi (mem_singleton.1 hb ▸ ha)⟩

theorem nodup_concat_left (h : (xs ++ ys).Nodup) (hi : i ∉ xs ++ ys) : (xs ++ [i] ++ ys).Nodup := by
  rw [append_assoc]
  exact (perm_append_comm.append_left xs).nodup_iff.1 (nodup_concat_right h hi)

theorem mem_concat_right {j : Nat} : j ∈ xs ++ (ys ++ [i]) ↔ j ∈ xs ++ ys ∨ j = i := by
  simp [or_assoc]

theorem mem_concat_left {j : Nat} : j ∈ xs ++ [i] ++ ys ↔ j ∈ xs ++ ys ∨ j = i := by
  simp only [mem_append, mem_singleton]
  tauto

/-- What has not been started has not finished. -/
theorem Executor.Fates.unfinished (h : s.Fates) (hi : i ∉ s.started ++ s.observed) :
    i ∉ s.finished.map Prod.fst := by
  intro hmem
  obtain ⟨x, hx, rfl⟩ := mem_map.1 hmem
  exact hi (mem_append_left _ (h.finished x hx))

/-- One more operation finishes. -/
theorem Executor.Fates.nodup_finished (h : s.Fates) (hi : i ∉ s.finished.map Prod.fst)
    (output : τ) : ((s.finished ++ [(i, output)]).map Prod.fst).Nodup := by
  rw [map_append]
  refine nodup_append.2 ⟨h.finishedNodup, nodup_singleton _, fun a ha b hb hab => ?_⟩
  rw [hab, mem_singleton.1 hb] at ha
  exact hi ha

/-- The loop calls off the operation it has. -/
theorem Executor.Fates.callOff {envelope : Envelope} (h : s.Fates) (hn : s.Numbered)
    (hfresh : s.loop.fresh = some envelope) (henvelope : s.loop.envelope = some envelope)
    (hbase : s'.base = s.base) (hstart : s'.started = s.started)
    (hobs : s'.observed = s.observed ++ [envelope.seq]) (hfin : s'.finished = s.finished)
    (htasks : s'.tasks = s.tasks) (hloop : s'.loop = .closing) (hdone : s'.done = s.done) :
    s'.Fates := by
  obtain ⟨hseq, hlt⟩ := hn.envelope envelope henvelope
  exact {
    nodup := by rw [hstart, hobs]; exact nodup_concat_right h.nodup (h.freshEnvelope _ hfresh)
    lt := fun i hi => by
      rw [hstart, hobs] at hi
      rw [hbase]
      rcases mem_concat_right.1 hi with hi | rfl
      · exact h.lt i hi
      · exact Nat.lt_of_succ_le hseq.le
    fresh := fun task ht hb hmem => by
      rw [htasks] at ht
      rw [hstart, hobs] at hmem
      rcases mem_concat_right.1 hmem with hmem | heq
      · exact h.fresh task ht hb hmem
      · exact absurd (hlt task ht) (by omega)
    freshEnvelope := by rw [hloop]; nofun
    begun := by rw [htasks, hstart, hfin]; exact h.begun
    begunEnvelope := by rw [hloop]; nofun
    finishedNodup := hfin ▸ h.finishedNodup
    finished := by rw [hfin, hstart]; exact h.finished
    sending := by rw [htasks, hfin]; exact h.sending
    done := by rw [hdone, hfin]; exact h.done }

theorem Executor.Fates.leave (h : s.Fates) : s.leave.Fates :=
  h.still (Nat.sub_le_sub_left (Nat.zero_le _) _) rfl rfl rfl rfl nofun nofun nofun

theorem Executor.Fates.loopMoved (h : s.Fates) (hn : s.Numbered) (hm : s.LoopMoved s') :
    s'.Fates := by
  cases hm with
  | stay => exact h
  | poll loop => exact h.still (Nat.le_refl _) rfl rfl rfl rfl nofun nofun fun _ hx => hx
  | take envelope submitted loop queue =>
    have hle := hn.le
    have hqueue := hn.queue
    rw [queue, map_cons, length_cons, range'_succ] at hqueue
    have hseq := (cons.inj hqueue).1
    refine h.still ?_ rfl rfl rfl rfl (fun other hother => ?_) nofun fun _ hx => hx
    · rw [base, base, queue, length_cons]
      dsimp only
      omega
    · obtain rfl := Option.some.inj hother
      exact fun hmem => absurd (h.lt _ hmem) (by omega)
  | close loop => exact h.still (Nat.le_refl _) rfl rfl rfl rfl nofun nofun fun _ hx => hx
  | refuse envelope loop =>
    exact h.callOff hn (by rw [loop]; rfl) (by rw [loop]; rfl) rfl rfl rfl rfl rfl rfl rfl
  | spawn envelope loop guard =>
    have hfresh := h.freshEnvelope envelope (by rw [loop]; rfl)
    have hmem : ∀ task ∈ s.tasks ++ [⟨envelope.seq, envelope.guard, .acquiring⟩],
        task ∈ s.tasks ∨ task.seq = envelope.seq ∧ task.pc = .acquiring := by
      intro task ht
      rcases mem_append.1 ht with ht | ht
      · exact .inl ht
      · rw [mem_singleton.1 ht]
        exact .inr ⟨rfl, rfl⟩
    exact {
      nodup := h.nodup
      lt := h.lt
      fresh := fun task ht hb => by
        rcases hmem task ht with ht | ⟨hseq, -⟩
        · exact h.fresh task ht hb
        · rw [hseq]
          exact hfresh
      freshEnvelope := nofun
      begun := fun task ht hr => by
        rcases hmem task ht with ht | ⟨-, hpc⟩
        · exact h.begun task ht hr
        · rw [hpc] at hr
          cases hr
      begunEnvelope := nofun
      finishedNodup := h.finishedNodup
      finished := h.finished
      sending := fun task ht output hs => by
        rcases hmem task ht with ht | ⟨-, hpc⟩
        · exact h.sending task ht output hs
        · rw [hpc] at hs
          cases hs
      done := h.done }
  | drain envelope loop =>
    refine h.still (Nat.le_refl _) rfl rfl rfl rfl (fun other hother => ?_) nofun fun _ hx => hx
    obtain rfl := Option.some.inj hother
    exact h.freshEnvelope envelope (by rw [loop]; rfl)
  | report seq report done loop queue from_to =>
    refine h.still (Nat.le_refl _) rfl rfl rfl rfl (fun envelope he => ?_) (fun envelope he => ?_)
      fun x hx => queue ▸ mem_cons_of_mem _ hx
    · rcases from_to with ⟨-, rfl⟩ | ⟨-, rfl, -⟩
      · cases he
      · exact h.freshEnvelope envelope he
    · rcases from_to with ⟨-, rfl⟩ | ⟨-, rfl, -⟩
      · cases he
      · exact he
  | skip envelope loop =>
    exact h.callOff hn (by rw [loop]; rfl) (by rw [loop]; rfl) rfl rfl rfl rfl rfl rfl rfl
  | start envelope loop =>
    have hfresh := h.freshEnvelope envelope (by rw [loop]; rfl)
    obtain ⟨hseq, hlt⟩ := hn.envelope envelope (by rw [loop]; rfl)
    exact {
      nodup := nodup_concat_left h.nodup hfresh
      lt := fun i hi => by
        rcases mem_concat_left.1 hi with hi | rfl
        · exact h.lt i hi
        · exact Nat.lt_of_succ_le hseq.le
      fresh := fun task ht hb hmem => by
        rcases mem_concat_left.1 hmem with hmem | heq
        · exact h.fresh task ht hb hmem
        · exact absurd (hlt task ht) (by omega)
      freshEnvelope := nofun
      begun := fun task ht hr => ⟨mem_append_left _ (h.begun task ht hr).1,
        (h.begun task ht hr).2⟩
      begunEnvelope := fun other hother => by
        obtain rfl := LoopPc.executing.inj hother
        exact ⟨mem_append_right _ (mem_singleton.2 rfl), h.unfinished hfresh⟩
      finishedNodup := h.finishedNodup
      finished := fun x hx => mem_append_left _ (h.finished x hx)
      sending := h.sending
      done := h.done }
  | finish envelope output loop =>
    obtain ⟨hstart, hunfinished⟩ := h.begunEnvelope envelope loop
    obtain ⟨hseq, hlt⟩ := hn.envelope envelope (by rw [loop]; rfl)
    exact {
      nodup := h.nodup
      lt := h.lt
      fresh := h.fresh
      freshEnvelope := nofun
      begun := fun task ht hr => by
        refine ⟨(h.begun task ht hr).1, fun hmem => ?_⟩
        rw [show (flush _).finished = s.finished ++ [(envelope.seq, output)] from rfl,
          map_append, mem_append] at hmem
        rcases hmem with hmem | hmem
        · exact (h.begun task ht hr).2 hmem
        · exact absurd (hlt task ht) (by rw [mem_singleton.1 hmem]; exact lt_irrefl _)
      begunEnvelope := nofun
      finishedNodup := h.nodup_finished hunfinished output
      finished := fun x hx => by
        rcases mem_append.1 hx with hx | hx
        · exact h.finished x hx
        · rw [mem_singleton.1 hx]
          exact hstart
      sending := fun task ht value hs => mem_append_left _ (h.sending task ht value hs)
      done := fun i value hx => mem_append_left _ (h.done i value hx) }
  | last =>
    exact h.still (Nat.sub_le_sub_left (Nat.zero_le _) _) rfl rfl rfl rfl nofun nofun nofun

/-- A move of a task that starts, finishes and calls off nothing. -/
theorem Executor.Fates.quiet {pc : TaskPc τ} (h : s.Fates) (hn : s.Numbered)
    (ht : s.tasks[index]? = some task) (htasks : s'.tasks = s.tasks.set index { task with pc })
    (hbase : s'.base = s.base) (hstart : s'.started = s.started) (hobs : s'.observed = s.observed)
    (hfin : s'.finished = s.finished) (hloop : s'.loop = s.loop)
    (hbefore : pc.before = true → task.pc.before = true) (hrun : pc.isRunning = false)
    (hsend : ∀ output, pc ≠ .sending (some output))
    (hdone : ∀ i output, (i, some output) ∈ s'.done → (i, output) ∈ s.finished) : s'.Fates where
  nodup := by rw [hstart, hobs]; exact h.nodup
  lt i hi := by
    rw [hstart, hobs] at hi
    exact hbase ▸ h.lt i hi
  fresh other ho hb := by
    rw [hstart, hobs]
    rcases hn.mem_set ht (htasks ▸ ho) with rfl | ⟨ho, -⟩
    · exact h.fresh task (mem_of_getElem? ht) (hbefore hb)
    · exact h.fresh other ho hb
  freshEnvelope envelope he := by
    rw [hstart, hobs]
    exact h.freshEnvelope envelope (hloop ▸ he)
  begun other ho hr := by
    rw [hstart, hfin]
    rcases hn.mem_set ht (htasks ▸ ho) with rfl | ⟨ho, -⟩
    · exact absurd hr (by rw [hrun]; nofun)
    · exact h.begun other ho hr
  begunEnvelope envelope he := by
    rw [hstart, hfin]
    exact h.begunEnvelope envelope (hloop ▸ he)
  finishedNodup := hfin ▸ h.finishedNodup
  finished := by rw [hfin, hstart]; exact h.finished
  sending other ho output hs := by
    rw [hfin]
    rcases hn.mem_set ht (htasks ▸ ho) with rfl | ⟨ho, -⟩
    · exact absurd hs (hsend output)
    · exact h.sending other ho output hs
  done i output hx := hfin ▸ hdone i output hx

theorem Executor.Fates.taskMoved (h : s.Fates) (hn : s.Numbered) (ht : s.tasks[index]? = some task)
    (hm : s.TaskMoved index task s') : s'.Fates := by
  have hmem := mem_of_getElem? ht
  have hlt := hn.tasksLt task hmem
  have henv : ∀ envelope, s.loop.envelope = some envelope → envelope.seq ≠ task.seq :=
    fun envelope he => ((hn.envelope envelope he).2 task hmem).ne'
  have hfreshEnv : ∀ envelope, s.loop.fresh = some envelope → envelope.seq ≠ task.seq := by
    intro envelope he
    refine henv envelope ?_
    cases hl : s.loop <;> rw [hl] at he <;> first | exact he | cases he
  cases hm with
  | stay => exact h
  | acquire pc =>
    refine h.quiet hn ht rfl rfl rfl rfl rfl rfl (fun _ => by rw [pc]; rfl) ?_ ?_ h.done
    · cases task.needsGpu <;> rfl
    · cases task.needsGpu <;> simp
  | acquireGpu pc =>
    exact h.quiet hn ht rfl rfl rfl rfl rfl rfl (fun _ => by rw [pc]; rfl) rfl (by simp) h.done
  | releaseGpu pc => exact h.quiet hn ht rfl rfl rfl rfl rfl rfl (by simp) rfl (by simp) h.done
  | release pc => exact h.quiet hn ht rfl rfl rfl rfl rfl rfl (by simp) rfl (by simp) h.done
  | send report pc =>
    have hset : ∀ pc, ((s.report task.seq report).goTask index task pc).tasks =
        s.tasks.set index { task with pc } := fun pc => by
      rw [Executor.goTask, Executor.report]
      split <;> rfl
    refine h.quiet hn ht (hset _) ?_ ?_ ?_ ?_ ?_ ?_ ?_ ?_ ?_
    iterate 5
      · rw [Executor.goTask, Executor.report]
        split <;> rfl
    · cases task.needsGpu <;> simp
    · cases task.needsGpu <;> rfl
    · cases task.needsGpu <;> simp
    intro i output hx
    rw [Executor.goTask, Executor.report] at hx
    by_cases hend : s.loop = .ended
    · rw [if_pos hend] at hx
      exact h.done i output hx
    rw [if_neg hend] at hx
    rcases mem_append.1 hx with hx | hx
    · exact h.done i output hx
    · obtain ⟨rfl, rfl⟩ := Prod.mk.inj (mem_singleton.1 hx)
      exact h.sending task hmem output pc
  | observe pc =>
    have hfresh := h.fresh task hmem (by rw [pc]; rfl)
    exact {
      nodup := nodup_concat_right h.nodup hfresh
      lt := fun i hi => by
        rcases mem_concat_right.1 hi with hi | rfl
        · exact h.lt i hi
        · exact hlt
      fresh := fun other ho hb hi => by
        rcases hn.mem_set ht ho with rfl | ⟨ho, hne⟩
        · cases hb
        · rcases mem_concat_right.1 hi with hi | heq
          · exact h.fresh other ho hb hi
          · exact hne heq
      freshEnvelope := fun envelope he hi => by
        rcases mem_concat_right.1 hi with hi | heq
        · exact h.freshEnvelope envelope he hi
        · exact hfreshEnv envelope he heq
      begun := fun other ho hr => by
        rcases hn.mem_set ht ho with rfl | ⟨ho, -⟩
        · cases hr
        · exact h.begun other ho hr
      begunEnvelope := h.begunEnvelope
      finishedNodup := h.finishedNodup
      finished := h.finished
      sending := fun other ho output hs => by
        rcases hn.mem_set ht ho with rfl | ⟨ho, -⟩
        · cases hs
        · exact h.sending other ho output hs
      done := h.done }
  | start pc =>
    have hfresh := h.fresh task hmem (by rw [pc]; rfl)
    have hunfinished := h.unfinished hfresh
    exact {
      nodup := nodup_concat_left h.nodup hfresh
      lt := fun i hi => by
        rcases mem_concat_left.1 hi with hi | rfl
        · exact h.lt i hi
        · exact hlt
      fresh := fun other ho hb hi => by
        rcases hn.mem_set ht ho with rfl | ⟨ho, hne⟩
        · cases hb
        · rcases mem_concat_left.1 hi with hi | heq
          · exact h.fresh other ho hb hi
          · exact hne heq
      freshEnvelope := fun envelope he hi => by
        rcases mem_concat_left.1 hi with hi | heq
        · exact h.freshEnvelope envelope he hi
        · exact hfreshEnv envelope he heq
      begun := fun other ho hr => by
        rcases hn.mem_set ht ho with rfl | ⟨ho, -⟩
        · exact ⟨mem_append_right _ (mem_singleton.2 rfl), hunfinished⟩
        · exact ⟨mem_append_left _ (h.begun other ho hr).1, (h.begun other ho hr).2⟩
      begunEnvelope := fun envelope he => ⟨mem_append_left _ (h.begunEnvelope envelope he).1,
        (h.begunEnvelope envelope he).2⟩
      finishedNodup := h.finishedNodup
      finished := fun x hx => mem_append_left _ (h.finished x hx)
      sending := fun other ho output hs => by
        rcases hn.mem_set ht ho with rfl | ⟨ho, -⟩
        · cases hs
        · exact h.sending other ho output hs
      done := h.done }
  | finish output pc =>
    obtain ⟨hstart, hunfinished⟩ := h.begun task hmem (by rw [pc]; rfl)
    have hkeep : ∀ {i : Nat}, i ∉ s.finished.map Prod.fst → i ≠ task.seq →
        i ∉ (s.finished ++ [(task.seq, output)]).map Prod.fst := by
      intro i hi hne hmem
      rw [map_append, mem_append] at hmem
      rcases hmem with hmem | hmem
      · exact hi hmem
      · exact hne (mem_singleton.1 hmem)
    exact {
      nodup := h.nodup
      lt := h.lt
      fresh := fun other ho hb => by
        rcases hn.mem_set ht ho with rfl | ⟨ho, -⟩
        · cases hb
        · exact h.fresh other ho hb
      freshEnvelope := h.freshEnvelope
      begun := fun other ho hr => by
        rcases hn.mem_set ht ho with rfl | ⟨ho, hne⟩
        · cases hr
        · exact ⟨(h.begun other ho hr).1, hkeep (h.begun other ho hr).2 hne⟩
      begunEnvelope := fun envelope he => by
        have he' : s.loop = .executing envelope := he
        exact ⟨(h.begunEnvelope envelope he).1, hkeep (h.begunEnvelope envelope he).2
          (henv envelope (by rw [he']; rfl))⟩
      finishedNodup := h.nodup_finished hunfinished output
      finished := fun x hx => by
        rcases mem_append.1 hx with hx | hx
        · exact h.finished x hx
        · rw [mem_singleton.1 hx]
          exact hstart
      sending := fun other ho value hs => by
        rcases hn.mem_set ht ho with rfl | ⟨ho, -⟩
        · obtain rfl := Option.some.inj (TaskPc.sending.inj hs)
          exact mem_append_right _ (mem_singleton.2 rfl)
        · exact mem_append_left _ (h.sending other ho value hs)
      done := fun i value hx => mem_append_left _ (h.done i value hx) }

end Gen2.Tools
