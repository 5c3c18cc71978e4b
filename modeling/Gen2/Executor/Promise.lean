import Gen2.Executor.Sound
import Gen2.Lib.Fair

/-!
# What the executor promises

* `inv_step`: every step of every thread keeps the invariants.
* `Inv.live`: while the executor is not settled some thread can move.
* `work_loopMoved`, `work_taskMoved`: a thread that moves leaves less to do.
* `executor_promise` is the result.
-/

namespace Gen2.Tools

open Lib List Executor

variable {τ : Type} {s s' : Executor τ} {limit : Nat}

/-! ## The invariants together -/

/-- What every run keeps. -/
structure Executor.Inv (limit : Nat) (s : Executor τ) : Prop where
  limits : s.Limits (max limit 1)
  numbered : s.Numbered
  fates : s.Fates
  ordered : s.Ordered
  flight : s.Flight
  whole : s.Whole

theorem inv_new (limit : Nat) : (new τ limit).Inv limit :=
  ⟨limits_new limit, numbered_new limit, fates_new limit, ordered_new limit, flight_new limit,
    whole_new limit⟩

theorem Executor.Inv.sound (h : s.Inv limit) : s.Sound limit :=
  ⟨h.limits, h.numbered, h.fates, h.ordered, h.flight⟩

theorem Executor.Sound.inv (h : s.Sound limit) (hw : s.Whole) : s.Inv limit :=
  ⟨h.limits, h.numbered, h.fates, h.ordered, h.flight, hw⟩

theorem Executor.Inv.loopMoved (h : s.Inv limit) (hm : s.LoopMoved s') : s'.Inv limit :=
  (h.sound.loopMoved hm).inv (h.whole.loopMoved h.limits h.numbered h.ordered h.flight hm)

theorem Executor.Inv.taskMoved (h : s.Inv limit) {index : Nat} {task : Task τ}
    (ht : s.tasks[index]? = some task) (hm : s.TaskMoved index task s') : s'.Inv limit :=
  (h.sound.taskMoved ht hm).inv (h.whole.taskMoved h.numbered ht hm)

/-- The loop may return when the receiver is gone. -/
theorem Executor.Inv.leave (h : s.Inv limit) (hr : s.receiver = false) : s.leave.Inv limit where
  limits := h.limits.leave
  numbered := h.numbered.leave
  fates := h.fates.leave
  ordered := h.ordered.leave
  flight := flight_leave
  whole := h.whole.still id rfl rfl rfl id (fun _ _ => .inl) (fun _ => nofun) (fun _ => nofun)
    fun _ htrue => absurd hr (by
      have htrue : s.receiver = true := htrue
      rw [htrue]
      nofun)

/-- A caller may look at the flag, set it, close the channel and drop the receiver. -/
theorem Executor.Inv.caller (h : s.Inv limit) (entering : List ConcurrencyGuard)
    {cancelled closed receiver : Bool} (hcancel : cancelled = false → s.cancelled = false)
    (hclosed : s.closed = true → closed = true) (hr : receiver = true → s.receiver = true) :
    ({ s with entering, cancelled, closed, receiver } : Executor τ).Inv limit := by
  refine (h.sound.caller entering hcancel hr).inv ?_
  exact h.whole.still hcancel rfl rfl rfl hr (fun _ _ => .inl) (fun _ _ => .inl)
    (fun hf hl => ⟨hclosed (h.whole.closing (hcancel hf) hl).1,
      (h.whole.closing (hcancel hf) hl).2⟩)
    fun hf hrec hl => ⟨hclosed (h.whole.ended (hcancel hf) (hr hrec) hl).1,
      (h.whole.ended (hcancel hf) (hr hrec) hl).2⟩

theorem Executor.Inv.send (h : s.Inv limit) (index : Nat) : (s.send index).Inv limit := by
  refine (h.sound.send index).inv ?_
  rcases send_cases (s := s) index with heq | ⟨guard, -, ⟨-, heq⟩ | ⟨hopen, hend, heq⟩ |
    ⟨hopen, hend, heq⟩⟩
  · rw [heq]
    exact h.whole
  · rw [heq]
    exact (h.caller (s.entering.eraseIdx index) id id id).whole
  · rw [heq]
    exact h.whole.still id rfl rfl rfl id (fun _ _ => .inl) (fun _ _ => .inl)
      h.whole.closing fun hf hr _ => absurd (h.whole.ended hf hr hend).1 (by rw [hopen]; nofun)
  · rw [heq]
    exact h.whole.still id rfl rfl rfl id (fun _ _ => .inl) (fun _ _ => .inl)
      (fun hf hl => absurd (h.whole.closing hf hl).1 (by rw [hopen]; nofun))
      fun _ _ hl => absurd hl hend

/-- **Every step keeps the invariants.** -/
theorem inv_step (act : Act τ) (h : s.Inv limit) : (s.step act).Inv limit := by
  cases act with
  | submit guard =>
    rw [step, submit]
    split
    · exact h
    · exact h.caller _ id id id
  | send index => exact h.send index
  | cancel => exact h.caller s.entering (by simp) id id
  | close => exact h.caller s.entering id (fun _ => rfl) id
  | drop => exact h.caller s.entering id (fun _ => rfl) (by simp)
  | loop output =>
    rcases moved_loopStep (s := s) output with hm | ⟨-, t, hm, hr, heq⟩
    · exact h.loopMoved hm
    · rw [step, heq]
      exact (h.loopMoved hm).leave hr
  | task index output =>
    rcases moved_taskStep (s := s) index output with ⟨-, heq⟩ | ⟨task, ht, hm⟩
    · rw [step, heq]
      exact h
    · exact h.taskMoved ht hm

/-! ## Progress -/

/-- The executor is at rest: the loop has returned, or it waits for an envelope and all it took has
come to an end. -/
def Executor.Settled (s : Executor τ) : Prop :=
  s.loop = .ended ∨ s.loop = .polling ∧ s.submitted = [] ∧ s.closed = false ∧ s.done = [] ∧
    ∀ task ∈ s.tasks, task.pc.isGone = true

@[simp] def LoopPc.rank : LoopPc → Nat
  | .taken _ => 13
  | .draining _ => 5
  | .executing _ => 4
  | .selecting => 3
  | .polling => 2
  | .closing => 1
  | .ended => 0

@[simp] def TaskPc.rank : TaskPc τ → Nat
  | .acquiring => 9
  | .acquiringGpu => 8
  | .checking => 7
  | .running => 6
  | .sending _ => 5
  | .releasingGpu => 2
  | .releasing => 1
  | .gone => 0

/-- What is left to do. -/
def Executor.work (s : Executor τ) : Nat :=
  s.loop.rank + 12 * s.submitted.length + 2 * s.done.length + (s.tasks.map (·.pc.rank)).sum

theorem work_leave : s.leave.work ≤ s.work := by
  simp only [work, leave, LoopPc.rank, length_nil]
  omega

/-- A step of the loop leaves less to do, if there was something to do for it. -/
theorem work_loopMoved (hm : s.LoopMoved s') :
    s' = s ∧ ¬ s.CanLoop ∨ s'.work < s.work := by
  cases hm with
  | stay stuck => exact .inl ⟨rfl, stuck⟩
  | poll loop => exact .inr (by simp [work, loop])
  | take envelope submitted loop queue =>
    right
    simp only [work, loop, queue, LoopPc.rank, length_cons]
    omega
  | close loop queue => exact .inr (by simp [work, loop])
  | refuse envelope loop => exact .inr (by simp [work, loop])
  | spawn envelope loop =>
    right
    simp only [work, reserve, loop, LoopPc.rank, map_append, map_cons,
      map_nil, sum_append, sum_cons, sum_nil, TaskPc.rank]
    omega
  | drain envelope loop => exact .inr (by simp [work, reserve, loop])
  | report seq report done loop queue from_to =>
    right
    have hrank : loop.rank ≤ s.loop.rank + 1 := by
      rcases from_to with ⟨hl | hl, rfl⟩ | ⟨-, rfl, -⟩
      · rw [hl]
        simp
      · rw [hl]
        simp
      · exact Nat.le_succ _
    simp only [work, flush, complete, resolve, queue,
      length_cons]
    omega
  | skip envelope loop =>
    exact .inr (by simp [work, flush, resolve, loop])
  | start envelope loop => exact .inr (by simp [work, loop])
  | finish envelope output loop =>
    exact .inr (by simp [work, flush, resolve, loop])
  | last loop =>
    right
    simp only [work, flush, leave, loop, LoopPc.rank, length_nil]
    omega

theorem sum_set_rank {index : Nat} {task : Task τ} (ht : s.tasks[index]? = some task)
    (pc : TaskPc τ) : ((s.tasks.set index { task with pc }).map (·.pc.rank)).sum + task.pc.rank =
      (s.tasks.map (·.pc.rank)).sum + pc.rank := by
  generalize s.tasks = tasks at ht
  induction tasks generalizing index with
  | nil => cases ht
  | cons first tasks ih =>
    cases index with
    | zero =>
      cases ht
      simp only [set_cons_zero, map_cons, sum_cons]
      omega
    | succ index =>
      have := ih ht
      simp only [set_cons_succ, map_cons, sum_cons]
      omega

/-- A step of a task leaves less to do, if there was something to do for it. -/
theorem work_taskMoved {index : Nat} {task : Task τ} (ht : s.tasks[index]? = some task)
    (hm : s.TaskMoved index task s') : s' = s ∧ ¬ s.CanTask task ∨ s'.work < s.work := by
  have hsum := fun pc => sum_set_rank ht pc
  cases hm with
  | stay stuck => exact .inl ⟨rfl, stuck⟩
  | send report pc =>
    right
    have := hsum (if task.needsGpu then .releasingGpu else .releasing)
    have hrank : (if task.needsGpu then TaskPc.releasingGpu else .releasing : TaskPc τ).rank ≤ 2 := by
      cases task.needsGpu <;> simp
    rw [pc, TaskPc.rank] at this
    rw [Executor.report]
    split <;> simp only [work, goTask, length_append, length_singleton]
      <;> omega
  | acquire pc =>
    right
    have := hsum (if task.needsGpu then .acquiringGpu else .checking)
    have hrank : (if task.needsGpu then TaskPc.acquiringGpu else .checking : TaskPc τ).rank ≤ 8 := by
      cases task.needsGpu <;> simp
    rw [pc, TaskPc.rank] at this
    simp only [work, goTask]
    omega
  | acquireGpu pc =>
    right
    have := hsum .checking
    rw [pc, TaskPc.rank, TaskPc.rank] at this
    simp only [work, goTask]
    omega
  | observe pc =>
    right
    have := hsum (.sending none)
    rw [pc, TaskPc.rank, TaskPc.rank] at this
    simp only [work, goTask]
    omega
  | start pc =>
    right
    have := hsum .running
    rw [pc, TaskPc.rank, TaskPc.rank] at this
    simp only [work, goTask]
    omega
  | finish output pc =>
    right
    have := hsum (.sending (some output))
    rw [pc, TaskPc.rank, TaskPc.rank] at this
    simp only [work, goTask]
    omega
  | releaseGpu pc =>
    right
    have := hsum .releasing
    rw [pc, TaskPc.rank, TaskPc.rank] at this
    simp only [work, goTask]
    omega
  | release pc =>
    right
    have := hsum .gone
    rw [pc, TaskPc.rank, TaskPc.rank] at this
    simp only [work, goTask]
    omega

/-- The threads that have to move: the loop, and the task at a place. -/
def Act.thread : Act τ → Option (Option Nat)
  | .loop _ => some none
  | .task index _ => some (some index)
  | _ => none

/-- The thread can move. -/
def Executor.Can (s : Executor τ) : Option Nat → Prop
  | none => s.CanLoop
  | some index => ∃ task, s.tasks[index]? = some task ∧ s.CanTask task

theorem work_loopStep (output : τ) :
    s.loopStep output = s ∧ ¬ s.CanLoop ∨ (s.loopStep output).work < s.work := by
  rcases moved_loopStep (s := s) output with hm | ⟨hcan, t, hm, hr, heq⟩
  · exact work_loopMoved hm
  · rcases work_loopMoved hm with ⟨-, hstuck⟩ | hlt
    · exact absurd hcan hstuck
    · rw [heq]
      exact .inr (work_leave.trans_lt hlt)

theorem work_taskStep (index : Nat) (output : τ) : s.taskStep index output = s ∧
    ¬ s.Can (some index) ∨ (s.taskStep index output).work < s.work := by
  rcases moved_taskStep (s := s) index output with ⟨hnone, heq⟩ | ⟨task, ht, hm⟩
  · refine .inl ⟨heq, ?_⟩
    rintro ⟨task, ht, -⟩
    cases hnone.symm.trans ht
  rcases work_taskMoved ht hm with ⟨heq, hstuck⟩ | hlt
  · refine .inl ⟨heq, ?_⟩
    rintro ⟨other, ho, hcan⟩
    cases ht.symm.trans ho
    exact hstuck hcan
  · exact .inr hlt

/-- A step of a caller that gets nothing accepted leaves the threads what they have to do. -/
theorem can_of_caller {act : Act τ} (hact : act.thread = none)
    (hacc : (s.step act).accepted = s.accepted) :
    (s.step act).work = s.work ∧ ∀ k, s.Can k → (s.step act).Can k := by
  have hclosed : ∀ (entering : List ConcurrencyGuard) (cancelled closed receiver : Bool)
      (nextSeq : Nat), (s.closed = true → closed = true) →
      ∀ k, s.Can k →
        ({ s with entering, cancelled, closed, receiver, nextSeq } : Executor τ).Can k := by
    rintro entering cancelled closed receiver nextSeq h (_ | index) hcan
    · simp only [Executor.Can, Executor.CanLoop] at hcan ⊢
      cases hl : s.loop with
      | polling =>
        rw [hl] at hcan
        exact hcan.imp_right (Or.imp_left h)
      | _ => rw [hl] at hcan; exact hcan
    · exact hcan
  cases act with
  | loop => cases hact
  | task => cases hact
  | submit guard =>
    rw [step, submit]
    split
    · exact ⟨rfl, fun _ h => h⟩
    · exact ⟨rfl, hclosed _ _ _ _ _ id⟩
  | send index =>
    rw [step] at hacc ⊢
    rcases send_cases (s := s) index with heq | ⟨guard, -, ⟨-, heq⟩ | ⟨-, -, heq⟩ | ⟨-, -, heq⟩⟩ <;>
      rw [heq] at hacc ⊢
    · exact ⟨rfl, fun _ h => h⟩
    · exact ⟨rfl, hclosed _ _ _ _ _ id⟩
    · exact ⟨rfl, hclosed _ _ _ _ _ id⟩
    · exact absurd hacc (by simp)
  | cancel => exact ⟨rfl, hclosed _ _ _ _ _ id⟩
  | close => exact ⟨rfl, hclosed _ _ _ _ _ fun _ => rfl⟩
  | drop => exact ⟨rfl, hclosed _ _ _ _ _ fun _ => rfl⟩

/-- **No deadlock.**  While the executor is not settled, some thread can move. -/
theorem Executor.Inv.live (h : s.Inv limit) (hsettled : ¬ s.Settled) : ∃ k, s.Can k := by
  by_contra hstuck
  have hloop : ¬ s.CanLoop := fun hcan => hstuck ⟨none, hcan⟩
  have htask : ∀ task ∈ s.tasks, ¬ s.CanTask task := fun task hmem hcan => by
    obtain ⟨index, hindex⟩ := mem_iff_getElem?.1 hmem
    exact hstuck ⟨some index, task, hindex, hcan⟩
  have hgone := h.limits.gone (Nat.lt_of_lt_of_le Nat.zero_lt_one (Nat.le_max_right _ _)) htask
  have hunsent : s.tasks.countP (·.pc.unsent) = 0 := by
    refine countP_eq_zero.2 fun task hmem => ?_
    have := hgone task hmem
    cases hpc : task.pc <;> rw [hpc] at this <;> first | (cases this; done) | simp
  have hdone : s.loop ≠ .ended → s.inFlight ≠ 0 → s.done ≠ [] := by
    intro hne hin hnil
    have := h.limits.inFlight hne
    rw [hunsent, hnil] at this
    exact hin this
  have hdrain : s.loop ≠ .ended → s.inFlight = 0 ∨ s.done ≠ [] := fun hne => by
    by_cases hin : s.inFlight = 0
    · exact .inl hin
    · exact .inr (hdone hne hin)
  cases hl : s.loop with
  | ended => exact hsettled (.inl hl)
  | polling =>
    simp only [Executor.CanLoop, hl, not_or, not_not] at hloop
    exact hsettled (.inr ⟨hl, hloop.1, by simpa using hloop.2.1, hloop.2.2, hgone⟩)
  | draining envelope =>
    exact hloop (by simp only [Executor.CanLoop, hl]; exact hdrain (by rw [hl]; simp))
  | closing => exact hloop (by simp only [Executor.CanLoop, hl]; exact hdrain (by rw [hl]; simp))
  | _ => exact hloop (by simp [Executor.CanLoop, hl])

/-- A thread that can move leaves less to do. -/
theorem work_step_lt {act : Act τ} {k : Option Nat} (hk : act.thread = some k) (hcan : s.Can k) :
    (s.step act).work < s.work := by
  cases act with
  | loop output =>
    cases hk
    exact (work_loopStep output).resolve_left fun hstuck => hstuck.2 hcan
  | task index output =>
    cases hk
    exact (work_taskStep index output).resolve_left fun hstuck => hstuck.2 hcan
  | _ => cases hk

/-- A step leaves less to do, or it changes nothing, or it is of a caller. -/
theorem work_step (act : Act τ) :
    (s.step act).work < s.work ∨ s.step act = s ∨ act.thread = none := by
  cases act with
  | loop output => exact (work_loopStep output).symm.imp_right fun heq => .inl heq.1
  | task index output => exact (work_taskStep index output).symm.imp_right fun heq => .inl heq.1
  | _ => exact .inr (.inr rfl)

theorem work_step_le (act : Act τ) (hacc : (s.step act).accepted = s.accepted) :
    (s.step act).work ≤ s.work := by
  rcases work_step (s := s) act with hlt | heq | hcaller
  · exact hlt.le
  · rw [heq]
  · exact (can_of_caller hcaller hacc).1.le

/-- Why the executor comes to rest, once nothing more is accepted. -/
theorem progress : Progress (step (τ := τ)) Act.thread
    (fun s act => (s.step act).accepted = s.accepted) (Executor.Inv limit) Executor.Settled
    Executor.Can work where
  inv s act h _ := inv_step act h
  live s h hs := h.live hs
  down s act k h _ hk hcan := work_step_lt hk hcan
  le s act h hacc := work_step_le act hacc
  keep s act k h hacc hcan hwork := by
    rcases work_step (s := s) act with hlt | heq | hcaller
    · exact absurd hwork hlt.ne
    · rw [heq]
      exact hcan
    · exact (can_of_caller hcaller hacc).2 k hcan

/-- Nothing is accepted once the channel is closed, and it stays closed. -/
theorem closed_step (act : Act τ) (hclosed : s.closed = true) :
    (s.step act).closed = true ∧ (s.step act).accepted = s.accepted := by
  cases act with
  | submit guard =>
    rw [step, submit]
    split <;> exact ⟨hclosed, rfl⟩
  | send index =>
    rw [step]
    rcases send_cases (s := s) index with heq | ⟨guard, -, ⟨-, heq⟩ | ⟨hopen, -⟩ | ⟨hopen, -⟩⟩
    · rw [heq]
      exact ⟨hclosed, rfl⟩
    · rw [heq]
      exact ⟨hclosed, rfl⟩
    · cases hclosed.symm.trans hopen
    · cases hclosed.symm.trans hopen
  | cancel => exact ⟨hclosed, rfl⟩
  | close => exact ⟨rfl, rfl⟩
  | drop => exact ⟨rfl, rfl⟩
  | loop output =>
    have hmoved : ∀ t, s.LoopMoved t → t.closed = true ∧ t.accepted = s.accepted := by
      intro t hm
      cases hm <;> exact ⟨hclosed, rfl⟩
    rcases moved_loopStep (s := s) output with hm | ⟨-, t, hm, -, heq⟩
    · exact hmoved _ hm
    · rw [step, heq]
      exact hmoved t hm
  | task index output =>
    rcases moved_taskStep (s := s) index output with ⟨-, heq⟩ | ⟨task, -, hm⟩
    · rw [step, heq]
      exact ⟨hclosed, rfl⟩
    rw [step]
    generalize s.taskStep index output = t at hm ⊢
    cases hm with
    | send report =>
      rw [Executor.report]
      split <;> exact ⟨hclosed, rfl⟩
    | _ => exact ⟨hclosed, rfl⟩

theorem closed_after {f : Nat → Act τ} (hclosed : s.closed = true) (n : Nat) :
    (after step f s n).closed = true := by
  induction n with
  | zero => exact hclosed
  | succ n ih => exact (closed_step (f n) ih).1

/-! ## The result -/

/-- The operations that run, by their numbers. -/
def Executor.running (s : Executor τ) : List Nat :=
  (s.tasks.filter (·.pc.isRunning)).map (·.seq) ++
    match s.loop with
    | .executing envelope => [envelope.seq]
    | _ => []

/-- What the executor promises of a state that a run has reached. -/
structure Executor.Promise (limit : Nat) (s : Executor τ) : Prop where
  /-- An exclusive operation runs alone. -/
  alone : ∀ i ∈ s.running, s.accepted[i]? = some ConcurrencyGuard.exclusive → s.running = [i]
  /-- No more operations run than the limit allows, which is at least one. -/
  atMost : s.running.length ≤ max limit 1
  /-- At most one of them needs the GPU. -/
  gpu : (s.running.filter fun i => s.accepted[i]? = some ConcurrencyGuard.gpuBound).length ≤ 1
  /-- Results are delivered in the order of submission, and each at most once. -/
  ordered : (s.results.map Prod.fst).Pairwise (· < ·)
  /-- A result is what its operation came to. -/
  own : ∀ x ∈ s.results, x ∈ s.finished ∧ x.1 ∈ s.started
  /-- No operation is started twice, or comes to two things. -/
  once : s.started.Nodup ∧ (s.finished.map Prod.fst).Nodup
  /-- An operation for which the flag was seen is not started, and none is once it is set. -/
  calledOff : (∀ i ∈ s.observed, i ∉ s.started) ∧
    ∀ act, (s.step act).started ≠ s.started → s.cancelled = false
  /-- Without a cancel, and while there is somebody to receive, all that was accepted has run, and
  has delivered its result, when the executor is at rest. -/
  delivered : s.cancelled = false → s.receiver = true → s.Settled →
    s.results.map Prod.fst = List.range s.accepted.length ∧
      s.started.Perm (List.range s.accepted.length)

theorem running_executing (h : s.Inv limit) {envelope : Envelope}
    (he : s.loop = .executing envelope) : s.running = [envelope.seq] := by
  have hnone : s.tasks.filter (·.pc.isRunning) = [] := by
    refine filter_eq_nil_iff.2 fun task hmem => ?_
    rw [h.limits.not_running he hmem]
    nofun
  rw [running, hnone, he]
  rfl

theorem running_of_ne (hne : ∀ envelope, s.loop ≠ .executing envelope) :
    s.running = (s.tasks.filter (·.pc.isRunning)).map (·.seq) := by
  rw [running]
  cases hl : s.loop with
  | executing envelope => exact absurd hl (hne envelope)
  | _ => exact append_nil _

/-- Only an operation that finds the flag clear is started. -/
theorem started_step (act : Act τ) (hstarted : (s.step act).started ≠ s.started) :
    s.cancelled = false := by
  cases act with
  | submit guard =>
    rw [step, submit] at hstarted
    split at hstarted <;> exact absurd rfl hstarted
  | send index =>
    rw [step] at hstarted
    rcases send_cases (s := s) index with heq | ⟨guard, -, ⟨-, heq⟩ | ⟨-, -, heq⟩ | ⟨-, -, heq⟩⟩ <;>
      rw [heq] at hstarted <;> exact absurd rfl hstarted
  | cancel => exact absurd rfl hstarted
  | close => exact absurd rfl hstarted
  | drop => exact absurd rfl hstarted
  | loop output =>
    have hmoved : ∀ t, s.LoopMoved t → t.started ≠ s.started → s.cancelled = false := by
      intro t hm hne
      cases hm with
      | start envelope loop idle cancelled => exact cancelled
      | _ => exact absurd rfl hne
    rcases moved_loopStep (s := s) output with hm | ⟨-, t, hm, -, heq⟩
    · exact hmoved _ hm hstarted
    · rw [step, heq] at hstarted
      exact hmoved t hm hstarted
  | task index output =>
    rcases moved_taskStep (s := s) index output with ⟨-, heq⟩ | ⟨task, -, hm⟩
    · rw [step, heq] at hstarted
      exact absurd rfl hstarted
    rw [step] at hstarted
    generalize s.taskStep index output = t at hm hstarted
    cases hm with
    | start pc cancelled => exact cancelled
    | send report =>
      rw [Executor.report] at hstarted
      split at hstarted <;> exact absurd rfl hstarted
    | _ => exact absurd rfl hstarted

/-- At rest, without a cancel, the cursor has passed all that was accepted. -/
theorem Executor.Inv.settled (h : s.Inv limit) (hcancel : s.cancelled = false)
    (hr : s.receiver = true) (hsettled : s.Settled) :
    s.cursor = s.accepted.length ∧ s.base = s.accepted.length := by
  rcases hsettled with hend | ⟨hpoll, hempty, -, hdone, hgone⟩
  · obtain ⟨-, hcursor, hnext⟩ := h.whole.ended hcancel hr hend
    refine ⟨hcursor, ?_⟩
    rw [base, h.numbered.left hend]
    exact hnext
  · have hne : s.loop ≠ .ended := by rw [hpoll]; simp
    have hbase : s.base = s.accepted.length := by
      rw [base, hempty, h.numbered.accepted hne]
      rfl
    have hcursor := h.flight.cursor_eq hr hne
      (h.limits.not_flying hne (by rw [hpoll]; rfl) (.inr ⟨hdone, hgone⟩))
    have hlen := h.flight.slots (by rw [hpoll]; simp) hne (by rw [hpoll]; simp)
    exact ⟨hcursor.trans (hlen.trans hbase), hbase⟩

theorem Executor.Inv.promise (h : s.Inv limit) : s.Promise limit where
  alone i hi hexclusive := by
    by_cases hexec : ∃ envelope, s.loop = .executing envelope
    · obtain ⟨envelope, he⟩ := hexec
      rw [running_executing h he] at hi ⊢
      rw [mem_singleton.1 hi]
    · rw [running_of_ne fun envelope he => hexec ⟨envelope, he⟩] at hi
      obtain ⟨task, ht, rfl⟩ := mem_map.1 hi
      obtain ⟨hguard, hne⟩ := h.numbered.taskGuard task (mem_filter.1 ht).1
      exact absurd (Option.some.inj (hguard.symm.trans hexclusive)) hne
  atMost := by
    by_cases hexec : ∃ envelope, s.loop = .executing envelope
    · obtain ⟨envelope, he⟩ := hexec
      rw [running_executing h he]
      exact Nat.le_max_right ..
    · rw [running_of_ne fun envelope he => hexec ⟨envelope, he⟩, length_map,
        ← countP_eq_length_filter]
      exact h.limits.running_le
  gpu := by
    by_cases hexec : ∃ envelope, s.loop = .executing envelope
    · obtain ⟨envelope, he⟩ := hexec
      rw [running_executing h he]
      exact length_filter_le ..
    rw [running_of_ne fun envelope he => hexec ⟨envelope, he⟩, filter_map, length_map,
      filter_filter, ← countP_eq_length_filter]
    refine le_trans (countP_mono_left fun task ht hgpu => ?_) h.limits.gpu_le
    rw [Bool.and_eq_true] at hgpu
    obtain ⟨hguard, -⟩ := h.numbered.taskGuard task ht
    have heq : task.guard = .gpuBound :=
      Option.some.inj (hguard.symm.trans (of_decide_eq_true hgpu.1))
    rw [Bool.and_eq_true]
    exact ⟨by rw [Task.needsGpu, heq]; rfl, hgpu.2⟩
  ordered := h.ordered.increasing
  own x hx := ⟨h.ordered.results x hx, h.fates.finished x (h.ordered.results x hx)⟩
  once := ⟨(nodup_append.1 h.fates.nodup).1, h.fates.finishedNodup⟩
  calledOff := ⟨fun i hi hs => (nodup_append.1 h.fates.nodup).2.2 i hs i hi rfl,
    started_step⟩
  delivered hcancel hr hsettled := by
    obtain ⟨hcursor, hbase⟩ := h.settled hcancel hr hsettled
    have hresults : s.results.map Prod.fst = range s.accepted.length :=
      hcursor ▸ h.whole.results hcancel hr
    refine ⟨hresults, (perm_ext_iff_of_nodup (nodup_append.1 h.fates.nodup).1
      nodup_range).2 fun i => ⟨fun hi => ?_, fun hi => ?_⟩⟩
    · exact mem_range.2 (hbase ▸ h.fates.lt i (mem_append_left _ hi))
    · rw [← hresults] at hi
      obtain ⟨x, hx, rfl⟩ := mem_map.1 hi
      exact h.fates.finished x (h.ordered.results x hx)

/-- **The executor keeps its promises**, in every state of every interleaving.  Under a schedule
that lets the loop and the tasks move again and again, once the channel is closed the loop comes to
its end, and without that the executor comes to rest when nothing more is accepted. -/
theorem executor_promise (limit : Nat) (acts : List (Act τ)) :
    Always next (Executor.Promise limit) acts (.new τ limit) ∧
      ∀ s, runAll next acts (.new τ limit) = some s → ∀ f, Fair Act.thread f →
        (s.closed = true → ∃ n, (after Executor.step f s n).loop = .ended) ∧
        ((∀ n, (after Executor.step f s n).accepted = s.accepted) →
          ∃ n, (after Executor.step f s n).Settled) := by
  have hrun : Always next (Executor.Inv limit) acts (.new τ limit) :=
    always_of_step (C := fun _ _ => True)
      (fun s act h _ => ⟨s.step act, rfl, inv_step act h⟩) (inv_new limit) (everyStep_true acts _)
  refine ⟨hrun.mono fun s h => h.promise, fun s hs f hf => ?_⟩
  obtain ⟨s', hs', h⟩ := hrun.final
  obtain rfl := Option.some.inj (hs.symm.trans hs')
  constructor
  · intro hclosed
    obtain ⟨n, hn⟩ := progress.eventually h
      (fun n => (closed_step (f n) (closed_after hclosed n)).2) hf
    rcases hn with hend | ⟨-, -, hopen, -⟩
    · exact ⟨n, hend⟩
    · cases (closed_after hclosed n).symm.trans hopen
  · intro hacc
    exact progress.eventually h (fun n => (hacc (n + 1)).trans (hacc n).symm) hf

/-- An executor whose limit is 0 is given a safe operation. -/
def zeroRun : List (Act Unit) :=
  [.submit .safe, .send 0, .loop (), .loop (), .loop (), .task 0 (), .task 0 ()]

/-- The operation runs. -/
theorem one_of_none_runs : ¬ ∀ limit, ∀ acts : List (Act Unit),
    Always next (fun s => s.running.length ≤ limit) acts (.new Unit limit) := by
  intro h
  obtain ⟨s, hrun, hle⟩ := (h 0 zeroRun).final
  have hend : (runAll next zeroRun (.new Unit 0)).map Executor.running = some [0] := by decide
  rw [hrun] at hend
  rw [Option.some.inj hend] at hle
  cases hle

end Gen2.Tools
