import Gen2.Executor.Slots

/-!
# What a step of the executor can do

`moved_loopStep` and `moved_taskStep` say once what one step of the loop and of a task does; every
invariant is a case analysis over them.
-/

namespace Gen2.Tools

open Executor

variable {τ : Type} {s s' : Executor τ}

/-! ## The loop -/

/-- A flush goes on to where it was to, unless the receiver is gone: then the loop may return. -/
theorem flushThen_eq (loop : LoopPc) : s.flushThen loop = { s.flush with loop } ∨
    s.receiver = false ∧ s.flushThen loop = ({ s.flush with loop } : Executor τ).leave := by
  rw [flushThen]
  by_cases hok : s.flushOk = true
  · rw [if_pos hok]
    exact .inl rfl
  rw [if_neg hok]
  refine .inr ⟨?_, rfl⟩
  cases hr : s.receiver with
  | false => rfl
  | true => exact absurd (flushOk_of_receiver hr) hok

theorem dispatch_exclusive {envelope : Envelope} (hg : envelope.guard = .exclusive) :
    s.dispatch envelope = { s with loop := .draining envelope } := by
  rw [dispatch, hg]

theorem dispatch_spawn {envelope : Envelope} (hg : envelope.guard ≠ .exclusive) :
    s.dispatch envelope = { s with
      inFlight := s.inFlight + 1
      tasks := s.tasks ++ [{ seq := envelope.seq, guard := envelope.guard, pc := .acquiring }]
      loop := .selecting } := by
  rw [dispatch]
  split
  · rfl
  · rfl
  · rename_i h
    exact absurd h hg

/-- The loop has something to do: a report to read, an envelope to take, or an end to come to. -/
def Executor.CanLoop (s : Executor τ) : Prop :=
  match s.loop with
  | .selecting | .taken _ | .executing _ => True
  | .polling => s.submitted ≠ [] ∨ s.closed = true ∨ s.done ≠ []
  | .draining _ | .closing => s.inFlight = 0 ∨ s.done ≠ []
  | .ended => False

/-- One step of the loop, were it not for its return when the receiver is gone. -/
inductive Executor.LoopMoved (s : Executor τ) : Executor τ → Prop
  | stay (stuck : ¬ s.CanLoop) : LoopMoved s s
  | poll (loop : s.loop = .selecting) (done : s.done = []) :
      LoopMoved s { s with loop := .polling }
  | take (envelope : Envelope) (submitted : List Envelope) (loop : s.loop = .polling)
      (queue : s.submitted = envelope :: submitted) :
      LoopMoved s { s with submitted, loop := .taken envelope }
  | close (loop : s.loop = .polling) (queue : s.submitted = []) (closed : s.closed = true) :
      LoopMoved s { s with loop := .closing }
  | refuse (envelope : Envelope) (loop : s.loop = .taken envelope)
      (cancelled : s.cancelled = true) :
      LoopMoved s { s with observed := s.observed ++ [envelope.seq], loop := .closing }
  | spawn (envelope : Envelope) (loop : s.loop = .taken envelope)
      (guard : envelope.guard ≠ .exclusive) :
      LoopMoved s { s.reserve envelope.seq with
        inFlight := s.inFlight + 1
        tasks := s.tasks ++ [{ seq := envelope.seq, guard := envelope.guard, pc := .acquiring }]
        loop := .selecting }
  | drain (envelope : Envelope) (loop : s.loop = .taken envelope) (cancelled : s.cancelled = false) :
      LoopMoved s { s.reserve envelope.seq with loop := .draining envelope }
  | report (seq : Nat) (report : Option τ) (done : List (Nat × Option τ)) (loop : LoopPc)
      (queue : s.done = (seq, report) :: done)
      (from_to : (s.loop = .selecting ∨ s.loop = .polling) ∧ loop = .selecting ∨
        s.inFlight ≠ 0 ∧ loop = s.loop ∧ ((∃ envelope, s.loop = .draining envelope) ∨
          s.loop = .closing)) :
      LoopMoved s { (s.complete seq report done).flush with loop }
  | skip (envelope : Envelope) (loop : s.loop = .draining envelope) (idle : s.inFlight = 0)
      (cancelled : s.cancelled = true) :
      LoopMoved s { ({ s with
        observed := s.observed ++ [envelope.seq] }.resolve envelope.seq .skipped).flush with
        loop := .closing }
  | start (envelope : Envelope) (loop : s.loop = .draining envelope) (idle : s.inFlight = 0)
      (cancelled : s.cancelled = false) :
      LoopMoved s { s with started := s.started ++ [envelope.seq], loop := .executing envelope }
  | finish (envelope : Envelope) (output : τ) (loop : s.loop = .executing envelope) :
      LoopMoved s { ({ s with
        finished := s.finished ++ [(envelope.seq, output)] }.resolve envelope.seq
          (.ready output)).flush with loop := .selecting }
  | last (loop : s.loop = .closing)
      (idle : s.inFlight = 0 ∨ s.done = [] ∧ ∀ task ∈ s.tasks, task.pc.isGone = true) :
      LoopMoved s s.flush.leave

/-- **What one step of the loop does.** -/
theorem moved_loopStep (output : τ) : s.LoopMoved (s.loopStep output) ∨
    s.CanLoop ∧ ∃ t, s.LoopMoved t ∧ t.receiver = false ∧ s.loopStep output = t.leave := by
  have hthen : ∀ (t : Executor τ) (loop : LoopPc), s.CanLoop → t.receiver = s.receiver →
      s.LoopMoved { t.flush with loop } →
      s.LoopMoved (t.flushThen loop) ∨
        s.CanLoop ∧ ∃ u, s.LoopMoved u ∧ u.receiver = false ∧ t.flushThen loop = u.leave := by
    intro t loop hcan hr hmoved
    rcases flushThen_eq (s := t) loop with heq | ⟨hfalse, heq⟩
    · exact .inl (heq ▸ hmoved)
    · exact .inr ⟨hcan, _, hmoved, hfalse, heq⟩
  cases hl : s.loop with
  | selecting =>
    cases hd : s.done with
    | nil =>
      have heq : s.loopStep output = { s with loop := .polling } := by
        simp only [loopStep, hl, hd]
      exact .inl (heq ▸ .poll hl hd)
    | cons x done =>
      simp only [loopStep, hl, hd]
      exact hthen _ _ (by simp [Executor.CanLoop, hl]) rfl
        (.report x.1 x.2 done _ hd (.inl ⟨.inl hl, rfl⟩))
  | polling =>
    simp only [loopStep, hl]
    cases hq : s.submitted with
    | cons envelope submitted => exact .inl (.take envelope submitted hl hq)
    | nil =>
      dsimp only
      by_cases hclosed : s.closed = true
      · rw [if_pos hclosed]
        exact .inl (hq ▸ .close hl hq hclosed)
      rw [if_neg hclosed]
      cases hd : s.done with
      | nil => exact .inl (.stay (by simp [Executor.CanLoop, hl, hq, hclosed, hd]))
      | cons x done =>
        exact hthen _ _ (by simp [Executor.CanLoop, hl, hd]) rfl
          (.report x.1 x.2 done _ hd (.inl ⟨.inr hl, rfl⟩))
  | taken envelope =>
    simp only [loopStep, hl]
    by_cases hcancel : s.cancelled = true
    · rw [if_pos hcancel]
      exact .inl (.refuse envelope hl hcancel)
    rw [if_neg hcancel]
    by_cases hg : envelope.guard = .exclusive
    · rw [dispatch_exclusive hg]
      exact .inl (.drain envelope hl (by simpa using hcancel))
    · rw [dispatch_spawn hg]
      exact .inl (.spawn envelope hl hg)
  | draining envelope =>
    simp only [loopStep, hl]
    by_cases hidle : s.inFlight = 0
    · rw [if_pos hidle]
      by_cases hcancel : s.cancelled = true
      · rw [if_pos hcancel]
        exact hthen _ _ (by simp [Executor.CanLoop, hl, hidle]) rfl
          (.skip envelope hl hidle hcancel)
      · rw [if_neg hcancel]
        exact .inl (.start envelope hl hidle (by simpa using hcancel))
    · rw [if_neg hidle]
      cases hd : s.done with
      | nil => exact .inl (.stay (by simp [Executor.CanLoop, hl, hidle, hd]))
      | cons x done => exact .inl (.report x.1 x.2 done s.loop hd
          (.inr ⟨hidle, rfl, .inl ⟨envelope, hl⟩⟩))
  | executing envelope =>
    simp only [loopStep, hl]
    exact hthen _ _ (by simp [Executor.CanLoop, hl]) rfl (.finish envelope output hl)
  | closing =>
    simp only [loopStep, hl]
    by_cases hidle : s.inFlight = 0
    · rw [if_pos hidle]
      exact .inl (.last hl (.inl hidle))
    rw [if_neg hidle]
    cases hd : s.done with
    | nil =>
      dsimp only
      by_cases hgone : s.tasks.all (·.pc.isGone) = true
      · rw [if_pos hgone]
        exact .inl (.last hl (.inr ⟨hd, by simpa using hgone⟩))
      · rw [if_neg hgone]
        exact .inl (.stay (by simp [Executor.CanLoop, hl, hidle, hd]))
    | cons x done => exact .inl (.report x.1 x.2 done s.loop hd (.inr ⟨hidle, rfl, .inr hl⟩))
  | ended =>
    simp only [loopStep, hl]
    exact .inl (.stay (by simp [Executor.CanLoop, hl]))

/-! ## The tasks -/

/-- The task has something to do that it does not have to wait for. -/
def Executor.CanTask (s : Executor τ) (task : Task τ) : Prop :=
  match task.pc with
  | .acquiring => s.permits ≠ 0
  | .acquiringGpu => s.gpuPermits ≠ 0
  | .gone => False
  | _ => True

/-- One step of a task: it goes to `pc`, having done what the case says to the rest. -/
inductive Executor.TaskMoved (s : Executor τ) (index : Nat) (task : Task τ) : Executor τ → Prop
  | stay (stuck : ¬ s.CanTask task) : TaskMoved s index task s
  | acquire (pc : task.pc = .acquiring) (free : s.permits ≠ 0) :
      TaskMoved s index task ({ s with permits := s.permits - 1 }.goTask index task
        (if task.needsGpu then .acquiringGpu else .checking))
  | acquireGpu (pc : task.pc = .acquiringGpu) (free : s.gpuPermits ≠ 0) :
      TaskMoved s index task
        ({ s with gpuPermits := s.gpuPermits - 1 }.goTask index task .checking)
  | observe (pc : task.pc = .checking) (cancelled : s.cancelled = true) :
      TaskMoved s index task
        ({ s with observed := s.observed ++ [task.seq] }.goTask index task (.sending none))
  | start (pc : task.pc = .checking) (cancelled : s.cancelled = false) :
      TaskMoved s index task
        ({ s with started := s.started ++ [task.seq] }.goTask index task .running)
  | finish (output : τ) (pc : task.pc = .running) :
      TaskMoved s index task ({ s with
        finished := s.finished ++ [(task.seq, output)] }.goTask index task (.sending (some output)))
  | send (report : Option τ) (pc : task.pc = .sending report) :
      TaskMoved s index task ((s.report task.seq report).goTask index task
        (if task.needsGpu then .releasingGpu else .releasing))
  | releaseGpu (pc : task.pc = .releasingGpu) :
      TaskMoved s index task
        ({ s with gpuPermits := s.gpuPermits + 1 }.goTask index task .releasing)
  | release (pc : task.pc = .releasing) :
      TaskMoved s index task ({ s with permits := s.permits + 1 }.goTask index task .gone)

/-- **What one step of a task does.** -/
theorem moved_taskStep (index : Nat) (output : τ) :
    s.tasks[index]? = none ∧ s.taskStep index output = s ∨
    ∃ task, s.tasks[index]? = some task ∧ s.TaskMoved index task (s.taskStep index output) := by
  rcases ht : s.tasks[index]? with _ | task
  · exact .inl ⟨rfl, by simp only [taskStep, ht]⟩
  refine .inr ⟨task, rfl, ?_⟩
  cases hpc : task.pc with
  | acquiring =>
    simp only [taskStep, ht, hpc]
    by_cases hfree : s.permits = 0
    · rw [if_pos hfree]
      exact .stay (by simp [Executor.CanTask, hpc, hfree])
    · rw [if_neg hfree]
      exact .acquire hpc hfree
  | acquiringGpu =>
    simp only [taskStep, ht, hpc]
    by_cases hfree : s.gpuPermits = 0
    · rw [if_pos hfree]
      exact .stay (by simp [Executor.CanTask, hpc, hfree])
    · rw [if_neg hfree]
      exact .acquireGpu hpc hfree
  | checking =>
    simp only [taskStep, ht, hpc]
    by_cases hcancel : s.cancelled = true
    · rw [if_pos hcancel]
      exact .observe hpc hcancel
    · rw [if_neg hcancel]
      exact .start hpc (by simpa using hcancel)
  | running =>
    simp only [taskStep, ht, hpc]
    exact .finish output hpc
  | sending report =>
    simp only [taskStep, ht, hpc]
    exact .send report hpc
  | releasingGpu =>
    simp only [taskStep, ht, hpc]
    exact .releaseGpu hpc
  | releasing =>
    simp only [taskStep, ht, hpc]
    exact .release hpc
  | gone =>
    simp only [taskStep, ht, hpc]
    exact .stay (by simp [Executor.CanTask, hpc])

end Gen2.Tools
