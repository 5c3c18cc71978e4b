import Gen2.Executor.Moves

/-!
# Permits, and what is in flight

The permits that are out are those the tasks hold, and what the loop counts as in flight are the
tasks that have not reported and the reports it has not read.  So an exclusive operation, which the
loop runs when nothing is in flight, runs alone.

`Limits limit` is the invariant; `Limits.running_le`, `Limits.gpu_le` and `Limits.not_running` are
what it is for.
-/

namespace Gen2.Tools

open List

variable {τ : Type} {s s' : Executor τ}

/-- The task has not reported. -/
@[simp] def TaskPc.unsent : TaskPc τ → Bool
  | .acquiring | .acquiringGpu | .checking | .running | .sending _ => true
  | .releasingGpu | .releasing | .gone => false

/-- The task has one of the `max_concurrent` permits. -/
@[simp] def TaskPc.holds : TaskPc τ → Bool
  | .acquiring | .gone => false
  | _ => true

/-- The task has the GPU permit, if it needs one. -/
@[simp] def TaskPc.holdsGpu : TaskPc τ → Bool
  | .checking | .running | .sending _ | .releasingGpu => true
  | _ => false

/-- The task waits for the GPU permit, or has done with it. -/
@[simp] def TaskPc.onlyGpu : TaskPc τ → Bool
  | .acquiringGpu | .releasingGpu => true
  | _ => false

@[simp] def TaskPc.isRunning : TaskPc τ → Bool
  | .running => true
  | _ => false

/-- The task has the GPU permit. -/
def Task.holdsGpu (task : Task τ) : Bool := task.needsGpu && task.pc.holdsGpu

/-- The permits that are out, and what is in flight. -/
structure Executor.Limits (limit : Nat) (s : Executor τ) : Prop where
  permits : s.permits + s.tasks.countP (·.pc.holds) = limit
  gpuPermits : s.gpuPermits + s.tasks.countP Task.holdsGpu = 1
  onlyGpu : ∀ task ∈ s.tasks, task.pc.onlyGpu = true → task.needsGpu = true
  inFlight : s.loop ≠ .ended → s.inFlight = s.tasks.countP (·.pc.unsent) + s.done.length
  alone : ∀ envelope, s.loop = .executing envelope → s.inFlight = 0

theorem limits_new (limit : Nat) : (Executor.new τ limit).Limits (max limit 1) where
  permits := rfl
  gpuPermits := rfl
  onlyGpu := nofun
  inFlight _ := rfl
  alone := nofun

variable {task : Task τ}

/-- A task that moves is counted where it has gone, and no more where it was. -/
theorem countP_goTask {index : Nat} (ht : s.tasks[index]? = some task) (pc : TaskPc τ)
    (p : Task τ → Bool) :
    (s.tasks.set index { task with pc }).countP p + (if p task then 1 else 0) =
      s.tasks.countP p + (if p { task with pc } then 1 else 0) := by
  obtain ⟨hlt, rfl⟩ := List.getElem?_eq_some_iff.1 ht
  rw [List.countP_set hlt]
  by_cases hp : p s.tasks[index] = true
  · have := List.countP_pos_iff.2 ⟨_, List.getElem_mem hlt, hp⟩
    rw [if_pos hp]
    omega
  · rw [if_neg hp]
    omega

variable {limit : Nat}

/-- A step that touches neither the permits nor the tasks. -/
theorem Executor.Limits.loop (h : s.Limits limit) (hp : s'.permits = s.permits)
    (hg : s'.gpuPermits = s.gpuPermits) (ht : s'.tasks = s.tasks)
    (hf : s'.loop ≠ .ended → s.loop ≠ .ended ∧ s'.inFlight + s.done.length =
      s.inFlight + s'.done.length)
    (ha : ∀ envelope, s'.loop = .executing envelope → s'.inFlight = 0) : s'.Limits limit where
  permits := by rw [hp, ht, h.permits]
  gpuPermits := by rw [hg, ht, h.gpuPermits]
  onlyGpu := ht ▸ h.onlyGpu
  inFlight hl := by
    obtain ⟨hl, heq⟩ := hf hl
    have := h.inFlight hl
    rw [ht]
    omega
  alone := ha

theorem Executor.Limits.leave (h : s.Limits limit) : s.leave.Limits limit :=
  h.loop rfl rfl rfl (fun hl => absurd rfl hl) nofun

theorem Executor.Limits.loopMoved (h : s.Limits limit) (hm : s.LoopMoved s') : s'.Limits limit := by
  cases hm with
  | stay => exact h
  | poll loop => exact h.loop rfl rfl rfl (fun _ => ⟨by rw [loop]; simp, rfl⟩) (by simp)
  | take envelope submitted loop =>
    exact h.loop rfl rfl rfl (fun _ => ⟨by rw [loop]; simp, rfl⟩) (by simp)
  | close loop => exact h.loop rfl rfl rfl (fun _ => ⟨by rw [loop]; simp, rfl⟩) (by simp)
  | refuse envelope loop => exact h.loop rfl rfl rfl (fun _ => ⟨by rw [loop]; simp, rfl⟩) (by simp)
  | spawn envelope loop guard =>
    have hin := h.inFlight (by rw [loop]; simp)
    refine ⟨?_, ?_, fun task ht honly => ?_, fun _ => ?_, (by simp)⟩
    · rw [countP_append]
      exact h.permits
    · rw [countP_append, countP_singleton, if_neg (by simp [Task.holdsGpu])]
      exact h.gpuPermits
    · rcases mem_append.1 ht with ht | ht
      · exact h.onlyGpu task ht honly
      · rw [mem_singleton.1 ht] at honly
        cases honly
    · have hnew : s.inFlight + 1 = s.tasks.countP (·.pc.unsent) + 1 + s.done.length := by omega
      rw [countP_append]
      exact hnew
  | drain envelope loop => exact h.loop rfl rfl rfl (fun _ => ⟨by rw [loop]; simp, rfl⟩) (by simp)
  | report seq report done loop queue from_to =>
    have hne : s.loop ≠ .ended ∧ ∀ envelope, loop ≠ .executing envelope := by
      rcases from_to with ⟨hl | hl, rfl⟩ | ⟨-, rfl, ⟨envelope, hl⟩ | hl⟩ <;> rw [hl] <;>
        exact ⟨(by simp), (by simp)⟩
    have hin := h.inFlight hne.1
    rw [queue, length_cons] at hin
    refine h.loop rfl rfl rfl (fun _ => ⟨hne.1, ?_⟩) fun envelope hl => absurd hl (hne.2 envelope)
    simp only [Executor.flush, Executor.complete, Executor.resolve, queue, length_cons]
    omega
  | skip envelope loop => exact h.loop rfl rfl rfl (fun _ => ⟨by rw [loop]; simp, rfl⟩) (by simp)
  | start envelope loop idle =>
    exact h.loop rfl rfl rfl (fun _ => ⟨by rw [loop]; simp, rfl⟩) fun _ _ => idle
  | finish envelope output loop =>
    exact h.loop rfl rfl rfl (fun _ => ⟨by rw [loop]; simp, rfl⟩) (by simp)
  | last => exact h.loop rfl rfl rfl (fun hl => absurd rfl hl) (by rintro _ ⟨⟩)

/-- A step of a task, by what it does to the permits and to the reports. -/
theorem Executor.Limits.goTask {index : Nat} {pc : TaskPc τ} (h : s.Limits limit)
    (ht : s.tasks[index]? = some task) (htasks : s'.tasks = s.tasks.set index { task with pc })
    (hp : s'.permits + (if pc.holds then 1 else 0) = s.permits + (if task.pc.holds then 1 else 0))
    (hg : s'.gpuPermits + (if task.needsGpu && pc.holdsGpu then 1 else 0) =
      s.gpuPermits + (if task.holdsGpu then 1 else 0))
    (honly : pc.onlyGpu = true → task.needsGpu = true) (hl : s'.loop = s.loop)
    (hi : s'.inFlight = s.inFlight)
    (hd : s.loop ≠ .ended → s'.done.length + (if pc.unsent then 1 else 0) =
      s.done.length + (if task.pc.unsent then 1 else 0)) : s'.Limits limit where
  permits := by
    have hcount := countP_goTask ht pc (·.pc.holds)
    have := h.permits
    rw [htasks]
    dsimp only at hcount
    omega
  gpuPermits := by
    have hcount := countP_goTask ht pc Task.holdsGpu
    have hsum := h.gpuPermits
    have hneeds : Task.holdsGpu { task with pc } = (task.needsGpu && pc.holdsGpu) := rfl
    rw [hneeds] at hcount
    rw [htasks]
    omega
  onlyGpu other hother := by
    rw [htasks] at hother
    rcases mem_or_eq_of_mem_set hother with hother | rfl
    · exact h.onlyGpu other hother
    · exact honly
  inFlight hne := by
    have hcount := countP_goTask ht pc (·.pc.unsent)
    have hin := h.inFlight (hl ▸ hne)
    have hlen := hd (hl ▸ hne)
    rw [htasks, hi]
    dsimp only at hcount
    omega
  alone envelope he := hi ▸ h.alone envelope (hl ▸ he)

theorem Executor.Limits.taskMoved {index : Nat} (h : s.Limits limit)
    (ht : s.tasks[index]? = some task) (hm : s.TaskMoved index task s') : s'.Limits limit := by
  have honly := h.onlyGpu task (mem_of_getElem? ht)
  cases hm with
  | stay => exact h
  | acquire pc free =>
    refine h.goTask ht rfl ?_ ?_ ?_ rfl rfl fun _ => ?_ <;>
      cases hn : task.needsGpu <;> simp [pc, Executor.goTask, Task.holdsGpu, hn]
    all_goals omega
  | acquireGpu pc free =>
    have hn : task.needsGpu = true := honly (by simp [pc])
    refine h.goTask ht rfl ?_ ?_ nofun rfl rfl fun _ => ?_ <;>
      simp [pc, Executor.goTask, Task.holdsGpu, hn]
    omega
  | observe pc =>
    exact h.goTask ht rfl (by simp [pc, Executor.goTask])
      (by simp [pc, Executor.goTask, Task.holdsGpu])
      nofun rfl rfl fun _ => by simp [pc, Executor.goTask]
  | start pc =>
    exact h.goTask ht rfl (by simp [pc, Executor.goTask])
      (by simp [pc, Executor.goTask, Task.holdsGpu])
      nofun rfl rfl fun _ => by simp [pc, Executor.goTask]
  | finish output pc =>
    exact h.goTask ht rfl (by simp [pc, Executor.goTask])
      (by simp [pc, Executor.goTask, Task.holdsGpu])
      nofun rfl rfl fun _ => by simp [pc, Executor.goTask]
  | send report pc =>
    have hreport : (s.report task.seq report).permits = s.permits ∧
        (s.report task.seq report).gpuPermits = s.gpuPermits ∧
        (s.report task.seq report).tasks = s.tasks ∧ (s.report task.seq report).loop = s.loop ∧
        (s.report task.seq report).inFlight = s.inFlight := by
      rw [Executor.report]
      split <;> exact ⟨rfl, rfl, rfl, rfl, rfl⟩
    obtain ⟨hp, hg, htasks, hloop, hin⟩ := hreport
    have hset : ∀ pc, ((s.report task.seq report).goTask index task pc).tasks =
        s.tasks.set index { task with pc } := fun pc => by rw [Executor.goTask, htasks]
    refine h.goTask ht (hset _) ?_ ?_ ?_ hloop hin fun hne => ?_
    · cases hn : task.needsGpu <;> simp [pc, Executor.goTask, hp]
    · cases hn : task.needsGpu <;> simp [pc, Executor.goTask, Task.holdsGpu, hg, hn]
    · cases hn : task.needsGpu <;> simp
    · cases hn : task.needsGpu <;> simp [pc, Executor.goTask, Executor.report, hne]
  | releaseGpu pc =>
    have hn : task.needsGpu = true := honly (by simp [pc])
    exact h.goTask ht rfl (by simp [pc, Executor.goTask])
      (by simp [pc, Executor.goTask, Task.holdsGpu, hn]) nofun rfl rfl
      fun _ => by simp [pc, Executor.goTask]
  | release pc =>
    exact h.goTask ht rfl (by simp [pc, Executor.goTask])
      (by simp [pc, Executor.goTask, Task.holdsGpu]) nofun rfl rfl
      fun _ => by simp [pc, Executor.goTask]

/-! ## What it is for -/

/-- No more tasks run at once than there are permits. -/
theorem Executor.Limits.running_le (h : s.Limits limit) :
    s.tasks.countP (·.pc.isRunning) ≤ limit := by
  have hle : s.tasks.countP (·.pc.isRunning) ≤ s.tasks.countP (·.pc.holds) := by
    refine countP_mono_left fun task _ hrun => ?_
    cases hpc : task.pc with
    | running => rfl
    | _ => rw [hpc] at hrun; cases hrun
  have := h.permits
  omega

/-- No two tasks that need the GPU run at once. -/
theorem Executor.Limits.gpu_le (h : s.Limits limit) :
    s.tasks.countP (fun task => task.needsGpu && task.pc.isRunning) ≤ 1 := by
  have hle : s.tasks.countP (fun task => task.needsGpu && task.pc.isRunning) ≤
      s.tasks.countP Task.holdsGpu := by
    refine countP_mono_left fun task _ hrun => ?_
    rw [Bool.and_eq_true] at hrun
    cases hpc : task.pc with
    | running => simp [Task.holdsGpu, hpc, hrun.1]
    | _ => rw [hpc] at hrun; cases hrun.2
  have := h.gpuPermits
  omega

/-- No task runs beside an exclusive operation. -/
theorem Executor.Limits.not_running (h : s.Limits limit) {envelope : Envelope}
    (he : s.loop = .executing envelope) (ht : task ∈ s.tasks) : task.pc.isRunning = false := by
  have hin := h.inFlight (by rw [he]; nofun)
  rw [h.alone envelope he] at hin
  have hzero : s.tasks.countP (·.pc.unsent) = 0 := by omega
  have hsent := countP_eq_zero.1 hzero task ht
  cases hpc : task.pc with
  | running => exact absurd (by rw [hpc]; rfl) hsent
  | _ => rfl

end Gen2.Tools
