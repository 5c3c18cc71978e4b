import Gen2.Executor.Delivered

/-!
# What every run of the executor keeps

`Sound limit` is what holds of the executor whether or not the loop has read all the reports that it
counts on: its permits, its numbers, what has become of the operations, its results and its slots.
Each step keeps it, of the loop, of a task and of a caller.
-/

namespace Gen2.Tools

open List

variable {τ : Type} {s s' : Executor τ} {limit : Nat}

/-- The invariants that do not say how the loop ends. -/
structure Executor.Sound (limit : Nat) (s : Executor τ) : Prop where
  limits : s.Limits (max limit 1)
  numbered : s.Numbered
  fates : s.Fates
  ordered : s.Ordered
  flight : s.Flight

theorem sound_new (limit : Nat) : (Executor.new τ limit).Sound limit :=
  ⟨limits_new limit, numbered_new limit, fates_new limit, ordered_new limit, flight_new limit⟩

theorem Executor.Sound.loopMoved (h : s.Sound limit) (hm : s.LoopMoved s') : s'.Sound limit where
  limits := h.limits.loopMoved hm
  numbered := h.numbered.loopMoved hm
  fates := h.fates.loopMoved h.numbered hm
  ordered := h.ordered.loopMoved h.fates hm
  flight := h.flight.loopMoved h.numbered h.ordered hm

theorem Executor.Sound.taskMoved (h : s.Sound limit) {index : Nat} {task : Task τ}
    (ht : s.tasks[index]? = some task) (hm : s.TaskMoved index task s') : s'.Sound limit where
  limits := h.limits.taskMoved ht hm
  numbered := h.numbered.taskMoved ht hm
  fates := h.fates.taskMoved h.numbered ht hm
  ordered := h.ordered.taskMoved hm
  flight := h.flight.taskMoved h.numbered ht hm

/-- A caller may look at the flag, set it, close the channel and drop the receiver. -/
theorem Executor.Sound.caller (h : s.Sound limit) (entering : List ConcurrencyGuard)
    {cancelled closed receiver : Bool} (hcancel : cancelled = false → s.cancelled = false)
    (hr : receiver = true → s.receiver = true) :
    ({ s with entering, cancelled, closed, receiver } : Executor τ).Sound limit where
  limits := h.limits.loop rfl rfl rfl (fun hne => ⟨hne, rfl⟩) h.limits.alone
  numbered := h.numbered.still rfl rfl rfl rfl (fun _ he => he) .rfl
  fates := h.fates.still (Nat.le_refl _) rfl rfl rfl rfl h.fates.freshEnvelope (fun _ he => he)
    fun _ hx => hx
  ordered := h.ordered.still rfl rfl rfl fun _ hx => hx
  flight := h.flight.still rfl rfl hr rfl rfl h.flight.room
    (fun h₁ h₂ h₃ => h.flight.slots h₁ h₂ fun hl => hcancel (h₃ hl)) rfl id

/-- What a call of `submit` under the lock comes to: nothing, a number for nothing after the loop
has returned, or an envelope in the channel. -/
theorem send_cases (index : Nat) : s.send index = s ∨
    ∃ guard, s.entering[index]? = some guard ∧
      ((s.closed = true ∧ s.send index = { s with entering := s.entering.eraseIdx index }) ∨
      (s.closed = false ∧ s.loop = .ended ∧ s.send index = { s with
        entering := s.entering.eraseIdx index, nextSeq := s.nextSeq + 1 }) ∨
      (s.closed = false ∧ s.loop ≠ .ended ∧ s.send index = { s with
        entering := s.entering.eraseIdx index
        nextSeq := s.nextSeq + 1
        submitted := s.submitted ++ [{ seq := s.nextSeq, guard }]
        accepted := s.accepted ++ [guard] })) := by
  rw [Executor.send]
  rcases s.entering[index]? with _ | guard
  · exact .inl rfl
  refine .inr ⟨guard, rfl, ?_⟩
  dsimp only
  by_cases hclosed : s.closed = true
  · rw [if_pos hclosed]
    exact .inl ⟨hclosed, rfl⟩
  rw [if_neg hclosed]
  have hopen : s.closed = false := by simpa using hclosed
  by_cases hend : s.loop = .ended
  · rw [if_pos hend]
    exact .inr (.inl ⟨hopen, hend, rfl⟩)
  · rw [if_neg hend]
    exact .inr (.inr ⟨hopen, hend, rfl⟩)

theorem Executor.Sound.send (h : s.Sound limit) (index : Nat) : (s.send index).Sound limit := by
  have hn := h.numbered.send index
  rcases send_cases (s := s) index with heq | ⟨guard, -, ⟨-, heq⟩ | ⟨-, hend, heq⟩ |
    ⟨-, hend, heq⟩⟩
  · rw [heq]
    exact h
  · rw [heq]
    exact h.caller (s.entering.eraseIdx index) id id
  · rw [heq] at hn ⊢
    exact {
      limits := h.limits.loop rfl rfl rfl (fun hne => ⟨hne, rfl⟩) h.limits.alone
      numbered := hn
      fates := h.fates.still (Nat.sub_le_sub_right (Nat.le_succ _) _) rfl rfl rfl rfl
        h.fates.freshEnvelope (fun _ he => he) fun _ hx => hx
      ordered := h.ordered.still rfl rfl rfl fun _ hx => hx
      flight := h.flight.still rfl rfl id rfl rfl h.flight.room (fun _ hne => absurd hend hne) rfl
        id }
  · rw [heq] at hn ⊢
    have hbase : s.nextSeq + 1 - (s.submitted ++ [Envelope.mk s.nextSeq guard]).length =
        s.base := by
      rw [Executor.base, length_append, length_singleton]
      omega
    exact {
      limits := h.limits.loop rfl rfl rfl (fun hne => ⟨hne, rfl⟩) h.limits.alone
      numbered := hn
      fates := h.fates.still hbase.ge rfl rfl rfl rfl h.fates.freshEnvelope (fun _ he => he)
        fun _ hx => hx
      ordered := h.ordered.still rfl rfl rfl fun _ hx => hx
      flight := h.flight.still rfl rfl id rfl rfl h.flight.room
        (fun h₁ h₂ h₃ => (h.flight.slots h₁ h₂ h₃).trans hbase.symm) rfl id }

/-- **No task waits for nothing.**  Where none can move, all have come to their end: whoever has the
GPU permit can move, and so can whoever has one of the others. -/
theorem Executor.Limits.gone (h : s.Limits limit) (hlimit : 0 < limit)
    (hstuck : ∀ task ∈ s.tasks, ¬ s.CanTask task) : ∀ task ∈ s.tasks, task.pc.isGone = true := by
  have hgpu : ∀ task ∈ s.tasks, task.pc ≠ .acquiringGpu := by
    intro task hmem hpc
    have hzero : s.gpuPermits = 0 := by
      by_contra hne
      exact hstuck task hmem (by simp only [Executor.CanTask, hpc]; exact hne)
    have hcount := h.gpuPermits
    rw [hzero, Nat.zero_add] at hcount
    obtain ⟨other, hother, hholds⟩ := countP_pos_iff.1 (hcount ▸ Nat.zero_lt_one)
    rw [Task.holdsGpu, Bool.and_eq_true] at hholds
    refine hstuck other hother ?_
    cases hpc' : other.pc <;> rw [hpc'] at hholds <;>
      first | (simp [Executor.CanTask, hpc']; done) | cases hholds.2
  intro task hmem
  have hcan := hstuck task hmem
  cases hpc : task.pc with
  | gone => rfl
  | acquiringGpu => exact absurd hpc (hgpu task hmem)
  | acquiring =>
    have hzero : s.permits = 0 := by
      by_contra hne
      exact hcan (by simp only [Executor.CanTask, hpc]; exact hne)
    have hcount := h.permits
    rw [hzero, Nat.zero_add] at hcount
    have hpos : 0 < s.tasks.countP (·.pc.holds) := by omega
    obtain ⟨other, hother, hholds⟩ := countP_pos_iff.1 hpos
    refine absurd ?_ (hstuck other hother)
    cases hpc' : other.pc <;> rw [hpc'] at hholds <;>
      first
        | exact absurd hpc' (hgpu other hother)
        | (simp [Executor.CanTask, hpc']; done)
        | cases hholds
  | _ => exact absurd (by simp [Executor.CanTask, hpc]) hcan

end Gen2.Tools
