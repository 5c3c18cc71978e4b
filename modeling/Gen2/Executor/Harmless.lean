import Gen2.Executor.Panics

/-!
# When a panic costs no more than its own result

An operation that has panicked is counted on for a report that does not come.  `withReports` is the
executor as if it lay in the channel, behind all the others: that one is `Sound`.

* `sound_step`: every step and every panic keeps it so.
* `panic_kind`: so where every panic is harmless, all that came to a result delivers it, all that
  was accepted runs, and the loop comes to its end.
-/

namespace Gen2.Tools

open Lib List Panicking Executor

variable {τ : Type} {s s' : Executor τ} {limit : Nat} {panicked : List Nat}

/-! ## The reports that do not come -/

/-- As if what has panicked had reported that it came to nothing, behind all the others. -/
def Executor.withReports (s : Executor τ) (panicked : List Nat) : Executor τ :=
  { s with done := s.done ++ panicked.map fun i => (i, none) }

/-- When all has been sent and read, what has panicked is in flight, and no more. -/
theorem flying_withReports (hdone : s.done = []) (hsent : ∀ task ∈ s.tasks, task.pc.unsent = false)
    (hheld : s.loop.held = none) (i : Nat) : (s.withReports panicked).Flying i ↔ i ∈ panicked := by
  have hmap : (s.withReports panicked).done.map Prod.fst = panicked := by
    rw [withReports, hdone, nil_append, map_map]
    exact map_id _
  rw [Executor.Flying, hmap]
  constructor
  · rintro (⟨task, ht, -, hs⟩ | hi | ⟨envelope, he, -⟩)
    · cases (hsent task ht).symm.trans hs
    · exact hi
    · cases hheld.symm.trans he
  · exact fun hi => .inr (.inl hi)

theorem Executor.Numbered.of_withReports (h : (s.withReports panicked).Numbered) : s.Numbered :=
  h.still rfl rfl rfl rfl (fun _ he => he) .rfl

theorem Executor.Ordered.of_withReports (h : (s.withReports panicked).Ordered) : s.Ordered :=
  h.still rfl rfl rfl fun _ hx => hx

theorem Executor.Fates.of_withReports (h : (s.withReports panicked).Fates) : s.Fates :=
  h.still (Nat.le_refl _) rfl rfl rfl rfl h.freshEnvelope (fun _ he => he)
    fun _ hx => mem_append_left _ hx

/-- In what order reports lie in the channel makes no difference. -/
theorem Executor.Sound.perm (h : s.Sound limit) {done : List (Nat × Option τ)}
    (hd : done.Perm s.done) : ({ s with done } : Executor τ).Sound limit where
  limits := h.limits.loop rfl rfl rfl (fun hne => ⟨hne, by rw [hd.length_eq]⟩) h.limits.alone
  numbered := h.numbered.still rfl rfl rfl rfl (fun _ he => he) .rfl
  fates := h.fates.still (Nat.le_refl _) rfl rfl rfl rfl h.fates.freshEnvelope (fun _ he => he)
    fun _ hx => hd.subset hx
  ordered := h.ordered.still rfl rfl rfl fun _ hx => hx
  flight := {
    doneNodup := ((hd.map Prod.fst).nodup_iff).2 h.flight.doneNodup
    doneSent := fun x hx => h.flight.doneSent x (hd.subset hx)
    room := h.flight.room
    slots := h.flight.slots
    tidy := h.flight.tidy
    isOpen := fun hr hne i => by
      refine (h.flight.isOpen hr hne i).trans ?_
      rw [Executor.Flying, Executor.Flying]
      refine or_congr_right (or_congr_left ?_)
      exact ((hd.map Prod.fst).mem_iff (a := i)).symm }

/-- Only permits, what is in flight and the slots know of the reports that do not come. -/
theorem Executor.Sound.assemble (hn : s.Numbered) (hf : s.Fates) (ho : s.Ordered)
    (hl : (s.withReports panicked).Limits (max limit 1)) (hfl : (s.withReports panicked).Flight) :
    (s.withReports panicked).Sound limit where
  limits := hl
  numbered := hn.still rfl rfl rfl rfl (fun _ he => he) .rfl
  fates := { hf with
    done := fun i output hx => by
      rcases mem_append.1 hx with hx | hx
      · exact hf.done i output hx
      · obtain ⟨j, -, hj⟩ := mem_map.1 hx
        cases hj }
  ordered := ho.still rfl rfl rfl fun _ hx => hx
  flight := hfl

theorem Executor.Sound.polls (h : s.Sound limit) (loop : s.loop = .selecting) :
    ({ s with loop := .polling } : Executor τ).Sound limit where
  limits := h.limits.loop rfl rfl rfl (fun _ => ⟨by rw [loop]; nofun, rfl⟩) nofun
  numbered := h.numbered.still rfl rfl rfl rfl nofun (by rw [loop]; exact ⟨nofun, nofun⟩)
  fates := h.fates.still (Nat.le_refl _) rfl rfl rfl rfl nofun nofun fun _ hx => hx
  ordered := h.ordered.still rfl rfl rfl fun _ hx => hx
  flight := h.flight.still rfl rfl id rfl rfl nofun
    (fun _ _ _ => h.flight.slots (by rw [loop]; nofun) (by rw [loop]; nofun) (by rw [loop]; nofun))
    (by rw [loop]; rfl) fun _ => by rw [loop]; nofun

/-- The loop returns, and all the reports that come are lost. -/
theorem Executor.Sound.over (h : (s.withReports panicked).Sound limit) (hn : s'.Numbered)
    (hf : s'.Fates) (ho : s'.Ordered) (hend : s'.loop = .ended) (hdone : s'.done = [])
    (hp : s'.permits = s.permits) (hg : s'.gpuPermits = s.gpuPermits) (ht : s'.tasks = s.tasks) :
    (s'.withReports panicked).Sound limit := by
  refine .assemble hn hf ho (h.limits.loop hp hg ht (fun hne => absurd hend hne) ?_)
    (h.flight.over hend ht ?_)
  · exact fun envelope he => nomatch hend.symm.trans he
  · show (s'.done ++ _).Sublist (s.done ++ _)
    rw [hdone]
    exact sublist_append_right _ _

/-- **A step of the loop keeps it sound**, whether or not it waits for a report that does not come.
-/
theorem Executor.Sound.loopMoved_withReports (h : (s.withReports panicked).Sound limit)
    (hm : s.LoopMoved s') : (s'.withReports panicked).Sound limit := by
  have hn := h.numbered.of_withReports
  have hf := h.fates.of_withReports
  cases hm with
  | stay => exact h
  | poll loop => exact h.polls loop
  | take envelope submitted loop queue => exact h.loopMoved (.take envelope submitted loop queue)
  | close loop queue closed => exact h.loopMoved (.close loop queue closed)
  | refuse envelope loop cancelled => exact h.loopMoved (.refuse envelope loop cancelled)
  | spawn envelope loop guard => exact h.loopMoved (.spawn envelope loop guard)
  | drain envelope loop cancelled => exact h.loopMoved (.drain envelope loop cancelled)
  | report seq report done loop queue from_to =>
    refine h.loopMoved (.report seq report (done ++ panicked.map fun i => (i,
      none)) loop ?_ from_to)
    show s.done ++ _ = _
    rw [queue]
    rfl
  | skip envelope loop idle cancelled => exact h.loopMoved (.skip envelope loop idle cancelled)
  | start envelope loop idle cancelled => exact h.loopMoved (.start envelope loop idle cancelled)
  | finish envelope output loop => exact h.loopMoved (.finish envelope output loop)
  | last loop idle =>
    have hm := Executor.LoopMoved.last loop idle
    exact h.over (hn.loopMoved hm) (hf.loopMoved hn hm)
      (h.ordered.of_withReports.loopMoved hf hm) rfl rfl rfl rfl rfl

variable {index : Nat} {task : Task τ}

/-- **A step of a task does too**: what it sends comes before the reports that do not come. -/
theorem Executor.Sound.taskMoved_withReports (h : (s.withReports panicked).Sound limit)
    (ht : s.tasks[index]? = some task) (hm : s.TaskMoved index task s') :
    (s'.withReports panicked).Sound limit := by
  cases hm with
  | stay => exact h
  | acquire pc free => exact h.taskMoved ht (.acquire pc free)
  | acquireGpu pc free => exact h.taskMoved ht (.acquireGpu pc free)
  | observe pc cancelled => exact h.taskMoved ht (.observe pc cancelled)
  | start pc cancelled => exact h.taskMoved ht (.start pc cancelled)
  | finish output pc => exact h.taskMoved ht (.finish output pc)
  | send report pc =>
    have hsent := h.taskMoved ht (.send report pc)
    have hloop : (s.withReports panicked).loop = s.loop := rfl
    rw [Executor.report] at hsent ⊢
    rw [hloop] at hsent
    by_cases hend : s.loop = .ended
    · rw [if_pos hend] at hsent ⊢
      exact hsent
    rw [if_neg hend] at hsent ⊢
    refine hsent.perm ?_
    show ((s.done ++ _) ++ _).Perm ((s.done ++ _) ++ _)
    rw [append_assoc, append_assoc]
    exact perm_append_comm.append_left _
  | releaseGpu pc => exact h.taskMoved ht (.releaseGpu pc)
  | release pc => exact h.taskMoved ht (.release pc)

theorem send_withReports (index : Nat) :
    (s.withReports panicked).send index = (s.send index).withReports panicked := by
  have hentering : (s.withReports panicked).entering = s.entering := rfl
  have hclosed : (s.withReports panicked).closed = s.closed := rfl
  have hloop : (s.withReports panicked).loop = s.loop := rfl
  rw [send, send, hentering]
  cases s.entering[index]? with
  | none => rfl
  | some guard =>
    dsimp only
    rw [hclosed, hloop]
    split
    · rfl
    · split <;> rfl

/-- **A panic of a task does**: its report is one that does not come. -/
theorem Executor.Sound.panicTask (h : (s.withReports panicked).Sound limit)
    (ht : s.tasks[index]? = some task) (pc : task.pc = .running) :
    ((s.goTask index task (if task.needsGpu then .releasingGpu else .releasing)).withReports
      (panicked ++ [task.seq])).Sound limit := by
  have hn := h.numbered.of_withReports
  have hf := h.fates.of_withReports
  refine .assemble (hn.goTask ht rfl rfl rfl rfl rfl) (hf.quiet hn ht rfl rfl rfl rfl rfl rfl ?_ ?_ ?_
    hf.done) (h.ordered.of_withReports.still rfl rfl rfl fun _ hx => hx) ?_ ?_
  · cases task.needsGpu <;> nofun
  · cases task.needsGpu <;> rfl
  · cases task.needsGpu <;> nofun
  · refine h.limits.goTask ht rfl ?_ ?_ ?_ rfl rfl fun _ => ?_
    · cases hneeds : task.needsGpu <;> simp [pc, goTask, withReports]
    · cases hneeds : task.needsGpu <;>
        simp [pc, goTask, withReports, Task.holdsGpu, hneeds]
    · cases task.needsGpu <;> simp
    · cases hneeds : task.needsGpu <;> simp [pc, goTask, withReports] <;> omega
  · have hunsent : (if task.needsGpu then TaskPc.releasingGpu else .releasing : TaskPc τ).unsent =
        false := by
      cases task.needsGpu <;> rfl
    have hsent := h.flight.sent h.numbered ht (by rw [pc]; rfl) hunsent none
    have hdone : s.done ++ (panicked ++ [task.seq]).map (fun i => (i, (none : Option τ))) =
        (s.done ++ panicked.map fun i => (i, none)) ++ [(task.seq, none)] := by
      rw [map_append, append_assoc]
      rfl
    rw [withReports, goTask, hdone]
    exact hsent

/-! ## What every run keeps -/

/-- The executor after the loop has ended: what it passed over is what panicked. -/
structure Panicking.Over (s : Panicking τ) : Prop where
  closed : s.executor.closed = true
  next : s.executor.nextSeq = s.executor.accepted.length
  slots : s.executor.buffer.length = s.executor.accepted.length
  tidy : s.executor.Tidy
  isOpen : ∀ i, s.executor.IsOpen i ↔ i ∈ s.panicked
  sent : ∀ task ∈ s.executor.tasks, task.pc.unsent = false

/-- What every run keeps, whatever panics. -/
structure Panicking.Inv (limit : Nat) (s : Panicking τ) : Prop where
  sound : (s.executor.withReports s.panicked).Sound limit
  kept : s.executor.Kept
  begun : ∀ i ∈ s.panicked, i ∈ s.executor.started ∧ i ∉ s.executor.finished.map Prod.fst
  ended : s.crashed = false → s.executor.cancelled = false → s.executor.receiver = true →
    s.executor.loop = .ended → s.Over

theorem Panicking.inv_new (limit : Nat) : (new τ limit).Inv limit where
  sound := sound_new limit
  kept := kept_new limit
  begun := nofun
  ended _ _ _ := nofun

variable {p : Panicking τ}

/-- What has panicked has gone on. -/
theorem Panicking.Inv.gone (h : p.Inv limit) {i : Nat} (hi : i ∈ p.panicked) :
    ∃ task ∈ p.executor.tasks, task.seq = i ∧ task.pc.unsent = false :=
  h.sound.flight.doneSent (i, none) (mem_append_right _ (mem_map.2 ⟨i, hi, rfl⟩))

/-- The loop returns without a word, since the receiver is gone or an operation has panicked. -/
theorem Panicking.Inv.leave (h : p.Inv limit) (crashed : Bool)
    (hgone : crashed = false → p.executor.receiver = false) :
    ({ p with executor := p.executor.leave, crashed } : Panicking τ).Inv limit where
  sound := h.sound.over h.sound.numbered.of_withReports.leave h.sound.fates.of_withReports.leave
    h.sound.ordered.of_withReports.leave rfl rfl rfl rfl rfl
  kept := h.kept.still id rfl rfl rfl id (fun _ _ => .inl) (fun _ => nofun) fun _ => nofun
  begun := h.begun
  ended hcrashed _ hr _ := absurd hr (by
    have hr' := hgone hcrashed
    show p.executor.receiver ≠ true
    rw [hr']
    nofun)

/-- Nothing is in flight when the loop ends but what has panicked. -/
theorem Panicking.Inv.over (h : p.Inv limit) (hcancel : p.executor.cancelled = false)
    (hr : p.executor.receiver = true) (loop : p.executor.loop = .closing)
    (idle : p.executor.inFlight = 0 ∨
      p.executor.done = [] ∧ ∀ task ∈ p.executor.tasks, task.pc.isGone = true) :
    ({ p with executor := p.executor.flush.leave } : Panicking τ).Over := by
  have hne : p.executor.loop ≠ .ended := by rw [loop]; nofun
  obtain ⟨hclosed, hempty⟩ := h.kept.closing hcancel loop
  have haccepted := h.sound.numbered.accepted hne
  have hquiet : p.executor.done = [] ∧ ∀ task ∈ p.executor.tasks, task.pc.unsent = false := by
    rcases idle with hzero | ⟨hdone, hgone⟩
    · obtain ⟨hdone, hsent⟩ := h.sound.limits.quiet hne hzero
      exact ⟨(append_eq_nil_iff.1 hdone).1, hsent⟩
    · exact ⟨hdone, fun task ht => TaskPc.unsent_of_isGone (hgone task ht)⟩
  have hslots : p.executor.buffer.length = p.executor.base :=
    h.sound.flight.slots (fun envelope he => nomatch loop.symm.trans he) hne fun _ => hcancel
  have hbase : p.executor.base = p.executor.accepted.length := by
    rw [base, hempty]
    exact haccepted.symm
  have hcursor := h.sound.ordered.cursor
  exact {
    closed := hclosed
    next := haccepted.symm
    slots := by
      show p.executor.flush.buffer.length = _
      rw [flush_length]
      exact hslots.trans hbase
    tidy := tidy_flush hcursor hr
    isOpen := fun i => (isOpen_flush hcursor hr i).trans ((h.sound.flight.isOpen hr hne i).trans
      (flying_withReports hquiet.1 hquiet.2 (by rw [loop]; rfl) i))
    sent := hquiet.2 }

theorem Panicking.Inv.loopMoved (h : p.Inv limit) (hm : p.executor.LoopMoved s') :
    ({ p with executor := s' } : Panicking τ).Inv limit where
  sound := h.sound.loopMoved_withReports hm
  kept := h.kept.loopMoved h.sound.ordered.of_withReports hm
  begun := by
    intro i hi
    obtain ⟨hstarted, hfinished⟩ := h.begun i hi
    cases hm with
    | start => exact ⟨mem_append_left _ hstarted, hfinished⟩
    | finish envelope output loop =>
      refine ⟨hstarted, fun hmem => ?_⟩
      obtain ⟨x, hx, rfl⟩ := mem_map.1 hmem
      rcases mem_append.1 hx with hx | hx
      · exact hfinished (mem_map.2 ⟨x, hx, rfl⟩)
      -- what runs in the loop comes behind all the tasks
      rw [mem_singleton.1 hx] at hi
      obtain ⟨task, ht, hseq, -⟩ := h.gone hi
      have hlt := (h.sound.numbered.of_withReports.envelope envelope (by rw [loop]; rfl)).2 task ht
      exact absurd hseq hlt.ne
    | _ => exact ⟨hstarted, hfinished⟩
  ended := by
    intro hcrashed hcancel hr hend
    cases hm with
    | stay => exact h.ended hcrashed hcancel hr hend
    | report seq report done loop queue from_to =>
      rcases from_to with ⟨-, rfl⟩ | ⟨-, rfl, ⟨envelope, hl⟩ | hl⟩
      · cases hend
      · cases hl.symm.trans hend
      · cases hl.symm.trans hend
    | last loop idle => exact h.over hcancel hr loop idle
    | _ => cases hend

theorem Executor.TaskMoved.still (hm : s.TaskMoved index task s') :
    s'.loop = s.loop ∧ s'.cancelled = s.cancelled ∧ s'.receiver = s.receiver := by
  cases hm with
  | send report =>
    rw [Executor.report]
    split <;> exact ⟨rfl, rfl, rfl⟩
  | _ => exact ⟨rfl, rfl, rfl⟩

/-- A move of a task after the loop has ended. -/
theorem Panicking.Over.taskMoved (h : p.Over) (hn : p.executor.Numbered)
    (ht : p.executor.tasks[index]? = some task) (hm : p.executor.TaskMoved index task s') :
    ({ p with executor := s' } : Panicking τ).Over := by
  have hsent := h.sent task (mem_of_getElem? ht)
  have hset : ∀ pc : TaskPc τ, pc.unsent = false →
      ∀ other ∈ p.executor.tasks.set index { task with pc }, other.pc.unsent = false := by
    intro pc hpc other ho
    rcases hn.mem_set ht ho with rfl | ⟨ho, -⟩
    · exact hpc
    · exact h.sent other ho
  cases hm with
  | stay => exact h
  | releaseGpu pc => exact { h with sent := hset .releasing rfl }
  | release pc => exact { h with sent := hset .gone rfl }
  | acquire pc | acquireGpu pc | observe pc | start pc | finish output pc | send report pc =>
    rw [pc] at hsent
    cases hsent

theorem Panicking.Inv.taskMoved (h : p.Inv limit) (ht : p.executor.tasks[index]? = some task)
    (hm : p.executor.TaskMoved index task s') :
    ({ p with executor := s' } : Panicking τ).Inv limit := by
  have hn := h.sound.numbered.of_withReports
  have hloop := hm.still
  refine ⟨h.sound.taskMoved_withReports ht hm, h.kept.taskMoved hn ht hm, ?_, ?_⟩
  · intro i hi
    obtain ⟨hstarted, hfinished⟩ := h.begun i hi
    cases hm with
    | start => exact ⟨mem_append_left _ hstarted, hfinished⟩
    | finish output pc =>
      refine ⟨hstarted, fun hmem => ?_⟩
      obtain ⟨x, hx, rfl⟩ := mem_map.1 hmem
      rcases mem_append.1 hx with hx | hx
      · exact hfinished (mem_map.2 ⟨x, hx, rfl⟩)
      -- what has panicked does not run any more
      rw [mem_singleton.1 hx] at hi
      obtain ⟨other, ho, hseq, hsent⟩ := h.gone hi
      rw [hn.task_eq ho (mem_of_getElem? ht) hseq, pc] at hsent
      cases hsent
    | send report =>
      rw [Executor.report]
      split <;> exact ⟨hstarted, hfinished⟩
    | _ => exact ⟨hstarted, hfinished⟩
  · intro hcrashed hcancel hr hend
    have hend' := hloop.1.symm.trans hend
    exact (h.ended hcrashed (hloop.2.1.symm.trans hcancel) (hloop.2.2.symm.trans hr)
      hend').taskMoved hn ht hm

/-- A caller may look at the flag, set it, close the channel and drop the receiver. -/
theorem Panicking.Inv.caller (h : p.Inv limit) (entering : List ConcurrencyGuard)
    {cancelled closed receiver : Bool} (hcancel : cancelled = false → p.executor.cancelled = false)
    (hclosed : p.executor.closed = true → closed = true)
    (hr : receiver = true → p.executor.receiver = true) :
    ({ p with executor := { p.executor with entering, cancelled, closed, receiver } } :
      Panicking τ).Inv limit where
  sound := h.sound.caller entering hcancel hr
  kept := h.kept.still hcancel rfl rfl rfl hr (fun _ _ => .inl) (fun _ _ => .inl)
    fun hf hl => ⟨hclosed (h.kept.closing (hcancel hf) hl).1, (h.kept.closing (hcancel hf) hl).2⟩
  begun := h.begun
  ended hcrashed hf hrec hend := by
    have hover := h.ended hcrashed (hcancel hf) (hr hrec) hend
    exact { hover with closed := hclosed hover.closed }

theorem Panicking.Inv.send (h : p.Inv limit) (index : Nat) :
    ({ p with executor := p.executor.send index } : Panicking τ).Inv limit := by
  have hsound : ((p.executor.send index).withReports p.panicked).Sound limit := by
    rw [← send_withReports]
    exact h.sound.send index
  rcases send_cases (s := p.executor) index with heq | ⟨guard, -, ⟨-, heq⟩ | ⟨hopen, hend, heq⟩ |
    ⟨hopen, hend, heq⟩⟩
  · rw [heq]
    exact h
  · rw [heq]
    exact h.caller (p.executor.entering.eraseIdx index) id id id
  · rw [heq] at hsound ⊢
    refine ⟨hsound, ?_, h.begun, fun hcrashed hf hr _ => ?_⟩
    · exact h.kept.still id rfl rfl rfl id (fun _ _ => .inl) (fun _ _ => .inl) h.kept.closing
    · cases hopen.symm.trans (h.ended hcrashed hf hr hend).closed
  · rw [heq] at hsound ⊢
    refine ⟨hsound, ?_, h.begun, fun _ _ _ hl => absurd hl hend⟩
    refine h.kept.still id rfl rfl rfl id (fun _ _ => .inl) (fun _ _ => .inl) fun hf hl => ?_
    cases hopen.symm.trans (h.kept.closing hf hl).1

theorem Panicking.Inv.panicTask (h : p.Inv limit) (index : Nat) :
    (p.panicTask index).Inv limit := by
  rw [Panicking.panicTask]
  cases ht : p.executor.tasks[index]? with
  | none => exact h
  | some task =>
    have hmem := mem_of_getElem? ht
    dsimp only
    split
    next pc =>
      have hn := h.sound.numbered.of_withReports
      obtain ⟨hstarted, hfinished⟩ := h.sound.fates.of_withReports.begun task hmem (by rw [pc]; rfl)
      refine ⟨h.sound.panicTask ht pc, ?_, ?_, ?_⟩
      · refine h.kept.still id rfl rfl rfl id (fun _ other ho => ?_) (fun _ _ => .inl) h.kept.closing
        rcases hn.mem_set ht ho with rfl | ⟨ho, -⟩
        · exact .inr (by cases task.needsGpu <;> simp)
        · exact .inl ho
      · intro i hi
        rcases mem_append.1 hi with hi | hi
        · exact h.begun i hi
        · rw [mem_singleton.1 hi]
          exact ⟨hstarted, hfinished⟩
      · intro hcrashed hcancel hr hend
        have hsent := (h.ended hcrashed hcancel hr hend).sent task hmem
        rw [pc] at hsent
        cases hsent
    next => exact h

theorem Panicking.Inv.panicLoop (h : p.Inv limit) : p.panicLoop.Inv limit := by
  rw [Panicking.panicLoop]
  split
  · exact h.leave true nofun
  · exact h

/-- **Every step and every panic keeps the invariants.** -/
theorem Panicking.inv_step (turn : Turn τ) (h : p.Inv limit) : (p.step turn).Inv limit := by
  cases turn with
  | panicTask index => exact h.panicTask index
  | panicLoop => exact h.panicLoop
  | act act =>
    rw [step]
    cases act with
    | submit guard =>
      rw [Executor.step, Executor.submit]
      split
      · exact h
      · exact h.caller _ id id id
    | send index => exact h.send index
    | cancel => exact h.caller p.executor.entering (by simp) id id
    | close => exact h.caller p.executor.entering id (fun _ => rfl) id
    | drop => exact h.caller p.executor.entering id (fun _ => rfl) (by simp)
    | loop output =>
      rcases moved_loopStep (s := p.executor) output with hm | ⟨-, t, hm, hr, heq⟩
      · exact h.loopMoved hm
      · rw [Executor.step, heq]
        exact (h.loopMoved hm).leave p.crashed fun _ => hr
    | task index output =>
      rcases moved_taskStep (s := p.executor) index output with ⟨-, heq⟩ | ⟨task, ht, hm⟩
      · rw [Executor.step, heq]
        exact h
      · exact h.taskMoved ht hm

/-! ## What the loop drains for -/

/-- It drains for exclusive operations only. -/
def Executor.Held (s : Executor τ) : Prop :=
  ∀ envelope, s.loop.held = some envelope → envelope.guard = .exclusive

theorem held_flushThen {loop : LoopPc} (h : loop.held = none) :
    (s.flushThen loop).loop.held = none := by
  rw [flushThen]
  split
  · exact h
  · rfl

theorem held_loopStep (output : τ) (h : s.Held) : (s.loopStep output).Held := by
  have hnone : ∀ {t : Executor τ}, t.loop.held = none → t.Held := by
    intro t ht envelope he
    cases ht.symm.trans he
  cases hl : s.loop with
  | selecting =>
    simp only [loopStep, hl]
    split
    · exact hnone (held_flushThen rfl)
    · exact hnone rfl
  | polling =>
    simp only [loopStep, hl]
    split
    · exact hnone rfl
    split
    · exact hnone rfl
    · split
      · exact hnone (held_flushThen rfl)
      · exact h
  | taken envelope =>
    simp only [loopStep, hl]
    split
    · exact hnone rfl
    by_cases hguard : envelope.guard = .exclusive
    · rw [dispatch_exclusive hguard]
      intro other ho
      cases ho
      exact hguard
    · rw [dispatch_spawn hguard]
      exact hnone rfl
  | draining envelope =>
    have hguard := h envelope (by rw [hl]; rfl)
    have hkeep : ∀ {t : Executor τ}, t.loop = s.loop → t.Held :=
      fun ht other ho => h other (ht ▸ ho)
    simp only [loopStep, hl]
    split
    · split
      · exact hnone (held_flushThen rfl)
      · intro other ho
        cases ho
        exact hguard
    · split
      · exact hkeep rfl
      · exact h
  | executing envelope =>
    simp only [loopStep, hl]
    exact hnone (held_flushThen rfl)
  | closing =>
    simp only [loopStep, hl]
    split
    · exact hnone rfl
    split
    · exact hnone (by show s.loop.held = none; rw [hl]; rfl)
    · split
      · exact hnone rfl
      · exact h
  | ended =>
    simp only [loopStep, hl]
    exact h

/-- A caller leaves the loop where it is, and the tasks. -/
theorem caller_still {act : Act τ} (hact : act.thread = none) :
    (s.step act).loop = s.loop ∧ (s.step act).done = s.done ∧ (s.step act).tasks = s.tasks := by
  cases act with
  | loop => cases hact
  | task => cases hact
  | submit guard =>
    rw [Executor.step, Executor.submit]
    split <;> exact ⟨rfl, rfl, rfl⟩
  | send index =>
    rw [Executor.step]
    rcases send_cases (s := s) index with heq | ⟨guard, -, ⟨-, heq⟩ | ⟨-, -, heq⟩ | ⟨-, -, heq⟩⟩ <;>
      rw [heq] <;> exact ⟨rfl, rfl, rfl⟩
  | _ => exact ⟨rfl, rfl, rfl⟩

theorem Panicking.held_step (turn : Turn τ) (h : p.executor.Held) :
    (p.step turn).executor.Held := by
  have hsame : ∀ {t : Executor τ}, t.loop = p.executor.loop → t.Held :=
    fun ht envelope he => h envelope (ht ▸ he)
  cases turn with
  | panicTask index =>
    rw [step, panicTask]
    split
    · exact h
    · split
      · exact hsame rfl
      · exact h
  | panicLoop =>
    rw [step, panicLoop]
    split
    · rintro _ ⟨⟩
    · exact h
  | act act =>
    cases act with
    | loop output => exact held_loopStep output h
    | task index output =>
      rcases moved_taskStep (s := p.executor) index output with ⟨-, heq⟩ | ⟨task, -, hm⟩
      · exact hsame (congrArg _ heq)
      · exact hsame hm.still.1
    | submit guard => exact hsame (caller_still rfl).1
    | send index => exact hsame (caller_still rfl).1
    | cancel => exact hsame rfl
    | close => exact hsame rfl
    | drop => exact hsame rfl

/-! ## What is delivered -/

/-- At rest the open slots are those of what has panicked. -/
theorem Panicking.Inv.rest (h : p.Inv limit) (hcrashed : p.crashed = false)
    (hcancel : p.executor.cancelled = false) (hr : p.executor.receiver = true)
    (hsettled : p.executor.Settled) : p.executor.base = p.executor.accepted.length ∧
      p.executor.buffer.length = p.executor.accepted.length ∧ p.executor.Tidy ∧
      ∀ i, p.executor.IsOpen i ↔ i ∈ p.panicked := by
  rcases hsettled with hend | ⟨hpoll, hempty, -, hdone, hgone⟩
  · have hover := h.ended hcrashed hcancel hr hend
    refine ⟨?_, hover.slots, hover.tidy, hover.isOpen⟩
    rw [base, h.sound.numbered.of_withReports.left hend]
    exact hover.next
  · have hne : p.executor.loop ≠ .ended := by rw [hpoll]; simp
    have hbase : p.executor.base = p.executor.accepted.length := by
      rw [base, hempty]
      exact (h.sound.numbered.accepted hne).symm
    have hslots : p.executor.buffer.length = p.executor.base :=
      h.sound.flight.slots (fun envelope he => by cases hpoll.symm.trans he) hne
        fun hl => by cases hpoll.symm.trans hl
    have hsent : ∀ task ∈ p.executor.tasks, task.pc.unsent = false :=
      fun task ht => TaskPc.unsent_of_isGone (hgone task ht)
    exact ⟨hbase, hslots.trans hbase, h.sound.flight.tidy hr hne, fun i =>
      (h.sound.flight.isOpen hr hne i).trans
        (flying_withReports hdone hsent (by rw [hpoll]; rfl) i)⟩

/-- **At rest, what has come to a result has delivered it if and only if it is in front of all that
has panicked.** -/
theorem Panicking.Inv.delivered_iff (h : p.Inv limit) (hcrashed : p.crashed = false)
    (hcancel : p.executor.cancelled = false) (hr : p.executor.receiver = true)
    (hsettled : p.executor.Settled) (x : Nat × τ) (hx : x ∈ p.executor.finished) :
    x ∈ p.executor.results ↔ ∀ i ∈ p.panicked, ¬ i < x.1 := by
  obtain ⟨hbase, hslots, htidy, hopen⟩ := h.rest hcrashed hcancel hr hsettled
  have hf := h.sound.fates.of_withReports
  have ho := h.sound.ordered.of_withReports
  have hresults := h.kept.results hcancel hr
  have hcursor : x ∈ p.executor.results ↔ x.1 < p.executor.cursor := by
    rw [← mem_range, ← hresults]
    refine ⟨fun hmem => mem_map.2 ⟨x, hmem, rfl⟩, fun hmem => ?_⟩
    obtain ⟨y, hy, heq⟩ := mem_map.1 hmem
    rwa [← inj_on_of_nodup_map hf.finishedNodup (ho.results y hy) hx heq]
  rw [hcursor]
  constructor
  · intro hlt i hi
    have := ((hopen i).2 hi).1
    omega
  intro hnot
  rcases htidy with heq | hpending
  · rw [heq, hslots, ← hbase]
    exact hf.lt x.1 (mem_append_left _ (hf.finished x hx))
  have hi := (hopen _).1 ⟨Nat.le_refl _, hpending⟩
  have hnot := hnot _ hi
  have hne : x.1 ≠ p.executor.cursor := fun heq =>
    (h.begun _ hi).2 (mem_map.2 ⟨x, hx, heq⟩)
  omega

/-- At rest, all that was accepted has been started. -/
theorem Panicking.Inv.started (h : p.Inv limit) (hcrashed : p.crashed = false)
    (hcancel : p.executor.cancelled = false) (hr : p.executor.receiver = true)
    (hsettled : p.executor.Settled) :
    p.executor.started.Perm (range p.executor.accepted.length) := by
  obtain ⟨hbase, hslots, -, hopen⟩ := h.rest hcrashed hcancel hr hsettled
  have hf := h.sound.fates.of_withReports
  have ho := h.sound.ordered.of_withReports
  refine (perm_ext_iff_of_nodup (nodup_append.1 hf.nodup).1 nodup_range).2
    fun i => ⟨fun hi => ?_, fun hi => ?_⟩
  · exact mem_range.2 (hbase ▸ hf.lt i (mem_append_left _ hi))
  have hi := mem_range.1 hi
  by_cases hpassed : i < p.executor.cursor
  · have hmem : i ∈ p.executor.results.map Prod.fst := by
      rw [h.kept.results hcancel hr]
      exact mem_range.2 hpassed
    obtain ⟨x, hx, rfl⟩ := mem_map.1 hmem
    exact hf.finished x (ho.results x hx)
  · rw [← hslots] at hi
    have hslot := getElem?_eq_getElem hi
    cases hvalue : p.executor.buffer[i] with
    | pending =>
      rw [hvalue] at hslot
      exact (h.begun i ((hopen i).1 ⟨Nat.not_lt.1 hpassed, hslot⟩)).1
    | skipped =>
      rw [hvalue] at hslot
      exact absurd hslot (h.kept.slots hcancel i)
    | ready value =>
      rw [hvalue] at hslot
      exact hf.finished _ (ho.ready i value hslot)

/-- **Where every panic is harmless**, nothing else is lost. -/
theorem Panicking.Inv.kind (h : p.Inv limit) (hharmless : p.Harmless) : p.Kind where
  ordered := h.sound.ordered.increasing
  own := h.sound.ordered.results
  delivered hcancel hr hsettled :=
    ⟨fun x hx => (h.delivered_iff hharmless.crashed hcancel hr hsettled x hx).2
      fun i hi => hharmless.finished i hi x hx,
      h.started hharmless.crashed hcancel hr hsettled⟩

/-! ## Progress -/

/-- The thread can move.  The loop need not wait at its end when all the tasks are gone. -/
def Panicking.Can (p : Panicking τ) : Option Nat → Prop
  | none => p.executor.CanLoop ∨
      p.executor.loop = .closing ∧ p.executor.done = [] ∧
        ∀ task ∈ p.executor.tasks, task.pc.isGone = true
  | some index => p.executor.Can (some index)

/-- Behind what has panicked there is nothing that the loop would drain for. -/
theorem Panicking.Inv.not_held (h : p.Inv limit) (hheld : p.executor.Held)
    (hharmless : p.Harmless) (hne : p.panicked ≠ []) : p.executor.loop.held = none := by
  cases he : p.executor.loop.held with
  | none => rfl
  | some envelope =>
    obtain ⟨i, hi⟩ := exists_mem_of_ne_nil _ hne
    obtain ⟨task, ht, rfl, -⟩ := h.gone hi
    have henv : p.executor.loop.envelope = some envelope := by
      cases hl : p.executor.loop <;> rw [hl] at he <;> first | exact he | cases he
    have hn := h.sound.numbered.of_withReports
    have hlt := (hn.envelope envelope henv).2 task ht
    have hguard := hn.envelopeGuard envelope henv
    rw [hheld envelope he] at hguard
    exact absurd hguard (hharmless.exclusive _ hi _ hlt)

/-- **No deadlock**, where every panic is harmless. -/
theorem Panicking.Inv.live (h : p.Inv limit) (hheld : p.executor.Held) (hharmless : p.Harmless)
    (hsettled : ¬ p.executor.Settled) : ∃ k, p.Can k := by
  by_contra hstuck
  have hloop : ¬ p.executor.CanLoop := fun hcan => hstuck ⟨none, .inl hcan⟩
  have htask : ∀ task ∈ p.executor.tasks, ¬ p.executor.CanTask task := fun task hmem hcan => by
    obtain ⟨index, hindex⟩ := mem_iff_getElem?.1 hmem
    exact hstuck ⟨some index, task, hindex, hcan⟩
  have hgone : ∀ task ∈ p.executor.tasks, task.pc.isGone = true :=
    h.sound.limits.gone (Nat.lt_of_lt_of_le Nat.zero_lt_one (Nat.le_max_right _ _)) htask
  cases hl : p.executor.loop with
  | ended => exact hsettled (.inl hl)
  | polling =>
    simp only [Executor.CanLoop, hl, not_or, not_not] at hloop
    exact hsettled (.inr ⟨hl, hloop.1, by simpa using hloop.2.1, hloop.2.2, hgone⟩)
  | closing =>
    by_cases hdone : p.executor.done = []
    · exact hstuck ⟨none, .inr ⟨hl, hdone, hgone⟩⟩
    · exact hloop (by simp only [Executor.CanLoop, hl]; exact .inr hdone)
  | draining envelope =>
    have hnil : p.panicked = [] := by
      by_contra hne
      have hnone := h.not_held hheld hharmless hne
      rw [hl] at hnone
      cases hnone
    simp only [Executor.CanLoop, hl, not_or, not_not] at hloop
    have hunsent : p.executor.tasks.countP (·.pc.unsent) = 0 := by
      refine countP_eq_zero.2 fun task hmem => ?_
      rw [TaskPc.unsent_of_isGone (hgone task hmem)]
      simp
    have hin : p.executor.inFlight = p.executor.tasks.countP (·.pc.unsent) +
        (p.executor.done ++ p.panicked.map fun i => (i, none)).length :=
      h.sound.limits.inFlight fun hend => by cases hl.symm.trans hend
    rw [hunsent, hloop.2, hnil] at hin
    exact hloop.1 hin
  | _ => exact hloop (by simp [Executor.CanLoop, hl])

/-- At its end the loop returns, when all the tasks are gone. -/
theorem loopStep_closing (output : τ) (loop : s.loop = .closing) (hdone : s.done = [])
    (hgone : ∀ task ∈ s.tasks, task.pc.isGone = true) : (s.loopStep output).loop = .ended := by
  simp only [loopStep, loop, hdone]
  split
  · rfl
  · rw [if_pos (all_eq_true.2 hgone)]
    rfl

/-- A panic leaves less to do. -/
theorem Panicking.work_panicTask (index : Nat) :
    (p.panicTask index).executor.work < p.executor.work ∨ p.panicTask index = p := by
  rw [panicTask]
  cases ht : p.executor.tasks[index]? with
  | none => exact .inr rfl
  | some task =>
    dsimp only
    split
    next pc =>
      left
      have hsum := sum_set_rank ht (if task.needsGpu then .releasingGpu else .releasing)
      have hrank : (if task.needsGpu then TaskPc.releasingGpu else .releasing : TaskPc τ).rank ≤ 2 := by
        cases task.needsGpu <;> simp
      rw [pc, TaskPc.rank] at hsum
      simp only [work, goTask]
      omega
    next => exact .inr rfl

theorem Panicking.work_panicLoop :
    p.panicLoop.executor.work < p.executor.work ∨ p.panicLoop = p := by
  rw [panicLoop]
  split
  next envelope hl =>
    left
    simp only [work, leave, hl, LoopPc.rank, length_nil]
    omega
  next => exact .inr rfl

/-- The threads that have to move.  Nobody has to panic. -/
def Turn.thread : Turn τ → Option (Option Nat)
  | .act move => move.thread
  | .panicTask _ | .panicLoop => none

/-- Why the executor comes to rest where every panic is harmless, once nothing more is accepted. -/
theorem Panicking.progress : Progress (step (τ := τ)) Turn.thread
    (fun p turn => (p.step turn).executor.accepted = p.executor.accepted ∧ (p.step turn).Harmless)
    (fun p => p.Inv limit ∧ p.executor.Held ∧ p.Harmless) (fun p => p.executor.Settled)
    Panicking.Can (fun p => p.executor.work) where
  inv p turn h hallowed := ⟨inv_step turn h.1, held_step turn h.2.1, hallowed.2⟩
  live p h hsettled := h.1.live h.2.1 h.2.2 hsettled
  down p turn k h hallowed hk hcan := by
    cases turn with
    | panicTask index => cases hk
    | panicLoop => cases hk
    | act act =>
      cases k with
      | some index => exact work_step_lt (s := p.executor) (k := some index) hk hcan
      | none =>
        rcases hcan with hcan | ⟨loop, hdone, hgone⟩
        · exact work_step_lt (s := p.executor) (k := none) hk hcan
        cases act with
        | loop output =>
          refine (work_loopStep output).resolve_left fun hstuck => ?_
          have hend := loopStep_closing output loop hdone hgone
          rw [hstuck.1, loop] at hend
          cases hend
        | task index output => cases hk
        | _ => cases hk
  le p turn h hallowed := by
    cases turn with
    | act act => exact work_step_le act hallowed.1
    | panicTask index =>
      exact (work_panicTask index).elim Nat.le_of_lt fun heq => (congrArg (·.executor.work) heq).le
    | panicLoop =>
      exact work_panicLoop.elim Nat.le_of_lt fun heq => (congrArg (·.executor.work) heq).le
  keep p turn k h hallowed hcan hwork := by
    cases turn with
    | act act =>
      rcases work_step (s := p.executor) act with hlt | heq | hcaller
      · exact absurd hwork hlt.ne
      · rw [step, heq]
        exact hcan
      obtain ⟨hloop, hdone, htasks⟩ := caller_still (s := p.executor) hcaller
      have hkeep := (can_of_caller hcaller hallowed.1).2
      cases k with
      | some index => exact hkeep (some index) hcan
      | none =>
        refine hcan.imp (hkeep none) ?_
        rintro ⟨loop, hnil, hgone⟩
        refine ⟨hloop.trans loop, hdone.trans hnil, ?_⟩
        show ∀ task ∈ (p.executor.step act).tasks, _
        rw [htasks]
        exact hgone
    | panicTask index =>
      rcases work_panicTask (p := p) index with hlt | heq
      · exact absurd hwork hlt.ne
      · rw [step, heq]
        exact hcan
    | panicLoop =>
      rcases work_panicLoop (p := p) with hlt | heq
      · exact absurd hwork hlt.ne
      · rw [step, heq]
        exact hcan

/-! ## The result -/

theorem Panicking.closed_step (turn : Turn τ) (hclosed : p.executor.closed = true) :
    (p.step turn).executor.closed = true ∧
      (p.step turn).executor.accepted = p.executor.accepted := by
  cases turn with
  | act act => exact Tools.closed_step act hclosed
  | panicTask index =>
    rw [step, panicTask]
    split
    · exact ⟨hclosed, rfl⟩
    · split <;> exact ⟨hclosed, rfl⟩
  | panicLoop =>
    rw [step, panicLoop]
    split <;> exact ⟨hclosed, rfl⟩

theorem Panicking.closed_after {f : Nat → Turn τ} (hclosed : p.executor.closed = true) (n : Nat) :
    (after step f p n).executor.closed = true := by
  induction n with
  | zero => exact hclosed
  | succ n ih => exact (closed_step (f n) ih).1

/-- **A panic costs no more than its own result**, in every interleaving in which every panic is
harmless: all that comes to a result delivers it in the order of submission, all that was accepted
runs, and once the channel is closed the loop comes to its end.  In any other, what has come to a
result behind an operation that panicked has not delivered it when the executor is at rest. -/
theorem panic_harmless (limit : Nat) (turns : List (Turn τ)) :
    Always nextTurn (fun p => p.Harmless → p.Kind) turns (.new τ limit) ∧
      ∀ p, runAll nextTurn turns (.new τ limit) = some p →
        (∀ f, Fair Turn.thread f → (∀ n, (after Panicking.step f p n).Harmless) →
          (p.executor.closed = true → ∃ n, (after Panicking.step f p n).executor.loop = .ended ∧
            (after Panicking.step f p n).Kind) ∧
          ((∀ n, (after Panicking.step f p n).executor.accepted = p.executor.accepted) →
            ∃ n, (after Panicking.step f p n).executor.Settled ∧
              (after Panicking.step f p n).Kind)) ∧
        (p.crashed = false → p.executor.cancelled = false → p.executor.receiver = true →
          p.executor.Settled → ∀ x ∈ p.executor.finished,
            (x ∈ p.executor.results ↔ ∀ i ∈ p.panicked, ¬ i < x.1)) := by
  have hrun : Always nextTurn (fun p => p.Inv limit ∧ p.executor.Held) turns (.new τ limit) :=
    always_of_step (C := fun _ _ => True)
      (fun p turn h _ => ⟨p.step turn, rfl, Panicking.inv_step turn h.1,
        Panicking.held_step turn h.2⟩)
      ⟨Panicking.inv_new limit, nofun⟩ (everyStep_true turns _)
  refine ⟨hrun.mono fun p h => h.1.kind, fun p hp => ?_⟩
  obtain ⟨p', hp', hinv, hheld⟩ := hrun.final
  obtain rfl := Option.some.inj (hp.symm.trans hp')
  refine ⟨fun f hf hharmless => ?_, hinv.delivered_iff⟩
  have hafter : ∀ n, (after Panicking.step f p n).Inv limit := by
    intro n
    induction n with
    | zero => exact hinv
    | succ n ih => exact Panicking.inv_step (f n) ih
  constructor
  · intro hclosed
    obtain ⟨n, hn⟩ := Panicking.progress.eventually ⟨hinv, hheld, hharmless 0⟩
      (fun n => ⟨(Panicking.closed_step (f n) (Panicking.closed_after hclosed n)).2,
        hharmless (n + 1)⟩) hf
    refine ⟨n, ?_, (hafter n).kind (hharmless n)⟩
    rcases hn with hend | ⟨-, -, hopen, -⟩
    · exact hend
    · cases (Panicking.closed_after hclosed n).symm.trans hopen
  · intro hacc
    obtain ⟨n, hn⟩ := Panicking.progress.eventually ⟨hinv, hheld, hharmless 0⟩
      (fun n => ⟨(hacc (n + 1)).trans (hacc n).symm, hharmless (n + 1)⟩) hf
    exact ⟨n, hn, (hafter n).kind (hharmless n)⟩

/-- Two safe operations: the first comes to a result, and the second panics. -/
def lastRun : List (Turn Unit) :=
  [.act (.submit .safe), .act (.send 0), .act (.submit .safe), .act (.send 0), .act .close] ++
    List.replicate 6 (.act (.loop ())) ++ List.replicate 2 (.act (.task 1 ())) ++ [.panicTask 1] ++
    List.replicate 5 (.act (.task 0 ())) ++ List.replicate 2 (.act (.task 1 ())) ++
    List.replicate 5 (.act (.loop ()))

theorem last_panics : ∃ p, runAll nextTurn lastRun (.new Unit 2) = some p ∧
    p.executor.loop = .ended ∧ p.panicked = [1] ∧ p.Kind := by
  obtain ⟨p, hrun, hkind⟩ := (panic_harmless 2 lastRun).1.final
  have hend : (runAll nextTurn lastRun (.new Unit 2)).map (fun p =>
      (p.executor.loop, p.panicked, p.crashed)) = some (.ended, [1], false) := by decide +kernel
  have hdone : (runAll nextTurn lastRun (.new Unit 2)).map (fun p =>
      (p.executor.finished, p.executor.accepted)) = some ([(0, ())], [.safe, .safe]) := by
    decide +kernel
  rw [hrun] at hend hdone
  simp only [Option.map_some, Option.some.injEq, Prod.mk.injEq] at hend hdone
  obtain ⟨hloop, hpanicked, hcrashed⟩ := hend
  obtain ⟨hfinished, haccepted⟩ := hdone
  refine ⟨p, hrun, hloop, hpanicked, hkind ⟨hcrashed, ?_, ?_⟩⟩
  · rw [hpanicked, hfinished]
    simp
  rw [hpanicked, haccepted]
  rintro i hi j hlt
  rw [List.mem_singleton.1 hi] at hlt
  rw [List.getElem?_eq_none hlt]
  nofun

end Gen2.Tools
