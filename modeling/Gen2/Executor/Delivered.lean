import Gen2.Executor.Once

/-!
# What is delivered

* `Ordered`: results are sent by their numbers, each the result of its own operation.
* `Flight`: while the receiver is there, the slots that are open are those of the operations that
  are in flight, so no result is kept back and none comes to a slot that has been passed.
* `Kept`: without a cancel nothing is skipped, and what the cursor has passed has been delivered.
* `Whole`: and the loop ends with everything delivered.
-/

namespace Gen2.Tools

open List Executor

variable {τ : Type} {s s' : Executor τ}

/-! ## In order, and its own -/

/-- Results go out in order, and are what their operations came to. -/
structure Executor.Ordered (s : Executor τ) : Prop where
  cursor : s.cursor ≤ s.buffer.length
  increasing : (s.results.map Prod.fst).Pairwise (· < ·)
  passed : ∀ x ∈ s.results, x.1 < s.cursor
  ready : ∀ i output, s.buffer[i]? = some (.ready output) → (i, output) ∈ s.finished
  results : ∀ x ∈ s.results, x ∈ s.finished

theorem ordered_new (limit : Nat) : (new τ limit).Ordered where
  cursor := Nat.le_refl _
  increasing := .nil
  passed := nofun
  ready _ _ h := by cases h
  results := nofun

/-- A step that leaves buffer and results alone. -/
theorem Executor.Ordered.still (h : s.Ordered) (hb : s'.buffer = s.buffer)
    (hc : s'.cursor = s.cursor) (hr : s'.results = s.results)
    (hf : ∀ x ∈ s.finished, x ∈ s'.finished) : s'.Ordered where
  cursor := by rw [hc, hb]; exact h.cursor
  increasing := hr ▸ h.increasing
  passed := by rw [hr, hc]; exact h.passed
  ready i output hget := hf _ (h.ready i output (hb ▸ hget))
  results x hx := hf x (h.results x (hr ▸ hx))

theorem Executor.Ordered.flush (h : s.Ordered) : s.flush.Ordered := by
  obtain ⟨sent, hres, hpair, hmem⟩ := flush_results (s := s)
  exact {
    cursor := (flush_cursor h.cursor).2
    increasing := by
      rw [hres, map_append, pairwise_append]
      refine ⟨h.increasing, hpair, fun i hi j hj => ?_⟩
      obtain ⟨x, hx, rfl⟩ := mem_map.1 hi
      obtain ⟨y, hy, rfl⟩ := mem_map.1 hj
      exact (h.passed x hx).trans_le (hmem y hy).1
    passed := fun x hx => by
      rw [hres] at hx
      rcases mem_append.1 hx with hx | hx
      · exact (h.passed x hx).trans_le (flush_cursor h.cursor).1
      · exact (hmem x hx).2.1
    ready := fun i output hget => by
      rcases flush_get h.cursor i with heq | heq
      · exact h.ready i output (heq ▸ hget)
      · cases heq.symm.trans hget
    results := fun x hx => by
      rw [hres] at hx
      rcases mem_append.1 hx with hx | hx
      · exact h.results x hx
      · exact h.ready x.1 x.2 (hmem x hx).2.2 }

variable {seq : Nat} {slot : Slot τ}

theorem Executor.Ordered.resolve (h : s.Ordered)
    (hslot : ∀ output, slot = .ready output → (seq, output) ∈ s.finished) :
    (s.resolve seq slot).Ordered where
  cursor := by
    rw [Executor.resolve, length_set]
    exact h.cursor
  increasing := h.increasing
  passed := h.passed
  ready i output hget := by
    rw [Executor.resolve, getElem?_set] at hget
    by_cases hi : seq = i
    · subst hi
      rw [if_pos rfl] at hget
      split at hget
      · exact hslot output (Option.some.inj hget)
      · cases hget
    · rw [if_neg hi] at hget
      exact h.ready i output hget
  results := h.results

theorem Executor.Ordered.reserve (h : s.Ordered) (seq : Nat) : (s.reserve seq).Ordered where
  cursor := by
    rw [Executor.reserve, length_append]
    exact h.cursor.trans (Nat.le_add_right ..)
  increasing := h.increasing
  passed := h.passed
  ready i output hget := by
    rw [Executor.reserve, getElem?_append] at hget
    split at hget
    · exact h.ready i output hget
    · rw [getElem?_replicate] at hget
      split at hget <;> cases hget
  results := h.results

theorem Executor.Ordered.leave (h : s.Ordered) : s.leave.Ordered :=
  h.still rfl rfl rfl fun _ hx => hx

theorem Executor.Ordered.loopMoved (h : s.Ordered) (hf : s.Fates) (hm : s.LoopMoved s') :
    s'.Ordered := by
  cases hm with
  | stay => exact h
  | poll => exact h.still rfl rfl rfl fun _ hx => hx
  | take => exact h.still rfl rfl rfl fun _ hx => hx
  | close => exact h.still rfl rfl rfl fun _ hx => hx
  | refuse => exact h.still rfl rfl rfl fun _ hx => hx
  | spawn envelope => exact (h.reserve envelope.seq).still rfl rfl rfl fun _ hx => hx
  | drain envelope => exact (h.reserve envelope.seq).still rfl rfl rfl fun _ hx => hx
  | report seq report done loop queue =>
    have hread : ({ s with inFlight := s.inFlight - 1, done } : Executor τ).Ordered :=
      h.still rfl rfl rfl fun _ hx => hx
    have hresolve : (s.complete seq report done).Ordered := by
      refine hread.resolve fun output hout => ?_
      cases report with
      | none => cases hout
      | some value =>
        cases hout
        exact hf.done seq output (queue ▸ mem_cons_self)
    exact hresolve.flush.still rfl rfl rfl fun _ hx => hx
  | skip envelope =>
    have hobserve : ({ s with observed := s.observed ++ [envelope.seq] } : Executor τ).Ordered :=
      h.still rfl rfl rfl fun _ hx => hx
    have hresolve := hobserve.resolve (fun _ h => nomatch h : ∀ output,
      Slot.skipped = .ready output →
      (envelope.seq, output) ∈ s.finished)
    exact hresolve.flush.still rfl rfl rfl fun _ hx => hx
  | start => exact h.still rfl rfl rfl fun _ hx => hx
  | finish envelope output =>
    have hfinish : ({ s with
        finished := s.finished ++ [(envelope.seq, output)] } : Executor τ).Ordered :=
      h.still rfl rfl rfl fun _ hx => mem_append_left _ hx
    have hslot : ∀ value, Slot.ready output = .ready value →
        (envelope.seq, value) ∈ s.finished ++ [(envelope.seq, output)] := by
      intro value hvalue
      cases hvalue
      exact mem_append_right _ (mem_singleton.2 rfl)
    exact (hfinish.resolve hslot).flush.still rfl rfl rfl fun _ hx => hx
  | last => exact h.flush.leave

variable {index : Nat} {task : Task τ}

theorem Executor.Ordered.taskMoved (h : s.Ordered) (hm : s.TaskMoved index task s') :
    s'.Ordered := by
  cases hm with
  | stay => exact h
  | finish => exact h.still rfl rfl rfl fun _ hx => mem_append_left _ hx
  | send report =>
    rw [Executor.report]
    split <;> exact h.still rfl rfl rfl fun _ hx => hx
  | _ => exact h.still rfl rfl rfl fun _ hx => hx

/-! ## What is in flight -/

/-- The exclusive operation in the loop's hands. -/
@[simp] def LoopPc.held : LoopPc → Option Envelope
  | .draining envelope | .executing envelope => some envelope
  | _ => none

/-- The operation has a slot, and the loop does not know yet what it comes to. -/
def Executor.Flying (s : Executor τ) (i : Nat) : Prop :=
  (∃ task ∈ s.tasks, task.seq = i ∧ task.pc.unsent = true) ∨ i ∈ s.done.map Prod.fst ∨
    ∃ envelope, s.loop.held = some envelope ∧ envelope.seq = i

/-- Open slots are those of the operations in flight. -/
structure Executor.Flight (s : Executor τ) : Prop where
  doneNodup : (s.done.map Prod.fst).Nodup
  doneSent : ∀ x ∈ s.done, ∃ task ∈ s.tasks, task.seq = x.1 ∧ task.pc.unsent = false
  room : ∀ envelope, s.loop = .taken envelope → s.buffer.length = envelope.seq
  slots : (∀ envelope, s.loop ≠ .taken envelope) → s.loop ≠ .ended →
    (s.loop = .closing → s.cancelled = false) → s.buffer.length = s.base
  tidy : s.receiver = true → s.loop ≠ .ended → s.Tidy
  isOpen : s.receiver = true → s.loop ≠ .ended → ∀ i, s.IsOpen i ↔ s.Flying i

theorem flight_new (limit : Nat) : (new τ limit).Flight where
  doneNodup := .nil
  doneSent := nofun
  room := nofun
  slots _ _ _ := rfl
  tidy _ _ := .inl rfl
  isOpen _ _ i := by simp [Executor.IsOpen, Executor.Flying, new]

/-- Tasks with the same number are the same. -/
theorem Executor.Numbered.task_eq (h : s.Numbered) {other : Task τ} (ht : task ∈ s.tasks)
    (ho : other ∈ s.tasks) (hseq : task.seq = other.seq) : task = other := by
  have hnodup : (s.tasks.map (·.seq)).Nodup := h.tasks.imp Nat.ne_of_lt
  exact inj_on_of_nodup_map hnodup ht ho hseq

/-- A step that leaves the slots alone, and what is in flight. -/
theorem Executor.Flight.still (h : s.Flight) (hb : s'.buffer = s.buffer)
    (hc : s'.cursor = s.cursor) (hr : s'.receiver = true → s.receiver = true)
    (ht : s'.tasks = s.tasks) (hd : s'.done = s.done)
    (hroom : ∀ envelope, s'.loop = .taken envelope → s.buffer.length = envelope.seq)
    (hslots : (∀ envelope, s'.loop ≠ .taken envelope) → s'.loop ≠ .ended →
      (s'.loop = .closing → s'.cancelled = false) → s.buffer.length = s'.base)
    (hheld : s'.loop.held = s.loop.held) (hend : s'.loop ≠ .ended → s.loop ≠ .ended) :
    s'.Flight where
  doneNodup := hd ▸ h.doneNodup
  doneSent := by rw [hd, ht]; exact h.doneSent
  room envelope he := by rw [hb]; exact hroom envelope he
  slots h₁ h₂ h₃ := by rw [hb]; exact hslots h₁ h₂ h₃
  tidy hrec hne := by
    rw [Executor.Tidy, hc, hb]
    exact h.tidy (hr hrec) (hend hne)
  isOpen hrec hne i := by
    rw [Executor.IsOpen, hc, hb, Executor.Flying, ht, hd, hheld]
    exact h.isOpen (hr hrec) (hend hne) i

theorem flight_leave : s.leave.Flight where
  doneNodup := .nil
  doneSent := nofun
  room := nofun
  slots _ hne := absurd rfl hne
  tidy _ hne := absurd rfl hne
  isOpen _ hne := absurd rfl hne

/-- Resolving an open slot, a flush closes it and no other. -/
theorem isOpen_resolve_flush (hc : s.cursor ≤ s.buffer.length) (hr : s.receiver = true)
    (hslot : slot ≠ .pending) (i : Nat) :
    (s.resolve seq slot).flush.IsOpen i ↔ s.IsOpen i ∧ i ≠ seq := by
  have hc' : (s.resolve seq slot).cursor ≤ (s.resolve seq slot).buffer.length := by
    rw [resolve, length_set]
    exact hc
  exact (isOpen_flush hc' hr i).trans (isOpen_resolve hslot i)

theorem tidy_resolve_flush (hc : s.cursor ≤ s.buffer.length) (hr : s.receiver = true) :
    (s.resolve seq slot).flush.Tidy := by
  have hc' : (s.resolve seq slot).cursor ≤ (s.resolve seq slot).buffer.length := by
    rw [resolve, length_set]
    exact hc
  exact tidy_flush hc' hr

theorem length_resolve_flush : (s.resolve seq slot).flush.buffer.length = s.buffer.length := by
  rw [flush_length, resolve, length_set]

theorem Slot.ofReport_ne (report : Option τ) : Slot.ofReport report ≠ .pending := by
  cases report <;> nofun

variable {envelope : Envelope}

/-- The slot of the operation that the loop has in its hands is its own. -/
theorem Executor.Flight.release (h : s.Flight) (hn : s.Numbered)
    (hheld : s.loop.held = some envelope) (i : Nat) : s.Flying i ∧ i ≠ envelope.seq ↔
      (∃ task ∈ s.tasks, task.seq = i ∧ task.pc.unsent = true) ∨ i ∈ s.done.map Prod.fst := by
  have henv : s.loop.envelope = some envelope := by
    cases hl : s.loop <;> rw [hl] at hheld <;> first | exact hheld | cases hheld
  have hlt := (hn.envelope envelope henv).2
  constructor
  · rintro ⟨hunsent | hdone | ⟨other, hother, rfl⟩, hi⟩
    · exact .inl hunsent
    · exact .inr hdone
    · rw [Option.some.inj (hheld.symm.trans hother)] at hi
      exact absurd rfl hi
  · rintro (⟨task, ht, rfl, hunsent⟩ | hdone)
    · exact ⟨.inl ⟨task, ht, rfl, hunsent⟩, (hlt task ht).ne⟩
    · obtain ⟨x, hx, rfl⟩ := mem_map.1 hdone
      obtain ⟨task, ht, hseq, -⟩ := h.doneSent x hx
      exact ⟨.inr (.inl hdone), hseq ▸ (hlt task ht).ne⟩

/-- The slots after room is made for the operation that the loop has taken. -/
theorem Executor.Flight.length_reserve (h : s.Flight) (hn : s.Numbered)
    (loop : s.loop = .taken envelope) : (s.reserve envelope.seq).buffer.length = s.base := by
  have hroom := h.room envelope loop
  obtain ⟨hseq, -⟩ := hn.envelope envelope (by rw [loop]; rfl)
  rw [reserve, length_append, length_replicate]
  omega

theorem Executor.Flight.tidy_reserve (h : s.Flight) (loop : s.loop = .taken envelope)
    (hr : s.receiver = true) : (s.reserve envelope.seq).Tidy := by
  have hroom := h.room envelope loop
  right
  rcases h.tidy hr (by rw [loop]; nofun) with heq | hpending
  · simp [reserve, heq, hroom]
  · show (s.buffer ++ replicate _ _)[s.cursor]? = _
    rw [List.getElem?_append_left (List.getElem?_eq_some_iff.1 hpending).1]
    exact hpending

/-- Its slot is open besides those of the operations in flight. -/
theorem Executor.Flight.isOpen_reserve (h : s.Flight) (ho : s.Ordered)
    (loop : s.loop = .taken envelope) (hr : s.receiver = true) (i : Nat) :
    (s.reserve envelope.seq).IsOpen i ↔ s.Flying i ∨ envelope.seq = i := by
  have hroom := h.room envelope loop
  have hopen := h.isOpen hr (by rw [loop]; nofun) i
  have hc := ho.cursor
  have hnew : s.cursor ≤ i ∧ s.buffer.length ≤ i ∧ i ≤ envelope.seq ↔ envelope.seq = i := by
    omega
  exact (Tools.isOpen_reserve envelope.seq i).trans (or_congr hopen hnew)

theorem Executor.Flight.loopMoved (h : s.Flight) (hn : s.Numbered) (ho : s.Ordered)
    (hm : s.LoopMoved s') : s'.Flight := by
  cases hm with
  | stay => exact h
  | poll loop =>
    refine h.still rfl rfl id rfl rfl (by simp) (fun _ _ _ => ?_) (by rw [loop]; rfl)
      fun _ => by rw [loop]; simp
    exact h.slots (by rw [loop]; simp) (by rw [loop]; simp) (by rw [loop]; simp)
  | take envelope submitted loop queue =>
    refine h.still rfl rfl id rfl rfl (fun other hother => ?_) (fun hne => absurd rfl (hne envelope))
      (by rw [loop]; rfl) fun _ => by rw [loop]; simp
    cases hother
    have hqueue := hn.queue
    rw [queue, map_cons, length_cons, range'_succ] at hqueue
    rw [(cons.inj hqueue).1]
    exact h.slots (by rw [loop]; simp) (by rw [loop]; simp) (by rw [loop]; simp)
  | close loop =>
    refine h.still rfl rfl id rfl rfl (by simp) (fun _ _ _ => ?_) (by rw [loop]; rfl)
      fun _ => by rw [loop]; simp
    exact h.slots (by rw [loop]; simp) (by rw [loop]; simp) (by rw [loop]; simp)
  | refuse envelope loop cancelled =>
    exact h.still rfl rfl id rfl rfl (by simp)
      (fun _ _ hcancel => absurd cancelled (by rw [hcancel rfl]; simp)) (by rw [loop]; rfl)
      fun _ => by rw [loop]; simp
  | spawn envelope loop guard =>
    exact {
      doneNodup := h.doneNodup
      doneSent := fun x hx => by
        obtain ⟨task, ht, hsent⟩ := h.doneSent x hx
        exact ⟨task, mem_append_left _ ht, hsent⟩
      room := (by simp)
      slots := fun _ _ _ => h.length_reserve hn loop
      tidy := fun hr _ => h.tidy_reserve loop hr
      isOpen := fun hr _ i => by
        refine (h.isOpen_reserve ho loop hr i).trans ?_
        simp only [Executor.Flying, mem_append, mem_singleton, loop, LoopPc.held]
        constructor
        · rintro ((⟨task, ht, hs⟩ | hd | ⟨_, hh, -⟩) | rfl)
          · exact .inl ⟨task, .inl ht, hs⟩
          · exact .inr (.inl hd)
          · cases hh
          · exact .inl ⟨_, .inr rfl, rfl, rfl⟩
        · rintro (⟨task, ht | rfl, hs⟩ | hd | ⟨_, hh, -⟩)
          · exact .inl (.inl ⟨task, ht, hs⟩)
          · exact .inr hs.1
          · exact .inl (.inr (.inl hd))
          · cases hh }
  | drain envelope loop =>
    exact {
      doneNodup := h.doneNodup
      doneSent := h.doneSent
      room := (by simp)
      slots := fun _ _ _ => h.length_reserve hn loop
      tidy := fun hr _ => h.tidy_reserve loop hr
      isOpen := fun hr _ i => by
        refine (h.isOpen_reserve ho loop hr i).trans ?_
        simp only [Executor.Flying, loop, LoopPc.held]
        constructor
        · rintro ((ht | hd | ⟨_, hh, -⟩) | rfl)
          · exact .inl ht
          · exact .inr (.inl hd)
          · cases hh
          · exact .inr (.inr ⟨envelope, rfl, rfl⟩)
        · rintro (ht | hd | ⟨other, hh, rfl⟩)
          · exact .inl (.inl ht)
          · exact .inl (.inr (.inl hd))
          · cases hh
            exact .inr rfl }
  | report seq report done loop queue from_to =>
    have hnodup := h.doneNodup
    rw [queue, map_cons, nodup_cons] at hnodup
    have hends : s.loop ≠ .ended ∧ loop ≠ .ended ∧ loop.held = s.loop.held ∧
        (∀ envelope, loop ≠ .taken envelope) ∧ (∀ envelope, s.loop ≠ .taken envelope) ∧
        (loop = .closing ↔ s.loop = .closing) := by
      rcases from_to with ⟨hl | hl, rfl⟩ | ⟨-, rfl, ⟨envelope, hl⟩ | hl⟩ <;> rw [hl] <;> simp
    obtain ⟨hne, hne', hheld, htaken', htaken, hclosing⟩ := hends
    exact {
      doneNodup := hnodup.2
      doneSent := fun x hx => h.doneSent x (queue ▸ mem_cons_of_mem _ hx)
      room := fun envelope he => absurd he (htaken' envelope)
      slots := fun _ _ hcancel => by
        rw [complete, length_resolve_flush]
        exact h.slots htaken hne fun hl => hcancel (hclosing.2 hl)
      tidy := fun hr _ => tidy_resolve_flush ho.cursor hr
      isOpen := fun hr _ i => by
        refine (isOpen_resolve_flush ho.cursor hr (Slot.ofReport_ne report) i).trans ?_
        refine Iff.trans (and_congr_left fun _ => h.isOpen hr hne i) ?_
        show s.Flying i ∧ i ≠ seq ↔ (∃ task ∈ s.tasks, task.seq = i ∧ task.pc.unsent = true) ∨
          i ∈ done.map Prod.fst ∨ ∃ envelope, loop.held = some envelope ∧ envelope.seq = i
        rw [Executor.Flying, queue, map_cons, mem_cons, hheld]
        obtain ⟨task, ht, hseq, hsent⟩ := h.doneSent (seq, report) (queue ▸ mem_cons_self)
        constructor
        · rintro ⟨hunsent | (rfl | hdone) | hhold, hi⟩
          · exact .inl hunsent
          · exact absurd rfl hi
          · exact .inr (.inl hdone)
          · exact .inr (.inr hhold)
        · rintro (⟨other, hother, rfl, hunsent⟩ | hdone | ⟨envelope, hhold, rfl⟩)
          · refine ⟨.inl ⟨other, hother, rfl, hunsent⟩, fun heq => ?_⟩
            rw [hn.task_eq hother ht (heq.trans hseq.symm), hsent] at hunsent
            cases hunsent
          · exact ⟨.inr (.inl (.inr hdone)), fun heq => hnodup.1 (heq ▸ hdone)⟩
          refine ⟨.inr (.inr ⟨envelope, hhold, rfl⟩), fun heq => ?_⟩
          have henv : s.loop.envelope = some envelope := by
            cases hl : s.loop <;> rw [hl] at hhold <;> first | exact hhold | cases hhold
          have := (hn.envelope envelope henv).2 task ht
          omega }
  | skip envelope loop idle cancelled =>
    exact {
      doneNodup := h.doneNodup
      doneSent := h.doneSent
      room := (by simp)
      slots := fun _ _ hcancel => absurd cancelled (by
        have : s.cancelled = false := hcancel rfl
        rw [this]
        simp)
      tidy := fun hr _ => tidy_resolve_flush ho.cursor hr
      isOpen := fun hr _ i => by
        refine (isOpen_resolve_flush ho.cursor hr (Slot.ofReport_ne none) i).trans ?_
        refine Iff.trans (and_congr_left fun _ => h.isOpen hr (by rw [loop]; simp) i) ?_
        refine (h.release hn (by rw [loop]; rfl) i).trans (or_congr_right ?_)
        simp [flush, resolve] }
  | start envelope loop =>
    refine h.still rfl rfl id rfl rfl (by simp) (fun _ _ _ => ?_) (by rw [loop]; rfl)
      fun _ => by rw [loop]; simp
    exact h.slots (by rw [loop]; simp) (by rw [loop]; simp) (by rw [loop]; simp)
  | finish envelope output loop =>
    exact {
      doneNodup := h.doneNodup
      doneSent := h.doneSent
      room := (by simp)
      slots := fun _ _ _ => by
        refine length_resolve_flush.trans ?_
        exact h.slots (by rw [loop]; simp) (by rw [loop]; simp) (by rw [loop]; simp)
      tidy := fun hr _ => tidy_resolve_flush ho.cursor hr
      isOpen := fun hr _ i => by
        refine (isOpen_resolve_flush ho.cursor hr (Slot.ofReport_ne (some output)) i).trans ?_
        refine Iff.trans (and_congr_left fun _ => h.isOpen hr (by rw [loop]; simp) i) ?_
        refine (h.release hn (by rw [loop]; rfl) i).trans (or_congr_right ?_)
        simp [flush, resolve] }
  | last => exact flight_leave

variable {pc : TaskPc τ}

/-- The other tasks are still there after a task has moved. -/
theorem mem_set_of_ne {other : Task τ} (ht : s.tasks[index]? = some task) (ho : other ∈ s.tasks)
    (hne : other ≠ task) : other ∈ s.tasks.set index { task with pc } := by
  obtain ⟨j, hj⟩ := mem_iff_getElem?.1 ho
  have hij : index ≠ j := by
    rintro rfl
    rw [ht] at hj
    exact hne (Option.some.inj hj).symm
  exact mem_of_getElem? (by rw [getElem?_set, if_neg hij]; exact hj)

/-- A move of a task, by what is in flight. -/
theorem Executor.Flight.goTask (h : s.Flight) (hn : s.Numbered) (ht : s.tasks[index]? = some task)
    (htasks : s'.tasks = s.tasks.set index { task with pc }) (hb : s'.buffer = s.buffer)
    (hc : s'.cursor = s.cursor) (hr : s'.receiver = s.receiver) (hl : s'.loop = s.loop)
    (hbase : s'.base = s.base) (hcancel : s'.cancelled = s.cancelled) (hd : s'.done = s.done)
    (hunsent : pc.unsent = task.pc.unsent) : s'.Flight := by
  have hmem := mem_of_getElem? ht
  have hnew : ({ task with pc } : Task τ) ∈ s'.tasks := by
    rw [htasks]
    exact List.mem_of_getElem? (List.getElem?_set_self (List.getElem?_eq_some_iff.1 ht).1)
  -- every task is still there, perhaps at another point
  have hkeep : ∀ other ∈ s.tasks, ∃ new ∈ s'.tasks, new.seq = other.seq ∧
      new.pc.unsent = other.pc.unsent := by
    intro other ho
    by_cases hseq : other.seq = task.seq
    · rw [hn.task_eq ho hmem hseq]
      exact ⟨_, hnew, rfl, hunsent⟩
    · refine ⟨other, ?_, rfl, rfl⟩
      rw [htasks]
      exact mem_set_of_ne ht ho fun heq => hseq (congrArg Task.seq heq)
  have hback : ∀ new ∈ s'.tasks, ∃ other ∈ s.tasks, other.seq = new.seq ∧
      other.pc.unsent = new.pc.unsent := by
    intro new hnew
    rcases hn.mem_set ht (htasks ▸ hnew) with rfl | ⟨ho, -⟩
    · exact ⟨task, hmem, rfl, hunsent.symm⟩
    · exact ⟨new, ho, rfl, rfl⟩
  exact {
    doneNodup := hd ▸ h.doneNodup
    doneSent := fun x hx => by
      obtain ⟨other, ho, hseq, hsent⟩ := h.doneSent x (hd ▸ hx)
      obtain ⟨new, hnew, hseq', hunsent'⟩ := hkeep other ho
      exact ⟨new, hnew, hseq'.trans hseq, hunsent'.trans hsent⟩
    room := fun envelope he => by
      rw [hb]
      exact h.room envelope (hl ▸ he)
    slots := by
      rw [hl, hcancel, hb, hbase]
      exact h.slots
    tidy := by
      rw [hr, hl, Executor.Tidy, hc, hb]
      exact h.tidy
    isOpen := fun hrec hne i => by
      rw [Executor.IsOpen, hc, hb, Executor.Flying, hd, hl]
      refine (h.isOpen (hr ▸ hrec) (hl ▸ hne) i).trans (or_congr_left ?_)
      constructor
      · rintro ⟨other, ho, rfl, hs⟩
        obtain ⟨new, hnew, hseq, hunsent'⟩ := hkeep other ho
        exact ⟨new, hnew, hseq, hunsent'.trans hs⟩
      · rintro ⟨new, hnew, rfl, hs⟩
        obtain ⟨other, ho, hseq, hunsent'⟩ := hback new hnew
        exact ⟨other, ho, hseq, hunsent'.trans hs⟩ }

/-- A report is in the channel when its task has gone on, and stays in flight. -/
theorem Executor.Flight.sent (h : s.Flight) (hn : s.Numbered) (ht : s.tasks[index]? = some task)
    (hpc : task.pc.unsent = true) (hsent : pc.unsent = false) (report : Option τ) :
    ({ s with done := s.done ++ [(task.seq, report)] }.goTask index task pc).Flight := by
  have hmem := mem_of_getElem? ht
  have hnew : ({ task with pc } : Task τ) ∈ s.tasks.set index { task with pc } :=
    List.mem_of_getElem? (List.getElem?_set_self (List.getElem?_eq_some_iff.1 ht).1)
  have hother : ∀ x ∈ s.done, ∃ other ∈ s.tasks.set index { task with pc },
      other.seq = x.1 ∧ other.pc.unsent = false := by
    intro x hx
    obtain ⟨other, ho, hseq, hsent'⟩ := h.doneSent x hx
    refine ⟨other, mem_set_of_ne ht ho ?_, hseq, hsent'⟩
    rintro rfl
    cases hpc.symm.trans hsent'
  have hfresh : task.seq ∉ s.done.map Prod.fst := by
    intro hin
    obtain ⟨x, hx, heq⟩ := mem_map.1 hin
    obtain ⟨other, ho, hseq, hsent'⟩ := h.doneSent x hx
    rw [hn.task_eq ho hmem (hseq.trans heq)] at hsent'
    cases hpc.symm.trans hsent'
  exact {
    doneNodup := by
      show ((s.done ++ [(task.seq, report)]).map Prod.fst).Nodup
      rw [map_append]
      exact nodup_append.2 ⟨h.doneNodup, nodup_singleton _, fun a ha b hb hab => by
        rw [hab, mem_singleton.1 hb] at ha
        exact hfresh ha⟩
    doneSent := fun x hx => by
      rcases mem_append.1 hx with hx | hx
      · exact hother x hx
      · rw [mem_singleton.1 hx]
        exact ⟨_, hnew, rfl, hsent⟩
    room := h.room
    slots := h.slots
    tidy := h.tidy
    isOpen := fun hr hne i => by
      refine (h.isOpen hr hne i).trans ?_
      simp only [Executor.Flying, Executor.goTask, map_append, mem_append,
        map_cons, map_nil, mem_singleton]
      constructor
      · rintro (⟨other, ho, rfl, hs⟩ | hd | hh)
        · by_cases heq : other = task
          · exact .inr (.inl (.inr (congrArg Task.seq heq)))
          · exact .inl ⟨other, mem_set_of_ne ht ho heq, rfl, hs⟩
        · exact .inr (.inl (.inl hd))
        · exact .inr (.inr hh)
      · rintro (⟨other, ho, rfl, hs⟩ | (hd | rfl) | hh)
        · rcases hn.mem_set ht ho with rfl | ⟨ho, -⟩
          · rw [hsent] at hs
            cases hs
          · exact .inl ⟨other, ho, rfl, hs⟩
        · exact .inr (.inl hd)
        · exact .inl ⟨task, hmem, rfl, hpc⟩
        · exact .inr (.inr hh) }

/-- After the loop has ended there is nothing to say of the slots. -/
theorem Executor.Flight.over (h : s.Flight) (hend : s'.loop = .ended) (ht : s'.tasks = s.tasks)
    (hd : s'.done.Sublist s.done) : s'.Flight where
  doneNodup := h.doneNodup.sublist (hd.map Prod.fst)
  doneSent x hx := by
    rw [ht]
    exact h.doneSent x (hd.subset hx)
  room envelope he := nomatch hend.symm.trans he
  slots _ hne := absurd hend hne
  tidy _ hne := absurd hend hne
  isOpen _ hne := absurd hend hne

theorem Executor.Flight.send {report : Option τ} (h : s.Flight) (hn : s.Numbered)
    (ht : s.tasks[index]? = some task) (hpc : task.pc = .sending report)
    (hsent : pc.unsent = false) : ((s.report task.seq report).goTask index task pc).Flight := by
  have hflight := h.sent hn ht (by rw [hpc]; rfl) hsent report
  rw [Executor.report]
  by_cases hend : s.loop = .ended
  · rw [if_pos hend]
    exact hflight.over hend rfl (sublist_append_left _ _)
  · rw [if_neg hend]
    exact hflight

theorem Executor.Flight.taskMoved (h : s.Flight) (hn : s.Numbered)
    (ht : s.tasks[index]? = some task) (hm : s.TaskMoved index task s') : s'.Flight := by
  cases hm with
  | stay => exact h
  | send report pc => exact h.send hn ht pc (by cases task.needsGpu <;> rfl)
  | acquire pc =>
    refine h.goTask hn ht rfl rfl rfl rfl rfl rfl rfl rfl ?_
    cases task.needsGpu <;> rw [pc] <;> rfl
  | acquireGpu pc => exact h.goTask hn ht rfl rfl rfl rfl rfl rfl rfl rfl (by rw [pc]; rfl)
  | observe pc => exact h.goTask hn ht rfl rfl rfl rfl rfl rfl rfl rfl (by rw [pc]; rfl)
  | start pc => exact h.goTask hn ht rfl rfl rfl rfl rfl rfl rfl rfl (by rw [pc]; rfl)
  | finish output pc => exact h.goTask hn ht rfl rfl rfl rfl rfl rfl rfl rfl (by rw [pc]; rfl)
  | releaseGpu pc => exact h.goTask hn ht rfl rfl rfl rfl rfl rfl rfl rfl (by rw [pc]; rfl)
  | release pc => exact h.goTask hn ht rfl rfl rfl rfl rfl rfl rfl rfl (by rw [pc]; rfl)

/-! ## Everything -/

/-- Without a cancel nothing is skipped, and what the cursor has passed has been delivered. -/
structure Executor.Kept (s : Executor τ) : Prop where
  sending : s.cancelled = false → ∀ task ∈ s.tasks, task.pc ≠ .sending none
  done : s.cancelled = false → ∀ x ∈ s.done, x.2 ≠ none
  slots : s.cancelled = false → ∀ i : Nat, s.buffer[i]? ≠ some Slot.skipped
  results : s.cancelled = false → s.receiver = true →
    s.results.map Prod.fst = List.range s.cursor
  closing : s.cancelled = false → s.loop = .closing → s.closed = true ∧ s.submitted = []

/-- Without a cancel nothing is skipped, and the loop ends with everything delivered. -/
structure Executor.Whole (s : Executor τ) : Prop where
  sending : s.cancelled = false → ∀ task ∈ s.tasks, task.pc ≠ .sending none
  done : s.cancelled = false → ∀ x ∈ s.done, x.2 ≠ none
  slots : s.cancelled = false → ∀ i : Nat, s.buffer[i]? ≠ some Slot.skipped
  results : s.cancelled = false → s.receiver = true →
    s.results.map Prod.fst = List.range s.cursor
  closing : s.cancelled = false → s.loop = .closing → s.closed = true ∧ s.submitted = []
  ended : s.cancelled = false → s.receiver = true → s.loop = .ended →
    s.closed = true ∧ s.cursor = s.accepted.length ∧ s.nextSeq = s.accepted.length

theorem kept_new (limit : Nat) : (new τ limit).Kept where
  sending _ := nofun
  done _ := nofun
  slots _ i := by simp [new]
  results _ _ := rfl
  closing _ := nofun

theorem Executor.Whole.kept (h : s.Whole) : s.Kept :=
  ⟨h.sending, h.done, h.slots, h.results, h.closing⟩

theorem Executor.Kept.whole (h : s.Kept)
    (hended : s.cancelled = false → s.receiver = true → s.loop = .ended →
      s.closed = true ∧ s.cursor = s.accepted.length ∧ s.nextSeq = s.accepted.length) : s.Whole :=
  ⟨h.sending, h.done, h.slots, h.results, h.closing, hended⟩

theorem whole_new (limit : Nat) : (new τ limit).Whole :=
  (kept_new limit).whole fun _ _ => nofun

/-- Where nothing is in flight, the cursor is at the end of the buffer. -/
theorem Executor.Flight.cursor_eq (h : s.Flight) (hr : s.receiver = true) (hne : s.loop ≠ .ended)
    (hnone : ∀ i, ¬ s.Flying i) : s.cursor = s.buffer.length := by
  rcases h.tidy hr hne with heq | hpending
  · exact heq
  · exact absurd ((h.isOpen hr hne s.cursor).1 ⟨Nat.le_refl _, hpending⟩) (hnone _)

theorem TaskPc.unsent_of_isGone (h : pc.isGone = true) : pc.unsent = false := by
  cases pc <;> first | rfl | cases h

/-- When the loop has counted everything in, all has been sent and read. -/
theorem Executor.Limits.quiet {limit : Nat} (h : s.Limits limit) (hne : s.loop ≠ .ended)
    (hzero : s.inFlight = 0) : s.done = [] ∧ ∀ task ∈ s.tasks, task.pc.unsent = false := by
  have hin := h.inFlight hne
  have hcount : s.tasks.countP (·.pc.unsent) = 0 := by omega
  refine ⟨eq_nil_of_length_eq_zero (by omega), fun task ht => ?_⟩
  simpa using countP_eq_zero.1 hcount task ht

/-- Nothing is in flight when the loop has counted everything in. -/
theorem Executor.Limits.not_flying {limit : Nat} (h : s.Limits limit) (hne : s.loop ≠ .ended)
    (hheld : s.loop.held = none)
    (hidle : s.inFlight = 0 ∨ s.done = [] ∧ ∀ task ∈ s.tasks, task.pc.isGone = true) (i : Nat) :
    ¬ s.Flying i := by
  have hquiet : s.done = [] ∧ ∀ task ∈ s.tasks, task.pc.unsent = false :=
    hidle.elim (h.quiet hne) fun ⟨hdone, hgone⟩ =>
      ⟨hdone, fun task ht => TaskPc.unsent_of_isGone (hgone task ht)⟩
  rintro (⟨task, ht, -, hs⟩ | hd | ⟨envelope, he, -⟩)
  · rw [hquiet.2 task ht] at hs
    cases hs
  · rw [hquiet.1] at hd
    cases hd
  · rw [hheld] at he
    cases he

/-- Nothing is skipped by resolving with a result. -/
theorem unskipped_resolve (hslot : slot ≠ .skipped)
    (hs : ∀ i : Nat, s.buffer[i]? ≠ some Slot.skipped) (i : Nat) :
    (s.resolve seq slot).buffer[i]? ≠ some Slot.skipped := by
  rw [resolve, getElem?_set]
  by_cases hi : seq = i
  · rw [if_pos hi]
    split
    · exact fun h => hslot (Option.some.inj h)
    · simp
  · rw [if_neg hi]
    exact hs i

theorem unskipped_flush (hc : s.cursor ≤ s.buffer.length)
    (hs : ∀ i : Nat, s.buffer[i]? ≠ some Slot.skipped) (i : Nat) :
    s.flush.buffer[i]? ≠ some Slot.skipped := by
  rcases flush_get hc i with heq | heq
  · rw [heq]
    exact hs i
  · rw [heq]
    nofun

/-- A step that leaves buffer and results alone. -/
theorem Executor.Kept.still (h : s.Kept) (hcancel : s'.cancelled = false → s.cancelled = false)
    (hb : s'.buffer = s.buffer) (hc : s'.cursor = s.cursor) (hr : s'.results = s.results)
    (hrec : s'.receiver = true → s.receiver = true)
    (ht : s'.cancelled = false → ∀ task ∈ s'.tasks, task ∈ s.tasks ∨ task.pc ≠ .sending none)
    (hd : s'.cancelled = false → ∀ x ∈ s'.done, x ∈ s.done ∨ x.2 ≠ none)
    (hclosing : s'.cancelled = false → s'.loop = .closing →
      s'.closed = true ∧ s'.submitted = []) : s'.Kept where
  sending hf task hmem := (ht hf task hmem).elim (h.sending (hcancel hf) task) id
  done hf x hmem := (hd hf x hmem).elim (h.done (hcancel hf) x) id
  slots hf i := by
    rw [hb]
    exact h.slots (hcancel hf) i
  results hf hreceiver := by
    rw [hr, hc]
    exact h.results (hcancel hf) (hrec hreceiver)
  closing := hclosing

/-- A step that resolves a slot and flushes. -/
theorem Executor.Kept.resolve_flush (h : s.Kept) (hc : s.cursor ≤ s.buffer.length) (seq : Nat)
    (slot : Slot τ) (hslot : s.cancelled = false → slot ≠ .skipped)
    (hb : s'.buffer = (s.resolve seq slot).flush.buffer)
    (hcursor : s'.cursor = (s.resolve seq slot).flush.cursor)
    (hr : s'.results = (s.resolve seq slot).flush.results) (hcancel : s'.cancelled = s.cancelled)
    (hrec : s'.receiver = s.receiver) (ht : s'.tasks = s.tasks) (hd : ∀ x ∈ s'.done, x ∈ s.done)
    (hclosing : s'.cancelled = false → s'.loop = .closing →
      s'.closed = true ∧ s'.submitted = []) : s'.Kept := by
  have hc' : (s.resolve seq slot).cursor ≤ (s.resolve seq slot).buffer.length := by
    rw [resolve, length_set]
    exact hc
  exact {
    sending := fun hf => by rw [ht]; exact h.sending (hcancel ▸ hf)
    done := fun hf x hx => h.done (hcancel ▸ hf) x (hd x hx)
    slots := fun hf => by
      rw [hb]
      exact unskipped_flush hc' (unskipped_resolve (hslot (hcancel ▸ hf)) (h.slots (hcancel ▸ hf)))
    results := fun hf hreceiver => by
      rw [hr, hcursor]
      exact flush_all hc' (hrec ▸ hreceiver)
        (fun i _ => unskipped_resolve (hslot (hcancel ▸ hf)) (h.slots (hcancel ▸ hf)) i)
        (h.results (hcancel ▸ hf) (hrec ▸ hreceiver))
    closing := hclosing }

/-- A step that makes room for an envelope. -/
theorem Executor.Kept.slots_reserve (h : s.Kept) (seq : Nat) (hcancel : s.cancelled = false)
    (i : Nat) : (s.reserve seq).buffer[i]? ≠ some Slot.skipped := by
  show (s.buffer ++ replicate _ _)[i]? ≠ _
  rw [getElem?_append]
  split
  · exact h.slots hcancel i
  · rw [getElem?_replicate]
    split <;> nofun

theorem Executor.Kept.loopMoved (h : s.Kept) (ho : s.Ordered) (hm : s.LoopMoved s') : s'.Kept := by
  cases hm with
  | stay => exact h
  | poll => exact h.still id rfl rfl rfl id (fun _ _ => .inl) (fun _ _ => .inl) fun _ => nofun
  | take => exact h.still id rfl rfl rfl id (fun _ _ => .inl) (fun _ _ => .inl) fun _ => nofun
  | close loop queue closed =>
    exact h.still id rfl rfl rfl id (fun _ _ => .inl) (fun _ _ => .inl) fun _ _ => ⟨closed, queue⟩
  | refuse envelope loop cancelled =>
    refine h.still id rfl rfl rfl id (fun _ _ => .inl) (fun _ _ => .inl) fun hfalse => ?_
    cases cancelled.symm.trans hfalse
  | spawn envelope loop guard =>
    exact {
      sending := fun hcancel task ht => by
        rcases mem_append.1 ht with ht | ht
        · exact h.sending hcancel task ht
        · rw [mem_singleton.1 ht]
          nofun
      done := h.done
      slots := h.slots_reserve envelope.seq
      results := h.results
      closing := fun _ => nofun }
  | drain envelope loop =>
    exact {
      sending := h.sending
      done := h.done
      slots := h.slots_reserve envelope.seq
      results := h.results
      closing := fun _ => nofun }
  | report seq report done loop queue from_to =>
    refine h.resolve_flush ho.cursor seq (.ofReport report) ?_ rfl rfl rfl rfl rfl rfl
      (fun x hx => queue ▸ mem_cons_of_mem _ hx) ?_
    · intro hcancel
      have hne := h.done hcancel (seq, report) (queue ▸ mem_cons_self)
      cases report with
      | none => exact absurd rfl hne
      | some value => nofun
    · rcases from_to with ⟨-, rfl⟩ | ⟨-, rfl, -⟩
      · exact fun _ => nofun
      · exact h.closing
  | skip envelope loop idle cancelled =>
    have hfalse : s.cancelled ≠ false := by rw [cancelled]; nofun
    exact {
      sending := fun hcancel => absurd hcancel hfalse
      done := fun hcancel => absurd hcancel hfalse
      slots := fun hcancel => absurd hcancel hfalse
      results := fun hcancel => absurd hcancel hfalse
      closing := fun hcancel => absurd hcancel hfalse }
  | start => exact h.still id rfl rfl rfl id (fun _ _ => .inl) (fun _ _ => .inl) fun _ => nofun
  | finish envelope output loop =>
    exact h.resolve_flush ho.cursor envelope.seq (.ready output) (fun _ => nofun) rfl rfl rfl rfl
      rfl rfl (fun _ hx => hx) fun _ => nofun
  | last loop idle =>
    exact {
      sending := h.sending
      done := fun _ => nofun
      slots := fun hcancel => unskipped_flush ho.cursor (h.slots hcancel)
      results := fun hcancel hr =>
        flush_all ho.cursor hr (fun i _ => h.slots hcancel i) (h.results hcancel hr)
      closing := fun _ => nofun }

theorem Executor.Kept.taskMoved (h : s.Kept) (hn : s.Numbered) (ht : s.tasks[index]? = some task)
    (hm : s.TaskMoved index task s') : s'.Kept := by
  have hset : ∀ {pc : TaskPc τ}, pc ≠ .sending none →
      ∀ other ∈ s.tasks.set index { task with pc }, other ∈ s.tasks ∨ other.pc ≠ .sending none := by
    intro pc hpc other ho
    rcases hn.mem_set ht ho with rfl | ⟨ho, -⟩
    · exact .inr hpc
    · exact .inl ho
  cases hm with
  | stay => exact h
  | acquire =>
    refine h.still id rfl rfl rfl id (fun _ => hset ?_) (fun _ _ => .inl) h.closing
    cases task.needsGpu <;> simp
  | acquireGpu => exact h.still id rfl rfl rfl id (fun _ => hset (by simp)) (fun _ _ => .inl) h.closing
  | observe pc cancelled =>
    refine h.still id rfl rfl rfl id (fun hfalse => ?_) (fun _ _ => .inl) h.closing
    cases cancelled.symm.trans hfalse
  | start => exact h.still id rfl rfl rfl id (fun _ => hset (by simp)) (fun _ _ => .inl) h.closing
  | finish => exact h.still id rfl rfl rfl id (fun _ => hset (by simp)) (fun _ _ => .inl) h.closing
  | send report pc =>
    have hpc : ∀ pc : TaskPc τ, pc.unsent = false → pc ≠ .sending none := by
      rintro pc hsent rfl
      cases hsent
    have hsent : (if task.needsGpu then TaskPc.releasingGpu else .releasing : TaskPc τ).unsent =
        false := by
      cases task.needsGpu <;> rfl
    rw [Executor.report]
    by_cases hend : s.loop = .ended
    · rw [if_pos hend]
      exact h.still id rfl rfl rfl id (fun _ => hset (hpc _ hsent)) (fun _ _ => .inl) h.closing
    rw [if_neg hend]
    refine h.still id rfl rfl rfl id (fun _ => hset (hpc _ hsent)) (fun hcancel x hx => ?_)
      h.closing
    rcases mem_append.1 hx with hx | hx
    · exact .inl hx
    · rw [mem_singleton.1 hx]
      right
      rintro rfl
      exact h.sending hcancel task (mem_of_getElem? ht) pc
  | releaseGpu => exact h.still id rfl rfl rfl id (fun _ => hset (by simp)) (fun _ _ => .inl) h.closing
  | release => exact h.still id rfl rfl rfl id (fun _ => hset (by simp)) (fun _ _ => .inl) h.closing

/-! ## The end -/

/-- A step that leaves buffer and results alone. -/
theorem Executor.Whole.still (h : s.Whole) (hcancel : s'.cancelled = false → s.cancelled = false)
    (hb : s'.buffer = s.buffer) (hc : s'.cursor = s.cursor) (hr : s'.results = s.results)
    (hrec : s'.receiver = true → s.receiver = true)
    (ht : s'.cancelled = false → ∀ task ∈ s'.tasks, task ∈ s.tasks ∨ task.pc ≠ .sending none)
    (hd : s'.cancelled = false → ∀ x ∈ s'.done, x ∈ s.done ∨ x.2 ≠ none)
    (hclosing : s'.cancelled = false → s'.loop = .closing →
      s'.closed = true ∧ s'.submitted = [])
    (hended : s'.cancelled = false → s'.receiver = true → s'.loop = .ended →
      s'.closed = true ∧ s'.cursor = s'.accepted.length ∧ s'.nextSeq = s'.accepted.length) :
    s'.Whole :=
  (h.kept.still hcancel hb hc hr hrec ht hd hclosing).whole hended

/-- A step of the loop ends it only from the drain at the end, when nothing is in flight. -/
theorem Executor.Whole.loopMoved {limit : Nat} (h : s.Whole) (hl : s.Limits limit)
    (hn : s.Numbered) (ho : s.Ordered) (hf : s.Flight) (hm : s.LoopMoved s') : s'.Whole := by
  refine (h.kept.loopMoved ho hm).whole ?_
  cases hm with
  | stay => exact h.ended
  | report seq report done loop queue from_to =>
    rcases from_to with ⟨-, rfl⟩ | ⟨-, rfl, ⟨envelope, hl⟩ | hl⟩
    · exact fun _ _ => (by simp)
    · exact fun _ _ hend => by cases hl.symm.trans hend
    · exact fun _ _ hend => by cases hl.symm.trans hend
  | last loop idle =>
    intro hcancel hr _
    have hne : s.loop ≠ .ended := by rw [loop]; simp
    obtain ⟨hclosed, hempty⟩ := h.closing hcancel loop
    refine ⟨hclosed, ?_, (hn.accepted hne).symm⟩
    have hcursor := hf.cursor_eq hr hne (hl.not_flying hne (by rw [loop]; rfl) idle)
    have hlen := hf.slots (by rw [loop]; simp) hne fun _ => hcancel
    have hbase : s.base = s.accepted.length := by
      rw [base, hempty, hn.accepted hne]
      rfl
    have hflush := flush_cursor ho.cursor
    rw [flush_length] at hflush
    show s.flush.cursor = s.accepted.length
    omega
  | _ => exact fun _ _ => (by simp)

theorem Executor.Whole.taskMoved (h : s.Whole) (hn : s.Numbered) (ht : s.tasks[index]? = some task)
    (hm : s.TaskMoved index task s') : s'.Whole := by
  refine (h.kept.taskMoved hn ht hm).whole ?_
  cases hm with
  | send report =>
    rw [Executor.report]
    split <;> exact h.ended
  | _ => exact h.ended

end Gen2.Tools
