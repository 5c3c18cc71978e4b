import Gen2.Decision.Worker

/-!
# How the decision worker stops

What every interleaving keeps, apart from the replies.

* `System.Orderly` is the invariant: who has asked for a stop has set its flag, the status follows
  the flag, and the worker's thread lets go of the backend, then of the reservation, before it says
  that the model is unloaded.
* `Orderly.released`: so it says nothing too early.
* `Halts.step`: once a call that asks for a stop has done its work, no job is started any more.
* `Silent.step`: once the flag is set, only a result that is already on its way is still delivered.
-/

namespace Gen2.Decision

open Lib List WorkerPc

variable {δ : Type}

/-- How far the worker's thread has come: it loads, it takes jobs, and then it lets go of one thing
after the other. -/
def WorkerPc.stage : WorkerPc δ → Nat
  | loading => 0
  | droppingBackend => 2
  | droppingReservation => 3
  | markingStop => 4
  | markingUnloaded => 5
  | draining => 6
  | closing => 7
  | discarding => 8
  | finished => 9
  | _ => 1

/-- The job that has been made the active one. -/
def WorkerPc.activeJob : WorkerPc δ → Option Job
  | looking job | cancelling job | checking job | running job | rechecking job _
  | stopChecking job _ | deactivating job _ => some job
  | _ => none

/-- The job whose token the worker is about to check before it runs the backend. -/
def WorkerPc.checked : WorkerPc δ → Option Job
  | checking job => some job
  | _ => none

/-- The call that a result is about to be sent to. -/
def WorkerPc.succeeding : WorkerPc δ → Option Nat
  | replying job (.ok _) => some job.id
  | _ => none

/-- The call has set the flag and cancelled the active job. -/
def UnloadPc.isStopped : UnloadPc → Bool
  | marking | waiting | returned => true
  | _ => false

/-- The same for the last handle. -/
def Inner.isStopped : Inner → Bool
  | closing | dropped => true
  | _ => false

/-- The last handle has set the flag. -/
def Inner.isStopping : Inner → Bool
  | held _ | storing => false
  | _ => true

def CallPc.succeeded : CallPc δ → Bool
  | returned (.ok _) => true
  | _ => false

def Reply.isSuccess : Reply δ → Bool
  | sent (.ok _) => true
  | _ => false

namespace System

/-- Somebody's request for a stop has been carried out. -/
def StopDone (s : System δ) : Prop :=
  (∃ u ∈ s.unloads, u.pc.isStopped = true) ∨ s.inner.isStopped = true

/-- What every step keeps. -/
structure Orderly (s : System δ) : Prop where
  stopping : s.status = .stopping → s.stop = true
  unloads : ∀ u ∈ s.unloads, u.pc ≠ .storing → s.stop = true
  inner : s.inner.isStopping = true → s.stop = true
  ended : 5 ≤ s.worker.stage → s.stop = true
  unloaded : s.status = .unloaded → 6 ≤ s.worker.stage
  backend : s.worker.stage = 0 ∨ 3 ≤ s.worker.stage → s.backend = false
  reservation : 4 ≤ s.worker.stage → s.reservation = false
  active : ∀ job, s.worker.activeJob = some job → s.active = some job.options.cancellation
  halted : s.StopDone → ∀ job, s.worker.checked = some job → job.options.cancellation ∈ s.cancelled

/-- No job will be started any more. -/
structure Halts (s : System δ) : Prop where
  stop : s.stop = true
  checked : ∀ job, s.worker.checked = some job → job.options.cancellation ∈ s.cancelled

/-! ## One step of the worker -/

/-- What a step of the worker does to each part of the system. -/
structure WorkerStep (s s' : System δ) : Prop where
  stop : s'.stop = true ↔ s.stop = true ∨ s.worker.stage = 4
  unloads : s'.unloads = s.unloads
  inner : s'.inner = s.inner ∨ s'.inner = .held 1
  /-- The worker's thread goes only forward. -/
  stage : s.worker.stage ≤ s'.worker.stage ∧ 0 < s'.worker.stage ∧
    (s.worker.stage = 5 → 6 ≤ s'.worker.stage) ∧ (5 ≤ s'.worker.stage → 4 ≤ s.worker.stage)
  status : s'.status = s.status ∨
    s.worker.stage = 1 ∧ (s'.status = if s.stop = true then .stopping else .running) ∨
    s.worker.stage = 1 ∧ (s'.status = if s.stop = true then .stopping else .ready) ∨
    s.worker.stage = 5 ∧ s'.status = .unloaded
  backend : 3 ≤ s'.worker.stage →
    s'.backend = false ∨ (s.worker.stage = 0 ∨ 3 ≤ s.worker.stage) ∧ s'.backend = s.backend
  reservation : 4 ≤ s'.worker.stage →
    s'.reservation = false ∨ 4 ≤ s.worker.stage ∧ s'.reservation = s.reservation
  active (job : Job) : s'.worker.activeJob = some job →
    s'.active = some job.options.cancellation ∨
      s.worker.activeJob = some job ∧ s'.active = s.active
  /-- A job comes to be checked when no stop has been seen, or when it has been cancelled for one.
  -/
  checked (job : Job) : s'.worker.checked = some job →
    s.stop = false ∧ s.worker.activeJob = some job ∧ s'.active = s.active ∨
      job.options.cancellation ∈ s'.cancelled
  cancelled : s.cancelled ⊆ s'.cancelled
  /-- A job is started only where its token is not cancelled. -/
  started : s'.started = s.started ∨
    ∃ job, s.worker.checked = some job ∧ job.options.cancellation ∉ s.cancelled ∧
      s'.started = s.started ++ [job]
  /-- A result is about to be sent only where no stop has been seen. -/
  succeeding (i : Nat) : s'.worker.succeeding = some i → s.stop = false

section Worker

variable (b : Backend δ) (s : System δ)

theorem workerStep_spec : WorkerStep s (s.workerStep b) where
  stop := by
    fun_cases workerStep b s
    all_goals simp [*, goto, set, cancel, answer, stage]
  unloads := by
    fun_cases workerStep b s
    all_goals simp [*, goto, set, cancel, answer]
  inner := by
    fun_cases workerStep b s
    all_goals simp [*, goto, set, cancel, answer]
  stage := by
    rcases hstop : s.stop with _ | _
    all_goals fun_cases workerStep b s
    all_goals simp only [*, goto, set, cancel, answer, if_true, if_false, Bool.false_eq_true]
    all_goals try split
    all_goals simp [*, stage]
  status := by
    fun_cases workerStep b s
    all_goals simp [*, goto, set, cancel, answer, stage]
  backend := by
    rcases hstop : s.stop with _ | _
    all_goals fun_cases workerStep b s
    all_goals simp only [*, goto, set, cancel, answer, if_true, if_false, Bool.false_eq_true]
    all_goals try split
    all_goals simp [*, stage]
  reservation := by
    rcases hstop : s.stop with _ | _
    all_goals fun_cases workerStep b s
    all_goals simp only [*, goto, set, cancel, answer, if_true, if_false, Bool.false_eq_true]
    all_goals try split
    all_goals simp [*, stage]
  active := by
    intro job
    rcases hstop : s.stop with _ | _
    all_goals fun_cases workerStep b s
    all_goals simp only [*, goto, set, cancel, answer, if_true, if_false, Bool.false_eq_true]
    all_goals try split
    all_goals simp +contextual [*, activeJob]
  checked := by
    intro job
    rcases hstop : s.stop with _ | _
    all_goals fun_cases workerStep b s
    all_goals simp only [*, goto, set, cancel, answer, if_true, if_false, Bool.false_eq_true]
    all_goals try split
    all_goals simp +contextual [*, checked, activeJob]
  cancelled := by
    fun_cases workerStep b s
    all_goals simp [*, goto, set, cancel, answer]
  started := by
    fun_cases workerStep b s
    case case14 job hworker hcheck _ =>
      refine .inr ⟨job, by rw [hworker]; rfl, fun hmem => ?_, rfl⟩
      rw [check, if_pos hmem] at hcheck
      exact nomatch hcheck
    all_goals refine .inl ?_
    all_goals simp [*, goto, set, cancel, answer]
  succeeding := by
    intro i
    rcases hstop : s.stop with _ | _
    · exact fun _ => rfl
    · fun_cases workerStep b s
      all_goals simp only [*, goto, set, cancel, answer, if_true]
      all_goals try split
      all_goals simp [succeeding, *]

end Worker

/-- A call changes nothing but the calls and the queue. -/
theorem callStep_frame (capacity i : Nat) (c : Call δ) (s : System δ) :
    ∃ calls queue, s.callStep capacity i c = { s with calls := calls, queue := queue } := by
  fun_cases callStep capacity i c s
  all_goals exact ⟨_, _, rfl⟩

/-! ## The invariant -/

variable {s : System δ}

theorem Orderly.initial : (initial : System δ).Orderly where
  stopping := nofun
  unloads _ h := absurd h not_mem_nil
  inner := nofun
  ended := nofun
  unloaded := nofun
  backend _ := rfl
  reservation := nofun
  active := nofun
  halted _ := nofun

theorem Orderly.stop_of_stopDone (h : s.Orderly) (hdone : s.StopDone) : s.stop = true := by
  rcases hdone with ⟨u, hu, hstopped⟩ | hstopped
  · refine h.unloads u hu fun hstoring => ?_
    rw [hstoring] at hstopped
    exact nomatch hstopped
  · refine h.inner ?_
    rcases hinner : s.inner with _ | _ | _ | _ | _
    all_goals first | rfl | exact nomatch hinner ▸ hstopped

theorem Orderly.workerStep (h : s.Orderly) (b : Backend δ) : (s.workerStep b).Orderly := by
  have hstop := (workerStep_spec b s).stop
  have hunloads := (workerStep_spec b s).unloads
  obtain ⟨hmono, hpos, hlast, hfirst⟩ := (workerStep_spec b s).stage
  have hstays : s.stop = true → (s.workerStep b).stop = true := fun hs => hstop.2 (.inl hs)
  have hinner : (s.workerStep b).inner.isStopping = true → s.inner.isStopping = true := by
    rcases (workerStep_spec b s).inner with heq | heq
    · rw [heq]
      exact id
    · rw [heq]
      exact nofun
  have hdone : (s.workerStep b).StopDone → s.StopDone := by
    unfold StopDone
    rw [hunloads]
    rintro (hdone | hdone)
    · exact .inl hdone
    rcases (workerStep_spec b s).inner with heq | heq
    · rw [heq] at hdone
      exact .inr hdone
    · rw [heq] at hdone
      exact nomatch hdone
  refine ⟨?_, ?_, ?_, ?_, ?_, ?_, ?_, ?_, ?_⟩
  · intro hstopping
    rcases (workerStep_spec b s).status with heq | ⟨-, heq⟩ | ⟨-, heq⟩ | ⟨-, heq⟩
    · exact hstays (h.stopping (heq.symm.trans hstopping))
    · rw [hstopping] at heq
      split at heq
      · next hs => exact hstays hs
      · exact nomatch heq
    · rw [hstopping] at heq
      split at heq
      · next hs => exact hstays hs
      · exact nomatch heq
    · exact nomatch heq.symm.trans hstopping
  · rw [hunloads]
    exact fun u hu hpc => hstays (h.unloads u hu hpc)
  · exact fun hstopping => hstays (h.inner (hinner hstopping))
  · intro hended
    rcases Nat.lt_or_ge s.worker.stage 5 with hlt | hge
    · exact hstop.2 (.inr (Nat.le_antisymm (Nat.le_of_lt_succ hlt) (hfirst hended)))
    · exact hstays (h.ended hge)
  · intro hunloaded
    rcases (workerStep_spec b s).status with heq | ⟨-, heq⟩ | ⟨-, heq⟩ | ⟨hstage, heq⟩
    · exact Nat.le_trans (h.unloaded (heq.symm.trans hunloaded)) hmono
    · rw [hunloaded] at heq
      split at heq <;> exact nomatch heq
    · rw [hunloaded] at heq
      split at heq <;> exact nomatch heq
    · exact hlast hstage
  · intro hstage
    rcases (workerStep_spec b s).backend (hstage.resolve_left (Nat.ne_of_gt hpos)) with hfalse | ⟨hold, heq⟩
    · exact hfalse
    · exact heq.trans (h.backend hold)
  · intro hstage
    rcases (workerStep_spec b s).reservation hstage with hfalse | ⟨hold, heq⟩
    · exact hfalse
    · exact heq.trans (h.reservation hold)
  · intro job hjob
    rcases (workerStep_spec b s).active job hjob with hnow | ⟨hold, heq⟩
    · exact hnow
    · exact heq.trans (h.active job hold)
  · intro hstopped job hjob
    rcases (workerStep_spec b s).checked job hjob with ⟨hgoing, -⟩ | hmem
    · exact nomatch hgoing.symm.trans (h.stop_of_stopDone (hdone hstopped))
    · exact hmem

/-! ## The other threads -/

theorem activeJob_of_checked {pc : WorkerPc δ} {job : Job} (h : pc.checked = some job) :
    pc.activeJob = some job := by
  unfold checked at h
  split at h
  · exact h
  · exact nomatch h

/-- What the other threads do, but for the status: a flag that is set stays set, cancelled tokens
stay cancelled, and who has carried out a stop has cancelled the active job. -/
theorem Orderly.of_others (h : s.Orderly) {stop : Bool} {cancelled : List Cancellation} {now : Nat}
    {queue : List Job} {inner : Inner} {calls : List (Call δ)} {unloads : List Unload}
    (hstop : s.stop = true → stop = true) (hcancelled : s.cancelled ⊆ cancelled)
    (hunloads : ∀ u ∈ unloads, u.pc ≠ .storing → u ∈ s.unloads ∨ stop = true)
    (hinner : inner.isStopping = true → s.inner.isStopping = true ∨ stop = true)
    (hdone : (∃ u ∈ unloads, u.pc.isStopped = true) ∨ inner.isStopped = true →
      s.StopDone ∨ ∀ token, s.active = some token → token ∈ cancelled) :
    Orderly { s with
      stop := stop, cancelled := cancelled, now := now, queue := queue, inner := inner,
      calls := calls, unloads := unloads } where
  stopping hstopping := hstop (h.stopping hstopping)
  unloads u hu hpc := (hunloads u hu hpc).elim (fun hold => hstop (h.unloads u hold hpc)) id
  inner hstopping := (hinner hstopping).elim (fun hold => hstop (h.inner hold)) id
  ended hended := hstop (h.ended hended)
  unloaded := h.unloaded
  backend := h.backend
  reservation := h.reservation
  active := h.active
  halted hstopped job hjob := by
    rcases hdone hstopped with hold | hall
    · exact hcancelled (h.halted hold job hjob)
    · exact hall _ (h.active job (activeJob_of_checked hjob))

theorem cancelActive_eq (s : System δ) :
    ∃ cancelled, s.cancelActive = { s with cancelled := cancelled } ∧ s.cancelled ⊆ cancelled ∧
      ∀ token, s.active = some token → token ∈ cancelled := by
  unfold cancelActive
  split
  · next token hactive =>
    refine ⟨token :: s.cancelled, rfl, subset_cons_self _ _, fun token' heq => ?_⟩
    rw [Option.some.inj (hactive.symm.trans heq)]
    exact mem_cons_self
  · next hactive => exact ⟨s.cancelled, rfl, fun _ => id,
    fun _ heq => nomatch hactive.symm.trans heq⟩

/-- The status is marked by who has asked for a stop. -/
theorem Orderly.of_marked (h : s.Orderly) (hstop : s.stop = true) :
    Orderly { s with status := if s.status = .unloaded then .unloaded else .stopping } where
  stopping _ := hstop
  unloads := h.unloads
  inner := h.inner
  ended := h.ended
  unloaded hunloaded := by
    dsimp only at hunloaded
    split at hunloaded
    · next hold => exact h.unloaded hold
    · exact nomatch hunloaded
  backend := h.backend
  reservation := h.reservation
  active := h.active
  halted := h.halted

theorem Orderly.unloadStep (h : s.Orderly) {i : Nat} {u : Unload} (hu : u ∈ s.unloads) :
    (s.unloadStep i u).Orderly := by
  -- what is done of a stop had been done before, where the call does not get that far
  have hset : ∀ pc : UnloadPc, (pc.isStopped = true → u.pc.isStopped = true) →
      (∃ u' ∈ s.unloads.set i { u with pc := pc }, u'.pc.isStopped = true) ∨
        s.inner.isStopped = true → s.StopDone := by
    rintro pc hpc (⟨u', hu', hstopped⟩ | hdone)
    · rcases mem_or_eq_of_mem_set hu' with hold | rfl
      · exact .inl ⟨u', hold, hstopped⟩
      · exact .inl ⟨u, hu, hpc hstopped⟩
    · exact .inr hdone
  rcases hpc : u.pc with _ | _ | _ | _ | _
  all_goals rw [System.unloadStep, hpc]
  · exact h.of_others (fun _ => rfl) (fun _ => id) (fun _ _ _ => .inr rfl) (fun _ => .inr rfl)
      fun hdone => .inl (hset .cancelling nofun hdone)
  · have hstop : s.stop = true := h.unloads u hu (by rw [hpc]; exact nofun)
    obtain ⟨cancelled, heq, hsub, hall⟩ := s.cancelActive_eq
    rw [heq]
    exact h.of_others id hsub (fun _ _ _ => .inr hstop) (fun _ => .inr hstop) fun _ => .inr hall
  · have hstop : s.stop = true := h.unloads u hu (by rw [hpc]; exact nofun)
    refine (h.of_marked hstop).of_others id (fun _ => id) (fun _ _ _ => .inr hstop)
      (fun _ => .inr hstop) fun hdone => .inl (hset _ (fun _ => ?_) hdone)
    rw [hpc]
    rfl
  · have hstop : s.stop = true := h.unloads u hu (by rw [hpc]; exact nofun)
    dsimp only
    split
    · refine h.of_others id (fun _ => id) (fun _ _ _ => .inr hstop) (fun _ => .inr hstop)
        fun hdone => .inl (hset _ (fun _ => ?_) hdone)
      rw [hpc]
      rfl
    · exact h
  · exact h

theorem Orderly.dropStep (h : s.Orderly) : s.dropStep.Orderly := by
  have hold : ∀ u ∈ s.unloads, u.pc ≠ .storing → u ∈ s.unloads ∨ s.stop = true :=
    fun _ hu _ => .inl hu
  rcases hinner : s.inner with _ | _ | _ | _ | _
  all_goals rw [System.dropStep, hinner]
  · exact h
  · refine h.of_others (fun _ => rfl) (fun _ => id) (fun _ hu _ => .inl hu) (fun _ => .inr rfl) ?_
    exact fun hdone => .inl (.inl (hdone.resolve_right nofun))
  · have hstop : s.stop = true := h.inner (by rw [hinner]; rfl)
    obtain ⟨cancelled, heq, hsub, hall⟩ := s.cancelActive_eq
    rw [heq]
    exact h.of_others id hsub hold (fun _ => .inr hstop) fun _ => .inr hall
  · have hstop : s.stop = true := h.inner (by rw [hinner]; rfl)
    refine h.of_others id (fun _ => id) hold (fun _ => .inr hstop) fun _ => .inl (.inr ?_)
    rw [hinner]
    rfl
  · exact h

/-- The invariant is kept by every step. -/
theorem Orderly.step (h : s.Orderly) (capacity : Nat) (act : Act δ) :
    (s.step capacity act).Orderly := by
  have hold : ∀ u ∈ s.unloads, u.pc ≠ .storing → u ∈ s.unloads ∨ s.stop = true :=
    fun _ hu _ => .inl hu
  have hcalls : ∀ calls queue, Orderly { s with calls := calls, queue := queue } := fun _ _ =>
    h.of_others id (fun _ => id) hold .inl .inl
  have hheld : ∀ handles, Orderly { s with inner := .held handles } := fun _ =>
    h.of_others id (fun _ => id) hold nofun fun hdone => .inl (.inl (hdone.resolve_right nofun))
  rcases act with b | ⟨requests, scan, options⟩ | i | wait | i | _ | _ | _ | token | time
  · exact h.workerStep b
  · unfold System.step
    dsimp only
    split
    · exact hcalls _ _
    · exact h
  · unfold System.step
    dsimp only
    split
    · next c _ =>
      obtain ⟨calls, queue, heq⟩ := callStep_frame capacity i c s
      rw [heq]
      exact hcalls _ _
    · exact h
  · unfold System.step
    dsimp only
    split
    · refine h.of_others id (fun _ => id) (fun u hu hpc => ?_) .inl ?_
      · rcases mem_append.1 hu with hu | hu
        · exact .inl hu
        · rw [mem_singleton.1 hu] at hpc
          exact absurd rfl hpc
      · rintro (⟨u, hu, hstopped⟩ | hdone)
        · rcases mem_append.1 hu with hu | hu
          · exact .inl (.inl ⟨u, hu, hstopped⟩)
          · rw [mem_singleton.1 hu] at hstopped
            exact nomatch hstopped
        · exact .inl (.inr hdone)
    · exact h
  · unfold System.step
    dsimp only
    split
    · next u hu => exact h.unloadStep (mem_of_getElem? hu)
    · exact h
  · unfold System.step
    dsimp only
    split
    · exact hheld _
    · exact h
  · unfold System.step
    dsimp only
    split
    · exact hheld _
    · split
      · exact h.of_others id (fun _ => id) hold nofun fun hdone =>
          .inl (.inl (hdone.resolve_right nofun))
      · exact h
    · exact h
  · exact h.dropStep
  · exact h.of_others id (subset_cons_self _ _) hold .inl .inl
  · exact h.of_others id (fun _ => id) hold .inl .inl

/-- Whoever is told that the model is unloaded is told the truth. -/
theorem Orderly.released (h : s.Orderly) (hunloaded : s.status = .unloaded) :
    s.backend = false ∧ s.reservation = false :=
  ⟨h.backend (.inr (Nat.le_trans (by decide) (h.unloaded hunloaded))),
    h.reservation (Nat.le_trans (by decide) (h.unloaded hunloaded))⟩

/-! ## After a stop -/

/-- What the other threads leave alone, and how they change the rest. -/
structure Others (s s' : System δ) : Prop where
  worker : s'.worker = s.worker
  started : s'.started = s.started
  stop : s.stop = true → s'.stop = true
  cancelled : s.cancelled ⊆ s'.cancelled
  status : s'.status = s.status ∨
    s'.status = if s.status = .unloaded then .unloaded else .stopping

theorem Others.of_same {s' : System δ} (hworker : s'.worker = s.worker)
    (hstarted : s'.started = s.started) (hstop : s.stop = true → s'.stop = true)
    (hcancelled : s'.cancelled = s.cancelled) (hstatus : s'.status = s.status) : s.Others s' :=
  ⟨hworker, hstarted, hstop, hcancelled ▸ fun _ => id, .inl hstatus⟩

theorem Others.refl (s : System δ) : s.Others s := .of_same rfl rfl id rfl rfl

theorem others_cancelActive (s : System δ) : s.Others s.cancelActive := by
  obtain ⟨cancelled, heq, hsub, -⟩ := s.cancelActive_eq
  rw [heq]
  exact ⟨rfl, rfl, id, hsub, .inl rfl⟩

theorem others_unloadStep (i : Nat) (u : Unload) (s : System δ) :
    s.Others (s.unloadStep i u) := by
  obtain ⟨hworker, hstarted, hstop, hcancelled, hstatus⟩ := s.others_cancelActive
  fun_cases unloadStep i u s
  · exact .of_same rfl rfl (fun _ => rfl) rfl rfl
  · exact ⟨hworker, hstarted, hstop, hcancelled, hstatus⟩
  · exact ⟨rfl, rfl, id, fun _ => id, .inr rfl⟩
  · exact .of_same rfl rfl id rfl rfl
  · exact .refl s
  · exact .refl s

theorem others_dropStep (s : System δ) : s.Others s.dropStep := by
  obtain ⟨hworker, hstarted, hstop, hcancelled, hstatus⟩ := s.others_cancelActive
  fun_cases dropStep s
  · exact .refl s
  · exact .refl s
  · exact .of_same rfl rfl (fun _ => rfl) rfl rfl
  · exact ⟨hworker, hstarted, hstop, hcancelled, hstatus⟩
  · exact .of_same rfl rfl id rfl rfl

theorem others_callStep (capacity i : Nat) (c : Call δ) (s : System δ) :
    s.Others (s.callStep capacity i c) := by
  obtain ⟨calls, queue, heq⟩ := callStep_frame capacity i c s
  rw [heq]
  exact .of_same rfl rfl id rfl rfl

/-- Every step is one of the worker or one of the others. -/
theorem step_cases (capacity : Nat) (act : Act δ) (s : System δ) :
    (∃ b, s.step capacity act = s.workerStep b) ∨ s.Others (s.step capacity act) := by
  fun_cases System.step capacity act s
  case case1 b => exact .inl ⟨b, rfl⟩
  case case4 i c _ => exact .inr (others_callStep capacity i c s)
  case case8 i u _ => exact .inr (others_unloadStep i u s)
  case case16 => exact .inr s.others_dropStep
  case case17 token => exact .inr ⟨rfl, rfl, id, subset_cons_self _ _, .inl rfl⟩
  all_goals exact .inr (.of_same rfl rfl id rfl rfl)

theorem step_stop (capacity : Nat) (act : Act δ) (h : s.stop = true) :
    (s.step capacity act).stop = true := by
  rcases step_cases capacity act s with ⟨b, heq⟩ | hothers
  · rw [heq]
    exact ((workerStep_spec b s).stop).2 (.inl h)
  · exact hothers.stop h

theorem step_cancelled (capacity : Nat) (act : Act δ) (s : System δ) :
    s.cancelled ⊆ (s.step capacity act).cancelled := by
  rcases step_cases capacity act s with ⟨b, heq⟩ | hothers
  · rw [heq]
    exact (workerStep_spec b s).cancelled
  · exact hothers.cancelled

/-- A job whose token is cancelled is not started. -/
theorem notMem_started_step {job : Job} (capacity : Nat) (act : Act δ) (h : job ∉ s.started)
    (hcancelled : job.options.cancellation ∈ s.cancelled) :
    job ∉ (s.step capacity act).started := by
  rcases step_cases capacity act s with ⟨b, heq⟩ | hothers
  · rw [heq]
    rcases (workerStep_spec b s).started with hsame | ⟨job', -, hnot, hadd⟩
    · rw [hsame]
      exact h
    rw [hadd]
    intro hmem
    rcases mem_append.1 hmem with hmem | hmem
    · exact h hmem
    · rw [mem_singleton.1 hmem] at hcancelled
      exact hnot hcancelled
  · rw [hothers.started]
    exact h

theorem Halts.step (h : s.Halts) (capacity : Nat) (act : Act δ) :
    (s.step capacity act).Halts ∧ (s.step capacity act).started = s.started := by
  have hstop := step_stop capacity act h.stop
  rcases step_cases capacity act s with ⟨b, heq⟩ | hothers
  · rw [heq] at hstop ⊢
    refine ⟨⟨hstop, fun job hjob => ?_⟩, ?_⟩
    · rcases (workerStep_spec b s).checked job hjob with ⟨hgoing, -⟩ | hmem
      · exact nomatch hgoing.symm.trans h.stop
      · exact hmem
    · rcases (workerStep_spec b s).started with hsame | ⟨job, hjob, hnot, -⟩
      · exact hsame
      · exact absurd (h.checked job hjob) hnot
  · refine ⟨⟨hstop, fun job hjob => ?_⟩, hothers.started⟩
    rw [hothers.worker] at hjob
    exact hothers.cancelled (h.checked job hjob)

/-- What a stop comes before: it has been carried out, or the worker has not yet looked at the flag
for the job that it has in hand. -/
def StopsBefore (s : System δ) : Prop :=
  s.StopDone ∨ s.stop = true ∧ s.worker.checked = none

theorem Orderly.halts (h : s.Orderly) (hstops : s.StopsBefore) : s.Halts := by
  rcases hstops with hdone | ⟨hstop, hnone⟩
  · exact ⟨h.stop_of_stopDone hdone, h.halted hdone⟩
  · exact ⟨hstop, fun job hjob => nomatch hnone.symm.trans hjob⟩

/-- The status is final once the worker stops. -/
theorem Orderly.status_step (h : s.Orderly) (capacity : Nat) (act : Act δ) :
    (s.status = .stopping → (s.step capacity act).status = .stopping ∨
      (s.step capacity act).status = .unloaded) ∧
    (s.status = .unloaded → (s.step capacity act).status = .unloaded) := by
  rcases step_cases capacity act s with ⟨b, heq⟩ | hothers
  · rw [heq]
    refine ⟨fun hstopping => ?_, fun hunloaded => ?_⟩
    · have hstop := h.stopping hstopping
      rcases (workerStep_spec b s).status with hsame | ⟨-, hset⟩ | ⟨-, hset⟩ | ⟨-, hset⟩
      · exact .inl (hsame.trans hstopping)
      · exact .inl (hset.trans (if_pos hstop))
      · exact .inl (hset.trans (if_pos hstop))
      · exact .inr hset
    · have hstage := h.unloaded hunloaded
      rcases (workerStep_spec b s).status with hsame | ⟨hone, -⟩ | ⟨hone, -⟩ | ⟨-, hset⟩
      · exact hsame.trans hunloaded
      · rw [hone] at hstage
        exact absurd hstage (by decide)
      · rw [hone] at hstage
        exact absurd hstage (by decide)
      · exact hset
  · rcases hothers.status with hsame | hmarked
    · rw [hsame]
      exact ⟨.inl, id⟩
    · refine ⟨fun hstopping => .inl ?_, fun hunloaded => ?_⟩
      · rw [hmarked, hstopping]
        rfl
      · rw [hmarked, if_pos hunloaded]

end System

end Gen2.Decision
