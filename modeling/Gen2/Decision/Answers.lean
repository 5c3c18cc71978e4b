import Gen2.Decision.Shutdown
import Mathlib.Data.List.Nodup

/-!
# What becomes of the jobs

A job that has been put in the queue is in the queue or in the worker's hands until its reply
channel is settled, and the worker comes to it in a number of steps that can be told beforehand.

* `System.Filed` is the invariant.
* `Due.workerStep`: every step of the worker brings a job nearer to its reply.
* `decisions_final`: what holds of every interleaving.
-/

namespace Gen2.Decision

open Lib List WorkerPc

variable {δ : Type}

/-- The job in the worker's hands. -/
def WorkerPc.held : WorkerPc δ → Option Job
  | taken job | refusing job | starting job | registering job | looking job | cancelling job
  | checking job | running job | rechecking job _ | stopChecking job _ | deactivating job _
  | lastLooking job _ | replying job _ => some job
  | _ => none

/-- How many steps the worker is at most away from the reply to the first job that waits. -/
def WorkerPc.ahead : WorkerPc δ → Nat
  | loading => 22
  | top => 21
  | receiving => 20
  | taken _ => 19
  | starting _ => 18
  | registering _ => 17
  | looking _ => 16
  | cancelling _ => 15
  | checking _ => 14
  | running _ => 13
  | rechecking _ _ => 12
  | stopChecking _ _ => 11
  | deactivating _ _ => 10
  | lastLooking _ _ => 9
  | replying _ _ => 8
  | refusing _ => 5
  | settling => 23
  | readying => 22
  | droppingBackend => 20
  | droppingReservation => 19
  | markingStop => 18
  | markingUnloaded => 17
  | draining => 16
  | closing => 17
  | discarding => 16
  | finished => 0

theorem WorkerPc.ahead_le (pc : WorkerPc δ) : pc.ahead ≤ 23 := by
  unfold ahead
  split <;> simp

def Reply.isWaiting : Reply δ → Bool
  | waiting => true
  | _ => false

/-- The call's job has not been put in the queue. -/
def CallPc.isBefore : CallPc δ → Bool
  | entering | admitting | sending => true
  | _ => false

/-- How many steps a call whose channel is settled is away from its return. -/
def CallPc.rest : CallPc δ → Nat
  | looking => 3
  | rechecking => 2
  | receiving => 1
  | _ => 0

def CallPc.outcome : CallPc δ → Option (Outcome δ)
  | returned outcome => some outcome
  | _ => none

namespace System

/-- The jobs that wait for a reply, in order. -/
def pending (s : System δ) : List Job := s.worker.held.toList ++ s.queue

/-- What every step keeps. -/
structure Filed (s : System δ) : Prop where
  ids : ∀ (i : Nat) (c : Call δ), s.calls[i]? = some c → c.job.id = i
  nodup : (s.pending.map Job.id).Nodup
  opened : ∀ job ∈ s.pending, ∃ c : Call δ, s.calls[job.id]? = some c ∧
    c.reply.isWaiting = true ∧ c.pc.isBefore = false
  kept : ∀ (i : Nat) (c : Call δ),
    s.calls[i]? = some c → c.reply.isWaiting = true → c.pc.isBefore = false →
    c.pc.isReturned = false → i ∈ s.pending.map Job.id
  fresh : ∀ (i : Nat) (c : Call δ),
    s.calls[i]? = some c → c.pc.isBefore = true → c.reply.isWaiting = true
  finished : s.worker = .finished → s.queue = []

/-! ## One step -/

/-- What a step of the worker does to the jobs that wait: nothing, or the first one is settled. -/
theorem workerStep_pending (b : Backend δ) (s : System δ) :
    (s.workerStep b).pending = s.pending ∧ (s.workerStep b).calls = s.calls ∧
      (s.pending = [] ∨ s.worker = .finished ∨ (s.workerStep b).worker.ahead < s.worker.ahead) ∨
    ∃ job reply, s.pending = job :: (s.workerStep b).pending ∧ reply.isWaiting = false ∧
      (reply.isSuccess = true → s.worker.succeeding = some job.id) ∧
      (s.workerStep b).calls = (s.answer job.id reply).calls ∧
      (s.workerStep b).worker.ahead < s.worker.ahead + 16 := by
  fun_cases workerStep b s
  case case7 job hworker =>
    refine .inr ⟨job, .sent (.error .unloaded), ?_, rfl, (by rintro ⟨⟩), rfl, ?_⟩
    all_goals simp [hworker, pending, goto, answer, held, ahead]
  case case15 job hworker _ =>
    refine .inr ⟨job, .dropped, ?_, rfl, (by rintro ⟨⟩), rfl, ?_⟩
    all_goals simp [hworker, pending, goto, answer, held, ahead]
  case case23 job outcome hworker =>
    refine .inr ⟨job, .sent outcome, ?_, rfl, fun hsuccess => ?_, rfl, ?_⟩
    · simp [hworker, pending, goto, answer, held]
    · rcases outcome with _ | _
      · cases hsuccess
      · simp [hworker, succeeding]
    · simp [hworker, goto, ahead]
  case case30 hworker job queue hqueue =>
    refine .inr ⟨job, .sent (.error .unloaded), ?_, rfl, (by rintro ⟨⟩), rfl, ?_⟩
    all_goals simp [hworker, hqueue, pending, answer, held, ahead]
  case case33 hworker job queue hqueue =>
    refine .inr ⟨job, .dropped, ?_, rfl, (by rintro ⟨⟩), rfl, ?_⟩
    all_goals simp [hworker, hqueue, pending, answer, held, ahead]
  case case5 hworker hqueue =>
    refine .inl ?_
    by_cases hdropped : s.inner = .dropped
    all_goals simp [hworker, hqueue, hdropped, pending, goto, held]
  all_goals refine .inl ?_
  all_goals rcases hstop : s.stop with _ | _
  all_goals simp [*, pending, goto, set, cancel, held, ahead]

theorem workerStep_finished (b : Backend δ) (s : System δ) :
    (s.workerStep b).worker = .finished →
      s.worker = .finished ∧ (s.workerStep b).queue = s.queue ∨ (s.workerStep b).queue = [] := by
  rcases hstop : s.stop with _ | _
  all_goals fun_cases workerStep b s
  all_goals simp only [*, goto, set, cancel, answer, if_true, if_false, Bool.false_eq_true]
  all_goals try split
  all_goals simp

theorem getElem?_answer (id i : Nat) (reply : Reply δ) (s : System δ) :
    (s.answer id reply).calls[i]? =
      if id = i then s.calls[i]?.map fun c => { c with reply := reply } else s.calls[i]? := by
  unfold answer
  by_cases h : id = i
  · simp [h]
  · simp [h]

/-- What a step of a call does: it goes on elsewhere, or its job is put in the queue. -/
theorem callStep_cases (capacity i : Nat) (c : Call δ) (s : System δ) :
    s.callStep capacity i c = s ∧ c.pc.isReturned = true ∨
    (∃ pc, s.callStep capacity i c = s.callTo i c pc ∧ c.pc.isReturned = false ∧
      (c.pc.isBefore = false → pc.isBefore = false) ∧
      (c.pc.isBefore = true → pc.isBefore = true ∨ pc.isReturned = true) ∧
      (pc.succeeded = true → c.reply.isSuccess = true) ∧
      (c.pc.isBefore = false → c.reply.isWaiting = false → pc.rest ≤ c.pc.rest - 1)) ∨
    c.pc = .sending ∧ s.hasReceiver = true ∧
      s.callStep capacity i c = { s with queue := s.queue ++ [c.job] }.callTo i c .receiving := by
  fun_cases callStep capacity i c s
  case case6 hpc hreceiver _ => exact .inr (.inr ⟨hpc, by simpa using hreceiver, rfl⟩)
  case case7 hpc outcome hreply =>
    refine .inr (.inl ⟨_, rfl, by rw [hpc]; rfl, fun _ => rfl, fun _ => .inr rfl,
      fun hsuccess => ?_,
      fun _ _ => Nat.zero_le _⟩)
    rcases outcome with _ | _
    · cases hsuccess
    · rw [hreply]
      rfl
  case case13 outcome hpc => exact .inl ⟨rfl, by rw [hpc]; rfl⟩
  all_goals refine .inr (.inl ⟨_, rfl, ?_⟩)
  all_goals rcases hstop : s.stop with _ | _
  all_goals simp [*, CallPc.isBefore, CallPc.isReturned, CallPc.succeeded, CallPc.rest,
    Reply.isWaiting]

variable {s : System δ}

variable {i : Nat} {c : Call δ}

/-- A call that has gone on elsewhere, in front of or behind the queue as before. -/
theorem Filed.callTo (h : s.Filed) {pc : CallPc δ} (hi : s.calls[i]? = some c)
    (hbehind : c.pc.isBefore = false → pc.isBefore = false)
    (hbefore : c.pc.isBefore = true → pc.isBefore = true ∨ pc.isReturned = true)
    (hreturned : c.pc.isReturned = true → pc.isReturned = true) : (s.callTo i c pc).Filed := by
  have hget : ∀ j, (s.callTo i c pc).calls[j]? = if i = j then some { c with pc := pc }
      else s.calls[j]? := by
    intro j
    have hlt := (List.getElem?_eq_some_iff.1 hi).1
    unfold System.callTo
    by_cases hj : i = j
    · subst hj
      simp [hlt]
    · simp [hj]
  refine ⟨?_, h.nodup, ?_, ?_, ?_, h.finished⟩
  · intro j d hd
    rw [hget] at hd
    split at hd
    · next hj =>
      rw [← Option.some.inj hd, ← hj]
      exact h.ids i c hi
    · exact h.ids j d hd
  · intro job hjob
    obtain ⟨d, hd, hwaiting, hsent⟩ := h.opened job hjob
    rw [hget]
    split
    · next hj =>
      rw [← hj, hi] at hd
      obtain rfl := Option.some.inj hd
      exact ⟨_, rfl, hwaiting, hbehind hsent⟩
    · exact ⟨d, hd, hwaiting, hsent⟩
  · intro j d hd hwaiting hsent hgoing
    rw [hget] at hd
    split at hd
    · next hj =>
      rw [← Option.some.inj hd] at hwaiting hsent hgoing
      rw [← hj]
      rcases hwas : c.pc.isBefore with _ | _
      · refine h.kept i c hi hwaiting hwas (Bool.eq_false_iff.2 fun hover => ?_)
        exact nomatch hgoing.symm.trans (hreturned hover)
      · rcases hbefore hwas with hyes | hyes
        · exact nomatch hsent.symm.trans hyes
        · exact nomatch hgoing.symm.trans hyes
    · exact h.kept j d hd hwaiting hsent hgoing
  · intro j d hd hstill
    rw [hget] at hd
    split at hd
    · rw [← Option.some.inj hd] at hstill ⊢
      rcases hwas : c.pc.isBefore with _ | _
      · exact nomatch hstill.symm.trans (hbehind hwas)
      · exact h.fresh i c hi hwas
    · exact h.fresh j d hd hstill

/-- A job that is put in the queue. -/
theorem Filed.sent (h : s.Filed) (hi : s.calls[i]? = some c) (hpc : c.pc = .sending)
    (hreceiver : s.hasReceiver = true) :
    ({ s with queue := s.queue ++ [c.job] }.callTo i c .receiving).Filed := by
  have hid := h.ids i c hi
  have hbefore : c.pc.isBefore = true := by
    rw [hpc]
    rfl
  have hget : ∀ j, ({ s with queue := s.queue ++ [c.job] }.callTo i c .receiving).calls[j]? =
      if i = j then some { c with pc := .receiving } else s.calls[j]? := by
    intro j
    have hlt := (List.getElem?_eq_some_iff.1 hi).1
    unfold System.callTo
    by_cases hj : i = j
    · subst hj
      simp [hlt]
    · simp [hj]
  have hpending : ({ s with queue := s.queue ++ [c.job] }.callTo i c .receiving).pending =
      s.pending ++ [c.job] := (append_assoc _ _ _).symm
  -- the call's job was not in the queue before
  have hnew : i ∉ s.pending.map Job.id := by
    intro hmem
    obtain ⟨job, hjob, heq⟩ := mem_map.1 hmem
    obtain ⟨d, hd, -, hsent⟩ := h.opened job hjob
    rw [heq, hi] at hd
    obtain rfl := Option.some.inj hd
    exact nomatch hsent.symm.trans hbefore
  refine ⟨?_, ?_, ?_, ?_, ?_, ?_⟩
  · intro j d hd
    rw [hget] at hd
    split at hd
    · next hj =>
      rw [← Option.some.inj hd, ← hj]
      exact hid
    · exact h.ids j d hd
  · rw [hpending, map_append, nodup_append]
    refine ⟨h.nodup, nodup_singleton _, fun j hj k hk heq => ?_⟩
    rw [heq, mem_singleton.1 hk, hid] at hj
    exact hnew hj
  · intro job hjob
    rw [hpending] at hjob
    rw [hget]
    rcases mem_append.1 hjob with hjob | hjob
    · obtain ⟨d, hd, hwaiting, hsent⟩ := h.opened job hjob
      rw [if_neg fun hj : i = job.id => hnew (hj ▸ mem_map_of_mem hjob)]
      exact ⟨d, hd, hwaiting, hsent⟩
    · rw [mem_singleton.1 hjob, hid, if_pos rfl]
      exact ⟨_, rfl, h.fresh i c hi hbefore, rfl⟩
  · intro j d hd hwaiting hsent hgoing
    rw [hpending, map_append]
    rw [hget] at hd
    split at hd
    · next hj =>
      rw [← hj, ← hid]
      exact mem_append_right _ mem_cons_self
    · exact mem_append_left _ (h.kept j d hd hwaiting hsent hgoing)
  · intro j d hd hstill
    rw [hget] at hd
    split at hd
    · rw [← Option.some.inj hd] at hstill
      exact nomatch hstill
    · exact h.fresh j d hd hstill
  · intro hfinished
    have hworker : s.worker = .finished := hfinished
    rw [hasReceiver, hworker] at hreceiver
    exact nomatch hreceiver

theorem Filed.callStep (h : s.Filed) (capacity : Nat) (hi : s.calls[i]? = some c) :
    (s.callStep capacity i c).Filed := by
  rcases callStep_cases capacity i c s with ⟨heq, -⟩ | ⟨pc, heq, hgoing, hbehind, hbefore, -, -⟩ |
    ⟨hpc, hreceiver, heq⟩
  · rw [heq]
    exact h
  · rw [heq]
    exact h.callTo hi hbehind hbefore fun hover => nomatch hgoing.symm.trans hover
  · rw [heq]
    exact h.sent hi hpc hreceiver

theorem Filed.workerStep (h : s.Filed) (b : Backend δ) : (s.workerStep b).Filed := by
  have hfinished : (s.workerStep b).worker = .finished → (s.workerStep b).queue = [] := by
    intro hworker
    rcases workerStep_finished b s hworker with ⟨hwas, heq⟩ | hnil
    · exact heq.trans (h.finished hwas)
    · exact hnil
  rcases workerStep_pending b s with ⟨hpending, hcalls, -⟩ | ⟨job, reply, hpending, hreply, -,
    hcalls, -⟩
  · refine ⟨?_, ?_, ?_, ?_, ?_, hfinished⟩
    · rw [hcalls]
      exact h.ids
    · rw [hpending]
      exact h.nodup
    · rw [hpending, hcalls]
      exact h.opened
    · rw [hpending, hcalls]
      exact h.kept
    · rw [hcalls]
      exact h.fresh
  · have hnodup := h.nodup
    rw [hpending, map_cons, nodup_cons] at hnodup
    have hget : ∀ i, (s.workerStep b).calls[i]? = if job.id = i then
        s.calls[i]?.map fun c => { c with reply := reply } else s.calls[i]? := fun i =>
      (congrArg (fun calls : List (Call δ) => calls[i]?) hcalls).trans
        (getElem?_answer job.id i reply s)
    refine ⟨?_, hnodup.2, ?_, ?_, ?_, hfinished⟩
    · intro i c hi
      rw [hget] at hi
      split at hi
      · obtain ⟨d, hd, rfl⟩ := Option.map_eq_some_iff.1 hi
        exact h.ids i d hd
      · exact h.ids i c hi
    · intro job' hjob'
      rw [hget, if_neg fun heq : job.id = job'.id => hnodup.1 (heq ▸ mem_map_of_mem hjob')]
      exact h.opened job' (hpending ▸ mem_cons_of_mem _ hjob')
    · intro i c hi hwaiting hsent hgoing
      rw [hget] at hi
      split at hi
      · obtain ⟨d, hd, rfl⟩ := Option.map_eq_some_iff.1 hi
        exact nomatch hreply.symm.trans hwaiting
      · next hne =>
        have hmem := h.kept i c hi hwaiting hsent hgoing
        rw [hpending, map_cons] at hmem
        exact (mem_cons.1 hmem).resolve_left fun heq => hne heq.symm
    · intro i c hi hbefore
      rw [hget] at hi
      split at hi
      · next heq =>
        -- a job that is answered has been put in the queue
        obtain ⟨d, hd, rfl⟩ := Option.map_eq_some_iff.1 hi
        obtain ⟨d', hd', -, hsent⟩ := h.opened job (hpending ▸ mem_cons_self)
        rw [heq, hd] at hd'
        obtain rfl := Option.some.inj hd'
        exact nomatch hsent.symm.trans hbefore
      · exact h.fresh i c hi hbefore

theorem Filed.initial : (initial : System δ).Filed where
  ids _ _ h := nomatch h
  nodup := nodup_nil
  opened _ h := absurd h not_mem_nil
  kept _ _ h := nomatch h
  fresh _ _ h := nomatch h
  finished := nofun

/-- What a step does to the calls. -/
theorem step_calls (capacity : Nat) (act : Act δ) (s : System δ) :
    (∃ b, act = .worker b) ∨
    (∃ i c, act = .proceed i ∧ s.calls[i]? = some c ∧
      s.step capacity act = s.callStep capacity i c) ∨
    (∃ job, (∀ i, act ≠ .proceed i) ∧ job.id = s.calls.length ∧
      s.step capacity act = { s with calls := s.calls ++ [⟨job, .entering, .waiting⟩] }) ∨
    (s.step capacity act).calls = s.calls ∧ (s.step capacity act).queue = s.queue ∧
      (s.step capacity act).worker = s.worker ∧ ∀ i, act = .proceed i → s.calls[i]? = none := by
  have hcancel : s.cancelActive.calls = s.calls ∧ s.cancelActive.queue = s.queue ∧
      s.cancelActive.worker = s.worker := by
    obtain ⟨_, heq, -⟩ := s.cancelActive_eq
    rw [heq]
    exact ⟨rfl, rfl, rfl⟩
  fun_cases System.step capacity act s
  case case1 b => exact .inl ⟨b, rfl⟩
  case case2 => exact .inr (.inr (.inl ⟨_, (by simp), rfl, rfl⟩))
  case case4 i c hi => exact .inr (.inl ⟨i, c, rfl, hi, rfl⟩)
  case case5 i hi =>
    refine .inr (.inr (.inr ⟨rfl, rfl, rfl, fun j heq => ?_⟩))
    rw [← Act.proceed.inj heq]
    exact hi
  case case8 i u _ =>
    refine .inr (.inr (.inr ?_))
    fun_cases System.unloadStep i u s
    all_goals first | exact ⟨rfl, rfl, rfl, (by simp)⟩ | exact ⟨hcancel.1, hcancel.2.1, hcancel.2.2,
      (by simp)⟩
  case case16 =>
    refine .inr (.inr (.inr ?_))
    fun_cases System.dropStep s
    all_goals first | exact ⟨rfl, rfl, rfl, (by simp)⟩ | exact ⟨hcancel.1, hcancel.2.1, hcancel.2.2,
      (by simp)⟩
  all_goals exact .inr (.inr (.inr ⟨rfl, rfl, rfl, (by simp)⟩))

theorem getElem?_call {c' : Call δ} (h : (s.calls ++ [c'])[i]? = some c) :
    s.calls[i]? = some c ∨ i = s.calls.length ∧ c = c' := by
  rcases Nat.lt_trichotomy i s.calls.length with hlt | heq | hgt
  · rw [getElem?_append_left hlt] at h
    exact .inl h
  · subst heq
    rw [getElem?_concat_length] at h
    exact .inr ⟨rfl, (Option.some.inj h).symm⟩
  · have hle : (s.calls ++ [c']).length ≤ i := by
      rw [length_append]
      exact hgt
    rw [getElem?_eq_none hle] at h
    exact nomatch h

/-- The invariant is kept by every step. -/
theorem Filed.step (h : s.Filed) (capacity : Nat) (act : Act δ) : (s.step capacity act).Filed := by
  rcases step_calls capacity act s with ⟨b, rfl⟩ | ⟨i, c, -, hi, heq⟩ | ⟨job, -, hid, heq⟩ |
    ⟨hcalls, hqueue, hworker, -⟩
  · exact h.workerStep b
  · rw [heq]
    exact h.callStep capacity hi
  · rw [heq]
    refine ⟨?_, h.nodup, ?_, ?_, ?_, h.finished⟩
    · intro i c hi
      rcases getElem?_call hi with hold | ⟨rfl, rfl⟩
      · exact h.ids i c hold
      · exact hid
    · intro job' hjob'
      obtain ⟨c, hc, hwaiting, hsent⟩ := h.opened job' hjob'
      refine ⟨c, ?_, hwaiting, hsent⟩
      rw [← hc]
      exact List.getElem?_append_left (List.getElem?_eq_some_iff.1 hc).1
    · intro i c hi hwaiting hsent hgoing
      rcases getElem?_call hi with hold | ⟨-, rfl⟩
      · exact h.kept i c hold hwaiting hsent hgoing
      · exact nomatch hsent
    · intro i c hi hbefore
      rcases getElem?_call hi with hold | ⟨-, rfl⟩
      · exact h.fresh i c hold hbefore
      · rfl
  · have hpending : (s.step capacity act).pending = s.pending := by
      rw [pending, hworker, hqueue]
      rfl
    refine ⟨?_, ?_, ?_, ?_, ?_, ?_⟩
    · rw [hcalls]
      exact h.ids
    · rw [hpending]
      exact h.nodup
    · rw [hpending, hcalls]
      exact h.opened
    · rw [hpending, hcalls]
      exact h.kept
    · rw [hcalls]
      exact h.fresh
    · rw [hworker, hqueue]
      exact h.finished

/-! ## Every job is answered -/

/-- The call has returned, or it will as soon as it looks at its channel. -/
def Settled (i : Nat) (s : System δ) : Prop :=
  ∃ c, s.calls[i]? = some c ∧ (c.pc.isReturned = true ∨
    c.pc.isBefore = false ∧ c.reply.isWaiting = false)

/-- The call's job is settled after `n` more steps of the worker. -/
def Due (i n : Nat) (s : System δ) : Prop :=
  s.Settled i ∨ ∃ k job, s.pending[k]? = some job ∧ job.id = i ∧ s.worker.ahead + 16 * k ≤ n

/-- What a step does to one of the calls. -/
structure Advances (s : System δ) (act : Act δ) (i : Nat) (c c' : Call δ) : Prop where
  returned : c.pc.isReturned = true → c'.pc = c.pc
  behind : c.pc.isBefore = false → c'.pc.isBefore = false
  reply : c.reply.isWaiting = false → c'.reply.isWaiting = false
  success : c'.pc.succeeded = true → c.pc.succeeded = true ∨ c.reply.isSuccess = true
  sent : c'.reply.isSuccess = true → c.reply.isSuccess = true ∨ s.worker.succeeding = some i
  others : act ≠ .proceed i → c'.pc = c.pc
  own : act = .proceed i → c.pc.isBefore = false → c.reply.isWaiting = false →
    c'.pc.rest ≤ c.pc.rest - 1

theorem Advances.refl {act : Act δ} (h : act ≠ .proceed i) : s.Advances act i c c :=
  ⟨fun _ => rfl, id, id, .inl, .inl, fun _ => rfl, fun hown => absurd hown h⟩

theorem step_advances (capacity : Nat) (act : Act δ) (hi : s.calls[i]? = some c) :
    ∃ c', (s.step capacity act).calls[i]? = some c' ∧ s.Advances act i c c' := by
  rcases step_calls capacity act s with ⟨b, rfl⟩ | ⟨j, d, rfl, hj, heq⟩ | ⟨job, hne, -, heq⟩ |
    ⟨hcalls, -, -, hnone⟩
  · rcases workerStep_pending b s with ⟨-, hcalls, -⟩ | ⟨job, reply, -, hreply, hsuccess, hcalls, -⟩
    · exact ⟨c, (congrArg (·[i]?) hcalls).trans hi, .refl nofun⟩
    have hget := (congrArg (·[i]?) hcalls).trans (getElem?_answer job.id i reply s)
    split at hget
    · next hjob =>
      rw [hi] at hget
      refine ⟨_, hget, fun _ => rfl, id, fun _ => hreply, .inl, fun hok => .inr ?_, fun _ => rfl,
        nofun⟩
      rw [← hjob]
      exact hsuccess hok
    · exact ⟨c, hget.trans hi, .refl nofun⟩
  · by_cases hij : j = i
    · subst hij
      rw [hi] at hj
      obtain rfl := Option.some.inj hj
      have hlt := (List.getElem?_eq_some_iff.1 hi).1
      have hget : ∀ (t : System δ) (pc : CallPc δ), t.calls = s.calls →
          (t.callTo j c pc).calls[j]? = some { c with pc := pc } := by
        intro t pc ht
        unfold System.callTo
        simp [ht, hlt]
      rw [heq]
      rcases callStep_cases capacity j c s with ⟨hsame, hover⟩ |
        ⟨pc, hto, hgoing, hbehind, -, hsuccess, hrest⟩ | ⟨hpc, -, hto⟩
      · rw [hsame]
        refine ⟨c, hi, fun _ => rfl, id, id, .inl, .inl, fun _ => rfl, fun _ _ _ => ?_⟩
        rcases hpc : c.pc with _ | _ | _ | _ | _ | _ | _
        all_goals first | exact Nat.zero_le _ | exact nomatch hpc ▸ hover
      · rw [hto]
        exact ⟨_, hget s pc rfl, fun hover => (nomatch hgoing.symm.trans hover), hbehind, id,
          fun hok => .inr (hsuccess hok), .inl, fun hne => absurd rfl hne, fun _ => hrest⟩
      rw [hto]
      refine ⟨_, hget { s with queue := s.queue ++ [c.job] } .receiving rfl, fun hover => ?_,
        fun _ => rfl, id, nofun, .inl, fun hne => absurd rfl hne, fun _ hbehind => ?_⟩
      · rw [hpc] at hover
        exact nomatch hover
      · rw [hpc] at hbehind
        exact nomatch hbehind
    · have hget : ∀ (t : System δ) (pc : CallPc δ), t.calls = s.calls →
          (t.callTo j d pc).calls[i]? = some c := by
        intro t pc ht
        unfold System.callTo
        simp [ht, hij, hi]
      have hne : (.proceed j : Act δ) ≠ .proceed i := fun h => hij (Act.proceed.inj h)
      rw [heq]
      rcases callStep_cases capacity j d s with ⟨hsame, -⟩ | ⟨pc, hto, -⟩ | ⟨-, -, hto⟩
      · rw [hsame]
        exact ⟨c, hi, .refl hne⟩
      · rw [hto]
        exact ⟨c, hget s pc rfl, .refl hne⟩
      · rw [hto]
        exact ⟨c, hget { s with queue := s.queue ++ [d.job] } .receiving rfl, .refl hne⟩
  · refine ⟨c, ?_, .refl (hne i)⟩
    rw [heq, ← hi]
    exact List.getElem?_append_left (List.getElem?_eq_some_iff.1 hi).1
  · refine ⟨c, (congrArg (·[i]?) hcalls).trans hi, .refl fun hown => ?_⟩
    exact nomatch (hnone i hown).symm.trans hi

/-- A call that was not there before has just begun. -/
theorem step_new (capacity : Nat) (act : Act δ) (hi : s.calls[i]? = none)
    (hi' : (s.step capacity act).calls[i]? = some c) : c.pc = .entering ∧ c.reply = .waiting := by
  rcases step_calls capacity act s with ⟨b, rfl⟩ | ⟨j, d, rfl, hj, heq⟩ | ⟨job, -, -, heq⟩ |
    ⟨hcalls, -, -, -⟩
  · rcases workerStep_pending b s with ⟨-, hcalls, -⟩ | ⟨job, reply, -, -, -, hcalls, -⟩
    · exact nomatch hi.symm.trans ((congrArg (·[i]?) hcalls).symm.trans hi')
    · have hget := (congrArg (·[i]?) hcalls).trans (getElem?_answer job.id i reply s)
      rw [hi] at hget
      split at hget <;> exact nomatch hi'.symm.trans hget
  · have hge := getElem?_eq_none_iff.1 hi
    have hlt := (List.getElem?_eq_some_iff.1 hi').1
    have hlength : (s.step capacity (.proceed j)).calls.length = s.calls.length := by
      rw [heq]
      rcases callStep_cases capacity j d s with ⟨hsame, -⟩ | ⟨pc, hto, -⟩ | ⟨-, -, hto⟩
      · rw [hsame]
      · rw [hto]
        exact length_set
      · rw [hto]
        exact length_set
    exact absurd hlt (by rw [hlength]; exact Nat.not_lt.2 hge)
  · rw [heq] at hi'
    rcases getElem?_call hi' with hold | ⟨-, rfl⟩
    · exact nomatch hi.symm.trans hold
    · exact ⟨rfl, rfl⟩
  · exact nomatch hi.symm.trans ((congrArg (·[i]?) hcalls).symm.trans hi')

theorem Settled.step (h : s.Settled i) (capacity : Nat) (act : Act δ) :
    (s.step capacity act).Settled i := by
  obtain ⟨c, hi, hsettled⟩ := h
  obtain ⟨c', hi', hadvances⟩ := step_advances capacity act hi
  refine ⟨c', hi', ?_⟩
  rcases hsettled with hreturned | ⟨hbehind, hreply⟩
  · rw [hadvances.returned hreturned]
    exact .inl hreturned
  · exact .inr ⟨hadvances.behind hbehind, hadvances.reply hreply⟩

/-- A step of the worker brings every job nearer to its reply. -/
theorem Due.workerStep {n : Nat} (hfiled : s.Filed) (h : s.Due i (n + 1)) (capacity : Nat)
    (b : Backend δ) : (s.workerStep b).Due i n := by
  rcases h with hsettled | ⟨k, job, hk, hid, hle⟩
  · exact .inl (hsettled.step capacity (.worker b))
  rcases workerStep_pending b s with ⟨hpending, hcalls, hahead⟩ |
    ⟨first, reply, hpending, hreply, -, hcalls, hahead⟩
  · refine .inr ⟨k, job, hpending ▸ hk, hid, ?_⟩
    rcases hahead with hnil | hfinished | hlt
    · rw [hnil] at hk
      exact nomatch hk
    · rw [pending, hfinished, hfiled.finished hfinished] at hk
      exact nomatch hk
    · omega
  · rw [hpending] at hk
    rcases k with _ | k
    · -- it is the first one's turn
      obtain rfl := Option.some.inj hk
      obtain ⟨c, hc, -, hsent⟩ := hfiled.opened first (hpending ▸ mem_cons_self)
      refine .inl ⟨{ c with reply := reply }, ?_, .inr ⟨hsent, hreply⟩⟩
      rw [hcalls, getElem?_answer, if_pos hid, ← hid, hc]
      rfl
    · refine .inr ⟨k, job, hk, hid, ?_⟩
      omega

/-- The other threads keep nobody from a reply. -/
theorem Due.step {n : Nat} (h : s.Due i n) (capacity : Nat) {act : Act δ}
    (hact : ∀ b, act ≠ .worker b) : (s.step capacity act).Due i n := by
  rcases h with hsettled | ⟨k, job, hk, hid, hle⟩
  · exact .inl (hsettled.step capacity act)
  rcases step_calls capacity act s with ⟨b, rfl⟩ | ⟨j, c, -, -, heq⟩ | ⟨job, -, -, heq⟩ |
    ⟨-, hqueue, hworker, -⟩
  · exact absurd rfl (hact b)
  · rw [heq]
    rcases callStep_cases capacity j c s with ⟨hsame, -⟩ | ⟨pc, hto, -⟩ | ⟨-, -, hto⟩
    · rw [hsame]
      exact .inr ⟨k, job, hk, hid, hle⟩
    · rw [hto]
      exact .inr ⟨k, job, hk, hid, hle⟩
    rw [hto]
    refine .inr ⟨k, job, ?_, hid, hle⟩
    have hlt := (List.getElem?_eq_some_iff.1 hk).1
    have hpending : ({ s with queue := s.queue ++ [c.job] }.callTo j c .receiving).pending =
        s.pending ++ [c.job] := (append_assoc _ _ _).symm
    rw [hpending, getElem?_append_left hlt]
    exact hk
  · rw [heq]
    exact .inr ⟨k, _, hk, hid, hle⟩
  refine .inr ⟨k, job, ?_, hid, ?_⟩
  · rw [pending, hworker, hqueue]
    exact hk
  · rw [hworker]
    exact hle

theorem Due.settled (hfiled : s.Filed) (h : s.Due i 0) : s.Settled i := by
  rcases h with hsettled | ⟨k, job, hk, -, hle⟩
  · exact hsettled
  have hahead : s.worker.ahead = 0 := by omega
  have hfinished : s.worker = .finished := by
    rcases hworker : s.worker with _ | _ | _ | _ | _ | _ | _ | _ | _ | _ | _ | _ | _ | _ | _ | _ |
      _ | _ | _ | _ | _ | _ | _ | _ | _ | _
    all_goals first | rfl | exact nomatch (hworker ▸ hahead)
  rw [pending, hfinished, hfiled.finished hfinished] at hk
  exact nomatch hk

/-- A run. -/
def run (capacity : Nat) (acts : List (Act δ)) (s : System δ) : System δ :=
  acts.foldl (fun s act => s.step capacity act) s

end System

def Act.isWorker : Act δ → Bool
  | worker _ => true
  | _ => false

def Act.isProceed (i : Nat) : Act δ → Bool
  | proceed j => decide (j = i)
  | _ => false

namespace System

variable {s : System δ}

variable {i : Nat} {acts : List (Act δ)}

/-- A job is settled once the worker has taken as many steps as it is due in. -/
theorem Due.run {n : Nat} {capacity : Nat} (hfiled : s.Filed) (h : s.Due i n)
    (hn : n ≤ acts.countP Act.isWorker) : (s.run capacity acts).Settled i := by
  induction acts generalizing s n with
  | nil =>
    obtain rfl := Nat.le_zero.1 hn
    exact h.settled hfiled
  | cons act acts ih =>
    have hnext := hfiled.step capacity act
    rcases hworker : act.isWorker with _ | _
    · rw [countP_cons_of_neg (by simp [hworker])] at hn
      refine ih hnext (h.step capacity ?_) hn
      rintro b rfl
      exact nomatch hworker
    · rw [countP_cons_of_pos hworker] at hn
      rcases act with b | _ | _ | _ | _ | _ | _ | _ | _ | _
      case worker =>
        rcases n with _ | n
        · exact ih hnext (.inl ((h.settled hfiled).step capacity (.worker b))) (Nat.zero_le _)
        · exact ih hnext (h.workerStep hfiled capacity b) (Nat.le_of_succ_le_succ hn)
      all_goals exact nomatch hworker

/-- The call's job has been put in the queue, and is answered or will be. -/
theorem Filed.due (h : s.Filed) {c : Call δ} (hi : s.calls[i]? = some c)
    (hsent : c.pc.isBefore = false) : s.Due i (23 + 16 * s.pending.length) := by
  rcases hreturned : c.pc.isReturned with _ | _
  · rcases hreply : c.reply.isWaiting with _ | _
    · exact .inl ⟨c, hi, .inr ⟨hsent, hreply⟩⟩
    obtain ⟨job, hjob, hid⟩ := mem_map.1 (h.kept i c hi hreply hsent hreturned)
    obtain ⟨k, hk⟩ := mem_iff_getElem?.1 hjob
    have hlt := (List.getElem?_eq_some_iff.1 hk).1
    have hahead := s.worker.ahead_le
    exact .inr ⟨k, job, hk, hid, by omega⟩
  · exact .inl ⟨c, hi, .inl hreturned⟩

/-- A settled call returns once it has been given three steps of its own. -/
theorem Settled.run {n : Nat} {capacity : Nat} {c : Call δ} (hi : s.calls[i]? = some c)
    (hsettled : c.pc.isReturned = true ∨
      c.pc.isBefore = false ∧ c.reply.isWaiting = false ∧ c.pc.rest ≤ n)
    (hn : n ≤ acts.countP (Act.isProceed i)) :
    ∃ c', (s.run capacity acts).calls[i]? = some c' ∧ c'.pc.isReturned = true := by
  induction acts generalizing s n c with
  | nil =>
    refine ⟨c, hi, ?_⟩
    rcases hsettled with hreturned | ⟨hbehind, -, hrest⟩
    · exact hreturned
    obtain rfl := Nat.le_zero.1 hn
    rcases hpc : c.pc with _ | _ | _ | _ | _ | _ | _
    all_goals rw [hpc] at hbehind hrest
    all_goals first
      | rfl
      | exact absurd hrest (Nat.not_succ_le_zero _)
      | exact nomatch hbehind
  | cons act acts ih =>
    obtain ⟨c', hi', hadvances⟩ := step_advances capacity act hi
    rcases hsettled with hreturned | ⟨hbehind, hreply, hrest⟩
    · refine ih (n := 0) hi' (.inl ?_) (Nat.zero_le _)
      rw [hadvances.returned hreturned]
      exact hreturned
    rcases hown : act.isProceed i with _ | _
    · have hne : act ≠ .proceed i := by
        rintro rfl
        exact nomatch hown.symm.trans (decide_eq_true rfl)
      rw [countP_cons_of_neg (by simp [hown])] at hn
      refine ih hi' (.inr ⟨hadvances.behind hbehind, hadvances.reply hreply, ?_⟩) hn
      rw [hadvances.others hne]
      exact hrest
    · have heq : act = .proceed i := by
        unfold Act.isProceed at hown
        split at hown
        · exact congrArg Act.proceed (of_decide_eq_true hown)
        · exact nomatch hown
      rw [countP_cons_of_pos hown] at hn
      have hless := hadvances.own heq hbehind hreply
      exact ih (n := n - 1) hi' (.inr ⟨hadvances.behind hbehind, hadvances.reply hreply,
        by omega⟩)
        (by omega)

/-! ## Every interleaving -/

/-- The outcome that a call has returned. -/
def outcome (i : Nat) (s : System δ) : Option (Outcome δ) :=
  s.calls[i]?.bind fun c => c.pc.outcome

/-- The call's job has been put in the queue. -/
def Admitted (i : Nat) (s : System δ) : Prop :=
  ∃ c, s.calls[i]? = some c ∧ c.pc.isBefore = false

/-- The call has returned a result. -/
def Succeeded (i : Nat) (s : System δ) : Prop :=
  ∃ c, s.calls[i]? = some c ∧ c.pc.succeeded = true

/-- A result for the call is in its channel, or the worker is about to put it there. -/
def Delivers (i : Nat) (s : System δ) : Prop :=
  s.worker.succeeding = some i ∨ ∃ c, s.calls[i]? = some c ∧ c.reply.isSuccess = true

/-- What holds in every state, of all that may follow. -/
structure Final (capacity : Nat) (s : System δ) : Prop where
  /-- An admitted job has one outcome at most. -/
  once : ∀ (i : Nat) (outcome : Outcome δ), s.outcome i = some outcome → ∀ acts : List (Act δ),
    Always (next capacity) (fun s' => s'.outcome i = some outcome) acts s
  /-- It has one as soon as the worker and its caller have taken their steps. -/
  answered : ∀ i, s.Admitted i → ∀ acts acts' : List (Act δ),
    23 + 16 * s.pending.length ≤ acts.countP Act.isWorker → 3 ≤ acts'.countP (Act.isProceed i) →
      ((s.run capacity acts).run capacity acts').outcome i ≠ none
  /-- A job cancelled before it starts never runs the backend. -/
  cancelled : ∀ job, job ∉ s.started → job.options.cancellation ∈ s.cancelled →
    ∀ acts : List (Act δ), Always (next capacity) (fun s' => job ∉ s'.started) acts s
  /-- Nor does one that has been stopped before it starts. -/
  stopped : s.StopsBefore → ∀ acts : List (Act δ),
    Always (next capacity) (fun s' => s'.started = s.started) acts s
  /-- After a stop only a result that was on its way already is delivered. -/
  delivered : s.stop = true → ∀ acts : List (Act δ),
    Always (next capacity) (fun s' => ∀ i, s'.Succeeded i → s.Succeeded i ∨ s.Delivers i) acts s
  /-- The status never returns to `Ready` or `Running`. -/
  stopping : s.status = .stopping → ∀ acts : List (Act δ),
    Always (next capacity) (fun s' => s'.status = .stopping ∨ s'.status = .unloaded) acts s
  unloaded : s.status = .unloaded → ∀ acts : List (Act δ),
    Always (next capacity) (fun s' => s'.status = .unloaded) acts s
  /-- `Unloaded` is reported only after what was loaded has been released. -/
  released : s.status = .unloaded → s.backend = false ∧ s.reservation = false

theorem always_of_kept {I : System δ → Prop} {capacity : Nat}
    (hstep : ∀ (s : System δ) (act : Act δ), I s → I (s.step capacity act)) (h : I s) :
    Always (next capacity) I acts s :=
  always_of_step (fun _ _ hs _ => ⟨_, rfl, hstep _ _ hs⟩) h (everyStep_true _ _)

theorem outcome_eq_some {outcome : Outcome δ} :
    s.outcome i = some outcome ↔ ∃ c, s.calls[i]? = some c ∧ c.pc = .returned outcome := by
  unfold System.outcome
  rw [Option.bind_eq_some_iff]
  refine exists_congr fun c => and_congr_right fun _ => ?_
  unfold CallPc.outcome
  split
  · next heq => rw [Option.some_inj, heq, CallPc.returned.injEq]
  · next hno => exact ⟨nofun, fun heq => absurd heq (hno outcome)⟩

/-- A call that has no result and none on its way is silent for good after a stop. -/
structure Silent (i : Nat) (s : System δ) : Prop where
  stop : s.stop = true
  worker : s.worker.succeeding ≠ some i
  calls : ∀ c, s.calls[i]? = some c → c.reply.isSuccess = false ∧ c.pc.succeeded = false

theorem Silent.step (h : s.Silent i) (capacity : Nat) (act : Act δ) :
    (s.step capacity act).Silent i := by
  refine ⟨step_stop capacity act h.stop, ?_, fun c' hi' => ?_⟩
  · rcases step_cases capacity act s with ⟨b, heq⟩ | hothers
    · rw [heq]
      exact fun hsending => nomatch ((workerStep_spec b s).succeeding i hsending).symm.trans h.stop
    · rw [hothers.worker]
      exact h.worker
  · rcases hi : s.calls[i]? with _ | c
    · obtain ⟨hpc, hreply⟩ := step_new capacity act hi hi'
      rw [hpc, hreply]
      exact ⟨rfl, rfl⟩
    obtain ⟨hreply, hpc⟩ := h.calls c hi
    obtain ⟨d, hd, hadvances⟩ := step_advances capacity act hi
    rw [hi'] at hd
    obtain rfl := Option.some.inj hd
    refine ⟨Bool.eq_false_iff.2 fun hok => ?_, Bool.eq_false_iff.2 fun hok => ?_⟩
    · rcases hadvances.sent hok with hold | hsending
      · exact nomatch hreply.symm.trans hold
      · exact h.worker hsending
    · rcases hadvances.success hok with hold | hold
      · exact nomatch hpc.symm.trans hold
      · exact nomatch hreply.symm.trans hold

/-- What every interleaving keeps says all of this. -/
theorem final (horderly : s.Orderly) (hfiled : s.Filed) (capacity : Nat) : s.Final capacity where
  once i outcome houtcome acts := by
    refine always_of_kept (fun s act houtcome => ?_) houtcome
    obtain ⟨c, hi, hpc⟩ := outcome_eq_some.1 houtcome
    obtain ⟨c', hi', hadvances⟩ := step_advances capacity act hi
    refine outcome_eq_some.2 ⟨c', hi', (hadvances.returned ?_).trans hpc⟩
    rw [hpc]
    rfl
  answered i hadmitted acts acts' hworker hown := by
    obtain ⟨c, hi, hsent⟩ := hadmitted
    obtain ⟨c', hi', hsettled⟩ := (hfiled.due hi hsent).run hfiled hworker
    have hle : c'.pc.rest ≤ 3 := by
      rcases c'.pc with _ | _ | _ | _ | _ | _ | _
      all_goals simp [CallPc.rest]
    obtain ⟨c'', hi'', hreturned⟩ := Settled.run hi'
      (hsettled.imp_right fun h => ⟨h.1, h.2, hle⟩) hown
    rcases hpc : c''.pc with _ | _ | _ | _ | _ | _ | outcome
    case returned =>
      rw [outcome_eq_some.2 ⟨c'', hi'', hpc⟩]
      exact nofun
    all_goals
      rw [hpc] at hreturned
      exact nomatch hreturned
  cancelled job hjob hcancelled acts :=
    (always_of_kept (I := fun s => job ∉ s.started ∧ job.options.cancellation ∈ s.cancelled)
      (fun s act h => ⟨notMem_started_step capacity act h.1 h.2, step_cancelled capacity act s h.2⟩)
      ⟨hjob, hcancelled⟩).mono fun _ h => h.1
  stopped hstops acts := by
    refine (always_of_kept (I := fun s' => s'.Halts ∧ s'.started = s.started) (fun s' act h => ?_)
      ⟨horderly.halts hstops, rfl⟩).mono fun _ h => h.2
    obtain ⟨hhalts, hsame⟩ := h.1.step capacity act
    exact ⟨hhalts, hsame.trans h.2⟩
  delivered hstop acts := by
    refine (always_of_kept (I := fun s' => ∀ i, s.Succeeded i ∨ s.Delivers i ∨ s'.Silent i)
      (fun s' act h i => (h i).imp_right fun h => h.imp_right fun h => h.step capacity act)
      fun i => ?_).mono fun s' h i hok => ?_
    · by_cases hold : s.Succeeded i ∨ s.Delivers i
      · exact hold.imp_right .inl
      · obtain ⟨hnot, hno⟩ := not_or.1 hold
        refine .inr (.inr ⟨hstop, fun hsending => hno (.inl hsending), fun c hi => ⟨?_, ?_⟩⟩)
        · exact Bool.eq_false_iff.2 fun hok => hno (.inr ⟨c, hi, hok⟩)
        · exact Bool.eq_false_iff.2 fun hok => hnot ⟨c, hi, hok⟩
    · rcases h i with hold | hold | hsilent
      · exact .inl hold
      · exact .inr hold
      · obtain ⟨c, hi, hsucceeded⟩ := hok
        exact nomatch (hsilent.calls c hi).2.symm.trans hsucceeded
  stopping hstopping acts :=
    (always_of_kept (I := fun s => s.Orderly ∧ (s.status = .stopping ∨ s.status = .unloaded))
      (fun s act h => ⟨h.1.step capacity act, h.2.elim (h.1.status_step capacity act).1
        fun hunloaded => .inr ((h.1.status_step capacity act).2 hunloaded)⟩)
      ⟨horderly, .inl hstopping⟩).mono fun _ h => h.2
  unloaded hunloaded acts :=
    (always_of_kept (I := fun s => s.Orderly ∧ s.status = .unloaded)
      (fun s act h => ⟨h.1.step capacity act, (h.1.status_step capacity act).2 h.2⟩)
      ⟨horderly, hunloaded⟩).mono fun _ h => h.2
  released := horderly.released

/-- **Every decision job is answered once, and shutdown is final**, in every interleaving. -/
theorem decisions_final (capacity : Nat) (acts : List (Act δ)) :
    Always (next capacity) (fun s => s.Final capacity) acts initial :=
  (always_of_kept (I := fun s => s.Orderly ∧ s.Filed)
    (fun _ act h => ⟨h.1.step capacity act, h.2.step capacity act⟩)
    ⟨Orderly.initial, Filed.initial⟩).mono fun _ h => final h.1 h.2 capacity

/-- The worker looks at the flag for the last time, the model is unloaded, and then the result is
sent. -/
theorem decisions_not_silent :
    let b : Backend Unit := ⟨some (.ok ()), some (.ok [()]), none⟩
    let acts := [.worker b, .call 1 false ⟨none, 0⟩, .proceed 0, .proceed 0, .proceed 0] ++
      List.replicate 12 (.worker b) ++
      [.unload false, .proceedUnload 0, .proceedUnload 0, .proceedUnload 0]
    ¬ Always (next 1) (fun s => s.stop = true → ∀ acts : List (Act Unit),
      Always (next 1) (fun s' => ∀ i, s'.Succeeded i → s.Succeeded i) acts s) acts initial := by
  intro b acts h
  obtain ⟨s, hs, hsilent⟩ := h.final
  have hlast : (runAll (next 1) acts initial).map (fun s =>
      (s.stop, s.calls.map fun c => c.pc.succeeded,
        (s.run 1 [.worker b, .proceed 0]).calls.map fun c => c.pc.succeeded)) =
      some (true, [false], [true]) := by decide +kernel
  rw [hs] at hlast
  obtain ⟨hstop, hrest⟩ := Prod.mk.inj (Option.some.inj hlast)
  obtain ⟨hbefore, hafter⟩ := Prod.mk.inj hrest
  obtain ⟨s', hs', hall⟩ := (hsilent hstop [.worker b, .proceed 0]).final
  obtain rfl := Option.some.inj hs'
  obtain ⟨c, hc, hok⟩ := List.getElem?_map ▸ congrArg (·[0]?) hafter |> Option.map_eq_some_iff.1
  obtain ⟨c', hc', hok'⟩ := hall 0 ⟨c, hc, hok⟩
  have hno : (s.calls.map fun c => c.pc.succeeded)[0]? = some true := by
    rw [List.getElem?_map, hc']
    exact congrArg some hok'
  rw [hbefore] at hno
  exact nomatch hno

end System

end Gen2.Decision
