import Gen2.Journal.Wake

/-!
# The wakes of a run

`journal/wake.rs`: what the polls of a scheduler answer over a whole run, in which requests and ends
of runs come at any point between them.

* `Logged` is a scheduler with all that its caller has seen of it, the newest first.
* `Logged.Allowed` is what the caller keeps to: its clock does not go back, and it reports that the
  agent has begun before it polls again or reports that the agent is done.
* `Answers` is what a poll owes to what was seen before it: heartbeats an interval apart, no wake
  inside a run of the agent, what was asked for as soon as the agent is free, and one wake for
  however many heartbeats were missed.
* `WakeScheduler.request` keeps one reason, so a second request takes the place of a first that is
  still waiting.  `wakes_scheduled` is about the runs in which that does not happen,
  `Logged.Clear`; `request_lost` is a run in which it does.
-/

namespace Gen2
namespace Journal

open Lib List WakeScheduler

/-! ## One poll -/

/-- What a poll can come to. -/
inductive WakeScheduler.Polled (s : WakeScheduler) (now : Nat) :
    Except Declined WakeReason × WakeScheduler → Prop
  | missed : s.busy = true → s.pending = none → s.due now = true →
      s.Polled now (.error .busy, { s with pending := some .heartbeat, lastWake := some now })
  | busy : s.busy = true → (s.pending = none → s.due now = false) → s.Polled now (.error .busy, s)
  | pending (reason : WakeReason) : s.busy = false → s.pending = some reason →
      s.Polled now (.ok reason, { s with pending := none, lastWake := some now })
  | bored : s.busy = false → s.pending = none → s.Polled now (.error .bored, s)
  | tooSoon : s.busy = false → s.pending = none → s.due now = false →
      s.Polled now (.error .tooSoon, s)
  | heartbeat : s.busy = false → s.pending = none → s.due now = true →
      s.Polled now
        (.ok .heartbeat, { s with lastWake := some now, idleWakes := s.idleWakes + 1 })

theorem WakeScheduler.polled (s : WakeScheduler) (now : Nat) : s.Polled now (s.poll now) := by
  rw [poll]
  by_cases hbusy : s.busy = true
  · rw [if_pos hbusy]
    cases hpending : s.pending with
    | some reason => exact .busy hbusy (by simp [hpending])
    | none =>
      cases hdue : s.due now with
      | true => exact .missed hbusy hpending hdue
      | false => exact .busy hbusy fun _ => hdue
  · have hfree : s.busy = false := by simpa using hbusy
    rw [if_neg hbusy]
    split
    next reason hpending => exact .pending reason hfree hpending
    next hpending =>
      split
      · exact .bored hfree hpending
      · cases hdue : s.due now with
        | true => exact .heartbeat hfree hpending hdue
        | false => exact .tooSoon hfree hpending hdue

/-- A heartbeat that is due is an interval later than everything up to the last wake. -/
theorem WakeScheduler.interval_le_of_due {s : WakeScheduler} {now t : Nat} (hdue : s.due now = true)
    (hlast : ∃ last, s.lastWake = some last ∧ t ≤ last) (hnow : t ≤ now) :
    t + s.heartbeat.interval ≤ now := by
  obtain ⟨last, hlast, hle⟩ := hlast
  rw [due, hlast, decide_eq_true_eq] at hdue
  omega

/-- A heartbeat that is not due is less than an interval after the last wake. -/
theorem WakeScheduler.lastWake_of_not_due {s : WakeScheduler} {now : Nat}
    (hdue : s.due now = false) :
    ∃ last, s.lastWake = some last ∧ now < last + s.heartbeat.interval := by
  rw [due] at hdue
  split at hdue
  · cases hdue
  next last hlast =>
    rw [decide_eq_false_iff_not] at hdue
    exact ⟨last, hlast, by omega⟩

/-! ## What the caller sees -/

/-- One thing that the caller of a scheduler has seen or done. -/
inductive Seen
  | polled (now : Nat) (outcome : Except Declined WakeReason)
  | beganRunning
  | finishedRunning
  | requested (reason : WakeReason)

/-- It is a poll that returned a wake. -/
def Seen.isWake : Seen → Bool
  | .polled _ (.ok _) => true
  | _ => false

/-- What was seen since the last wake, or ever. -/
def sinceWake (log : List Seen) : List Seen := log.takeWhile fun e => !e.isWake

/-- There was a wake at this time. -/
def WokenAt (log : List Seen) (t : Nat) : Prop := ∃ reason, .polled t (.ok reason) ∈ log

/-- The agent is at work. -/
def running : List Seen → Bool
  | [] => false
  | .beganRunning :: _ => true
  | .finishedRunning :: _ => false
  | _ :: log => running log

/-- A wake has been returned, and the agent has not begun. -/
def Owed (log : List Seen) : Prop := (∃ t, WokenAt log t) ∧ .beganRunning ∉ sinceWake log

/-- A scheduler, and what its caller has seen of it, the newest first. -/
structure Logged where
  scheduler : WakeScheduler
  log : List Seen

namespace Logged

def start (heartbeat : Heartbeat) : Logged := ⟨.new heartbeat, []⟩

def step : Tick → Logged → Option Logged
  | .poll now, w =>
    some ⟨(w.scheduler.poll now).2, .polled now (w.scheduler.poll now).1 :: w.log⟩
  | .beganRunning, w => some ⟨w.scheduler.beganRunning, .beganRunning :: w.log⟩
  | .finishedRunning did, w => some ⟨w.scheduler.finishedRunning did, .finishedRunning :: w.log⟩
  | .request reason, w => some ⟨w.scheduler.request reason, .requested reason :: w.log⟩

/-- The clock does not go back, and a wake is begun before it is over and before the next poll. -/
def Allowed (w : Logged) : Tick → Prop
  | .poll now => (∀ t outcome, .polled t outcome ∈ w.log → t ≤ now) ∧ ¬ Owed w.log
  | .finishedRunning _ => ¬ Owed w.log
  | _ => True

/-- A request is not for a heartbeat, and takes the place of no other that is waiting. -/
def Clear (w : Logged) : Tick → Prop
  | .request reason => reason ≠ .heartbeat ∧
      ∀ waiting, w.scheduler.pending = some waiting → waiting = .heartbeat ∨ waiting = reason
  | _ => True

end Logged

/-- What a poll at `now` owes to what was seen before it. -/
structure Answers (interval : Nat) (log : List Seen) (now : Nat)
    (outcome : Except Declined WakeReason) : Prop where
  /-- Heartbeats are an interval apart. -/
  spaced : outcome = .ok .heartbeat →
    ∀ t, .polled t (.ok .heartbeat) ∈ log → t + interval ≤ now
  /-- Between two wakes the agent is done with the first. -/
  alone : ∀ reason, outcome = .ok reason → (∃ t, WokenAt log t) →
    .finishedRunning ∈ sinceWake log
  /-- Only while the agent is at work it is declined for that. -/
  busy : outcome = .error .busy ↔ running log = true
  /-- A request that no wake has followed is the reason, as soon as the agent is free. -/
  returned : running log = false → ∀ reason, .requested reason ∈ sinceWake log →
    outcome = .ok reason
  /-- Heartbeats found due while the agent was at work are one wake, as soon as it is free. -/
  coalesced : running log = false → ∀ t, .polled t (.error .busy) ∈ sinceWake log →
    (∀ t₀, WokenAt log t₀ → t₀ + interval ≤ t) → ∃ reason, outcome = .ok reason
  /-- However late a poll is, it finds one heartbeat due, or the agent bored. -/
  unpolled : running log = false → (∀ t₀, WokenAt log t₀ → t₀ + interval ≤ now) →
    outcome = .error .bored ∨ ∃ reason, outcome = .ok reason

/-- The last poll answered as it owed. -/
def Logged.Scheduled (interval : Nat) (w : Logged) : Prop :=
  ∀ now outcome log, w.log = .polled now outcome :: log → Answers interval log now outcome

/-! ## What a run keeps -/

@[simp] theorem sinceWake_wake (t : Nat) (reason : WakeReason) (log : List Seen) :
    sinceWake (.polled t (.ok reason) :: log) = [] := rfl

@[simp] theorem sinceWake_declined (t : Nat) (d : Declined) (log : List Seen) :
    sinceWake (.polled t (.error d) :: log) = .polled t (.error d) :: sinceWake log := rfl

@[simp] theorem sinceWake_began (log : List Seen) :
    sinceWake (.beganRunning :: log) = .beganRunning :: sinceWake log := rfl

@[simp] theorem sinceWake_finished (log : List Seen) :
    sinceWake (.finishedRunning :: log) = .finishedRunning :: sinceWake log := rfl

@[simp] theorem sinceWake_requested (reason : WakeReason) (log : List Seen) :
    sinceWake (.requested reason :: log) = .requested reason :: sinceWake log := rfl

@[simp] theorem wokenAt_cons (e : Seen) (log : List Seen) (t : Nat) :
    WokenAt (e :: log) t ↔ (∃ reason, .polled t (.ok reason) = e) ∨ WokenAt log t := by
  simp only [WokenAt, mem_cons, exists_or]

/-- How the scheduler stands to what was seen of it. -/
structure Logged.Inv (heartbeat : Heartbeat) (w : Logged) : Prop where
  policy : w.scheduler.heartbeat = heartbeat
  running : running w.log = w.scheduler.busy
  /-- An agent that is free, and not about to begin, is done with its last wake. -/
  free : w.scheduler.busy = false → ¬ Owed w.log → (∃ t, WokenAt w.log t) →
    .finishedRunning ∈ sinceWake w.log
  last : ∀ t, WokenAt w.log t → ∃ last, w.scheduler.lastWake = some last ∧ t ≤ last
  /-- A heartbeat is pending since a poll an interval after every other. -/
  spaced : w.scheduler.pending = some .heartbeat → ∃ now outcome, .polled now outcome ∈ w.log ∧
    ∀ t, .polled t (.ok .heartbeat) ∈ w.log → t + heartbeat.interval ≤ now
  external : ∀ reason, .requested reason ∈ w.log → reason ≠ .heartbeat
  asked : ∀ reason, .requested reason ∈ sinceWake w.log → w.scheduler.pending = some reason
  /-- Only a heartbeat that is pending moves the time of the last wake without one. -/
  woken : w.scheduler.pending = none → ∀ last, w.scheduler.lastWake = some last →
    WokenAt w.log last
  missed : ∀ t, .polled t (.error .busy) ∈ sinceWake w.log →
    (∀ t₀, WokenAt w.log t₀ → t₀ + heartbeat.interval ≤ t) → w.scheduler.pending ≠ none

namespace Logged

theorem inv_start (heartbeat : Heartbeat) : (start heartbeat).Inv heartbeat where
  policy := rfl
  running := rfl
  free := by simp [start, WokenAt]
  last := by simp [start, WokenAt]
  spaced := by simp [start, new]
  external := by simp [start]
  asked := by simp [start, sinceWake]
  woken := by simp [start, new]
  missed := by simp [start, sinceWake]

variable {heartbeat : Heartbeat} {w : Logged}

theorem Inv.beganRunning (h : w.Inv heartbeat) :
    Inv heartbeat ⟨w.scheduler.beganRunning, .beganRunning :: w.log⟩ where
  policy := h.policy
  running := rfl
  free := by simp [WakeScheduler.beganRunning]
  last := by simpa [WakeScheduler.beganRunning] using h.last
  spaced := by simpa [WakeScheduler.beganRunning] using h.spaced
  external := by simpa using h.external
  asked := by simpa [WakeScheduler.beganRunning] using h.asked
  woken := by simpa [WakeScheduler.beganRunning] using h.woken
  missed := by simpa [WakeScheduler.beganRunning] using h.missed

theorem Inv.finishedRunning (h : w.Inv heartbeat) (did : Bool) :
    Inv heartbeat ⟨w.scheduler.finishedRunning did, .finishedRunning :: w.log⟩ where
  policy := h.policy
  running := rfl
  free := by simp
  last := by simpa [WakeScheduler.finishedRunning] using h.last
  spaced := by simpa [WakeScheduler.finishedRunning] using h.spaced
  external := by simpa using h.external
  asked := by simpa [WakeScheduler.finishedRunning] using h.asked
  woken := by simpa [WakeScheduler.finishedRunning] using h.woken
  missed := by simpa [WakeScheduler.finishedRunning] using h.missed

theorem Inv.request (h : w.Inv heartbeat) {reason : WakeReason}
    (hclear : w.Clear (.request reason)) :
    Inv heartbeat ⟨w.scheduler.request reason, .requested reason :: w.log⟩ where
  policy := h.policy
  running := h.running
  free := by
    intro hfree howed hwoken
    simp only [wokenAt_cons, reduceCtorEq, exists_false, false_or] at hwoken
    refine mem_cons_of_mem _ (h.free hfree (fun ho => howed ⟨?_, ?_⟩) hwoken)
    · simpa using hwoken
    · simpa using ho.2
  last := by simpa [WakeScheduler.request] using h.last
  spaced := fun hpending => absurd (Option.some.inj hpending) hclear.1
  external := by
    intro asked hmem
    rcases mem_cons.1 hmem with heq | hmem
    · cases heq
      exact hclear.1
    · exact h.external asked hmem
  asked := by
    intro asked hmem
    rcases mem_cons.1 hmem with heq | hmem
    · cases heq
      rfl
    -- whoever was waiting asked for the same
    have hwaiting := h.asked asked hmem
    rcases hclear.2 asked hwaiting with rfl | rfl
    · exact absurd rfl (h.external _ (takeWhile_subset _ hmem))
    · rfl
  woken := nofun
  missed := fun _ _ _ => nofun

variable {now : Nat}

/-- A poll that declines, and leaves the scheduler as it is. -/
theorem Inv.declined (h : w.Inv heartbeat) {d : Declined}
    (hmissed : d = .busy → w.scheduler.pending = none → w.scheduler.due now = false) :
    Inv heartbeat ⟨w.scheduler, .polled now (.error d) :: w.log⟩ where
  policy := h.policy
  running := h.running
  free := by
    intro hfree howed hwoken
    simp only [wokenAt_cons, Seen.polled.injEq, reduceCtorEq, and_false, exists_false,
      false_or] at hwoken
    refine mem_cons_of_mem _ (h.free hfree (fun ho => howed ⟨?_, ?_⟩) hwoken)
    · simpa using hwoken
    · simpa using ho.2
  last := by simpa using h.last
  spaced := by
    intro hpending
    obtain ⟨t, outcome, hmem, hspaced⟩ := h.spaced hpending
    exact ⟨t, outcome, mem_cons_of_mem _ hmem, by simpa using hspaced⟩
  external := by simpa using h.external
  asked := by simpa using h.asked
  woken := by simpa using h.woken
  missed := by
    intro t hmem hold
    simp only [wokenAt_cons, Seen.polled.injEq, reduceCtorEq, and_false, exists_false,
      false_or] at hold
    rcases mem_cons.1 hmem with heq | hmem
    · cases heq
      -- had a heartbeat been due it would be pending
      intro hpending
      obtain ⟨last, hlast, hlt⟩ := lastWake_of_not_due (hmissed rfl hpending)
      have := hold last (h.woken hpending last hlast)
      rw [h.policy] at hlt
      omega
    · exact h.missed t hmem hold

/-- A poll while the agent is at work that finds a heartbeat due. -/
theorem Inv.due (h : w.Inv heartbeat) (hnow : ∀ t, WokenAt w.log t → t ≤ now)
    (hbusy : w.scheduler.busy = true) (hpending : w.scheduler.pending = none)
    (hdue : w.scheduler.due now = true) :
    Inv heartbeat ⟨{ w.scheduler with pending := some .heartbeat, lastWake := some now },
      .polled now (.error .busy) :: w.log⟩ where
  policy := h.policy
  running := h.running
  free := fun hfree => absurd (hbusy.symm.trans hfree) (by simp)
  last := by
    intro t hwoken
    simp only [wokenAt_cons, Seen.polled.injEq, reduceCtorEq, and_false, exists_false,
      false_or] at hwoken
    exact ⟨now, rfl, hnow t hwoken⟩
  spaced := by
    refine fun _ => ⟨now, _, mem_cons_self, fun t hmem => ?_⟩
    have hwoken : WokenAt w.log t := ⟨.heartbeat, by simpa using hmem⟩
    rw [← h.policy]
    exact interval_le_of_due hdue (h.last t hwoken) (hnow t hwoken)
  external := by simpa using h.external
  asked := by
    intro reason hmem
    have hwaiting := h.asked reason (by simpa using hmem)
    rw [hpending] at hwaiting
    cases hwaiting
  woken := nofun
  missed := fun _ _ _ => nofun

/-- A poll that returns a wake. -/
theorem Inv.wake (h : w.Inv heartbeat) (hnow : ∀ t, WokenAt w.log t → t ≤ now) (reason : WakeReason)
    {s : WakeScheduler} (hpolicy : s.heartbeat = w.scheduler.heartbeat)
    (hbusy : s.busy = w.scheduler.busy) (hpending : s.pending = none)
    (hlast : s.lastWake = some now) :
    Inv heartbeat ⟨s, .polled now (.ok reason) :: w.log⟩ where
  policy := hpolicy.trans h.policy
  running := h.running.trans hbusy.symm
  free := fun _ howed => absurd ⟨⟨now, reason, mem_cons_self⟩, by simp⟩ howed
  last := by
    intro t hwoken
    refine ⟨now, hlast, ?_⟩
    rcases (wokenAt_cons ..).1 hwoken with ⟨r, heq⟩ | hwoken
    · cases heq
      exact Nat.le_refl _
    · exact hnow t hwoken
  spaced := by simp [hpending]
  external := by simpa using h.external
  asked := by simp
  woken := by
    intro _ last heq
    obtain rfl := Option.some.inj (hlast.symm.trans heq)
    exact ⟨reason, mem_cons_self⟩
  missed := by simp

theorem Inv.poll (h : w.Inv heartbeat) (hnow : ∀ t, WokenAt w.log t → t ≤ now) :
    Inv heartbeat ⟨(w.scheduler.poll now).2, .polled now (w.scheduler.poll now).1 :: w.log⟩ := by
  have hpolled := w.scheduler.polled now
  generalize w.scheduler.poll now = x at hpolled
  cases hpolled with
  | missed hbusy hpending hdue => exact h.due hnow hbusy hpending hdue
  | busy hbusy hdue => exact h.declined fun _ => hdue
  | pending reason hfree hpending => exact h.wake hnow reason rfl rfl rfl rfl
  | bored hfree hpending => exact h.declined nofun
  | tooSoon hfree hpending hdue => exact h.declined nofun
  | heartbeat hfree hpending hdue => exact h.wake hnow .heartbeat rfl rfl hpending rfl

theorem Inv.answers (h : w.Inv heartbeat) (hallowed : w.Allowed (.poll now)) :
    Answers heartbeat.interval w.log now (w.scheduler.poll now).1 := by
  obtain ⟨hnow, howed⟩ := hallowed
  have hwoken : ∀ t, WokenAt w.log t → t ≤ now := fun t ⟨_, hmem⟩ => hnow t _ hmem
  have hpolled := w.scheduler.polled now
  generalize w.scheduler.poll now = x at hpolled
  have hbusyAnswers (hbusy : w.scheduler.busy = true) :
      Answers heartbeat.interval w.log now (.error .busy) := by
    have hrun := h.running.trans hbusy
    exact ⟨nofun, nofun, iff_of_true rfl hrun, fun hfree => (nomatch hrun.symm.trans hfree),
      fun hfree => (nomatch hrun.symm.trans hfree), fun hfree => (nomatch hrun.symm.trans hfree)⟩
  have hnotAsked (hpending : w.scheduler.pending = none) (reason : WakeReason)
      (hmem : .requested reason ∈ sinceWake w.log) : False :=
    nomatch hpending.symm.trans (h.asked reason hmem)
  cases hpolled with
  | missed hbusy hpending hdue => exact hbusyAnswers hbusy
  | busy hbusy hdue => exact hbusyAnswers hbusy
  | pending reason hfree hpending =>
    refine ⟨fun heq t hmem => ?_, fun _ _ => h.free hfree howed, ?_, fun _ asked hmem => ?_,
      fun _ _ _ _ => ⟨reason, rfl⟩, fun _ _ => .inr ⟨reason, rfl⟩⟩
    · obtain rfl := Except.ok.inj heq
      obtain ⟨t₁, outcome, hpoll, hspaced⟩ := h.spaced hpending
      exact (hspaced t hmem).trans (hnow t₁ outcome hpoll)
    · exact iff_of_false nofun (by rw [h.running, hfree]; nofun)
    · rw [Option.some.inj (hpending.symm.trans (h.asked asked hmem))]
  | bored hfree hpending =>
    exact ⟨nofun, nofun, iff_of_false nofun (by rw [h.running, hfree]; nofun),
      fun _ asked hmem => (hnotAsked hpending asked hmem).elim,
      fun _ t hmem hold => absurd hpending (h.missed t hmem hold), fun _ _ => .inl rfl⟩
  | tooSoon hfree hpending hdue =>
    refine ⟨nofun, nofun, iff_of_false nofun (by rw [h.running, hfree]; nofun),
      fun _ asked hmem => (hnotAsked hpending asked hmem).elim,
      fun _ t hmem hold => absurd hpending (h.missed t hmem hold), fun _ hold => ?_⟩
    obtain ⟨last, hlast, hlt⟩ := lastWake_of_not_due hdue
    have := hold last (h.woken hpending last hlast)
    rw [h.policy] at hlt
    omega
  | heartbeat hfree hpending hdue =>
    refine ⟨fun _ t hmem => ?_, fun _ _ => h.free hfree howed,
      iff_of_false nofun (by rw [h.running, hfree]; nofun),
      fun _ asked hmem => (hnotAsked hpending asked hmem).elim, fun _ _ _ _ => ⟨.heartbeat, rfl⟩,
      fun _ _ => .inr ⟨.heartbeat, rfl⟩⟩
    rw [← h.policy]
    exact interval_le_of_due hdue (h.last t ⟨_, hmem⟩) (hwoken t ⟨_, hmem⟩)

/-! ## The result -/

/-- One thing the caller does. -/
theorem step_scheduled {t : Tick} (h : w.Inv heartbeat) (hallowed : w.Allowed t)
    (hclear : w.Clear t) :
    ∃ w', step t w = some w' ∧ w'.Inv heartbeat ∧ w'.Scheduled heartbeat.interval := by
  cases t with
  | poll now =>
    refine ⟨_, rfl, h.poll fun t ⟨_, hmem⟩ => hallowed.1 t _ hmem, fun _ _ _ heq => ?_⟩
    cases heq
    exact h.answers hallowed
  | beganRunning => exact ⟨_, rfl, h.beganRunning, nofun⟩
  | finishedRunning did => exact ⟨_, rfl, h.finishedRunning did, nofun⟩
  | request reason => exact ⟨_, rfl, h.request hclear, nofun⟩

/-- **The wakes of a run come as they should**, as long as no request takes the place of another:
heartbeats an interval apart, one run of the agent at a time, what is asked for as soon as the agent
is free, and one wake for all heartbeats missed. -/
theorem wakes_scheduled {heartbeat : Heartbeat} {ticks : List Tick}
    (hsteps : EveryStep step (fun w t => w.Allowed t ∧ w.Clear t) ticks (start heartbeat)) :
    Always step (Scheduled heartbeat.interval) ticks (start heartbeat) := by
  have hrun : Always step (fun w => w.Inv heartbeat ∧ w.Scheduled heartbeat.interval) ticks
      (start heartbeat) :=
    always_of_step (fun _ _ hw ht => step_scheduled hw.1 ht.1 ht.2) ⟨inv_start heartbeat, nofun⟩
      hsteps
  exact hrun.mono fun _ => And.right

/-- A request while the agent works, which the next poll after the run returns. -/
theorem wakes_scheduled_request : Always step (Scheduled (Heartbeat.every 0).interval)
    [.poll 0, .beganRunning, .request .user, .poll minInterval, .finishedRunning true,
      .poll (minInterval + 1)] (start (.every 0)) := by
  refine wakes_scheduled ?_
  simp [EveryStep, Allowed, Clear, step, start, Owed, WokenAt, WakeScheduler.new,
    WakeScheduler.poll, WakeScheduler.due, WakeScheduler.isBored, WakeScheduler.beganRunning,
    WakeScheduler.finishedRunning, WakeScheduler.request, Heartbeat.every, minInterval]
  rintro t outcome (⟨rfl, -⟩ | ⟨rfl, -⟩) <;> omega

/-- The user speaks, and something else happens, before the agent is done. -/
theorem request_lost : ¬ ∀ heartbeat ticks, EveryStep step Allowed ticks (start heartbeat) →
    Always step (Scheduled heartbeat.interval) ticks (start heartbeat) := by
  intro h
  have hallowed : EveryStep step Allowed [.poll 0, .beganRunning, .request .user,
      .request (.external "x"), .finishedRunning true, .poll 1] (start (.every 0)) := by
    simp [EveryStep, Allowed, step, start, Owed, WokenAt, WakeScheduler.new, WakeScheduler.poll,
      WakeScheduler.due, WakeScheduler.isBored, WakeScheduler.beganRunning,
      WakeScheduler.finishedRunning, WakeScheduler.request, Heartbeat.every]
  obtain ⟨w, hrun, hscheduled⟩ := (h _ _ hallowed).final
  obtain rfl := Option.some.inj hrun
  have hreturned := (hscheduled 1 (.ok (.external "x")) _ rfl).returned rfl .user
    (by simp [start])
  cases hreturned

end Logged

end Journal
end Gen2
