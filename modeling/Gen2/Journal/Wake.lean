import Gen2.Journal.Entry
import Gen2.Lib.Run

/-!
# When a resident thinks

`journal/wake.rs`: the state machine that a persistent agent's caller ticks.  It holds no clock.  A
heartbeat that falls due is a wake, unless the agent is working, or has been woken so often for
nothing that it is bored.

* `WakeScheduler` and its operations are the code; an `Instant` is a number of nanoseconds.
* `Watched.step` is what a caller can do, with the wakes counted.
* A heartbeat that falls due while the agent works is kept for later, and is not counted against the
  boredom limit when it is taken: `busy_resident_keeps_waking` is a resident that wakes for it once
  too often.  `idle_resident_stops` is about the runs in which none falls due then.
-/

namespace Gen2
namespace Journal

open Lib

/-! ## The scheduler -/

/-- `MIN_INTERVAL`: a minute. -/
def minInterval : Nat := 60000000000

/-- How often to wake, and when to give up. -/
structure Heartbeat where
  interval : Nat
  /-- Consecutive wakes that changed nothing before heartbeats stop; `none` never stops. -/
  idleAfter : Option UInt32

namespace Heartbeat

/-- `Heartbeat::every`. -/
def every (interval : Nat) : Heartbeat := ⟨max interval minInterval, some 5⟩

/-- `Heartbeat::idle_after`. -/
def withIdleAfter (h : Heartbeat) (wakes : UInt32) : Heartbeat := { h with idleAfter := some wakes }

/-- `Heartbeat::never_bored`. -/
def neverBored (h : Heartbeat) : Heartbeat := { h with idleAfter := none }

end Heartbeat

/-- Why a scheduler declined to wake. -/
inductive Declined
  | tooSoon
  | busy
  | bored
  deriving DecidableEq

structure WakeScheduler where
  heartbeat : Heartbeat
  lastWake : Option Nat
  /-- A wake asked for while busy, waiting for the agent to be free. -/
  pending : Option WakeReason
  busy : Bool
  /-- Consecutive heartbeat wakes that produced nothing. -/
  idleWakes : UInt32

namespace WakeScheduler

def new (heartbeat : Heartbeat) : WakeScheduler := ⟨heartbeat, none, none, false, 0⟩

def beganRunning (s : WakeScheduler) : WakeScheduler := { s with busy := true }

def finishedRunning (s : WakeScheduler) (didSomething : Bool) : WakeScheduler :=
  { s with busy := false, idleWakes := if didSomething then 0 else s.idleWakes }

def request (s : WakeScheduler) (reason : WakeReason) : WakeScheduler :=
  { s with idleWakes := 0, pending := some reason }

/-- `due`.  `duration_since` is zero where `now` is the earlier one. -/
def due (s : WakeScheduler) (now : Nat) : Bool :=
  match s.lastWake with
  | none => true
  | some last => decide (s.heartbeat.interval ≤ now - last)

/-- `is_bored`. -/
def isBored (s : WakeScheduler) : Bool :=
  s.heartbeat.idleAfter.any fun limit => decide (limit ≤ s.idleWakes)

/-- `poll`: what to do at `now`. -/
def poll (s : WakeScheduler) (now : Nat) : Except Declined WakeReason × WakeScheduler :=
  if s.busy then
    -- the heartbeat that falls due while busy becomes the pending wake, and the next fold into it
    (.error .busy, if s.pending.isNone && s.due now then
      { s with pending := some .heartbeat, lastWake := some now } else s)
  else
    match s.pending with
    | some reason => (.ok reason, { s with pending := none, lastWake := some now })
    | none =>
      if s.isBored then (.error .bored, s)
      else if !s.due now then (.error .tooSoon, s)
      else (.ok .heartbeat, { s with lastWake := some now, idleWakes := s.idleWakes + 1 })

end WakeScheduler

/-! ## Runs -/

/-- What the caller of a scheduler does. -/
inductive Tick
  | poll (now : Nat)
  | beganRunning
  | finishedRunning (didSomething : Bool)
  | request (reason : WakeReason)

/-- Nothing is asked for from outside, and no run of the agent does anything. -/
def Tick.idle : Tick → Bool
  | .request _ => false
  | .finishedRunning didSomething => !didSomething
  | _ => true

/-- A scheduler, and how many of its polls have returned a wake. -/
structure Watched where
  scheduler : WakeScheduler
  wakes : Nat

def watch (heartbeat : Heartbeat) : Watched := ⟨.new heartbeat, 0⟩

def Watched.step : Tick → Watched → Option Watched
  | .poll now, w =>
    match w.scheduler.poll now with
    | (.ok _, s) => some ⟨s, w.wakes + 1⟩
    | (.error _, s) => some ⟨s, w.wakes⟩
  | .beganRunning, w => some { w with scheduler := w.scheduler.beganRunning }
  | .finishedRunning did, w => some { w with scheduler := w.scheduler.finishedRunning did }
  | .request reason, w => some { w with scheduler := w.scheduler.request reason }

/-- A heartbeat that this tick finds due finds the agent free. -/
def DueWhenFree (w : Watched) (t : Tick) : Prop :=
  ∀ now, t = .poll now → w.scheduler.busy = true → w.scheduler.due now = false

/-- No more wakes than the limit, and none when they have all been had. -/
def Settles (limit : UInt32) (w : Watched) : Prop :=
  w.wakes ≤ limit.toNat ∧
    (w.wakes = limit.toNat → ∀ now, ∃ d, (w.scheduler.poll now).1 = .error d)

/-- Every wake so far has been counted against the limit. -/
structure Counted (limit : UInt32) (w : Watched) : Prop where
  idleAfter : w.scheduler.heartbeat.idleAfter = some limit
  pending : w.scheduler.pending = none
  count : w.wakes = w.scheduler.idleWakes.toNat
  le : w.scheduler.idleWakes ≤ limit

theorem Counted.bored {limit : UInt32} {w : Watched} (h : Counted limit w) :
    w.scheduler.isBored = decide (limit ≤ w.scheduler.idleWakes) := by
  rw [WakeScheduler.isBored, h.idleAfter]
  rfl

theorem Counted.settles {limit : UInt32} {w : Watched} (h : Counted limit w) :
    Settles limit w := by
  refine ⟨h.count ▸ UInt32.le_iff_toNat_le.1 h.le, fun hall now => ?_⟩
  have hbored : w.scheduler.isBored = true := by
    rw [h.bored, decide_eq_true_eq, UInt32.le_iff_toNat_le, ← hall, h.count]
  rw [WakeScheduler.poll]
  by_cases hbusy : w.scheduler.busy = true
  · exact ⟨.busy, by rw [if_pos hbusy]⟩
  · exact ⟨.bored, by rw [if_neg hbusy, h.pending]; simp [hbored]⟩

/-- One tick of an idle resident. -/
theorem step_counted {limit : UInt32} {w : Watched} {t : Tick} (h : Counted limit w)
    (hidle : t.idle = true) (hfree : DueWhenFree w t) :
    ∃ w', Watched.step t w = some w' ∧ Counted limit w' := by
  cases t with
  | request reason => cases hidle
  | beganRunning => exact ⟨_, rfl, h.idleAfter, h.pending, h.count, h.le⟩
  | finishedRunning did =>
    cases did with
    | true => cases hidle
    | false => exact ⟨_, rfl, h.idleAfter, h.pending, h.count, h.le⟩
  | poll now =>
    rw [Watched.step, WakeScheduler.poll]
    by_cases hbusy : w.scheduler.busy = true
    · rw [if_pos hbusy, hfree now rfl hbusy]
      exact ⟨w, by simp, h⟩
    rw [if_neg hbusy, h.pending]
    by_cases hbored : w.scheduler.isBored = true
    · exact ⟨w, by simp [hbored], h⟩
    by_cases hdue : w.scheduler.due now = true
    · have hlt : w.scheduler.idleWakes.toNat < limit.toNat := by
        rw [h.bored, decide_eq_true_eq, UInt32.le_iff_toNat_le] at hbored
        omega
      have hsucc : (w.scheduler.idleWakes + 1).toNat = w.scheduler.idleWakes.toNat + 1 := by
        have := limit.toNat_lt
        rw [UInt32.toNat_add, show (1 : UInt32).toNat = 1 from rfl, Nat.mod_eq_of_lt (by omega)]
      refine ⟨⟨{ w.scheduler with
        lastWake := some now, idleWakes := w.scheduler.idleWakes + 1 }, w.wakes + 1⟩,
        by simp [hbored, hdue, h.pending], h.idleAfter, h.pending, ?_, ?_⟩
      · rw [hsucc, h.count]
      · rw [UInt32.le_iff_toNat_le, hsucc]
        exact hlt
    · exact ⟨w, by simp [hbored, hdue], h⟩

/-- **An idle resident stops waking itself**: as long as no heartbeat falls due while the agent is
working, it wakes no more often than its limit, and then not again. -/
theorem idle_resident_stops {heartbeat : Heartbeat} {limit : UInt32}
    (hlimit : heartbeat.idleAfter = some limit) {ticks : List Tick}
    (hidle : ∀ t ∈ ticks, t.idle = true)
    (hfree : EveryStep Watched.step DueWhenFree ticks (watch heartbeat)) :
    Always Watched.step (Settles limit) ticks (watch heartbeat) := by
  have hnew : Counted limit (watch heartbeat) :=
    ⟨hlimit, rfl, rfl, UInt32.le_iff_toNat_le.2 (Nat.zero_le _)⟩
  exact (always_of_step (fun w t hw ht => step_counted hw ht.1 ht.2) hnew
    (hfree.and_forall hidle)).mono fun w => Counted.settles

/-- Two short runs of an agent that is to stop after the second wake. -/
theorem idle_resident_stops_twice :
    Always Watched.step (Settles 2)
      [.poll 0, .beganRunning, .finishedRunning false, .poll minInterval, .beganRunning,
        .finishedRunning false, .poll (2 * minInterval)]
      (watch ((Heartbeat.every 0).withIdleAfter 2)) := by
  refine idle_resident_stops rfl (by simp [Tick.idle]) ?_
  simp [EveryStep, DueWhenFree, Watched.step, watch, WakeScheduler.new, WakeScheduler.poll,
    WakeScheduler.due, WakeScheduler.isBored, WakeScheduler.beganRunning,
    WakeScheduler.finishedRunning, Heartbeat.every, Heartbeat.withIdleAfter, minInterval]

/-- A heartbeat falls due while the agent is working: the agent, which is to stop after one wake, is
woken for it all the same. -/
theorem busy_resident_keeps_waking :
    ∃ (heartbeat : Heartbeat) (limit : UInt32) (ticks : List Tick),
      heartbeat.idleAfter = some limit ∧ (∀ t ∈ ticks, t.idle = true) ∧
        ¬ Always Watched.step (Settles limit) ticks (watch heartbeat) := by
  refine ⟨(Heartbeat.every 0).withIdleAfter 1, 1,
    [.poll 0, .beganRunning, .poll minInterval, .finishedRunning false, .poll minInterval], rfl,
    by simp [Tick.idle], fun h => ?_⟩
  obtain ⟨w, hrun, hle, -⟩ := h.final
  have hw : (runAll Watched.step [.poll 0, .beganRunning, .poll minInterval, .finishedRunning false,
    .poll minInterval] (watch ((Heartbeat.every 0).withIdleAfter 1))).map (·.wakes) = some 2 := by
    decide
  rw [hrun, Option.map_some, Option.some.injEq] at hw
  rw [hw] at hle
  exact absurd hle (by decide)

end Journal
end Gen2
