import Gen2.Lib.Run
import Gen2.Lib.Settle

/-!
# The model's own thread

The worker of `gen2-mlxcel`, `worker.rs`, and the calls that a controlling thread makes on it
through sessions and pullers.  The worker takes one command after the other; a generation runs to
its end before the next command, and its tokens go into a channel of fixed size that only the
controlling thread empties.

* `State.workerStep` is one step of the worker, and `step` a call of the controlling thread or a
  step of the worker.
* `Returns` says of a state that the call that is under way comes back if the worker is left to
  run.
* `Drains` says that the generation that runs comes to its end though nobody reads it: its puller is
  gone, or the channel has room for what is left, or a stop is seen before there is none.
* `returns_iff_fits` is the rule for whole runs: every call comes back exactly if every call that
  waits for the worker is made while the running generation drains.
-/

namespace Gen2
namespace Mlxcel

open Lib List

/-- `TOKEN_CHANNEL_CAP`. -/
def tokenChannelCap : Nat := 256

/-! ## The worker -/

/-- How a generation starts: with an error, or with so many tokens to come, unless it is stopped. -/
inductive Start
  | fails
  | runs (tokens : Nat)

/-- `Command`.  A load succeeds or not. -/
inductive Command
  | load (ok : Bool)
  | unload
  | generate (session : Nat) (start : Start)

/-- A generation: the tokens that are still to come, those in its channel, and whether its puller is
gone. -/
structure Generation where
  session : Nat
  left : Nat
  buffered : Nat
  dropped : Bool

/-- Where the worker is: at its queue, before the next token of a generation, or sending one. -/
inductive Worker
  | idle
  | deciding (g : Nat)
  | sending (g : Nat)

/-- What the controlling thread waits for: a reply of the worker, or a token. -/
inductive Wait
  | reply
  | token (g : Nat)
  deriving DecidableEq

structure State where
  loaded : Bool
  /-- The stop flag of every session. -/
  stopped : Nat → Bool
  generations : List Generation
  queue : List Command
  worker : Worker
  waiting : Option Wait

namespace State

/-- `MlxcelEngine::new`. -/
def new : State := ⟨false, fun _ => false, [], [], .idle, none⟩

/-- A generation ends, and its channel is closed. -/
def finish (s : State) (g : Nat) : State :=
  { s with worker := .idle, waiting := if s.waiting = some (.token g) then none else s.waiting }

/-- Change one generation. -/
def update (s : State) (g : Nat) (gen : Generation) : State :=
  { s with generations := s.generations.set g gen }

/-- The worker goes on elsewhere. -/
def goto (s : State) (w : Worker) : State := { s with worker := w }

/-- A command is off the queue, and its reply is sent. -/
def replied (s : State) (queue : List Command) (loaded : Bool) : State :=
  { s with queue, loaded, waiting := none }

/-- `run_generation`, up to its first token. -/
def startGeneration (s : State) (queue : List Command) (session : Nat) (start : Start) : State :=
  match if s.loaded then start else .fails with
  | .fails => s.replied queue s.loaded
  | .runs tokens =>
    { s.replied queue s.loaded with
      worker := .deciding s.generations.length
      generations := s.generations ++ [⟨session, tokens, 0, false⟩] }

/-- A token goes to the call that waits for it. -/
def handOver (s : State) (g : Nat) : State := { s with waiting := none, worker := .deciding g }

/-- One step of the worker: of `worker_loop` at the queue, of `on_token` in a generation. -/
def workerStep (s : State) : State :=
  match s.worker with
  | .idle =>
    match s.queue with
    | [] => s
    | .load ok :: queue => s.replied queue (ok || s.loaded)
    | .unload :: queue => s.replied queue false
    | .generate session start :: queue => s.startGeneration queue session start
  | .deciding g =>
    match s.generations[g]? with
    | none => s
    | some gen =>
      if gen.left = 0 ∨ s.stopped gen.session then s.finish g
      else (s.update g { gen with left := gen.left - 1 }).goto (.sending g)
  | .sending g =>
    match s.generations[g]? with
    | none => s
    | some gen =>
      if gen.dropped then s.finish g
      else if s.waiting = some (.token g) then s.handOver g
      else if gen.buffered < tokenChannelCap then
        (s.update g { gen with buffered := gen.buffered + 1 }).goto (.deciding g)
      -- the channel is full, and `send` waits
      else s

end State

/-! ## The calls -/

/-- A call of the controlling thread. -/
inductive Call
  | startSession
  | pull (session : Nat) (start : Start)
  | nextEvent (g : Nat)
  | pause (session : Nat)
  | stop (session : Nat)
  | drop (g : Nat)
  | loadModel (ok : Bool)
  | unloadModel

inductive Act
  | call (c : Call)
  | worker

namespace State

/-- Send a command, and wait for the reply. -/
def send (s : State) (c : Command) : State :=
  { s with queue := s.queue ++ [c], waiting := some .reply }

/-- The worker is in the midst of a generation. -/
def running (s : State) (g : Nat) : Bool :=
  match s.worker with
  | .idle => false
  | .deciding g' | .sending g' => g' == g

/-- `next_event`: a token from the channel, the end of a channel that is closed, or a wait. -/
def nextEvent (s : State) (g : Nat) (gen : Generation) : State :=
  if 0 < gen.buffered then s.update g { gen with buffered := gen.buffered - 1 }
  else if s.running g then { s with waiting := some (.token g) }
  else s

/-- A call, by a thread that is not in one.  A puller is asked, or dropped, while there is one. -/
def call (s : State) : Call → Option State
  | .startSession | .pause _ => some s
  | .pull session start =>
    some ({ s with stopped := Function.update s.stopped session false }.send
      (.generate session start))
  | .nextEvent g =>
    match s.generations[g]? with
    | some gen => if gen.dropped then none else some (s.nextEvent g gen)
    | none => none
  | .stop session => some { s with stopped := Function.update s.stopped session true }
  | .drop g =>
    match s.generations[g]? with
    | some gen => some (s.update g { gen with dropped := true })
    | none => none
  | .loadModel ok => some (s.send (.load ok))
  | .unloadModel => some (s.send .unload)

end State

/-- A step of the two threads. -/
def step : Act → State → Option State
  | .worker, s => some s.workerStep
  | .call c, s =>
    match s.waiting with
    | some _ => none
    | none => s.call c

/-! ## What comes back -/

/-- The call that is under way, if any, comes back when the worker goes on. -/
def Returns (s : State) : Prop := Settles State.workerStep (fun s => s.waiting = none) s

/-- The worker comes back to its queue with nobody reading, under the stop flags `stopped`. -/
def Drains (stopped : Nat → Bool) (s : State) : Prop :=
  match s.worker with
  | .idle => True
  | .deciding g => ∀ gen ∈ s.generations[g]?,
      gen.dropped ∨ stopped gen.session ∨ gen.left + gen.buffered ≤ tokenChannelCap
  | .sending g => ∀ gen ∈ s.generations[g]?,
      gen.dropped ∨ gen.buffered < tokenChannelCap ∧
        (stopped gen.session ∨ gen.left + gen.buffered + 1 ≤ tokenChannelCap)

/-- A call that waits for the worker is made while the running generation drains.  A pull takes back
the stop of its own session first. -/
def Fits (s : State) : Act → Prop
  | .call (.pull session _) => Drains (Function.update s.stopped session false) s
  | .call (.loadModel _) | .call .unloadModel => Drains s.stopped s
  | _ => True

/-! ## The invariant -/

/-- What every state has: a command is queued exactly while its reply is waited for, and a token is
waited for only on a channel that is open and empty. -/
structure Inv (s : State) : Prop where
  buffered : ∀ (g : Nat) (gen : Generation), s.generations[g]? = some gen →
    gen.buffered ≤ tokenChannelCap
  running : ∀ g, s.running g = true → ∃ gen, s.generations[g]? = some gen
  queue : s.waiting ≠ some .reply → s.queue = []
  reply : s.waiting = some .reply → ∃ c, s.queue = [c]
  token : ∀ g, s.waiting = some (.token g) → s.running g = true ∧
    ∃ gen, s.generations[g]? = some gen ∧ gen.dropped = false ∧ gen.buffered = 0

theorem Inv.new : Inv .new := ⟨nofun, nofun, fun _ => rfl, nofun, nofun⟩

variable {s s' : State}

variable {g : Nat}

open State

theorem running_deciding {g' : Nat} (h : s.worker = .deciding g) :
    s.running g' = true ↔ g = g' := by
  rw [running, h, beq_iff_eq]

theorem running_sending {g' : Nat} (h : s.worker = .sending g) : s.running g' = true ↔ g = g' := by
  rw [running, h, beq_iff_eq]

variable {gen : Generation}

/-- One generation is changed, and the worker goes on with it. -/
theorem Inv.update {gen' : Generation} {w : Worker} (hI : Inv s)
    (hgen : s.generations[g]? = some gen) (hle : gen'.buffered ≤ tokenChannelCap)
    (hw : ∀ g', (s.goto w).running g' = s.running g')
    (hwait : s.waiting = some (.token g) → gen'.dropped = false ∧ gen'.buffered = 0) :
    Inv ((s.update g gen').goto w) := by
  have hlt : g < s.generations.length := (List.getElem?_eq_some_iff.1 hgen).1
  have hget : ∀ g', (s.generations.set g gen')[g']?
      = if g = g' then some gen' else s.generations[g']? := by
    intro g'
    rw [getElem?_set]
    by_cases hg : g = g'
    · rw [if_pos hg, if_pos hg, if_pos hlt]
    · rw [if_neg hg, if_neg hg]
  refine ⟨fun g' gen'' hg' => ?_, fun g' hrun => ?_, hI.queue, hI.reply, fun g' hg' => ?_⟩
  · rw [State.goto, State.update, hget] at hg'
    split at hg'
    · exact Option.some.inj hg' ▸ hle
    · exact hI.buffered g' gen'' hg'
  · obtain ⟨gen'', hg'⟩ := hI.running g' ((hw g').symm.trans hrun)
    show ∃ gen, (s.generations.set g gen')[g']? = some gen
    rw [hget]
    split
    · exact ⟨_, rfl⟩
    · exact ⟨gen'', hg'⟩
  · obtain ⟨hrun, gen'', hg'', hopen, hempty⟩ := hI.token g' hg'
    refine ⟨(hw g').trans hrun, ?_⟩
    show ∃ gen, (s.generations.set g gen')[g']? = some gen ∧ _
    rw [hget]
    split
    · next heq =>
      subst heq
      exact ⟨gen', rfl, hwait hg'⟩
    · exact ⟨gen'', hg'', hopen, hempty⟩

/-- A generation ends, and nobody waits for its tokens any more. -/
theorem Inv.finish (hI : Inv s) (hg : ∀ g', s.running g' = true → g = g') : Inv (s.finish g) := by
  refine ⟨hI.buffered, nofun, fun hw => hI.queue fun h => hw ?_, fun hw => hI.reply ?_,
    fun g' hg' => ?_⟩
  · show (if s.waiting = some (.token g) then none else s.waiting) = some .reply
    rw [h, if_neg (by simp)]
  · by_contra hne
    have hw' : (if s.waiting = some (.token g) then none else s.waiting) = some .reply := hw
    split at hw'
    · cases hw'
    · exact hne hw'
  · have hw' : (if s.waiting = some (.token g) then none else s.waiting) = some (.token g') := hg'
    split at hw'
    · cases hw'
    · next hne =>
      obtain ⟨hrun, -⟩ := hI.token g' hw'
      exact absurd (hg g' hrun ▸ hw') hne

/-- A command is taken, and its reply is given. -/
theorem Inv.replied (hI : Inv s) (hw : s.worker = .idle) (loaded : Bool) :
    Inv (s.replied [] loaded) := by
  refine ⟨hI.buffered, fun g hrun => ?_, fun _ => rfl, nofun, nofun⟩
  rw [State.running, State.replied, hw] at hrun
  cases hrun

theorem Inv.startGeneration (hI : Inv s) (hw : s.worker = .idle) (session : Nat) (start : Start) :
    Inv (s.startGeneration [] session start)
      ∧ (s.startGeneration [] session start).waiting = none := by
  rw [State.startGeneration]
  split
  · exact ⟨hI.replied hw s.loaded, rfl⟩
  refine ⟨⟨fun g gen hg => ?_, fun g hrun => ?_, fun _ => rfl, nofun, nofun⟩, rfl⟩
  · rcases mem_append.1 (mem_of_getElem? hg) with hmem | hmem
    · obtain ⟨g', hg'⟩ := getElem?_of_mem hmem
      exact hI.buffered g' gen hg'
    · rw [mem_singleton.1 hmem]
      exact Nat.zero_le _
  · obtain rfl := (running_deciding rfl).1 hrun
    exact ⟨_, getElem?_concat_length⟩

/-- At its queue the worker gives the reply that is waited for. -/
theorem workerStep_idle (hI : Inv s) (hw : s.worker = .idle) :
    Inv s.workerStep ∧ (s.waiting = some .reply → s.workerStep.waiting = none)
      ∧ (s.waiting ≠ some .reply → s.workerStep = s) := by
  simp only [workerStep, hw]
  by_cases hreply : s.waiting = some .reply
  · obtain ⟨c, hc⟩ := hI.reply hreply
    rw [hc]
    cases c with
    | load ok => exact ⟨hI.replied hw _, fun _ => rfl, fun h => absurd hreply h⟩
    | unload => exact ⟨hI.replied hw _, fun _ => rfl, fun h => absurd hreply h⟩
    | generate session start =>
      obtain ⟨hI', hnone⟩ := hI.startGeneration hw session start
      exact ⟨hI', fun _ => hnone, fun h => absurd hreply h⟩
  · rw [hI.queue hreply]
    exact ⟨hI, fun h => absurd h hreply, fun _ => rfl⟩

/-- How much of the running generation is to come. -/
def togo (s : State) : Nat :=
  match s.worker with
  | .idle => 0
  | .deciding g => 2 * ((s.generations[g]?.map (·.left)).getD 0) + 1
  | .sending g => 2 * ((s.generations[g]?.map (·.left)).getD 0) + 2

/-- Before the next token, a generation ends or goes on to send it. -/
theorem workerStep_deciding (hI : Inv s) (hw : s.worker = .deciding g)
    (hgen : s.generations[g]? = some gen) :
    Inv s.workerStep ∧
      ((gen.left = 0 ∨ s.stopped gen.session = true) ∧ s.workerStep = s.finish g ∨
        (gen.left ≠ 0 ∧ s.stopped gen.session = false) ∧ s.workerStep =
          (s.update g { gen with left := gen.left - 1 }).goto (.sending g)) := by
  simp only [workerStep, hw, hgen]
  split
  · next hend => exact ⟨hI.finish fun g' => (running_deciding hw).1, .inl ⟨hend, rfl⟩⟩
  · next hgo =>
    rw [not_or, Bool.not_eq_true] at hgo
    refine ⟨hI.update hgen (hI.buffered g gen hgen) (fun g' => ?_) fun hwait => ?_, .inr ⟨hgo, rfl⟩⟩
    · rw [running, running, hw]
      rfl
    · obtain ⟨-, gen', hgen', hopen⟩ := hI.token g hwait
      rw [hgen] at hgen'
      exact Option.some.inj hgen' ▸ hopen

/-- A token is refused by a channel that is gone, handed over, put into the channel, or kept. -/
theorem workerStep_sending (hI : Inv s) (hw : s.worker = .sending g)
    (hgen : s.generations[g]? = some gen) :
    Inv s.workerStep ∧
      (gen.dropped = true ∧ s.workerStep = s.finish g ∨
        gen.dropped = false ∧ s.waiting = some (.token g) ∧ s.workerStep = s.handOver g ∨
        gen.dropped = false ∧ s.waiting ≠ some (.token g) ∧ gen.buffered < tokenChannelCap ∧
          s.workerStep =
            (s.update g { gen with buffered := gen.buffered + 1 }).goto (.deciding g) ∨
        gen.dropped = false ∧ s.waiting ≠ some (.token g) ∧ ¬ gen.buffered < tokenChannelCap ∧
          s.workerStep = s) := by
  simp only [workerStep, hw, hgen]
  have hrunning : ∀ g', (s.goto (.deciding g)).running g' = s.running g' := by
    intro g'
    rw [running, running, hw]
    rfl
  split
  · next hdropped => exact ⟨hI.finish fun g' => (running_sending hw).1, .inl ⟨hdropped, rfl⟩⟩
  · next hopen =>
    rw [Bool.not_eq_true] at hopen
    split
    · next hwait =>
      refine ⟨⟨hI.buffered, fun g' hrun => ?_, fun _ => ?_, nofun, nofun⟩,
        .inr (.inl ⟨hopen, hwait, rfl⟩)⟩
      · obtain rfl := (running_deciding rfl).1 hrun
        exact ⟨gen, hgen⟩
      · exact hI.queue (by rw [hwait]; simp)
    · next hwait =>
      split
      · next hroom =>
        exact ⟨hI.update hgen hroom hrunning fun h => absurd h hwait,
          .inr (.inr (.inl ⟨hopen, hwait, hroom, rfl⟩))⟩
      · next hfull => exact ⟨hI, .inr (.inr (.inr ⟨hopen, hwait, hfull, rfl⟩))⟩

theorem Inv.workerStep (hI : Inv s) : Inv s.workerStep := by
  cases hw : s.worker with
  | idle => exact (workerStep_idle hI hw).1
  | deciding g =>
    obtain ⟨gen, hgen⟩ := hI.running g ((running_deciding hw).2 rfl)
    exact (workerStep_deciding hI hw hgen).1
  | sending g =>
    obtain ⟨gen, hgen⟩ := hI.running g ((running_sending hw).2 rfl)
    exact (workerStep_sending hI hw hgen).1

/-- The worker makes nobody wait. -/
theorem workerStep_quiet (hI : Inv s) (hnone : s.waiting = none) : s.workerStep.waiting = none := by
  have hfinish : ∀ g, (s.finish g).waiting = none := by
    intro g
    show (if s.waiting = some (.token g) then none else s.waiting) = none
    rw [hnone, ite_self]
  cases hw : s.worker with
  | idle => rw [(workerStep_idle hI hw).2.2 (by rw [hnone]; simp), hnone]
  | deciding g =>
    obtain ⟨gen, hgen⟩ := hI.running g ((running_deciding hw).2 rfl)
    rcases (workerStep_deciding hI hw hgen).2 with ⟨-, heq⟩ | ⟨-, heq⟩
    · rw [heq, hfinish]
    · rw [heq]
      exact hnone
  | sending g =>
    obtain ⟨gen, hgen⟩ := hI.running g ((running_sending hw).2 rfl)
    rcases (workerStep_sending hI hw hgen).2 with
      ⟨-, heq⟩ | ⟨-, -, heq⟩ | ⟨-, -, -, heq⟩ | ⟨-, -, -, heq⟩
    · rw [heq, hfinish]
    · rw [heq]
      rfl
    · rw [heq]
      exact hnone
    · rw [heq, hnone]

/-! ## Waiting for a token -/

/-- A call that waits for a token gets it, or the end of the channel, within two steps. -/
theorem returns_of_token (hI : Inv s) (hwait : s.waiting = some (.token g)) : Returns s := by
  have hfinish : ∀ {t : State}, t.waiting = some (.token g) → (t.finish g).waiting = none :=
    fun ht => if_pos ht
  have hsending : ∀ {t : State} {gen : Generation}, Inv t → t.worker = .sending g →
      t.generations[g]? = some gen → t.waiting = some (.token g) → Returns t := by
    intro t gen hIt hw hgen ht
    refine ⟨1, ?_⟩
    rcases (workerStep_sending hIt hw hgen).2 with
      ⟨-, heq⟩ | ⟨-, -, heq⟩ | ⟨-, hne, -⟩ | ⟨-, hne, -⟩
    · exact (congrArg waiting heq).trans (hfinish ht)
    · exact congrArg waiting heq
    · exact absurd ht hne
    · exact absurd ht hne
  obtain ⟨hrun, gen, hgen, -⟩ := hI.token g hwait
  cases hw : s.worker with
  | idle =>
    rw [running, hw] at hrun
    cases hrun
  | sending g' =>
    obtain rfl := (running_sending hw).1 hrun
    exact hsending hI hw hgen hwait
  | deciding g' =>
    obtain rfl := (running_deciding hw).1 hrun
    obtain ⟨hI', hstep⟩ := workerStep_deciding hI hw hgen
    rcases hstep with ⟨-, heq⟩ | ⟨-, heq⟩
    · exact ⟨1, (congrArg waiting heq).trans (hfinish hwait)⟩
    have hlt : g' < s.generations.length := (List.getElem?_eq_some_iff.1 hgen).1
    have hnext : Returns s.workerStep := by
      rw [heq] at hI' ⊢
      exact hsending hI' rfl (getElem?_set_self hlt) hwait
    exact (settles_step_iff (by rw [hwait]; simp)).1 hnext

/-! ## Waiting for a reply -/

variable {stopped : Nat → Bool}

theorem drains_deciding (hw : s.worker = .deciding g) (hgen : s.generations[g]? = some gen) :
    Drains stopped s ↔ gen.dropped ∨ stopped gen.session ∨
      gen.left + gen.buffered ≤ tokenChannelCap := by
  simp [Drains, hw, hgen]

theorem drains_sending (hw : s.worker = .sending g) (hgen : s.generations[g]? = some gen) :
    Drains stopped s ↔ gen.dropped ∨ gen.buffered < tokenChannelCap ∧
      (stopped gen.session ∨ gen.left + gen.buffered + 1 ≤ tokenChannelCap) := by
  simp [Drains, hw, hgen]

/-- While a reply is waited for, whether the generation drains does not change, and if it does, less
and less of it is to come. -/
theorem workerStep_busy (hI : Inv s) (hwait : s.waiting = some .reply) (hbusy : s.worker ≠ .idle) :
    s.workerStep.waiting = some .reply ∧ (Drains s.workerStep.stopped s.workerStep ↔
      Drains s.stopped s) ∧ (Drains s.stopped s → togo s.workerStep < togo s) := by
  have hfinish : ∀ g, (s.finish g).waiting = some .reply := by
    intro g
    show (if s.waiting = some (.token g) then none else s.waiting) = some .reply
    rw [hwait, if_neg (by simp)]
  cases hw : s.worker with
  | idle => exact absurd hw hbusy
  | deciding g =>
    obtain ⟨gen, hgen⟩ := hI.running g ((running_deciding hw).2 rfl)
    have hle := hI.buffered g gen hgen
    have hlt : g < s.generations.length := (List.getElem?_eq_some_iff.1 hgen).1
    have htogo : togo s = 2 * gen.left + 1 := by simp [togo, hw, hgen]
    rw [htogo, drains_deciding hw hgen]
    rcases (workerStep_deciding hI hw hgen).2 with ⟨hend, heq⟩ | ⟨⟨hleft, hstop⟩, heq⟩
    · rw [heq]
      refine ⟨hfinish g, iff_of_true trivial ?_, fun _ => Nat.zero_lt_succ _⟩
      rcases hend with hzero | hstopped
      · exact .inr (.inr (by omega))
      · exact .inr (.inl hstopped)
    · rw [heq]
      have hgen' :
          ((s.update g { gen with left := gen.left - 1 }).goto (.sending g)).generations[g]?
          = some { gen with left := gen.left - 1 } := getElem?_set_self hlt
      refine ⟨hwait, ?_, fun _ => ?_⟩
      · rw [drains_sending rfl hgen']
        show _ ∨ _ < _ ∧ (s.stopped gen.session = true ∨ gen.left - 1 + _ + 1 ≤ _) ↔ _
        rw [hstop]
        simp only [Bool.false_eq_true, false_or]
        refine or_congr_right ?_
        omega
      · have htogo' : togo ((s.update g { gen with left := gen.left - 1 }).goto (.sending g))
            = 2 * (gen.left - 1) + 2 := by
          simp only [togo, goto] at hgen' ⊢
          rw [hgen']
          rfl
        rw [htogo']
        omega
  | sending g =>
    obtain ⟨gen, hgen⟩ := hI.running g ((running_sending hw).2 rfl)
    have hlt : g < s.generations.length := (List.getElem?_eq_some_iff.1 hgen).1
    have htogo : togo s = 2 * gen.left + 2 := by simp [togo, hw, hgen]
    rw [htogo, drains_sending hw hgen]
    rcases (workerStep_sending hI hw hgen).2 with
      ⟨hdropped, heq⟩ | ⟨-, htoken, -⟩ | ⟨hopen, -, hroom, heq⟩ | ⟨hopen, -, hfull, heq⟩
    · rw [heq]
      exact ⟨hfinish g, iff_of_true trivial (.inl hdropped), fun _ => Nat.zero_lt_succ _⟩
    · rw [hwait] at htoken
      cases htoken
    · rw [heq]
      have hgen' :
          ((s.update g { gen with buffered := gen.buffered + 1 }).goto
            (.deciding g)).generations[g]?
            = some { gen with buffered := gen.buffered + 1 } := getElem?_set_self hlt
      refine ⟨hwait, ?_, fun _ => ?_⟩
      · rw [drains_deciding rfl hgen']
        show _ ∨ s.stopped gen.session = true ∨ gen.left + (gen.buffered + 1) ≤ _ ↔ _
        rw [and_iff_right hroom, Nat.add_assoc]
      have htogo' :
          togo ((s.update g { gen with buffered := gen.buffered + 1 }).goto (.deciding g))
            = 2 * gen.left + 1 := by
        simp only [togo, goto] at hgen' ⊢
        rw [hgen']
        rfl
      rw [htogo']
      omega
    · rw [heq, drains_sending hw hgen]
      refine ⟨hwait, Iff.rfl, fun hdrains => ?_⟩
      rcases hdrains with hdropped | ⟨hroom, -⟩
      · rw [hopen] at hdropped
        cases hdropped
      · exact absurd hroom hfull

/-- A reply comes exactly if the running generation drains. -/
theorem returns_iff_drains (hI : Inv s) (hwait : s.waiting = some .reply) :
    Returns s ↔ Drains s.stopped s := by
  constructor
  · intro hreturns
    by_contra hstuck
    -- a generation that does not drain never comes to its end
    refine not_settles_of_trap (T := fun s => Inv s ∧ s.waiting = some .reply ∧
      ¬ Drains s.stopped s) (fun t ⟨hIt, ht, hnot⟩ => ⟨by rw [ht]; simp, hIt.workerStep, ?_⟩)
      ⟨hI, hwait, hstuck⟩ hreturns
    have hbusy : t.worker ≠ .idle := fun hw => hnot (by rw [Drains, hw]; trivial)
    obtain ⟨hsame, hiff, -⟩ := workerStep_busy hIt ht hbusy
    exact ⟨hsame, mt hiff.1 hnot⟩
  · intro hdrains
    -- what is to come goes down to the queue, where the reply is given
    refine Settles.of_measure (I := fun s => Inv s ∧ (s.waiting = some .reply →
      Drains s.stopped s) ∧ (s.waiting ≠ some .reply → s.waiting = none))
      (fun s => if s.waiting = none then 0 else togo s + 1) (fun t ⟨hIt, hdrains, hnone⟩ ht => ?_)
      ⟨hI, fun _ => hdrains, fun h => absurd hwait h⟩
    have htwait : t.waiting = some .reply := by
      by_contra hne
      exact ht (hnone hne)
    rw [if_neg ht]
    by_cases hidle : t.worker = .idle
    · have hnone' := (workerStep_idle hIt hidle).2.1 htwait
      rw [if_pos hnone']
      refine ⟨⟨hIt.workerStep, fun h => ?_, fun _ => hnone'⟩, Nat.zero_lt_succ _⟩
      rw [hnone'] at h
      cases h
    · obtain ⟨hsame, hiff, hless⟩ := workerStep_busy hIt htwait hidle
      rw [if_neg (by rw [hsame]; simp)]
      exact ⟨⟨hIt.workerStep, fun _ => hiff.2 (hdrains htwait), fun h => absurd hsame h⟩,
        Nat.succ_lt_succ (hless (hdrains htwait))⟩

/-! ## The calls -/

/-- A command that is sent is all that is queued. -/
theorem send_spec (hI : Inv s) (hnone : s.waiting = none) (c : Command) :
    Inv ({ s with stopped := stopped }.send c) ∧
      (Returns ({ s with stopped := stopped }.send c) ↔ Drains stopped s) := by
  have hqueue := hI.queue (by rw [hnone]; simp)
  have hI' : Inv ({ s with stopped := stopped }.send c) :=
    ⟨hI.buffered, hI.running, fun h => absurd rfl h,
      fun _ => ⟨c, congrArg (· ++ [c]) hqueue⟩, nofun⟩
  exact ⟨hI', returns_iff_drains hI' rfl⟩

/-- One generation is changed by the controlling thread, which waits for nothing. -/
theorem Inv.updated {gen' : Generation} (hI : Inv s) (hnone : s.waiting = none)
    (hgen : s.generations[g]? = some gen) (hle : gen'.buffered ≤ tokenChannelCap) :
    Inv (s.update g gen') :=
  hI.update (w := s.worker) hgen hle (fun _ => rfl) fun h => by rw [hnone] at h; cases h

/-- A token that is asked for comes, whatever the worker does. -/
theorem nextEvent_spec (hI : Inv s) (hnone : s.waiting = none) (hgen : s.generations[g]? = some gen)
    (hopen : gen.dropped = false) : Inv (s.nextEvent g gen) ∧ Returns (s.nextEvent g gen) := by
  rw [nextEvent]
  split
  · have hle : gen.buffered - 1 ≤ tokenChannelCap := by
      have hle := hI.buffered g gen hgen
      omega
    exact ⟨hI.updated hnone hgen hle, .now hnone⟩
  · next hempty =>
    split
    · next hrun =>
      have hI' : Inv { s with waiting := some (.token g) } := by
        refine ⟨hI.buffered, hI.running, fun _ => hI.queue (by rw [hnone]; simp), nofun, ?_⟩
        rintro g' heq
        cases heq
        exact ⟨hrun, gen, hgen, hopen, by omega⟩
      exact ⟨hI', returns_of_token hI' rfl⟩
    · exact ⟨hI, .now hnone⟩

/-- **The call lemma.**  A call comes back exactly if it fits. -/
theorem call_spec {c : Call} (hI : Inv s) (hnone : s.waiting = none) (hcall : s.call c = some s') :
    Inv s' ∧ (Returns s' ↔ Fits s (.call c)) := by
  have hstopped : ∀ stopped, Inv { s with stopped := stopped } :=
    fun stopped => ⟨hI.buffered, hI.running, hI.queue, hI.reply, hI.token⟩
  cases c with
  | startSession | pause =>
    obtain rfl := Option.some.inj hcall
    exact ⟨hI, iff_of_true (.now hnone) trivial⟩
  | pull session start =>
    obtain rfl := Option.some.inj hcall
    exact send_spec hI hnone _
  | loadModel ok =>
    obtain rfl := Option.some.inj hcall
    exact send_spec hI hnone _
  | unloadModel =>
    obtain rfl := Option.some.inj hcall
    exact send_spec hI hnone _
  | stop session =>
    obtain rfl := Option.some.inj hcall
    exact ⟨hstopped _, iff_of_true (.now hnone) trivial⟩
  | nextEvent g =>
    simp only [call] at hcall
    split at hcall
    · next gen hgen =>
      split at hcall
      · cases hcall
      · next hopen =>
        obtain rfl := Option.some.inj hcall
        obtain ⟨hI', hreturns⟩ := nextEvent_spec hI hnone hgen (Bool.not_eq_true _ ▸ hopen)
        exact ⟨hI', iff_of_true hreturns trivial⟩
    · cases hcall
  | drop g =>
    simp only [call] at hcall
    split at hcall
    · next gen hgen =>
      obtain rfl := Option.some.inj hcall
      exact ⟨hI.updated hnone hgen (hI.buffered g gen hgen), iff_of_true (.now hnone) trivial⟩
    · cases hcall

theorem step_call {c : Call} (hstep : step (.call c) s = some s') :
    s.waiting = none ∧ s.call c = some s' := by
  cases hwait : s.waiting with
  | some w => simp [step, hwait] at hstep
  | none => exact ⟨rfl, by simpa only [step, hwait] using hstep⟩

theorem Inv.step {a : Act} (hI : Inv s) (hstep : step a s = some s') : Inv s' := by
  cases a with
  | worker => exact Option.some.inj hstep ▸ hI.workerStep
  | call c =>
    obtain ⟨hnone, hcall⟩ := step_call hstep
    exact (call_spec hI hnone hcall).1

/-- The step can be taken: a call is made by a thread that is not in one. -/
def Possible (s : State) (a : Act) : Prop := (step a s).isSome

/-- **No call waits for ever exactly if every call that waits for the worker is made while the
running generation drains.** -/
theorem returns_iff_fits {acts : List Act} (hpossible : EveryStep step Possible acts .new) :
    Always step Returns acts .new ↔ EveryStep step Fits acts .new := by
  refine always_iff_everyStep (I := Inv) (fun s a hI hp => ?_)
    (fun s a s' hI hreturns _ hstep => ?_) Inv.new (.now rfl) hpossible
  · obtain ⟨s', hstep⟩ := Option.isSome_iff_exists.1 hp
    exact ⟨s', hstep, hI.step hstep⟩
  cases a with
  | worker =>
    obtain rfl := Option.some.inj hstep
    refine iff_of_true ?_ trivial
    by_cases hwait : s.waiting = none
    · exact .now (workerStep_quiet hI hwait)
    · exact (settles_step_iff (P := fun s : State => s.waiting = none) hwait).2 hreturns
  | call c =>
    obtain ⟨hnone, hcall⟩ := step_call hstep
    exact (call_spec hI hnone hcall).2

/-! ## Two sessions -/

/-- A short reply is left unread, and the next session's pull comes back. -/
def shortReply : List Act :=
  [.call (.loadModel true), .worker, .call .startSession, .call (.pull 0 (.runs 3)), .worker,
    .call .startSession, .call (.pull 1 (.runs 2)), .worker, .worker, .worker, .worker, .worker,
    .worker, .worker, .worker, .call (.nextEvent 0), .call (.nextEvent 1), .worker]

theorem shortReply_returns : Always step Returns shortReply .new := by
  have hall : EveryStep step (fun s a => Possible s a ∧ Fits s a) shortReply .new :=
    .cons ⟨rfl, trivial⟩ rfl <| .cons ⟨rfl, trivial⟩ rfl <| .cons ⟨rfl, trivial⟩ rfl <|
    .cons ⟨rfl, trivial⟩ rfl <| .cons ⟨rfl, trivial⟩ rfl <| .cons ⟨rfl, trivial⟩ rfl <|
    .cons ⟨rfl, fun gen hgen => .inr (.inr (by cases hgen; decide))⟩ rfl <|
    .cons ⟨rfl, trivial⟩ rfl <| .cons ⟨rfl, trivial⟩ rfl <| .cons ⟨rfl, trivial⟩ rfl <|
    .cons ⟨rfl, trivial⟩ rfl <| .cons ⟨rfl, trivial⟩ rfl <| .cons ⟨rfl, trivial⟩ rfl <|
    .cons ⟨rfl, trivial⟩ rfl <| .cons ⟨rfl, trivial⟩ rfl <| .cons ⟨rfl, trivial⟩ rfl <|
    .cons ⟨rfl, trivial⟩ rfl <| .cons ⟨rfl, trivial⟩ rfl trivial
  exact (returns_iff_fits (hall.mono fun _ _ h => h.1)).2 (hall.mono fun _ _ h => h.2)

/-- A reply of 300 tokens is left unread, and another session is pulled. -/
def longReply : List Act :=
  [.call (.loadModel true), .worker, .call .startSession, .call (.pull 0 (.runs 300)), .worker,
    .call .startSession, .call (.pull 1 (.runs 2))]

/-- The pull of the second session never comes back. -/
theorem longReply_blocks :
    EveryStep step Possible longReply .new ∧ ¬ Always step Returns longReply .new := by
  refine ⟨.cons rfl rfl <| .cons rfl rfl <| .cons rfl rfl <| .cons rfl rfl <| .cons rfl rfl <|
    .cons rfl rfl <| .cons rfl rfl trivial, fun h => ?_⟩
  have hI := (((((Inv.new.step (a := .call (.loadModel true)) rfl).step (a := .worker) rfl).step
    (a := .call .startSession) rfl).step (a := .call (.pull 0 (.runs 300))) rfl).step
    (a := .worker) rfl).step (a := .call .startSession) rfl
  have hiff := (call_spec (c := .pull 1 (.runs 2)) hI rfl rfl).2
  obtain ⟨s, hrun, hreturns⟩ := h.final
  obtain rfl := Option.some.inj hrun
  rcases hiff.1 hreturns _ rfl with hdropped | hstopped | hroom
  · exact Bool.false_ne_true hdropped
  · exact Bool.false_ne_true hstopped
  · exact absurd hroom (by decide)

end Mlxcel
end Gen2
