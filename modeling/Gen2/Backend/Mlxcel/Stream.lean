import Gen2.Backend.Mlxcel.Grammar
import Gen2.Backend.Mlxcel.Worker
import Gen2.Engine.Types
import Gen2.Generation.Events

/-!
# How a stream of mlxcel ends

One generation of `gen2-mlxcel` from its first token on: `run_generation` of `worker.rs` with its
two loops, the channel, and the puller of `puller.rs`.

* A `Generator` is a loop: what it does after the tokens it has sent, with the stop flag as it
  stands.  `Generator.plain` is `on_token` under the streaming decode of the package, which is a
  parameter, and `Generator.grammar` is the loop of `GrammarStream.step`.
* `step` interleaves the worker, which may also panic, with the calls of the puller and with
  whoever raises the stop flag or drops the puller.
* All that crosses from the worker to the puller is that the channel is closed.  So the tokens come
  out in order and one `Eos` after them (`Inv`), and the stream is `Honest` if and only if the
  generation ended with its end token, its limit or its grammar (`honest_iff`).
-/

namespace Gen2

open Lib List
open Generation (TokenEvent)

namespace Mlxcel

/-- `DecodedToken`. -/
structure DecodedToken where
  id : UInt32
  text : Text
  deriving DecidableEq

/-- Why a generation is over. -/
inductive End
  | endToken
  | limit
  | completed
  | stopRequested
  | hungUp
  | failed
  | panicked
  deriving DecidableEq

/-- What a loop does next. -/
inductive Decision
  | send (token : DecodedToken)
  | finish (e : End)
  deriving DecidableEq

/-- A generation loop. -/
abbrev Generator := List DecodedToken → Bool → Decision

/-- The streaming decode, which comes up with these tokens and ends by itself as `own` says if
`on_token` does not end it. -/
def Generator.plain (ids : List UInt32) (own : End) (decode : UInt32 → Option Text) : Generator :=
  fun sent stop =>
    match ids[sent.length]? with
    | some id => if stop then .finish .stopRequested else .send ⟨id, (decode id).getD []⟩
    | none => .finish own

/-- The end of the grammar loop. -/
def endOf : Grammar.Cause → End
  | .endToken => .endToken
  | .completed => .completed
  | .limit => .limit
  | .stopRequested => .stopRequested
  | .hungUp => .hungUp
  | .stopPattern | .loopDetected | .exhausted | .failure => .failed

section
variable {F σ : Type} [LinearOrder F] [Zero F]

/-- The grammar loop after so many rounds that nothing interfered with. -/
def GrammarRun.after (r : GrammarRun F σ) : Nat → GrammarStream σ → GrammarStream σ
  | 0, s => s
  | n + 1, s => after r n (s.step r ⟨false, false⟩)

/-- The grammar loop, from a stream that has started. -/
def Generator.grammar (r : GrammarRun F σ) (started : GrammarStream σ)
    (decode : UInt32 → Option Text) : Generator :=
  fun sent stop =>
    let s := r.after sent.length started
    let s' := s.step r ⟨stop, false⟩
    match s'.handed.drop s.handed.length with
    | id :: _ => .send ⟨id.toUInt32, (decode id.toUInt32).getD []⟩
    | [] => .finish ((s'.ended.map fun e => endOf e.cause).getD .failed)

end

/-! ## The two ends of the channel -/

/-- The thread of the model, in one generation: before the next token, sending one, or past the end,
where the channel is closed. -/
inductive WorkerAt
  | deciding
  | sending (token : DecodedToken)
  | ended (e : End)
  deriving DecidableEq

/-- What `next_event` returns. -/
abbrev Item := Option (Except ExecError TokenEvent)

/-- A generation, its channel and its puller; `yielded` is what `next_event` has returned. -/
structure Stream where
  worker : WorkerAt
  stop : Bool
  sent : List DecodedToken
  channel : List DecodedToken
  dropped : Bool
  done : Bool
  yielded : List Item

namespace Stream

/-- Where the tokens begin. -/
def start (stop : Bool) : Stream := ⟨.deciding, stop, [], [], false, false, []⟩

/-- A step of the worker; `none` if it waits, or has ended. -/
def workerStep (G : Generator) (s : Stream) : Option Stream :=
  match s.worker with
  | .deciding =>
    match G s.sent s.stop with
    | .send token => some { s with worker := .sending token }
    | .finish e => some { s with worker := .ended e }
  | .sending token =>
    if s.dropped then some { s with worker := .ended .hungUp }
    else if s.channel.length < tokenChannelCap then
      some { s with
        worker := .deciding, sent := s.sent ++ [token], channel := s.channel ++ [token] }
    else none
  | .ended _ => none

/-- A token as an item. -/
def tokenItem (token : DecodedToken) : Item := some (.ok (.token ⟨token.id, token.text, none⟩))

/-- `MlxcelTokenPuller::next_inner`; `none` if it waits, or there is no puller. -/
def nextEvent (s : Stream) : Option Stream :=
  if s.dropped then none
  else if s.done then some { s with yielded := s.yielded ++ [none] }
  else
    match s.channel with
    | token :: channel => some { s with channel, yielded := s.yielded ++ [tokenItem token] }
    | [] =>
      match s.worker with
      | .ended _ => some { s with done := true, yielded := s.yielded ++ [some (.ok .eos)] }
      | _ => none

/-- The worker panics; what it owns is dropped. -/
def panic (s : Stream) : Option Stream :=
  match s.worker with
  | .ended _ => none
  | _ => some { s with worker := .ended .panicked }

end Stream

inductive Turn
  | worker
  | panic
  | flag (stop : Bool)
  | nextEvent
  | drop
  deriving DecidableEq

/-- A turn of one of them. -/
def turn (G : Generator) : Turn → Stream → Option Stream
  | .worker, s => s.workerStep G
  | .panic, s => s.panic
  | .flag stop, s => some { s with stop }
  | .nextEvent, s => s.nextEvent
  | .drop, s => some { s with dropped := true }

/-! ## What the stream says -/

/-- The item that tells the end of a generation as it was; who has hung up is told nothing. -/
def End.Says : End → Except ExecError TokenEvent → Prop
  | endToken, event | limit, event | completed, event => event = .ok .eos
  | stopRequested, event => event = .ok .stopped
  | failed, event | panicked, event => ∃ err, event = .error err
  | hungUp, _ => False

/-- The generation ended by itself. -/
def End.normal : End → Bool
  | endToken | limit | completed => true
  | stopRequested | hungUp | failed | panicked => false

theorem End.says_eos_iff (e : End) : e.Says (.ok .eos) ↔ e.normal = true := by
  cases e <;> simp [End.Says, End.normal]

namespace Stream

/-- What has come out so far: the tokens in the order in which they were sent, and at the end all of
them, one item that tells how the generation ended, and nothing. -/
def Honest (s : Stream) : Prop :=
  if s.done then
    ∃ e event k, s.worker = .ended e ∧ e.Says event ∧
      s.yielded = s.sent.map tokenItem ++ some event :: List.replicate k none
  else ∃ taken, taken <+: s.sent ∧ s.yielded = taken.map tokenItem

/-- What has come out and what is in the channel is what was sent; and the puller is done only once
the channel is empty and closed, with one `Eos`. -/
structure Inv (s : Stream) : Prop where
  live : s.done = false → ∃ taken, s.sent = taken ++ s.channel ∧ s.yielded = taken.map tokenItem
  closed : s.done = true → s.channel = [] ∧ (∃ e, s.worker = .ended e) ∧
    ∃ k, s.yielded = s.sent.map tokenItem ++ some (.ok .eos) :: List.replicate k none

theorem Inv.start (stop : Bool) : Inv (.start stop) :=
  ⟨fun _ => ⟨[], rfl, rfl⟩, nofun⟩

variable {G : Generator} {s s' : Stream}

theorem Inv.workerStep (hI : Inv s) (h : s.workerStep G = some s') : Inv s' := by
  -- a puller that is done has found the worker at its end
  have hlive : (∀ e, s.worker ≠ .ended e) → s.done = false := by
    intro hne
    by_contra hdone
    obtain ⟨-, ⟨e, he⟩, -⟩ := hI.closed (by simpa using hdone)
    exact hne e he
  rw [Stream.workerStep] at h
  split at h
  next hw =>
    have hrun := hlive (by simp [hw])
    split at h <;> obtain rfl := Option.some.inj h
    · exact ⟨hI.live, fun hdone => by simp [hrun] at hdone⟩
    · exact ⟨hI.live, fun hdone => by simp [hrun] at hdone⟩
  next token hw =>
    have hrun := hlive (by simp [hw])
    split_ifs at h
    · obtain rfl := Option.some.inj h
      exact ⟨hI.live, fun hdone => by simp [hrun] at hdone⟩
    obtain rfl := Option.some.inj h
    refine ⟨fun hopen => ?_, fun hdone => by simp [hrun] at hdone⟩
    obtain ⟨taken, hsent, hyielded⟩ := hI.live hrun
    refine ⟨taken, ?_, hyielded⟩
    show s.sent ++ [token] = taken ++ (s.channel ++ [token])
    rw [hsent, append_assoc]
  · cases h

theorem Inv.nextEvent (hI : Inv s) (h : s.nextEvent = some s') : Inv s' := by
  rw [Stream.nextEvent] at h
  split_ifs at h with hdropped hdone
  · obtain rfl := Option.some.inj h
    obtain ⟨hempty, hended, k, hyielded⟩ := hI.closed hdone
    refine ⟨fun hopen => by simp [hdone] at hopen, fun _ => ⟨hempty, hended, k + 1, ?_⟩⟩
    show s.yielded ++ [none] = _
    rw [hyielded, replicate_succ', append_assoc, cons_append]
  · have hopen : s.done = false := by simpa using hdone
    obtain ⟨taken, hsent, hyielded⟩ := hI.live hopen
    split at h
    next token channel hchannel =>
      obtain rfl := Option.some.inj h
      refine ⟨fun _ => ⟨taken ++ [token], ?_, ?_⟩, fun hclosed => by simp [hopen] at hclosed⟩
      · rw [hsent, hchannel]
        simp
      · rw [map_append, ← hyielded]
        rfl
    next hchannel =>
      split at h
      next e hw =>
        obtain rfl := Option.some.inj h
        refine ⟨nofun, fun _ => ⟨hchannel, ⟨e, hw⟩, 0, ?_⟩⟩
        rw [hchannel, append_nil] at hsent
        show s.yielded ++ [some (.ok .eos)] = s.sent.map tokenItem ++ [some (.ok .eos)]
        rw [hsent, hyielded]
      · cases h

theorem Inv.turn {t : Turn} (hI : Inv s) (h : turn G t s = some s') : Inv s' := by
  cases t with
  | worker => exact hI.workerStep h
  | panic =>
    rw [Mlxcel.turn, Stream.panic] at h
    split at h
    · cases h
    all_goals
      obtain rfl := Option.some.inj h
      refine ⟨hI.live, fun hdone => ?_⟩
      obtain ⟨hempty, -, hyielded⟩ := hI.closed hdone
      exact ⟨hempty, ⟨_, rfl⟩, hyielded⟩
  | flag stop =>
    obtain rfl := Option.some.inj h
    exact ⟨hI.live, hI.closed⟩
  | nextEvent => exact hI.nextEvent h
  | drop =>
    obtain rfl := Option.some.inj h
    exact ⟨hI.live, hI.closed⟩

/-- A stream is honest if the generation behind it ended by itself. -/
theorem Inv.honest_state_iff (hI : Inv s) :
    Honest s ↔ (s.done = true → ∃ e, s.worker = .ended e ∧ e.normal = true) := by
  rw [Honest]
  split_ifs with hdone
  · obtain ⟨-, ⟨e, he⟩, k, hyielded⟩ := hI.closed hdone
    constructor
    · rintro ⟨e', event, k', hw, hsays, hshown⟩ -
      rw [hyielded] at hshown
      have hevent : event = .ok .eos := by
        have hcons := append_cancel_left hshown
        exact (Option.some.inj (cons.inj hcons).1).symm
      exact ⟨e', hw, (End.says_eos_iff e').1 (hevent ▸ hsays)⟩
    · intro hnormal
      obtain ⟨e', hw, hnormal⟩ := hnormal hdone
      exact ⟨e', .ok .eos, k, hw, (End.says_eos_iff e').2 hnormal, hyielded⟩
  · refine iff_of_true ?_ fun h => absurd h hdone
    obtain ⟨taken, hsent, hyielded⟩ := hI.live (by simpa using hdone)
    exact ⟨taken, hsent ▸ prefix_append _ _, hyielded⟩

/-- Once the generation is over, the puller comes to its end after the tokens in the channel. -/
theorem exists_done {e : End} (hw : s.worker = .ended e) (hopen : s.done = false)
    (hpuller : s.dropped = false) :
    ∃ s', runAll (Mlxcel.turn G) (replicate (s.channel.length + 1) .nextEvent) s = some s' ∧
      s'.done = true := by
  obtain ⟨n, hn⟩ : ∃ n, n = s.channel.length := ⟨_, rfl⟩
  induction n generalizing s with
  | zero =>
    have hempty : s.channel = [] := eq_nil_of_length_eq_zero hn.symm
    refine ⟨{ s with done := true, yielded := s.yielded ++ [some (.ok .eos)] }, ?_, rfl⟩
    rw [hempty]
    show (s.nextEvent).bind some = _
    rw [Stream.nextEvent, if_neg (by simp [hpuller]), if_neg (by simp [hopen])]
    simp only [hempty, hw, Option.bind_some]
  | succ n ih =>
    cases hchannel : s.channel with
    | nil =>
      rw [hchannel] at hn
      cases hn
    | cons token channel =>
      rw [hchannel, length_cons] at hn
      have hnext : s.nextEvent =
          some { s with channel, yielded := s.yielded ++ [tokenItem token] } := by
        rw [Stream.nextEvent, if_neg (by simp [hpuller]), if_neg (by simp [hopen])]
        simp only [hchannel]
      obtain ⟨s', hrun, hdone⟩ := ih
        (s := { s with channel, yielded := s.yielded ++ [tokenItem token] }) hw hopen hpuller
        (Nat.succ.inj hn)
      refine ⟨s', ?_, hdone⟩
      rw [length_cons, replicate_succ, runAll_cons, Mlxcel.turn, hnext]
      exact hrun

/-- **When a stream ends honestly.**  Whatever the loop does and in whatever order things happen,
the stream is honest if and only if, once the puller is done, the generation has ended with its end
token, its limit or its grammar; and the puller of a generation that is over comes to its end. -/
theorem honest_iff (G : Generator) (stop : Bool) (turns : List Turn) (s : Stream)
    (hrun : runAll (Mlxcel.turn G) turns (.start stop) = some s) :
    (Honest s ↔ (s.done = true → ∃ e, s.worker = .ended e ∧ e.normal = true)) ∧
    ∀ e, s.worker = .ended e → s.done = false → s.dropped = false →
      ∃ s', runAll (Mlxcel.turn G) (List.replicate (s.channel.length + 1) .nextEvent) s = some s' ∧
        s'.done = true := by
  have hreach : Reachable (Mlxcel.turn G) (fun s => s = Stream.start stop) s :=
    ⟨_, turns, rfl, hrun⟩
  have hI : Inv s := hreach.preserved (fun _ h => h ▸ Inv.start stop) fun _ _ _ hI h => hI.turn h
  exact ⟨hI.honest_state_iff, fun e hw hopen hpuller => exists_done hw hopen hpuller⟩

/-- One token, and then the end token. -/
theorem honest_plain :
    let token : DecodedToken := ⟨5, "Hi".toList⟩
    Honest ⟨.ended .endToken, false, [token], [], false, true,
      [tokenItem token, some (.ok .eos), none]⟩ :=
  (honest_iff (.plain [5] .endToken fun _ => some "Hi".toList) false
    [.worker, .worker, .nextEvent, .worker, .nextEvent, .nextEvent] _ rfl).1.2
    fun _ => ⟨.endToken, rfl, rfl⟩

/-- A grammar that masks everything fails at the first token, and the stream says `Eos`. -/
theorem grammar_failure_dishonest :
    ¬ ∀ (G : Generator) (stop : Bool) (turns : List Turn) (s : Stream),
      runAll (Mlxcel.turn G) turns (.start stop) = some s → Honest s := by
  intro h
  let engine : Grammar.Matcher Unit := ⟨fun _ => .error (), fun _ _ => .ok (), fun _ => false,
    fun _ => false⟩
  let r : GrammarRun Int Unit := ⟨engine, true, some ⟨(), 1⟩, fun _ => [.fin 0], [], 8⟩
  have hhonest := h (.grammar r ⟨some ⟨(), 1⟩, 0, [], none⟩ fun _ => none) false
    [.worker, .nextEvent] ⟨.ended .failed, false, [], [], false, true, [some (.ok .eos)]⟩ rfl
  rw [Honest, if_pos rfl] at hhonest
  obtain ⟨e, event, k, hw, hsays, hyielded⟩ := hhonest
  obtain rfl : End.failed = e := WorkerAt.ended.inj hw
  obtain ⟨err, rfl⟩ := hsays
  cases hyielded

end Stream

end Mlxcel
end Gen2
