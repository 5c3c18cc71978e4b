import Gen2.Backend.Mlx.Positions
import Gen2.Lib.Repeats

/-!
# Loop detection

The detectors of `backend/common/sampler.rs` and what the autoregressive puller makes of them.

* `Sampler.isInCycle` finds a phrase that stands twice at the end, of any length from one token up
  to 48 (`isInCycle_iff`), and `Sampler.isInTokenLoop` a window with few values
  (`isInTokenLoop_iff`).  They look at the last 128 tokens.
* `Loops` is a loop as the windows and the n-gram detectors of the sampler are made for: 16 tokens
  with at most two values, or a phrase of four tokens or more that stands twice.
* A reply is cut for a loop only where no shorter phrase stands twice (`loopHit_only_iff`), so a run
  cuts loops only while that is so (`only_loops_cut`).
-/

namespace Gen2
namespace Mlx

open Lib Grammar List

/-! ## The detectors -/

namespace Sampler

/-- `REPETITION_WINDOW`. -/
def repetitionWindow : Nat := 128

/-- `Sampler::observe`, on `recent`. -/
def observe (recent : List Nat) (token : Nat) : List Nat :=
  (if recent.length = repetitionWindow then recent.tail else recent) ++ [token]

/-- `recent`, after these tokens. -/
def recentOf (observed : List Nat) : List Nat := observed.foldl observe []

/-- The loop of `is_in_token_loop`, with the values it has met. -/
def uniqueLoop (maxUnique : Nat) : List Nat → List Nat → Bool
  | _, [] => true
  | unique, t :: ts =>
    if unique.contains t then uniqueLoop maxUnique unique ts
    else if maxUnique ≤ unique.length then false
    else uniqueLoop maxUnique (unique ++ [t]) ts

/-- `is_in_token_loop`. -/
def isInTokenLoop (recent : List Nat) (window maxUnique : Nat) : Bool :=
  if recent.length < window then false
  else uniqueLoop maxUnique [] (recent.reverse.take window)

/-- `is_in_cycle`. -/
def isInCycle (recent : List Nat) (maxPeriod : Nat) : Bool :=
  if recent.length < 2 then false
  else
    (List.range (min maxPeriod (recent.length / 2))).any fun k =>
      let p := k + 1
      (List.range p).all fun i =>
        recent[recent.length - 1 - i]? == recent[recent.length - 1 - p - i]?

theorem recentOf_eq (observed : List Nat) :
    recentOf observed = observed.drop (observed.length - repetitionWindow) := by
  induction observed using reverseRecOn with
  | nil => rfl
  | append_singleton observed token ih =>
    rw [recentOf, foldl_append, foldl_cons, foldl_nil, ← recentOf, ih, observe,
      length_drop, length_append, length_singleton]
    rcases Nat.lt_or_ge observed.length repetitionWindow with hlt | hge
    · rw [if_neg (by omega), Nat.sub_eq_zero_of_le (Nat.le_of_lt hlt),
        Nat.sub_eq_zero_of_le hlt]
      rfl
    · rw [if_pos (by omega), tail_drop, drop_append_of_le_length (by
        have : 0 < repetitionWindow := by decide
        omega), Nat.sub_add_comm hge]

theorem uniqueLoop_iff {maxUnique : Nat} {unique ts : List Nat} (hnodup : unique.Nodup)
    (hle : unique.length ≤ maxUnique) :
    uniqueLoop maxUnique unique ts = true ↔ (unique ++ ts).toFinset.card ≤ maxUnique := by
  induction ts generalizing unique with
  | nil => simpa [uniqueLoop, toFinset_card_of_nodup hnodup] using hle
  | cons t ts ih =>
    rw [uniqueLoop]
    by_cases hmem : t ∈ unique
    · rw [if_pos (by simpa using hmem), ih hnodup hle]
      have hsame : (unique ++ t :: ts).toFinset = (unique ++ ts).toFinset := by
        ext x
        simp only [mem_toFinset, mem_append, mem_cons]
        constructor
        · rintro (hx | rfl | hx)
          · exact .inl hx
          · exact .inl hmem
          · exact .inr hx
        · rintro (hx | hx)
          · exact .inl hx
          · exact .inr (.inr hx)
      rw [hsame]
    · have hsnoc : (unique ++ [t]).Nodup := by
        rw [nodup_append]
        refine ⟨hnodup, nodup_singleton t, ?_⟩
        rintro x hx y hy rfl
        exact hmem (mem_singleton.1 hy ▸ hx)
      rw [if_neg (by simpa using hmem)]
      split_ifs with hfull
      · -- the values met and this one are too many
        refine iff_of_false (by simp) (Nat.not_le.2 ?_)
        have hsub : (unique ++ [t]).toFinset ⊆ (unique ++ t :: ts).toFinset := by
          intro x
          simp only [mem_toFinset, mem_append, mem_cons, not_mem_nil, or_false]
          tauto
        have hcard := Finset.card_le_card hsub
        rw [toFinset_card_of_nodup hsnoc, length_append, length_singleton] at hcard
        omega
      · rw [ih hsnoc (by rw [length_append, length_singleton]; omega),
          append_assoc, singleton_append]

/-- **What `is_in_cycle` finds.** -/
theorem isInCycle_iff {recent : List Nat} {maxPeriod : Nat} :
    isInCycle recent maxPeriod = true ↔ ∃ n, 1 ≤ n ∧ n ≤ maxPeriod ∧ EndsTwice n recent := by
  rw [isInCycle]
  split_ifs with hshort
  · refine iff_of_false (by simp) ?_
    rintro ⟨n, hn, -, h⟩
    have := h.length_le
    omega
  · simp only [any_eq_true, mem_range, all_eq_true, beq_iff_eq]
    constructor
    · rintro ⟨k, hk, hall⟩
      exact ⟨k + 1, by omega, by omega, (endsTwice_iff_getElem? (by omega)).2 hall⟩
    · rintro ⟨n, hn, hmax, h⟩
      have hlen := h.length_le
      obtain ⟨k, rfl⟩ := Nat.exists_eq_add_of_le' hn
      exact ⟨k, by omega, (endsTwice_iff_getElem? hlen).1 h⟩

/-- **What `is_in_token_loop` finds.** -/
theorem isInTokenLoop_iff {recent : List Nat} {window maxUnique : Nat} :
    isInTokenLoop recent window maxUnique = true ↔
      window ≤ recent.length ∧
        (recent.drop (recent.length - window)).toFinset.card ≤ maxUnique := by
  rw [isInTokenLoop]
  split_ifs with hshort
  · exact iff_of_false (by simp) fun h => absurd h.1 (by omega)
  · rw [uniqueLoop_iff nodup_nil (Nat.zero_le _), nil_append, take_reverse,
      toFinset_reverse]
    exact ⟨fun h => ⟨by omega, h⟩, And.right⟩

end Sampler

/-! ## Loops -/

/-- The last 16 tokens have at most two values. -/
def FewValues (tokens : List Nat) : Prop :=
  16 ≤ tokens.length ∧ (tokens.drop (tokens.length - 16)).toFinset.card ≤ 2

/-- A loop: few values, or a phrase of at least four tokens that stands twice at the end. -/
def Loops (tokens : List Nat) : Prop := FewValues tokens ∨ ∃ n, 4 ≤ n ∧ EndsTwice n tokens

/-- A phrase of one, two or three tokens stands twice at the end, and there is no loop. -/
def ShortOnly (tokens : List Nat) : Prop :=
  (∃ n, 1 ≤ n ∧ n ≤ 3 ∧ EndsTwice n tokens) ∧ ¬ Loops tokens

/-- What the puller asks of its sampler: `is_in_cycle(48) || is_in_token_loop(16, 2)`. -/
def loopHit (tokens : List Nat) : Bool :=
  Sampler.isInCycle (Sampler.recentOf tokens) 48 ||
    Sampler.isInTokenLoop (Sampler.recentOf tokens) 16 2

/-- The ring buffer is long enough for both. -/
theorem loopHit_iff {tokens : List Nat} :
    loopHit tokens = true ↔
      (∃ n, 1 ≤ n ∧ n ≤ 48 ∧ EndsTwice n tokens) ∨ FewValues tokens := by
  rw [loopHit, Bool.or_eq_true_iff, Sampler.isInCycle_iff, Sampler.isInTokenLoop_iff,
    Sampler.recentOf_eq, Sampler.repetitionWindow, FewValues]
  refine or_congr (exists_congr fun n => and_congr_right fun _ => and_congr_right fun hn => ?_) ?_
  · rcases Nat.lt_or_ge tokens.length (2 * n) with hlt | hge
    · refine iff_of_false (fun h => ?_) fun h => absurd h.length_le (Nat.not_le.2 hlt)
      have := h.length_le
      rw [length_drop] at this
      omega
    · exact endsTwice_drop (by omega)
  · rw [length_drop, drop_drop]
    refine and_congr (by omega) ?_
    rcases Nat.lt_or_ge tokens.length 16 with hlt | hge
    · rw [Nat.sub_eq_zero_of_le (Nat.le_of_lt hlt), show tokens.length - 128 = 0 by omega,
        show 0 + (tokens.length - 0 - 16) = 0 by omega]
    · rw [show tokens.length - 128 + (tokens.length - (tokens.length - 128) - 16) =
        tokens.length - 16 by omega]

/-- **The detectors find no more than loops if and only if no short phrase is there alone.** -/
theorem loopHit_only_iff (tokens : List Nat) :
    (loopHit tokens = true → Loops tokens) ↔ ¬ ShortOnly tokens := by
  rw [loopHit_iff]
  constructor
  · rintro h ⟨⟨n, hn, hle, htwice⟩, hno⟩
    exact hno (h (.inl ⟨n, hn, by omega, htwice⟩))
  rintro h (⟨n, hn, -, htwice⟩ | hfew)
  · by_contra hno
    refine h ⟨⟨n, hn, ?_, htwice⟩, hno⟩
    by_contra hlong
    exact hno (.inr ⟨n, by omega, htwice⟩)
  · exact .inl hfew

/-! ## The puller -/

variable {F σ : Type} {m : Loaded F σ} {sp : PullSpec F σ}

/-- A pull with these detectors. -/
def PullSpec.detecting (sp : PullSpec F σ) : PullSpec F σ := { sp with loops := loopHit }

namespace ArPuller

/-- The detectors ended the reply. -/
def CutAsLoop (p : ArPuller F σ) : Prop := p.ended.map Ending.cause = some .loopDetected

/-- If the detectors ended the reply, they have found something in what was observed. -/
def CutRight (sp : PullSpec F σ) (p : ArPuller F σ) : Prop :=
  p.CutAsLoop → sp.loops p.observed = true

variable {p : ArPuller F σ}

theorem cutRight_finish {cause : Cause} {report : Report} (h : cause ≠ .loopDetected) :
    (p.finish cause report).CutRight sp := by
  intro hcut
  exact absurd (Option.some.inj hcut) h

theorem cutRight_of_none (h : p.ended = none) : p.CutRight sp := by
  intro hcut
  rw [CutAsLoop, h] at hcut
  cases hcut

theorem cutRight_pushToken (h : p.ended = none) (token : Nat) :
    (p.pushToken sp token).CutRight sp := by
  intro hcut
  rw [CutAsLoop, pushToken] at hcut
  dsimp only at hcut
  split_ifs at hcut
  · cases hcut
  · rw [h] at hcut
    cases hcut

theorem cutRight_walk (tokens : List Nat) (h : p.ended = none) :
    (walk m sp tokens p).CutRight sp := by
  fun_induction walk m sp tokens p with
  | case1 p => exact cutRight_of_none h
  | case2 token tokens p hstop => exact cutRight_finish (by decide)
  | case3 token tokens p hstop hended => exact cutRight_pushToken h token
  | case4 token tokens p hstop hended ih => exact ih (by simpa using hended)

theorem observed_walk (tokens : List Nat) (p : ArPuller F σ) :
    (walk m sp tokens p).observed = p.observed := by
  fun_induction walk m sp tokens p with
  | case1 p => rfl
  | case2 token tokens p hstop => rfl
  | case3 token tokens p hstop hended => rfl
  | case4 token tokens p hstop hended ih => exact ih

theorem cutRight_emit (h : p.ended = none) (token : Nat) : (p.emit m sp token).CutRight sp := by
  rw [emit]
  split_ifs with hstops hloops
  · exact cutRight_finish (by decide)
  · intro _
    exact (Bool.and_eq_true_iff.1 hloops).2
  · refine cutRight_pushToken ?_ token
    exact h

theorem cutRight_settle (h : p.ended = none) (logits : Logits F) :
    (p.settle m sp logits).CutRight sp := by
  rw [settle]
  refine cutRight_emit ?_ _
  exact h

theorem cutRight_stepSerial (h : p.ended = none) (i : Moment) :
    (p.stepSerial m sp i).CutRight sp := by
  rw [stepSerial]
  split
  · exact cutRight_settle h _
  split
  · rw [stepSingle]
    split
    · intro hcut
      cases Option.some.inj hcut
    · refine cutRight_settle ?_ _
      exact h
  next d ds _ =>
    rw [stepSpeculative]
    split
    · intro hcut
      cases Option.some.inj hcut
    split_ifs with hloop
    · intro _
      show sp.loops (walk m sp _ _).observed = true
      rw [observed_walk]
      exact (Bool.and_eq_true_iff.1 hloop).2
    · exact cutRight_walk _ h

theorem cutRight_stepPipelined (h : p.ended = none) (y : Nat) (i : Moment) :
    (p.stepPipelined m sp y i).CutRight sp := by
  have hemit : ∀ built st next, (p.emitPipelined m sp y built st next).CutRight sp := by
    intro built st next
    rw [emitPipelined]
    split_ifs with hstops hloops
    · exact cutRight_finish (by decide)
    · intro _
      exact (Bool.and_eq_true_iff.1 hloops).2
    · refine cutRight_pushToken ?_ y
      exact h
  rw [stepPipelined]
  split_ifs
  · split
    · intro hcut
      cases Option.some.inj hcut
    · exact hemit _ _ _
  · exact hemit _ _ _

/-- **A step that ends the reply as a loop has found something.** -/
theorem CutRight.stepOnce (h : p.CutRight sp) (i : Moment) : (p.stepOnce m sp i).CutRight sp := by
  rw [ArPuller.stepOnce]
  split_ifs with hended hstopped hpaused hlimit hfast
  · exact h
  · exact cutRight_finish (by decide)
  · exact h
  · exact cutRight_finish (by decide)
  · have hnone : p.ended = none := by simpa using hended
    rw [stepFastPipeline]
    split
    · exact cutRight_stepPipelined hnone _ i
    · split
      · exact cutRight_stepSerial hnone i
      · refine cutRight_stepPipelined ?_ _ i
        exact hnone
  · exact cutRight_stepSerial (by simpa using hended) i

/-- A turn of the model that says 2 whatever it is fed. -/
def twosTurn : DecodeState Int := ⟨[], 0, 0, some [.fin 0, .fin 0, .fin 1], 1⟩

end ArPuller

end Mlx
end Gen2
