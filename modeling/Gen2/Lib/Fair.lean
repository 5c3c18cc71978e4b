import Mathlib.Order.Nat
import Mathlib.Tactic.Common

/-!
# What comes about under a fair schedule

A system of threads is a total step function `step : ι → σ → σ`; an input may be a step of a thread
`k : κ` (`who i = some k`), or of nobody who has to move.  A schedule is an endless sequence of
inputs; it is `Fair` if every thread moves again and again.

`Progress` collects what is to be said about one step for a goal to come about: some thread can move
while there is no goal, its move lowers `work`, nothing raises `work`, and what does not lower it
leaves the thread able to move.  `Progress.eventually` is the rule.
-/

namespace Gen2.Lib

universe u v w

variable {σ : Type u} {ι : Type v} {κ : Type w}

/-- The state after the first `n` inputs of a schedule. -/
def after (step : ι → σ → σ) (f : ℕ → ι) (s : σ) : ℕ → σ
  | 0 => s
  | n + 1 => step (f n) (after step f s n)

/-- Every thread moves again and again. -/
def Fair (who : ι → Option κ) (f : ℕ → ι) : Prop := ∀ k n, ∃ m, n ≤ m ∧ who (f m) = some k

/-- The inputs of the schedule are allowed in the states they come in. -/
def Allowed (step : ι → σ → σ) (A : σ → ι → Prop) (f : ℕ → ι) (s : σ) : Prop :=
  ∀ n, A (after step f s n) (f n)

/-- Why a goal comes about. -/
structure Progress (step : ι → σ → σ) (who : ι → Option κ) (A : σ → ι → Prop) (I goal : σ → Prop)
    (can : σ → κ → Prop) (work : σ → ℕ) : Prop where
  inv : ∀ s i, I s → A s i → I (step i s)
  live : ∀ s, I s → ¬ goal s → ∃ k, can s k
  down : ∀ s i k, I s → A s i → who i = some k → can s k → work (step i s) < work s
  le : ∀ s i, I s → A s i → work (step i s) ≤ work s
  keep : ∀ s i k, I s → A s i → can s k → work (step i s) = work s → can (step i s) k

variable {step : ι → σ → σ} {who : ι → Option κ} {A : σ → ι → Prop} {I goal : σ → Prop}
  {can : σ → κ → Prop} {work : σ → ℕ} {f : ℕ → ι} {s : σ}

theorem after_add (n m : ℕ) :
    after step f s (n + m) = after step (fun k => f (n + k)) (after step f s n) m := by
  induction m with
  | zero => rfl
  | succ m ih =>
    rw [Nat.add_succ, after, after, ih]

theorem Fair.shift (h : Fair who f) (n : ℕ) : Fair who fun k => f (n + k) := by
  intro k m
  obtain ⟨p, hp, hk⟩ := h k (n + m)
  obtain ⟨q, rfl⟩ := Nat.exists_eq_add_of_le hp
  rw [Nat.add_assoc] at hk
  exact ⟨m + q, Nat.le_add_right .., hk⟩

theorem Allowed.shift (h : Allowed step A f s) (n : ℕ) :
    Allowed step A (fun k => f (n + k)) (after step f s n) := by
  intro m
  have hm := h (n + m)
  rwa [after_add] at hm

namespace Progress

theorem inv_after (P : Progress step who A I goal can work) (hI : I s)
    (hA : Allowed step A f s) (n : ℕ) : I (after step f s n) := by
  induction n with
  | zero => exact hI
  | succ n ih => exact P.inv _ _ ih (hA n)

theorem work_after (P : Progress step who A I goal can work) (hI : I s)
    (hA : Allowed step A f s) (n : ℕ) : work (after step f s n) ≤ work s := by
  induction n with
  | zero => exact Nat.le_refl _
  | succ n ih => exact (P.le _ _ (P.inv_after hI hA n) (hA n)).trans ih

/-- A thread that can move does, unless `work` goes down before. -/
theorem can_after (P : Progress step who A I goal can work) (hI : I s)
    (hA : Allowed step A f s) {k : κ} (hk : can s k) (n : ℕ) :
    can (after step f s n) k ∨ work (after step f s n) < work s := by
  induction n with
  | zero => exact .inl hk
  | succ n ih =>
    have hInv := P.inv_after hI hA n
    have hle := P.le _ _ hInv (hA n)
    rcases ih with hcan | hlt
    · rcases hle.lt_or_eq with hlt | heq
      · exact .inr (hlt.trans_le (P.work_after hI hA n))
      · exact .inl (P.keep _ _ k hInv (hA n) hcan heq)
    · exact .inr (hle.trans_lt hlt)

theorem lower (P : Progress step who A I goal can work) (hI : I s) (hA : Allowed step A f s)
    (hf : Fair who f) (hgoal : ¬ goal s) : ∃ n, work (after step f s n) < work s := by
  obtain ⟨k, hk⟩ := P.live s hI hgoal
  obtain ⟨n, -, hn⟩ := hf k 0
  rcases P.can_after hI hA hk n with hcan | hlt
  · exact ⟨n + 1, (P.down _ _ k (P.inv_after hI hA n) (hA n) hn hcan).trans_le
      (P.work_after hI hA n)⟩
  · exact ⟨n, hlt⟩

/-- **The rule.**  Under a fair schedule the goal comes about. -/
theorem eventually (P : Progress step who A I goal can work) (hI : I s)
    (hA : Allowed step A f s) (hf : Fair who f) : ∃ n, goal (after step f s n) := by
  induction hw : work s using Nat.strong_induction_on generalizing s f with
  | _ w ih =>
    by_cases hgoal : goal s
    · exact ⟨0, hgoal⟩
    · obtain ⟨n, hlt⟩ := P.lower hI hA hf hgoal
      obtain ⟨m, hm⟩ := ih _ (hw ▸ hlt) (P.inv_after hI hA n) (hA.shift n) (hf.shift n) rfl
      exact ⟨n + m, by rw [after_add]; exact hm⟩

end Progress

end Gen2.Lib
