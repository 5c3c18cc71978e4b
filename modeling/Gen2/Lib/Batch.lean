import Mathlib.Logic.Function.Iterate

/-!
# A system that takes several steps of another at once

`big` takes inputs and `small` takes none; one step of `big`, where it is clean, does what some
positive number of steps of `small` do.

* `iterateWith big inputs n s` is the state after `n` steps of `big`.
* `exists_iterate_of_batches`: after any number of clean steps of `big` the state is one that
  `small` comes to, in at least as many steps.
* `reaches_iff_of_batches`: the states at which `small` stands still are reached by the one
  precisely if they are reached by the other.
-/

namespace Gen2.Lib

universe u v

variable {σ : Type u} {ι : Type v}

/-- The state after so many steps. -/
def iterateWith (big : ι → σ → σ) (inputs : Nat → ι) : Nat → σ → σ
  | 0, s => s
  | n + 1, s => big (inputs n) (iterateWith big inputs n s)

variable {big : ι → σ → σ} {small : σ → σ} {Clean : σ → ι → Prop}

theorem exists_iterate_of_batches
    (hbatch : ∀ s i, Clean s i → ∃ k, 1 ≤ k ∧ big i s = small^[k] s) {inputs : Nat → ι} {s : σ}
    (hclean : ∀ n, Clean (iterateWith big inputs n s) (inputs n)) (n : Nat) :
    ∃ k, n ≤ k ∧ iterateWith big inputs n s = small^[k] s := by
  induction n with
  | zero => exact ⟨0, Nat.le_refl 0, rfl⟩
  | succ n ih =>
    obtain ⟨k, hk, heq⟩ := ih
    obtain ⟨j, hj, hstep⟩ := hbatch _ _ (hclean n)
    refine ⟨j + k, by omega, ?_⟩
    rw [iterateWith, hstep, heq, ← Function.iterate_add_apply]

/-- A state at which `small` stands still is the state after any further steps. -/
theorem iterate_of_le {s t : σ} {n k : Nat} (hstill : small t = t) (h : small^[n] s = t)
    (hle : n ≤ k) : small^[k] s = t := by
  obtain ⟨j, rfl⟩ := Nat.exists_eq_add_of_le' hle
  rw [Function.iterate_add_apply, h, Function.iterate_fixed hstill]

theorem reaches_iff_of_batches
    (hbatch : ∀ s i, Clean s i → ∃ k, 1 ≤ k ∧ big i s = small^[k] s) {inputs : Nat → ι} {s : σ}
    (hclean : ∀ n, Clean (iterateWith big inputs n s) (inputs n)) {t : σ} (hstill : small t = t) :
    (∃ n, iterateWith big inputs n s = t) ↔ ∃ n, small^[n] s = t := by
  constructor
  · rintro ⟨n, rfl⟩
    obtain ⟨k, -, heq⟩ := exists_iterate_of_batches hbatch hclean n
    exact ⟨k, heq.symm⟩
  · rintro ⟨n, hn⟩
    obtain ⟨k, hk, heq⟩ := exists_iterate_of_batches hbatch hclean n
    exact ⟨n, heq.trans (iterate_of_le hstill hn hk)⟩

end Gen2.Lib
