import Mathlib.Logic.Function.Iterate

/-!
# What a system comes to when it is left alone

A system that takes one step after the other, `f`, and a property of its states that it may come to.

* `Settles f P s` says that it does.
* `Settles.of_measure` proves it by a measure that goes down as long as it has not.
* `not_settles_of_trap` refutes it by a set of states that the system does not leave.
-/

namespace Gen2.Lib

universe u

variable {σ : Type u} {f : σ → σ} {P : σ → Prop} {s : σ}

/-- After some number of steps, the property holds. -/
def Settles (f : σ → σ) (P : σ → Prop) (s : σ) : Prop := ∃ n, P (f^[n] s)

theorem Settles.now (h : P s) : Settles f P s := ⟨0, h⟩

/-- As long as the property does not hold, a step changes nothing of whether it will. -/
theorem settles_step_iff (h : ¬ P s) : Settles f P (f s) ↔ Settles f P s := by
  constructor
  · rintro ⟨n, hn⟩
    exact ⟨n + 1, hn⟩
  · rintro ⟨n, hn⟩
    cases n with
    | zero => exact absurd hn h
    | succ n => exact ⟨n, hn⟩

theorem Settles.of_measure {I : σ → Prop} (μ : σ → Nat)
    (hstep : ∀ s, I s → ¬ P s → I (f s) ∧ μ (f s) < μ s) (hI : I s) : Settles f P s := by
  induction hμ : μ s using Nat.strongRecOn generalizing s with
  | _ n ih =>
    by_cases h : P s
    · exact .now h
    · obtain ⟨hI', hlt⟩ := hstep s hI h
      exact (settles_step_iff h).1 (ih _ (hμ ▸ hlt) hI' rfl)

theorem not_settles_of_trap {T : σ → Prop} (hT : ∀ s, T s → ¬ P s ∧ T (f s)) (h : T s) :
    ¬ Settles f P s := by
  rintro ⟨n, hn⟩
  induction n generalizing s with
  | zero => exact (hT s h).1 hn
  | succ n ih => exact ih (hT s h).2 hn

end Gen2.Lib
