import Mathlib.Data.Nat.Notation

/-!
# Loops that may not end

A `while` loop is a step that either goes on with another state or is done with a result.  `loop`
runs it for as many rounds as it is given; the loop returns what it returns for some number of
rounds, and one for which no number is enough never ends.

* `returns_next`: a round that goes on may be taken or not.
* `Returns.invariant`, `exists_returns`: the rules for what a loop returns, and that it does.
* `not_returns_of_stays`: a round that changes nothing is repeated for ever.
-/

namespace Gen2
namespace Lib

variable {σ ρ : Type*}

/-- A loop, for at most the given number of rounds. -/
def loop (step : σ → σ ⊕ ρ) : ℕ → σ → Option ρ
  | 0, _ => none
  | fuel + 1, s =>
    match step s with
    | .inr r => some r
    | .inl s' => loop step fuel s'

/-- The loop ends, with this result. -/
def Returns (step : σ → σ ⊕ ρ) (s : σ) (r : ρ) : Prop := ∃ fuel, loop step fuel s = some r

variable {step : σ → σ ⊕ ρ} {s s' : σ} {r r' : ρ}

theorem loop_done (h : step s = .inr r) (fuel : ℕ) : loop step (fuel + 1) s = some r := by
  rw [loop, h]

theorem loop_next (h : step s = .inl s') (fuel : ℕ) :
    loop step (fuel + 1) s = loop step fuel s' := by
  rw [loop, h]

/-- More rounds do not change what a loop has returned. -/
theorem loop_mono {fuel fuel' : ℕ} (hle : fuel ≤ fuel') (h : loop step fuel s = some r) :
    loop step fuel' s = some r := by
  induction fuel generalizing s fuel' with
  | zero => cases h
  | succ fuel ih =>
    obtain ⟨fuel', rfl⟩ : ∃ n, fuel' = n + 1 := ⟨fuel' - 1, by omega⟩
    rw [loop] at h ⊢
    split at h
    · exact h
    · exact ih (by omega) h

theorem returns_of_done (h : step s = .inr r) : Returns step s r := ⟨1, loop_done h 0⟩

theorem returns_done (h : step s = .inr r) : Returns step s r' ↔ r' = r := by
  constructor
  · rintro ⟨fuel, hfuel⟩
    cases fuel with
    | zero => cases hfuel
    | succ fuel =>
      rw [loop_done h] at hfuel
      exact (Option.some.inj hfuel).symm
  · rintro rfl
    exact returns_of_done h

theorem returns_next (h : step s = .inl s') : Returns step s r ↔ Returns step s' r := by
  constructor
  · rintro ⟨fuel, hfuel⟩
    cases fuel with
    | zero => cases hfuel
    | succ fuel => exact ⟨fuel, by rwa [loop_next h] at hfuel⟩
  · rintro ⟨fuel, hfuel⟩
    exact ⟨fuel + 1, by rwa [loop_next h]⟩

/-- A round that changes nothing is repeated for ever. -/
theorem not_returns_of_stays (h : step s = .inl s) : ¬ Returns step s r := by
  rintro ⟨fuel, hfuel⟩
  induction fuel with
  | zero => cases hfuel
  | succ fuel ih => exact ih (by rwa [loop_next h] at hfuel)

/-- The invariant rule: what is kept by every round holds when the loop is done. -/
theorem Returns.invariant {I : σ → Prop} {P : ρ → Prop}
    (hnext : ∀ s s', I s → step s = .inl s' → I s') (hdone : ∀ s r, I s → step s = .inr r → P r)
    (hI : I s) (h : Returns step s r) : P r := by
  obtain ⟨fuel, hfuel⟩ := h
  induction fuel generalizing s with
  | zero => cases hfuel
  | succ fuel ih =>
    cases hs : step s with
    | inr r' =>
      rw [loop_done hs] at hfuel
      exact Option.some.inj hfuel ▸ hdone s r' hI hs
    | inl s' => exact ih (hnext s s' hI hs) (by rwa [loop_next hs] at hfuel)

/-- A loop whose every round makes something smaller ends. -/
theorem exists_returns (size : σ → ℕ) (hsize : ∀ s s', step s = .inl s' → size s' < size s)
    (s : σ) : ∃ r, Returns step s r := by
  induction hn : size s using Nat.strongRecOn generalizing s with
  | _ n ih =>
    cases hs : step s with
    | inr r => exact ⟨r, returns_of_done hs⟩
    | inl s' =>
      obtain ⟨r, hr⟩ := ih (size s') (hn ▸ hsize s s' hs) s' rfl
      exact ⟨r, (returns_next hs).2 hr⟩

end Lib
end Gen2
