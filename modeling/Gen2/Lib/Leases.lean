import Mathlib.Data.List.Nodup
import Mathlib.Tactic.Common

/-!
# Leases

Things are taken out and given back, and a log says which and when.  `Leased held calls` says that
the log and the list of what is held agree: what is held was taken out once and not given back, and
everything else was given back as often as it was taken out, at most once.

* `Leased.start` and `Leased.finish`: the two calls, and `Leased.perm`: in any order.
* `Leased.accounted`: whatever was taken out is held once, or was given back once.
-/

namespace Gen2.Lib

open List

universe u

/-- One entry of the log. -/
inductive LeaseCall (κ : Type u)
  | started (k : κ)
  | ended (k : κ)
  deriving DecidableEq

open LeaseCall

variable {κ : Type u} [DecidableEq κ]

/-- The log agrees with what is held. -/
structure Leased (held : List κ) (calls : List (LeaseCall κ)) : Prop where
  nodup : held.Nodup
  out : ∀ k ∈ held, calls.count (started k) = 1 ∧ calls.count (ended k) = 0
  back : ∀ k ∉ held, calls.count (ended k) = calls.count (started k) ∧ calls.count (started k) ≤ 1

theorem Leased.nil : Leased ([] : List κ) [] :=
  ⟨nodup_nil, fun _ h => absurd h not_mem_nil, fun _ _ => ⟨rfl, Nat.zero_le _⟩⟩

namespace Leased

variable {held held' : List κ} {calls : List (LeaseCall κ)} {k : κ}

theorem perm (h : Leased held calls) (hperm : held.Perm held') : Leased held' calls where
  nodup := hperm.nodup_iff.1 h.nodup
  out k hk := h.out k (hperm.mem_iff.2 hk)
  back k hk := h.back k fun hmem => hk (hperm.mem_iff.1 hmem)

/-- Nothing is held that was never taken out. -/
theorem notMem_of_fresh (h : Leased held calls) (hfresh : started k ∉ calls) : k ∉ held := by
  intro hk
  have := (h.out k hk).1
  rw [count_eq_zero_of_not_mem hfresh] at this
  exact absurd this (by decide)

/-- Something is taken out for the first time. -/
theorem start (h : Leased held calls) (hfresh : started k ∉ calls) :
    Leased (k :: held) (calls ++ [started k]) where
  nodup := nodup_cons.2 ⟨h.notMem_of_fresh hfresh, h.nodup⟩
  out := by
    have hback := h.back k (h.notMem_of_fresh hfresh)
    have hzero := count_eq_zero_of_not_mem hfresh
    intro k' hk'
    by_cases heq : k' = k
    · subst heq
      simp [hback.1, hzero]
    · have hmem : k' ∈ held := (mem_cons.1 hk').resolve_left heq
      simpa [count_singleton, Ne.symm heq] using h.out k' hmem
  back := by
    intro k' hk'
    obtain ⟨hne, hmem⟩ := not_or.1 (fun h => hk' (mem_cons.2 h))
    simpa [count_singleton, Ne.symm hne] using h.back k' hmem

/-- Something that is held is given back. -/
theorem finish (h : Leased (k :: held) calls) : Leased held (calls ++ [ended k]) where
  nodup := (nodup_cons.1 h.nodup).2
  out := by
    intro k' hk'
    have hne : k ≠ k' := by
      rintro rfl
      exact (nodup_cons.1 h.nodup).1 hk'
    simpa [count_singleton, hne] using h.out k' (mem_cons_of_mem _ hk')
  back := by
    intro k' hk'
    by_cases heq : k' = k
    · subst heq
      have := h.out k' mem_cons_self
      simp [this.1, this.2]
    · have hmem : k' ∉ k :: held := by
        rw [mem_cons, not_or]
        exact ⟨heq, hk'⟩
      simpa [count_singleton, Ne.symm heq] using h.back k' hmem

/-- **Nothing is lost.**  What was taken out is held once and not given back, or is not held and was
given back once. -/
theorem accounted (h : Leased held calls) (hk : started k ∈ calls) :
    held.count k = 1 ∧ calls.count (ended k) = 0 ∨ k ∉ held ∧ calls.count (ended k) = 1 := by
  by_cases hmem : k ∈ held
  · exact .inl ⟨count_eq_one_of_mem h.nodup hmem, (h.out k hmem).2⟩
  · obtain ⟨heq, hle⟩ := h.back k hmem
    have hpos := count_pos_iff.2 hk
    exact .inr ⟨hmem, by omega⟩

end Leased

end Gen2.Lib
