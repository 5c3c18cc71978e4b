import Mathlib.Data.List.Basic

/-!
# Writing in places

`scatter order xs base` is `base` with each element of `xs` written at the index `order` has for it.

* `getElem?_scatter`: what is written at an index is read there, when the indices are distinct.
-/

namespace Gen2.Lib

open List

universe u

variable {α : Type u}

/-- `for (i, x) in order.zip(xs) { base[i] = x }`. -/
def scatter : List Nat → List α → List α → List α
  | i :: order, x :: xs, base => scatter order xs (base.set i x)
  | _, _, base => base

theorem length_scatter (order : List Nat) (xs base : List α) :
    (scatter order xs base).length = base.length := by
  induction order generalizing xs base with
  | nil => rfl
  | cons i order ih =>
    cases xs with
    | nil => rfl
    | cons x xs => exact (ih xs _).trans length_set

theorem getElem?_scatter_of_notMem {order : List Nat} {i : Nat} (h : i ∉ order)
    (xs base : List α) : (scatter order xs base)[i]? = base[i]? := by
  induction order generalizing xs base with
  | nil => rfl
  | cons j order ih =>
    cases xs with
    | nil => rfl
    | cons x xs =>
      rw [mem_cons, not_or] at h
      rw [scatter, ih h.2, getElem?_set_ne (Ne.symm h.1)]

theorem scatter_append {order : List Nat} {xs : List α} (hlength : order.length = xs.length)
    (order' : List Nat) (xs' base : List α) :
    scatter (order ++ order') (xs ++ xs') base = scatter order' xs' (scatter order xs base) := by
  induction order generalizing xs base with
  | nil =>
    cases length_eq_zero_iff.1 hlength.symm
    rfl
  | cons i order ih =>
    cases xs with
    | nil => cases hlength
    | cons x xs => exact ih (Nat.succ.inj hlength) _

/-- **What is written at an index is read there.** -/
theorem getElem?_scatter {order : List Nat} {xs base : List α} (hnodup : order.Nodup)
    (hlength : order.length = xs.length) (hlt : ∀ i ∈ order, i < base.length) {s i : Nat}
    (hs : order[s]? = some i) : (scatter order xs base)[i]? = xs[s]? := by
  induction order generalizing xs base s with
  | nil => cases hs
  | cons j order ih =>
    cases xs with
    | nil => cases hlength
    | cons x xs =>
      rw [nodup_cons] at hnodup
      rw [forall_mem_cons] at hlt
      rw [scatter]
      cases s with
      | zero =>
        cases hs
        rw [getElem?_scatter_of_notMem hnodup.1, getElem?_set_self hlt.1]
        rfl
      | succ s =>
        exact ih hnodup.2 (Nat.succ.inj hlength) (fun k hk => by simpa using hlt.2 k hk) hs

end Gen2.Lib
