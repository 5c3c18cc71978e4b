import Mathlib.Data.List.Nodup

/-!
# The first few of a ranking, read off a worse one

A ranking without repetitions and a second one of some of its elements, and when the first few of
the two are the same.

* `take_eq_take_iff`: exactly when the second has them all and puts nothing before one of them that
  the first puts after it.
* `take_filter_take_iff`: where the second is what the first begins with, exactly when that is
  enough.
-/

namespace Gen2
namespace Lib

open List

variable {α : Type}

/-- One element stands before another. -/
def Before (l : List α) (x y : α) : Prop := [x, y].Sublist l

variable {l : List α} {y : α}

theorem before_cons_self {a : α} (hy : y ∈ l) : Before (a :: l) a y :=
  (singleton_sublist.2 hy).cons_cons a

theorem before_cons_of_ne {a x : α} (hx : x ≠ a) : Before (a :: l) x y ↔ Before l x y := by
  refine ⟨fun h => ?_, fun h => h.cons a⟩
  cases h with
  | cons _ h => exact h
  | cons_cons _ h => exact absurd rfl hx

theorem Before.right_mem {x : α} (h : Before l x y) : y ∈ l :=
  h.subset (mem_cons_of_mem x (mem_singleton_self y))

theorem Before.left_mem {x : α} (h : Before l x y) : x ∈ l :=
  h.subset mem_cons_self

/-- Nothing stands before the first element. -/
theorem not_before_head {a : α} (hl : (a :: l).Nodup) : ¬ Before (a :: l) y a := by
  intro h
  rw [nodup_cons] at hl
  cases h with
  | cons _ h => exact hl.1 (Before.right_mem h)
  | cons_cons _ h => exact hl.1 (singleton_sublist.1 h)

theorem before_filter {p : α → Bool} {x : α} :
    Before (l.filter p) x y ↔ Before l x y ∧ p x = true ∧ p y = true := by
  refine ⟨fun h => ⟨h.trans filter_sublist, ?_, ?_⟩, fun ⟨h, hx, hy⟩ => ?_⟩
  · exact (mem_filter.1 h.left_mem).2
  · exact (mem_filter.1 h.right_mem).2
  · have hfilter := h.filter p
    rwa [filter_cons_of_pos hx, filter_cons_of_pos hy] at hfilter

/-- **The first few of two rankings are the same** exactly when the second has each of them and puts
nothing before it that the first puts after it. -/
theorem take_eq_take_iff {m : List α} (hl : l.Nodup) (hm : m.Nodup) (hsub : m ⊆ l) (n : Nat) :
    m.take n = l.take n ↔ ∀ x ∈ l.take n, x ∈ m ∧ ∀ y, Before l x y → ¬ Before m y x := by
  induction n generalizing l m with
  | zero => simp
  | succ n ih =>
    cases l with
    | nil =>
      rw [eq_nil_of_subset_nil hsub]
      simp
    | cons a l =>
      have ha := nodup_cons.1 hl
      rw [take_succ_cons]
      constructor
      · intro heq
        cases m with
        | nil => cases heq
        | cons b m =>
          rw [take_succ_cons] at heq
          injection heq with hba heq
          subst hba
          have hb := nodup_cons.1 hm
          have hsub' : m ⊆ l := fun z hz =>
            (mem_cons.1 (hsub (mem_cons_of_mem b hz))).resolve_left
              (fun h => hb.1 (h ▸ hz))
          have hrest := (ih ha.2 hb.2 hsub').1 heq
          intro x hx
          rcases mem_cons.1 hx with rfl | hx
          · exact ⟨mem_cons_self, fun y _ => not_before_head hm⟩
          have hne : x ≠ b := fun h => ha.1 (h ▸ mem_of_mem_take hx)
          refine ⟨mem_cons_of_mem b (hrest x hx).1, fun y hxy hyx => ?_⟩
          rw [before_cons_of_ne hne] at hxy
          have hy : y ≠ b := fun h => ha.1 (h ▸ hxy.right_mem)
          exact (hrest x hx).2 y hxy ((before_cons_of_ne hy).1 hyx)
      · intro hfirst
        obtain ⟨hmem, hahead⟩ := hfirst a mem_cons_self
        cases m with
        | nil => cases hmem
        | cons b m =>
          -- what the second begins with stands before the first element, so it is that one
          obtain rfl : b = a := by
            by_contra hne
            have hbl : b ∈ l := (mem_cons.1 (hsub mem_cons_self)).resolve_left hne
            have ham : a ∈ m := (mem_cons.1 hmem).resolve_left (Ne.symm hne)
            exact hahead b (before_cons_self hbl) (before_cons_self ham)
          have hb := nodup_cons.1 hm
          have hsub' : m ⊆ l := fun z hz =>
            (mem_cons.1 (hsub (mem_cons_of_mem b hz))).resolve_left
              (fun h => hb.1 (h ▸ hz))
          rw [take_succ_cons, (ih ha.2 hb.2 hsub').2]
          intro x hx
          have hne : x ≠ b := fun h => ha.1 (h ▸ mem_of_mem_take hx)
          obtain ⟨hxm, hxahead⟩ := hfirst x (mem_cons_of_mem b hx)
          refine ⟨(mem_cons.1 hxm).resolve_left hne, fun y hxy hyx => ?_⟩
          exact hxahead y (hxy.cons b) (hyx.cons b)

/-- The same of the elements that a predicate picks. -/
theorem take_filter_eq_iff {m : List α} (hl : l.Nodup) (hm : m.Nodup) (hsub : m ⊆ l) (p : α → Bool)
    (n : Nat) :
    (m.filter p).take n = (l.filter p).take n ↔
      ∀ x ∈ (l.filter p).take n, x ∈ m ∧
        ∀ y, p y = true → Before l x y → ¬ Before m y x := by
  rw [take_eq_take_iff (hl.filter p) (hm.filter p) (filter_subset p hsub)]
  refine forall₂_congr fun x hx => ?_
  have hpx : p x = true := (mem_filter.1 (mem_of_mem_take hx)).2
  simp only [mem_filter, hpx, and_true, before_filter, true_and]
  refine and_congr_right fun _ => forall_congr' fun y => ?_
  exact ⟨fun h hpy hxy hyx => h ⟨hxy, hpy⟩ ⟨hyx, hpy⟩, fun h hxy hyx => h hxy.2 hxy.1 hyx.1⟩

/-- **What a ranking begins with is enough** for the first few that a predicate picks exactly when
it has so many of them, or there are none after it. -/
theorem take_filter_take_iff (l : List α) (p : α → Bool) (n depth : Nat) :
    ((l.take depth).filter p).take n = (l.filter p).take n ↔
      n ≤ ((l.take depth).filter p).length ∨ ∀ x ∈ l.drop depth, p x = false := by
  have hsplit : l.filter p = (l.take depth).filter p ++ (l.drop depth).filter p := by
    rw [← filter_append, take_append_drop]
  rw [hsplit, take_append, self_eq_append_right, take_eq_nil_iff,
    filter_eq_nil_iff, Nat.sub_eq_zero_iff_le]
  simp only [Bool.not_eq_true]

end Lib
end Gen2
