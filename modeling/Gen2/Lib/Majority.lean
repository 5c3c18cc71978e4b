import Mathlib.Tactic.Common

/-!
# The majority vote

Votes are counted one by one with a candidate and a margin alone: a vote for the candidate adds to
the margin, another takes from it, and where there is none left the next vote names the candidate.
What more than half of the votes are for is the candidate in the end.
-/

namespace Gen2.Lib

open List

variable {α : Type*} [DecidableEq α] {votes : List α} {c x : α} {n : Nat}

/-- The count of some votes: a candidate that one of them is for, and its margin. -/
structure Elected (votes : List α) (c : α) (n : Nat) : Prop where
  mem : c ∈ votes
  margin_le : n ≤ votes.length
  own : 2 * votes.count c ≤ votes.length + n
  other : ∀ x ≠ c, 2 * votes.count x + n ≤ votes.length

namespace Elected

theorem first (c : α) : Elected [c] c 1 where
  mem := mem_singleton_self c
  margin_le := Nat.le_refl 1
  own := by simp
  other x hx := by simp [hx.symm]

theorem again (h : Elected votes c n) : Elected (c :: votes) c (n + 1) where
  mem := mem_cons_self
  margin_le := Nat.succ_le_succ h.margin_le
  own := by grind [h.own]
  other x hx := by grind [h.other x hx]

theorem against (h : Elected votes c (n + 1)) (hx : x ≠ c) : Elected (x :: votes) c n where
  mem := mem_cons_of_mem x h.mem
  margin_le := by grind [h.margin_le]
  own := by grind [h.own]
  other y hy := by grind [h.other y hy]

theorem replaced (h : Elected votes c 0) (hx : x ≠ c) : Elected (x :: votes) x 1 where
  mem := mem_cons_self
  margin_le := Nat.le_add_left 1 _
  own := by grind [h.other x hx]
  other y hy := by
    by_cases hyc : y = c
    · grind [h.own]
    · grind [h.other y hyc]

theorem eq_of_majority (h : Elected votes c n) (hx : votes.length < 2 * votes.count x) : x = c :=
  Decidable.byContradiction fun hne => by
    have := h.other x hne
    omega

end Elected
end Gen2.Lib
