import Mathlib.Tactic.Common

/-!
# Replacing a pattern

`replaceAll pat rep s` is `s` with every occurrence of `pat` replaced, from the left, without
overlap.

* `not_infix_replaceAll`: where the pattern has nothing of the replacement, none is left afterwards.
* `replaceAll_hides`: where the pattern has a part of the replacement in it, a text can be so
  written that the pattern comes out of it.
-/

namespace Gen2.Lib

open List

universe u

variable {α : Type u} [DecidableEq α]

/-- The first `skip` elements belong to an occurrence that has been replaced. -/
def replaceFrom (pat rep : List α) : Nat → List α → List α
  | _, [] => []
  | skip + 1, _ :: s => replaceFrom pat rep skip s
  | 0, a :: s =>
    if pat.isPrefixOf (a :: s) then rep ++ replaceFrom pat rep (pat.length - 1) s
    else a :: replaceFrom pat rep 0 s

/-- `str::replace`, for a pattern that is not empty. -/
def replaceAll (pat rep s : List α) : List α := replaceFrom pat rep 0 s

variable {pat rep : List α}

theorem replaceFrom_drop (skip : Nat) (s : List α) :
    replaceFrom pat rep skip s = replaceFrom pat rep 0 (s.drop skip) := by
  induction s generalizing skip with
  | nil => cases skip <;> rfl
  | cons a s ih =>
    cases skip with
    | zero => rfl
    | succ skip => exact ih skip

theorem length_replaceFrom_le (h : rep.length ≤ pat.length) (skip : Nat) (s : List α) :
    (replaceFrom pat rep skip s).length ≤ s.length - skip := by
  induction s generalizing skip with
  | nil => cases skip <;> exact Nat.zero_le _
  | cons a s ih =>
    cases skip with
    | succ skip =>
      rw [replaceFrom, length_cons, Nat.add_sub_add_right]
      exact ih skip
    | zero =>
      rw [replaceFrom]
      split
      next hstarts =>
        have hle := ( isPrefixOf_iff_prefix.1 hstarts).length_le
        have := ih (pat.length - 1)
        rw [length_cons] at hle
        rw [length_append, length_cons]
        omega
      next => exact Nat.succ_le_succ (ih 0)

/-- A replacement that is not longer does not make a text longer. -/
theorem length_replaceAll_le (h : rep.length ≤ pat.length) (s : List α) :
    (replaceAll pat rep s).length ≤ s.length := length_replaceFrom_le h 0 s

/-- A beginning of the result that has nothing of the replacement is a beginning of the text. -/
theorem prefix_of_prefix_replaceFrom {q s : List α} (hrep : rep ≠ []) (hq : ∀ a ∈ q, a ∉ rep)
    (h : q <+: replaceFrom pat rep 0 s) : q <+: s := by
  induction s generalizing q with
  | nil => exact h
  | cons a s ih =>
    cases q with
    | nil => exact nil_prefix
    | cons b q =>
      rw [replaceFrom] at h
      split at h
      · cases rep with
        | nil => exact absurd rfl hrep
        | cons r rep =>
          obtain ⟨rfl, -⟩ := cons_prefix_cons.1 h
          exact absurd mem_cons_self (hq b mem_cons_self)
      · obtain ⟨rfl, htail⟩ := cons_prefix_cons.1 h
        exact cons_prefix_cons.2
          ⟨rfl, ih (fun x hx => hq x (mem_cons_of_mem _ hx)) htail⟩

omit [DecidableEq α] in
/-- What has nothing of the front of a text stands behind it. -/
theorem infix_of_infix_append {q front s : List α} (hne : q ≠ []) (hq : ∀ a ∈ q, a ∉ front)
    (h : q <:+: front ++ s) : q <:+: s := by
  induction front with
  | nil => exact h
  | cons a front ih =>
    refine ih (fun x hx hmem => hq x hx (mem_cons_of_mem _ hmem)) ?_
    rcases infix_cons_iff.1 h with h | h
    · cases q with
      | nil => exact absurd rfl hne
      | cons b q =>
        obtain ⟨rfl, -⟩ := cons_prefix_cons.1 h
        exact absurd mem_cons_self (hq b mem_cons_self)
    · exact h

omit [DecidableEq α] in
/-- What has nothing of a separator stands on one side of it. -/
theorem infix_append_cons_iff {q s t : List α} {x : α} (hx : x ∉ q) :
    q <:+: s ++ x :: t ↔ q <:+: s ∨ q <:+: t := by
  constructor
  · intro h
    have hstarts : ∀ s : List α, q <+: s ++ x :: t → q <+: s := by
      intro s h
      rcases Nat.lt_or_ge s.length q.length with hlt | hle
      · have hlong : s ++ [x] <+: q := prefix_of_prefix_length_le ⟨t, by simp⟩ h (by simpa)
        exact absurd (hlong.subset (mem_append_right _ (mem_singleton_self x))) hx
      · exact prefix_of_prefix_length_le h (prefix_append _ _) hle
    induction s with
    | nil =>
      rcases infix_cons_iff.1 h with h | h
      · exact .inl (hstarts [] h).isInfix
      · exact .inr h
    | cons a s ih =>
      rcases infix_cons_iff.1 h with h | h
      · exact .inl (hstarts (a :: s) h).isInfix
      · exact (ih h).imp_left fun h => h.trans (suffix_cons a s).isInfix
  · rintro (h | h)
    · exact h.trans (prefix_append _ _).isInfix
    · exact h.trans ((suffix_cons x t).trans (suffix_append _ _)).isInfix

theorem not_infix_replaceFrom (hpat : pat ≠ []) (hrep : rep ≠ []) (hq : ∀ a ∈ pat, a ∉ rep)
    (skip : Nat) (s : List α) : ¬ pat <:+: replaceFrom pat rep skip s := by
  induction s generalizing skip with
  | nil =>
    intro h
    rw [replaceFrom] at h
    exact hpat (infix_nil.1 h)
  | cons a s ih =>
    cases skip with
    | succ skip => exact ih skip
    | zero =>
      intro h
      rw [replaceFrom] at h
      split at h
      · exact ih _ (infix_of_infix_append hpat hq h)
      next hnot =>
        rcases infix_cons_iff.1 h with h | h
        · have hfirst : pat <+: replaceFrom pat rep 0 (a :: s) := by
            rw [replaceFrom, if_neg hnot]
            exact h
          exact hnot ( isPrefixOf_iff_prefix.2 (prefix_of_prefix_replaceFrom hrep hq hfirst))
        · exact ih 0 h

/-- **Nothing is left of a pattern** that has nothing of the replacement. -/
theorem not_infix_replaceAll (hpat : pat ≠ []) (hrep : rep ≠ []) (hq : ∀ a ∈ pat, a ∉ rep)
    (s : List α) : ¬ pat <:+: replaceAll pat rep s :=
  not_infix_replaceFrom hpat hrep hq 0 s

/-- A text without an occurrence is left alone. -/
theorem replaceAll_of_not_infix {s : List α} (h : ¬ pat <:+: s) : replaceAll pat rep s = s := by
  induction s with
  | nil => rfl
  | cons a s ih =>
    rw [infix_cons_iff, not_or] at h
    rw [replaceAll, replaceFrom, if_neg (by simpa [ isPrefixOf_iff_prefix] using h.1)]
    exact congrArg _ (ih h.2)

/-- What comes before the first place where a pattern can end its beginning `u` is copied. -/
theorem replaceFrom_copies {x : α} {u v w rest : List α} (hu : x ∉ u) (hw : x ∉ w) :
    replaceFrom (u ++ x :: v) rep 0 (w ++ (u ++ x :: v ++ rest)) =
      w ++ replaceFrom (u ++ x :: v) rep 0 (u ++ x :: v ++ rest) := by
  induction w with
  | nil => rfl
  | cons a w ih =>
    have hnot : ¬ u ++ x :: v <+: a :: (w ++ (u ++ x :: v ++ rest)) := by
      intro h
      have hleft : u ++ [x] <+: a :: (w ++ (u ++ x :: v ++ rest)) :=
        List.IsPrefix.trans ⟨v, by simp⟩ h
      have hright : a :: w ++ u <+: a :: (w ++ (u ++ x :: v ++ rest)) := ⟨x :: v ++ rest, by simp⟩
      have hmem := (prefix_of_prefix_length_le hleft hright (by simp)).subset
        (mem_append_right u (mem_singleton_self x))
      rcases mem_append.1 hmem with hmem | hmem
      · exact hw hmem
      · exact hu hmem
    rw [cons_append, replaceFrom, if_neg (by rwa [ isPrefixOf_iff_prefix]),
      ih fun h => hw (mem_cons_of_mem _ h), cons_append]

/-- **A pattern with the replacement in it can be hidden**: this text has it only after the
replacement. -/
theorem replaceAll_hides {x : α} {u v : List α} (hu : x ∉ u) :
    replaceAll (u ++ x :: v) [x] (u ++ (u ++ x :: v ++ v)) = u ++ x :: v := by
  have hshort : ¬ u ++ x :: v <:+: v := fun h => by
    have := h.length_le
    simp at this
    omega
  have hone : replaceFrom (u ++ x :: v) [x] 0 (u ++ x :: v ++ v) = x :: v := by
    obtain ⟨a, s, heq⟩ : ∃ a s, u ++ x :: v = a :: s := by cases u <;> exact ⟨_, _, rfl⟩
    have hlength : (u ++ x :: v).length - 1 = s.length := by rw [heq]; rfl
    have hstarts : (u ++ x :: v).isPrefixOf (a :: (s ++ v)) = true := by
      rw [ isPrefixOf_iff_prefix, heq, ← cons_append]
      exact prefix_append _ _
    have hrest : replaceFrom (u ++ x :: v) [x] 0 v = v := replaceAll_of_not_infix hshort
    nth_rewrite 2 [heq]
    rw [cons_append, replaceFrom, if_pos hstarts, hlength, replaceFrom_drop, drop_left,
      hrest]
    rfl
  rw [replaceAll, replaceFrom_copies hu hu, hone]

end Gen2.Lib
