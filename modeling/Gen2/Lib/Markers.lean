import Gen2.Lib.Patterns
import Gen2.Lib.Scan

/-!
# Scanning for markers

A text goes from state to state at markers.  In each state some markers are looked for; the first of
them that stands in the text ends the state, and the text behind it is in the next one.

* `Markers` are the markers of each state, and the states behind them.  They stand apart: none of
  them begins in another one.
* `Markers.scanner` goes from one marker to the next, so that chunks make no difference.
* Text in which no marker can begin is only kept (`Markers.feed_of_clear`), and a text that ends
  with the first marker in it leads to the state behind (`Markers.feed_marker`).
-/

namespace Gen2.Lib

open List

universe u v

/-- What is looked for in each state, and what state is behind it. -/
structure Markers (α : Type u) (σ : Type v) where
  sought : σ → List (List α × σ)
  ne : ∀ q, ∀ c ∈ sought q, c.1 ≠ []
  apart : ∀ q, Apart ((sought q).map Prod.fst)
  inj : ∀ q, ∀ c ∈ sought q, ∀ d ∈ sought q, c.1 = d.1 → c = d

namespace Markers

variable {α : Type u} [DecidableEq α] {σ : Type v} (M : Markers α σ)

/-- The markers of a state. -/
def texts (q : σ) : List (List α) := (M.sought q).map Prod.fst

/-- The first marker. -/
def first (q : σ) (s : List α) : Option (Nat × List α × σ) :=
  earliest ((M.sought q).map fun c => (c.1, c)) s

variable {M} {q : σ} {s : List α}

variable {c : List α × σ}

omit [DecidableEq α] in
theorem mem_texts (hc : c ∈ M.sought q) : c.1 ∈ M.texts q :=
  mem_map_of_mem hc

variable {i : Nat}

/-- **What the first marker is.** -/
theorem first_eq_some_iff :
    M.first q s = some (i, c) ↔ (c ∈ M.sought q ∧ c.1 <+: s.drop i) ∧
      ∀ j < i, ∀ p ∈ M.texts q, ¬ p <+: s.drop j := by
  have hfst : ((M.sought q).map fun c => (c.1, c)).map Prod.fst = M.texts q := by simp [texts]
  rw [first, earliest_eq_some_iff]
  · simp only [mem_map, texts]
    constructor
    · rintro ⟨⟨_, ⟨d, hd, rfl⟩, rfl, hpre⟩, hmin⟩
      refine ⟨⟨hd, hpre⟩, fun j hj p hp => ?_⟩
      obtain ⟨e, he, rfl⟩ := hp
      exact hmin j hj _ ⟨e, he, rfl⟩
    · rintro ⟨⟨hc, hpre⟩, hmin⟩
      refine ⟨⟨_, ⟨c, hc, rfl⟩, rfl, hpre⟩, fun j hj d hd => ?_⟩
      obtain ⟨e, he, rfl⟩ := hd
      exact hmin j hj _ ⟨e, he, rfl⟩
  · exact forall_mem_map.2 fun c hc => M.ne q c hc
  · rw [hfst]
    exact M.apart q
  · exact forall_mem_map.2 fun c hc => forall_mem_map.2 fun d hd heq =>
      M.inj q c hc d hd heq

theorem first_room (h : M.first q s = some (i, c)) :
    0 < c.1.length ∧ i + c.1.length ≤ s.length := by
  obtain ⟨⟨hc, hpre⟩, -⟩ := first_eq_some_iff.1 h
  have hpos := length_pos_iff.2 (M.ne q c hc)
  have hlen := hpre.length_le
  rw [length_drop] at hlen
  omega

/-- Before the first marker nothing can become one. -/
theorem clear_of_first (h : M.first q s = some (i, c)) : Clear (M.texts q) i s := by
  have hroom := (first_room h).2
  obtain ⟨⟨hc, hpre⟩, hmin⟩ := first_eq_some_iff.1 h
  exact clear_before (M.apart q) (mem_texts hc) (M.ne q c hc) hroom hpre hmin

/-- **The scanner**: on to behind the first marker. -/
def scanner (M : Markers α σ) : Scanner α Empty σ where
  next q s := (M.first q s).map fun (i, c) => ([], i + c.1.length, c.2)
  progress {q s out n q'} h := by
    obtain ⟨⟨i, c⟩, hfirst, heq⟩ := Option.map_eq_some_iff.1 h
    obtain ⟨hpos, hroom⟩ := first_room hfirst
    cases heq
    exact ⟨by omega, hroom⟩
  stable {q s r} t h := by
    obtain ⟨⟨i, c⟩, hfirst, heq⟩ := Option.map_eq_some_iff.1 h
    have hroom := (first_room hfirst).2
    have hclear := (clear_of_first hfirst).append (by omega) t
    obtain ⟨⟨hc, hpre⟩, -⟩ := first_eq_some_iff.1 hfirst
    have hlater : M.first q (s ++ t) = some (i, c) := by
      refine first_eq_some_iff.2 ⟨⟨hc, ?_⟩, fun j hj p hp => (hclear j hj p hp).1⟩
      rw [List.drop_append_of_le_length (by omega)]
      exact hpre.trans (List.prefix_append _ _)
    rw [hlater]
    exact congrArg some heq

theorem scanner_next : M.scanner.next q s =
    (M.first q s).map fun (i, c) => ([], i + c.1.length, c.2) := rfl

/-- Where no marker can begin, the scanner waits. -/
theorem next_of_clear {n : Nat} (h : Clear (M.texts q) n s) : M.scanner.next q
    (s.take n) = none := by
  rw [scanner_next, Option.map_eq_none_iff]
  cases hfirst : M.first q (s.take n) with
  | none => rfl
  | some found =>
    obtain ⟨i, c⟩ := found
    obtain ⟨hpos, hroom⟩ := first_room hfirst
    obtain ⟨⟨hc, hpre⟩, -⟩ := first_eq_some_iff.1 hfirst
    rw [length_take] at hroom
    rw [drop_take] at hpre
    exact absurd (hpre.trans ( take_prefix _ _)) (h i (by omega) c.1 (mem_texts hc)).1

theorem next_marker (hclear : Clear (M.texts q) i s) (hc : c ∈ M.sought q)
    (hpre : c.1 <+: s.drop i) :
    M.scanner.next q (s.take (i + c.1.length)) = some ([], i + c.1.length, c.2) := by
  have hfirst : M.first q (s.take (i + c.1.length)) = some (i, c) := by
    refine first_eq_some_iff.2 ⟨⟨hc, ?_⟩, fun j hj p hp hpre' => ?_⟩
    · rw [drop_take, Nat.add_sub_cancel_left]
      exact prefix_take_iff.2 ⟨hpre, Nat.le_refl _⟩
    · rw [drop_take] at hpre'
      exact (hclear j hj p hp).1 (hpre'.trans ( take_prefix _ _))
  rw [scanner_next, hfirst]
  rfl

/-! ## Feeding it -/

variable {r : List Empty × σ × List α} {n : Nat}

/-- **Text in which no marker can begin** is kept, and the state is the same. -/
theorem feed_of_clear (h : Clear (M.texts r.2.1) (r.2.2.length + n) (r.2.2 ++ s)) :
    M.scanner.feed r (s.take n) = (r.1, r.2.1, r.2.2 ++ s.take n) := by
  have hnext := next_of_clear h
  rw [take_length_add_append] at hnext
  rw [Scanner.feed, M.scanner.scan_none hnext, append_nil]

/-- **Text up to behind the first marker** leads to the state behind it. -/
theorem feed_marker (hclear : Clear (M.texts r.2.1) (r.2.2.length + i) (r.2.2 ++ s))
    (hc : c ∈ M.sought r.2.1) (hpre : c.1 <+: s.drop i) :
    M.scanner.feed r (s.take (i + c.1.length)) = (r.1, c.2, []) := by
  have hnext := next_marker (i := r.2.2.length + i) hclear hc (by
    rw [drop_append, drop_eq_nil_of_le (by omega), nil_append,
      Nat.add_sub_cancel_left]
    exact hpre)
  have hroom := hpre.length_le
  rw [Nat.add_assoc, take_length_add_append] at hnext
  rw [length_drop] at hroom
  have hend : (r.2.2 ++ s.take (i + c.1.length)).drop (r.2.2.length + (i + c.1.length)) = [] := by
    refine drop_eq_nil_of_le ?_
    rw [length_append, length_take]
    omega
  rw [Scanner.feed, M.scanner.scan_some hnext, hend, M.scanner.scan_none (M.scanner.next_nil _)]
  simp

end Markers

end Gen2.Lib
