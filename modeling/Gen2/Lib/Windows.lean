import Mathlib.Tactic.Common

/-!
# Windows over a sequence

`windowCount len width stride` windows of at most `width` elements, each `stride` behind the one
before, over a sequence of `len`.

* `le_window`: a window is in bounds, and not wider than it may be; `window_nonempty` says when it
  has an element.
* `window_succ`: one window begins before the one before it ends, or right there.
* `window_last` and `mem_window`: the last window ends with the sequence, and each element is in
  one.
* `covers_windows` has all of this.
* `flatten_toChunks`: pieces of a list are the list.
-/

namespace Gen2.Lib

open List

variable {len width stride : Nat}

/-- How many windows there are. -/
def windowCount (len width stride : Nat) : Nat :=
  if len ≤ width then 1 else 1 + (len - width + (stride - 1)) / stride

/-- Where window `i` begins and ends. -/
def window (len width stride i : Nat) : Nat × Nat :=
  (i * stride, min (i * stride + width) len)

theorem windowCount_pos : 0 < windowCount len width stride := by
  rw [windowCount]
  split
  · exact Nat.one_pos
  · exact Nat.lt_add_right _ Nat.one_pos

/-- Before the last window there is more to come. -/
theorem lt_of_succ_lt_windowCount (hstride : 0 < stride) {i : Nat}
    (h : i + 1 < windowCount len width stride) : i * stride + width < len := by
  rw [windowCount] at h
  split at h
  next => omega
  next =>
    have hi : i + 1 ≤ (len - width + (stride - 1)) / stride := by omega
    have hle := (Nat.le_div_iff_mul_le hstride).1 hi
    rw [Nat.succ_mul] at hle
    omega

theorem le_last (hstride : 0 < stride) :
    len ≤ (windowCount len width stride - 1) * stride + width := by
  rw [windowCount]
  split
  next => omega
  next =>
    rw [Nat.add_sub_cancel_left]
    have hlt := Nat.lt_div_mul_add (a := len - width + (stride - 1)) hstride
    omega

/-- A window begins in the sequence. -/
theorem window_start_lt (hstride : 0 < stride) (hle : stride ≤ width) (hlen : 0 < len) {i : Nat}
    (h : i < windowCount len width stride) : i * stride < len := by
  cases i with
  | zero => omega
  | succ i =>
    have hlt := lt_of_succ_lt_windowCount hstride h
    rw [Nat.succ_mul]
    omega

/-- **Bounds.** -/
theorem le_window (hstride : 0 < stride) (hle : stride ≤ width) {i : Nat}
    (h : i < windowCount len width stride) :
    (window len width stride i).1 ≤ (window len width stride i).2 ∧
      (window len width stride i).2 ≤ len ∧
      (window len width stride i).2 - (window len width stride i).1 ≤ width := by
  rw [window]
  rcases Nat.eq_zero_or_pos len with rfl | hlen
  · have hi : i = 0 := by
      rw [windowCount, if_pos (Nat.zero_le _)] at h
      omega
    subst hi
    simp
  · have := window_start_lt hstride hle hlen h
    refine ⟨?_, ?_, ?_⟩ <;> dsimp only <;> omega

/-- A sequence that is not empty has no empty window. -/
theorem window_nonempty (hstride : 0 < stride) (hle : stride ≤ width) (hlen : 0 < len) {i : Nat}
    (h : i < windowCount len width stride) :
    (window len width stride i).1 < (window len width stride i).2 := by
  have := window_start_lt hstride hle hlen h
  rw [window]
  dsimp only
  omega

/-- **No gap**, and what comes later begins later and ends later. -/
theorem window_succ (hstride : 0 < stride) (hle : stride ≤ width) {i : Nat}
    (h : i + 1 < windowCount len width stride) :
    (window len width stride i).1 < (window len width stride (i + 1)).1 ∧
      (window len width stride i).2 < (window len width stride (i + 1)).2 ∧
      (window len width stride (i + 1)).1 ≤ (window len width stride i).2 := by
  have := lt_of_succ_lt_windowCount hstride h
  rw [window, window, Nat.succ_mul]
  refine ⟨?_, ?_, ?_⟩ <;> dsimp only <;> omega

/-- **The last window ends with the sequence.** -/
theorem window_last (hstride : 0 < stride) :
    (window len width stride (windowCount len width stride - 1)).2 = len := by
  have := @le_last len width stride hstride
  rw [window]
  exact Nat.min_eq_right this

/-- **Each element is in a window.** -/
theorem mem_window (hstride : 0 < stride) (hle : stride ≤ width) {t : Nat} (h : t < len) :
    ∃ i < windowCount len width stride, (window len width stride i).1 ≤ t ∧
      t < (window len width stride i).2 := by
  have hcount := @windowCount_pos len width stride
  have hdiv := Nat.div_mul_le_self t stride
  have hmod := Nat.lt_div_mul_add (a := t) hstride
  rcases Nat.lt_or_ge (t / stride) (windowCount len width stride) with hlt | hge
  · refine ⟨t / stride, hlt, ?_, ?_⟩ <;> rw [window] <;> dsimp only <;> omega
  have hmul : (windowCount len width stride - 1) * stride ≤ t / stride * stride :=
    Nat.mul_le_mul_right _ (by omega)
  have hlast := @le_last len width stride hstride
  refine ⟨windowCount len width stride - 1, by omega, ?_, ?_⟩ <;> rw [window] <;> dsimp only <;>
    omega

/-! ## All of them -/

/-- The windows of a sequence. -/
def windows (len width stride : Nat) : List (Nat × Nat) :=
  (List.range (windowCount len width stride)).map (window len width stride)

theorem length_windows : (windows len width stride).length = windowCount len width stride := by
  rw [windows, length_map, length_range]

theorem getElem?_windows {i : Nat} {span : Nat × Nat}
    (h : (windows len width stride)[i]? = some span) :
    i < windowCount len width stride ∧ span = window len width stride i := by
  rw [windows, List.getElem?_map, Option.map_eq_some_iff] at h
  obtain ⟨k, hk, rfl⟩ := h
  obtain ⟨hi, rfl⟩ := List.getElem?_eq_some_iff.1 hk
  rw [List.length_range] at hi
  rw [List.getElem_range]
  exact ⟨hi, rfl⟩

/-- Windows that are in order and in bounds, leave no gap, and have every element of a sequence. -/
structure Covers (len width : Nat) (spans : List (Nat × Nat)) : Prop where
  bounds : ∀ span ∈ spans, span.1 ≤ span.2 ∧ span.2 ≤ len ∧ span.2 - span.1 ≤ width
  nonempty : 0 < len → ∀ span ∈ spans, span.1 < span.2
  ordered : ∀ (i : Nat) span next, spans[i]? = some span → spans[i + 1]? = some next →
    span.1 < next.1 ∧ span.2 < next.2
  gapless : ∀ (i : Nat) span next, spans[i]? = some span → spans[i + 1]? = some next →
    next.1 ≤ span.2
  last : ∃ span, spans.getLast? = some span ∧ span.2 = len
  covered : ∀ t < len, ∃ span ∈ spans, span.1 ≤ t ∧ t < span.2

/-- **The windows cover the sequence.** -/
theorem covers_windows (hstride : 0 < stride) (hle : stride ≤ width) :
    Covers len width (windows len width stride) := by
  have hmem : ∀ {span : Nat × Nat}, span ∈ windows len width stride →
      ∃ i < windowCount len width stride, window len width stride i = span := by
    intro span hspan
    obtain ⟨i, hi, rfl⟩ := mem_map.1 hspan
    exact ⟨i, mem_range.1 hi, rfl⟩
  have hpair : ∀ (i : Nat) span next, (windows len width stride)[i]? = some span →
      (windows len width stride)[i + 1]? = some next →
      span.1 < next.1 ∧ span.2 < next.2 ∧ next.1 ≤ span.2 := by
    intro i span next hspan hnext
    obtain ⟨-, rfl⟩ := getElem?_windows hspan
    obtain ⟨hi, rfl⟩ := getElem?_windows hnext
    exact window_succ hstride hle hi
  constructor
  case bounds =>
    intro span hspan
    obtain ⟨i, hi, rfl⟩ := hmem hspan
    exact le_window hstride hle hi
  case nonempty =>
    intro hlen span hspan
    obtain ⟨i, hi, rfl⟩ := hmem hspan
    exact window_nonempty hstride hle hlen hi
  case ordered =>
    intro i span next hspan hnext
    exact ⟨(hpair i span next hspan hnext).1, (hpair i span next hspan hnext).2.1⟩
  case gapless => exact fun i span next hspan hnext => (hpair i span next hspan hnext).2.2
  case last =>
    refine ⟨window len width stride (windowCount len width stride - 1), ?_, window_last hstride⟩
    have hcount := @windowCount_pos len width stride
    rw [getLast?_eq_getElem?, length_windows, windows, getElem?_map,
      getElem?_range (by omega)]
    rfl
  case covered =>
    intro t ht
    obtain ⟨i, hi, hspan⟩ := mem_window hstride hle ht
    exact ⟨_, mem_map.2 ⟨i, mem_range.2 hi, rfl⟩, hspan⟩

/-! ## Pieces -/

universe u

variable {α : Type u}

theorem flatten_toChunks_go (n : Nat) (xs : List α) (piece : Array α) (pieces : Array (List α)) :
    (toChunks.go n xs piece pieces).flatten = pieces.toList.flatten ++ piece.toList ++ xs := by
  induction xs generalizing piece pieces with
  | nil => simp [toChunks.go]
  | cons x xs ih =>
    rw [toChunks.go]
    split <;> rw [ih] <;> simp

/-- **Pieces of a list are the list.** -/
theorem flatten_toChunks (n : Nat) (xs : List α) : (xs.toChunks n).flatten = xs := by
  cases xs with
  | nil => cases n <;> rfl
  | cons x xs =>
    cases n with
    | zero => exact append_nil _
    | succ n =>
      rw [toChunks, flatten_toChunks_go]
      · rfl
      · exact nofun

end Gen2.Lib
