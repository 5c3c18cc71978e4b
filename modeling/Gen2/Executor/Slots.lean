import Gen2.Executor.Defs
import Mathlib.Tactic.Linarith

/-!
# The buffer of results

A slot is open if the cursor has not passed it and nothing is in it.  While the receiver is there,
resolving an open slot and flushing closes it and no other (`isOpen_resolve_flush`); what a flush
sends are the results at the positions it passes, in order (`flushSlots_sent`).
-/

namespace Gen2.Tools

open List Executor

variable {τ : Type} {s : Executor τ}

/-! ## One flush -/

theorem flushSlots_length (receiver : Bool) (cursor : Nat) (slots : List (Slot τ)) :
    (flushSlots receiver cursor slots).slots.length = slots.length := by
  induction slots generalizing cursor with
  | nil => rfl
  | cons slot slots ih =>
    cases slot with
    | pending => rfl
    | skipped => simp [flushSlots, ih]
    | ready value =>
      rw [flushSlots]
      split
      · simp [ih]
      · rfl

theorem flushSlots_cursor (receiver : Bool) (cursor : Nat) (slots : List (Slot τ)) :
    cursor ≤ (flushSlots receiver cursor slots).cursor ∧
      (flushSlots receiver cursor slots).cursor ≤ cursor + slots.length := by
  induction slots generalizing cursor with
  | nil => exact ⟨Nat.le_refl _, Nat.le_refl _⟩
  | cons slot slots ih =>
    have ih := ih (cursor + 1)
    cases slot with
    | pending => simp [flushSlots]
    | skipped =>
      simp only [flushSlots, length_cons]
      omega
    | ready value =>
      rw [flushSlots]
      split
      · simp only [length_cons]
        omega
      · simp

/-- What is sent are results at the positions that are passed, in order. -/
theorem flushSlots_sent (receiver : Bool) (cursor : Nat) (slots : List (Slot τ)) :
    ((flushSlots receiver cursor slots).sent.map Prod.fst).Pairwise (· < ·) ∧
      ∀ x ∈ (flushSlots receiver cursor slots).sent, cursor ≤ x.1 ∧
        x.1 < (flushSlots receiver cursor slots).cursor ∧
        slots[x.1 - cursor]? = some (.ready x.2) := by
  induction slots generalizing cursor with
  | nil => exact ⟨.nil, nofun⟩
  | cons slot slots ih =>
    obtain ⟨hpair, hmem⟩ := ih (cursor + 1)
    have htail : ∀ x ∈ (flushSlots receiver (cursor + 1) slots).sent, cursor ≤ x.1 ∧
        x.1 < (flushSlots receiver (cursor + 1) slots).cursor ∧
        (slot :: slots)[x.1 - cursor]? = some (.ready x.2) := by
      intro x hx
      obtain ⟨hle, hlt, hget⟩ := hmem x hx
      refine ⟨by omega, hlt, ?_⟩
      rw [show x.1 - cursor = x.1 - (cursor + 1) + 1 by omega]
      exact hget
    cases slot with
    | pending => exact ⟨.nil, nofun⟩
    | skipped => exact ⟨hpair, htail⟩
    | ready value =>
      rw [flushSlots]
      split
      · refine ⟨pairwise_cons.2 ⟨fun i hi => ?_, hpair⟩, fun x hx => ?_⟩
        · obtain ⟨x, hx, rfl⟩ := mem_map.1 hi
          exact (hmem x hx).1
        · rcases mem_cons.1 hx with rfl | hx
          · have := (flushSlots_cursor receiver (cursor + 1) slots).1
            exact ⟨Nat.le_refl _, this, by simp⟩
          · exact htail x hx
      · exact ⟨.nil, nofun⟩

/-- A flush only empties slots. -/
theorem flushSlots_slots (receiver : Bool) (cursor : Nat) (slots : List (Slot τ)) (i : Nat) :
    (flushSlots receiver cursor slots).slots[i]? = slots[i]? ∨
      (flushSlots receiver cursor slots).slots[i]? = some .pending := by
  induction slots generalizing cursor i with
  | nil => exact .inl rfl
  | cons slot slots ih =>
    cases slot with
    | pending => exact .inl rfl
    | skipped =>
      cases i with
      | zero => exact .inr rfl
      | succ i => exact ih (cursor + 1) i
    | ready value =>
      rw [flushSlots]
      split
      · cases i with
        | zero => exact .inr rfl
        | succ i => exact ih (cursor + 1) i
      · cases i with
        | zero => exact .inr rfl
        | succ i => exact .inl rfl

/-- With the receiver there, a flush passes what is resolved and stops at the first slot that is
not. -/
theorem flushSlots_true (cursor : Nat) (slots : List (Slot τ)) :
    (flushSlots true cursor slots).ok = true ∧
      (∀ i, (flushSlots true cursor slots).cursor ≤ cursor + i →
        (flushSlots true cursor slots).slots[i]? = slots[i]?) ∧
      (∀ i, cursor + i < (flushSlots true cursor slots).cursor → slots[i]? ≠ some .pending) ∧
      ((flushSlots true cursor slots).cursor = cursor + slots.length ∨
        slots[(flushSlots true cursor slots).cursor - cursor]? = some .pending) := by
  induction slots generalizing cursor with
  | nil => exact ⟨rfl, fun _ _ => rfl, fun i hi => absurd hi (by simp [flushSlots]), .inl rfl⟩
  | cons slot slots ih =>
    obtain ⟨hok, hkeep, hpass, hstop⟩ := ih (cursor + 1)
    have hle := (flushSlots_cursor true (cursor + 1) slots).1
    have hstop' : (flushSlots true (cursor + 1) slots).cursor = cursor + (slot :: slots).length ∨
        (slot :: slots)[(flushSlots true (cursor + 1) slots).cursor - cursor]? = some .pending := by
      rcases hstop with hend | hpending
      · exact .inl (by rw [hend, length_cons]; omega)
      · right
        rw [show (flushSlots true (cursor + 1) slots).cursor - cursor =
          (flushSlots true (cursor + 1) slots).cursor - (cursor + 1) + 1 by omega]
        exact hpending
    have hkeep' : ∀ i, (flushSlots true (cursor + 1) slots).cursor ≤ cursor + i →
        (Slot.pending :: (flushSlots true (cursor + 1) slots).slots)[i]? = (slot :: slots)[i]? := by
      intro i hi
      cases i with
      | zero => exact absurd hi (by omega)
      | succ i => exact hkeep i (by omega)
    have hpass' : slot ≠ .pending → ∀ i,
        cursor + i < (flushSlots true (cursor + 1) slots).cursor →
          (slot :: slots)[i]? ≠ some .pending := by
      intro hne i hi
      cases i with
      | zero => simpa using hne
      | succ i => exact hpass i (by omega)
    cases slot with
    | pending =>
      exact ⟨rfl, fun _ _ => rfl, fun i hi => absurd hi (by simp [flushSlots]),
        .inr (by simp [flushSlots])⟩
    | skipped => exact ⟨hok, hkeep', hpass' nofun, hstop'⟩
    | ready value => exact ⟨hok, hkeep', hpass' nofun, hstop'⟩

/-- With the receiver there and nothing skipped, a result is sent for every position passed. -/
theorem flushSlots_all (cursor : Nat) (slots : List (Slot τ)) (h : Slot.skipped ∉ slots) :
    (flushSlots true cursor slots).sent.map Prod.fst =
      range' cursor ((flushSlots true cursor slots).cursor - cursor) := by
  induction slots generalizing cursor with
  | nil => simp [flushSlots]
  | cons slot slots ih =>
    cases slot with
    | pending => simp [flushSlots]
    | skipped => exact absurd mem_cons_self h
    | ready value =>
      have hle := (flushSlots_cursor true (cursor + 1) slots).1
      simp only [flushSlots, if_true, map_cons]
      rw [ih (cursor + 1) (fun hs => h (mem_cons_of_mem _ hs)),
        show (flushSlots true (cursor + 1) slots).cursor - cursor =
          (flushSlots true (cursor + 1) slots).cursor - (cursor + 1) + 1 by omega,
        range'_succ]

/-! ## The buffer of an executor -/

/-- The cursor has not passed the slot, and nothing is in it. -/
def Executor.IsOpen (s : Executor τ) (i : Nat) : Prop :=
  s.cursor ≤ i ∧ s.buffer[i]? = some .pending

/-- There is nothing to flush. -/
def Executor.Tidy (s : Executor τ) : Prop :=
  s.cursor = s.buffer.length ∨ s.buffer[s.cursor]? = some .pending

theorem isOpen_resolve {seq : Nat} {slot : Slot τ} (hslot : slot ≠ .pending) (i : Nat) :
    (s.resolve seq slot).IsOpen i ↔ s.IsOpen i ∧ i ≠ seq := by
  simp only [Executor.IsOpen, resolve, getElem?_set]
  by_cases h : seq = i
  · subst h
    by_cases hlt : seq < s.buffer.length <;> simp [hlt, hslot]
  · simp [h, Ne.symm h]

theorem isOpen_reserve (seq i : Nat) : (s.reserve seq).IsOpen i ↔
    s.IsOpen i ∨ s.cursor ≤ i ∧ s.buffer.length ≤ i ∧ i ≤ seq := by
  simp only [Executor.IsOpen, reserve]
  by_cases hlt : i < s.buffer.length
  · rw [getElem?_append_left hlt]
    constructor
    · exact .inl
    · rintro (h | ⟨-, h, -⟩)
      · exact h
      · omega
  · rw [getElem?_append_right (by omega), getElem?_replicate,
      getElem?_eq_none (by omega)]
    by_cases hle : i ≤ seq
    · rw [if_pos (by omega)]
      simp
      omega
    · rw [if_neg (by omega)]
      simp
      omega

theorem flush_length : s.flush.buffer.length = s.buffer.length := by
  simp only [flush, length_append, flushSlots_length, length_take,
    length_drop]
  omega

section

variable (hc : s.cursor ≤ s.buffer.length)
include hc

theorem flush_cursor : s.cursor ≤ s.flush.cursor ∧ s.flush.cursor ≤ s.flush.buffer.length := by
  obtain ⟨h₁, h₂⟩ := flushSlots_cursor s.receiver s.cursor (s.buffer.drop s.cursor)
  rw [length_drop] at h₂
  rw [flush_length]
  exact ⟨h₁, h₂.trans (by omega)⟩

theorem flush_get_lt {i : Nat} (hi : i < s.cursor) : s.flush.buffer[i]? = s.buffer[i]? := by
  simp only [flush]
  rw [getElem?_append_left (by rw [length_take]; omega), getElem?_take_of_lt hi]

theorem flush_get_le {i : Nat} (hi : s.cursor ≤ i) : s.flush.buffer[i]? =
    (flushSlots s.receiver s.cursor (s.buffer.drop s.cursor)).slots[i - s.cursor]? := by
  simp only [flush]
  rw [getElem?_append_right (by rw [length_take]; omega), length_take,
    Nat.min_eq_left hc]

theorem flush_get (i : Nat) :
    s.flush.buffer[i]? = s.buffer[i]? ∨ s.flush.buffer[i]? = some .pending := by
  rcases Nat.lt_or_ge i s.cursor with hi | hi
  · exact .inl (flush_get_lt hc hi)
  rw [flush_get_le hc hi]
  have hget : (s.buffer.drop s.cursor)[i - s.cursor]? = s.buffer[i]? := by
    rw [getElem?_drop]
    congr 1
    omega
  rw [← hget]
  exact flushSlots_slots ..

omit hc in
/-- What a flush sends: results at positions it passes, in order. -/
theorem flush_results : ∃ sent, s.flush.results = s.results ++ sent ∧
    (sent.map Prod.fst).Pairwise (· < ·) ∧
    ∀ x ∈ sent, s.cursor ≤ x.1 ∧ x.1 < s.flush.cursor ∧ s.buffer[x.1]? = some (.ready x.2) := by
  obtain ⟨hpair, hmem⟩ := flushSlots_sent s.receiver s.cursor (s.buffer.drop s.cursor)
  refine ⟨_, rfl, hpair, fun x hx => ?_⟩
  obtain ⟨hle, hlt, hget⟩ := hmem x hx
  rw [getElem?_drop, show s.cursor + (x.1 - s.cursor) = x.1 by omega] at hget
  exact ⟨hle, hlt, hget⟩

variable (hr : s.receiver = true)
include hr

omit hc in
theorem flushOk_of_receiver : s.flushOk = true := by
  rw [flushOk, hr]
  exact (flushSlots_true ..).1

/-- A flush passes over no open slot. -/
theorem isOpen_flush (i : Nat) : s.flush.IsOpen i ↔ s.IsOpen i := by
  obtain ⟨-, hkeep, hpass, -⟩ := flushSlots_true s.cursor (s.buffer.drop s.cursor)
  have hcur : s.flush.cursor = (flushSlots true s.cursor (s.buffer.drop s.cursor)).cursor := by
    rw [flush, hr]
  have hle := (flush_cursor hc).1
  have hdrop : ∀ j, s.cursor ≤ j → (s.buffer.drop s.cursor)[j - s.cursor]? = s.buffer[j]? := by
    intro j hj
    rw [getElem?_drop]
    congr 1
    omega
  constructor
  · rintro ⟨hcursor, hget⟩
    have hi : s.cursor ≤ i := hle.trans hcursor
    rw [flush_get_le hc hi, hr, hkeep _ (by omega), hdrop i hi] at hget
    exact ⟨hi, hget⟩
  · rintro ⟨hi, hget⟩
    have hcursor : s.flush.cursor ≤ i := by
      by_contra hlt
      refine hpass (i - s.cursor) (by omega) ?_
      rw [hdrop i hi]
      exact hget
    refine ⟨hcursor, ?_⟩
    rw [flush_get_le hc hi, hr, hkeep _ (by omega), hdrop i hi]
    exact hget

theorem tidy_flush : s.flush.Tidy := by
  obtain ⟨-, hkeep, -, hstop⟩ := flushSlots_true s.cursor (s.buffer.drop s.cursor)
  have hcur : s.flush.cursor = (flushSlots true s.cursor (s.buffer.drop s.cursor)).cursor := by
    rw [flush, hr]
  have hle := (flush_cursor hc).1
  rcases hstop with hend | hpending
  · left
    rw [flush_length, hcur, hend, length_drop]
    omega
  · right
    rw [flush_get_le hc hle, hr, hkeep _ (by omega), hcur]
    exact hpending

/-- Where nothing is skipped, a result is sent for every position that is passed. -/
theorem flush_all (hs : ∀ i, s.cursor ≤ i → s.buffer[i]? ≠ some .skipped)
    (hres : s.results.map Prod.fst = range s.cursor) :
    s.flush.results.map Prod.fst = range s.flush.cursor := by
  have hskip : Slot.skipped ∉ s.buffer.drop s.cursor := by
    intro hmem
    obtain ⟨j, hj⟩ := mem_iff_getElem?.1 hmem
    rw [getElem?_drop] at hj
    exact hs _ (Nat.le_add_right ..) hj
  have hle := (flush_cursor hc).1
  have hcur : s.flush.cursor = (flushSlots true s.cursor (s.buffer.drop s.cursor)).cursor := by
    rw [flush, hr]
  have hsent : s.flush.results = s.results ++
      (flushSlots true s.cursor (s.buffer.drop s.cursor)).sent := by
    rw [flush, hr]
  have happ := range'_append_1 (s := 0) (m := s.cursor) (n := s.flush.cursor - s.cursor)
  rw [Nat.zero_add, Nat.add_sub_cancel' hle] at happ
  rw [hsent, map_append, hres, flushSlots_all s.cursor _ hskip, ← hcur,
    range_eq_range', range_eq_range', happ]

end

end Gen2.Tools
