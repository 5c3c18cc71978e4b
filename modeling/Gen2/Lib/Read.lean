import Gen2.Lib.Patterns
import Mathlib.Data.List.Basic

/-!
# Readers of a text that is still arriving

A reader looks at the beginning of a text.  It comes to a value and says how much of the text it has
read for it; or it needs more of the text; or it crashes.

* `Reader` is a monad: one reader, and then another on what is left.
* `Reads firm f` is what a reader has to satisfy: it reads no more than there is, and where `firm`
  holds, what comes later in the text changes nothing once it has come to a value or crashed.  A
  reader that knows that the text has ended is not firm.
* `Yields P f` says what kind of value a reader comes to.
* `Prompt f` says that a reader does not look past the one behind what it has read.
* `bind_eq_done` takes a run of two readers apart, and `Reads.bind` and `Yields.bind` put two
  readers together.
-/

namespace Gen2.Lib

open List

universe u v

/-- What a reader comes to. -/
inductive Look (β : Type v)
  | more
  | crash
  | done (value : β) (len : Nat)

/-- A reader of the beginning of a text. -/
def Reader (α : Type u) (β : Type v) := List α → Look β

namespace Reader

variable {α : Type u} {β γ : Type v}

/-- Come to a value without reading. -/
def pure (value : β) : Reader α β := fun _ => .done value 0

/-- Read on where the first reader has stopped. -/
def bind (f : Reader α β) (g : β → Reader α γ) : Reader α γ := fun s =>
  match f s with
  | .more => .more
  | .crash => .crash
  | .done value len =>
    match g value (s.drop len) with
    | .more => .more
    | .crash => .crash
    | .done value' len' => .done value' (len + len')

instance : Monad (Reader α) where
  pure := pure
  bind := bind

/-- Read no further than the text goes, and stay with it if `firm`. -/
structure Reads (firm : Prop) (f : Reader α β) : Prop where
  within : ∀ {s value len}, f s = .done value len → len ≤ s.length
  stable : firm → ∀ {s} (t), f s ≠ .more → f (s ++ t) = f s

theorem bind_apply (f : Reader α β) (g : β → Reader α γ) (s : List α) :
    (f >>= g) s = match f s with
      | .more => .more
      | .crash => .crash
      | .done value len =>
        match g value (s.drop len) with
        | .more => .more
        | .crash => .crash
        | .done value' len' => .done value' (len + len') := rfl

variable {f : Reader α β} {g : β → Reader α γ}

/-- **Taking a run apart**: both readers have come to a value. -/
theorem bind_eq_done {s : List α} {value : γ} {len : Nat} :
    (f >>= g) s = .done value len ↔ ∃ value₁ len₁ len₂, f s = .done value₁ len₁ ∧
      g value₁ (s.drop len₁) = .done value len₂ ∧ len = len₁ + len₂ := by
  rw [bind_apply]
  constructor
  · intro h
    cases hf : f s with
    | more => simp [hf] at h
    | crash => simp [hf] at h
    | done value₁ len₁ =>
      cases hg : g value₁ (s.drop len₁) with
      | more => simp [hf, hg] at h
      | crash => simp [hf, hg] at h
      | done value₂ len₂ =>
        simp only [hf, hg, Look.done.injEq] at h
        exact ⟨value₁, len₁, len₂, rfl, h.1 ▸ hg, h.2.symm⟩
  · rintro ⟨value₁, len₁, len₂, hf, hg, rfl⟩
    simp [hf, hg]

variable {firm : Prop}

theorem Reads.pure (value : β) : Reads firm (Pure.pure value : Reader α β) where
  within h := by
    cases h
    exact Nat.zero_le _
  stable _ _ _ _ := rfl

theorem Reads.bind (hf : Reads firm f) (hg : ∀ value, Reads firm (g value)) :
    Reads firm (f >>= g) where
  within {s value len} h := by
    obtain ⟨value₁, len₁, len₂, h₁, h₂, rfl⟩ := bind_eq_done.1 h
    have hle₁ := hf.within h₁
    have hle₂ := (hg value₁).within h₂
    rw [length_drop] at hle₂
    omega
  stable hfirm s t h := by
    rw [bind_apply] at h ⊢
    rw [bind_apply]
    cases hfs : f s with
    | more => simp [hfs] at h
    | crash => rw [hf.stable hfirm t (by simp [hfs]), hfs]
    | done value₁ len₁ =>
      rw [hf.stable hfirm t (by simp [hfs]), hfs]
      simp only [hfs] at h
      simp only
      rw [drop_append_of_le_length (hf.within hfs),
        (hg value₁).stable hfirm t fun hmore => h (by simp [hmore])]

theorem Reads.ite {c : Prop} [Decidable c] {g : Reader α β} (hf : Reads firm f)
    (hg : Reads firm g) : Reads firm (if c then f else g) := by
  split
  · exact hf
  · exact hg

/-- Every value that the reader comes to satisfies `P`. -/
def Yields (P : β → Prop) (f : Reader α β) : Prop :=
  ∀ s value len, f s = .done value len → P value

theorem Yields.mono {P Q : β → Prop} (h : Yields P f) (himp : ∀ value, P value → Q value) :
    Yields Q f :=
  fun s value len heq => himp value (h s value len heq)

theorem Yields.pure {P : β → Prop} {value : β} (h : P value) :
    Yields P (Pure.pure value : Reader α β) := by
  intro s value' len heq
  cases heq
  exact h

theorem Yields.bind {P : γ → Prop} (hg : ∀ value, Yields P (g value)) : Yields P (f >>= g) := by
  intro s value len h
  obtain ⟨value₁, len₁, len₂, -, h₂, -⟩ := bind_eq_done.1 h
  exact hg value₁ _ _ _ h₂

theorem Yields.ite {P : β → Prop} {c : Prop} [Decidable c] {g : Reader α β} (hf : Yields P f)
    (hg : Yields P g) : Yields P (if c then f else g) := by
  split
  · exact hf
  · exact hg

/-- What has been read, and one more, is all that the reader has looked at. -/
def Prompt (f : Reader α β) : Prop :=
  ∀ s value len, f s = .done value len → ∀ t, t <+: s → len < t.length → f t = .done value len

/-! ## Pieces to read -/

/-- A value, where there is one. -/
def orCrash : Option β → Reader α β
  | some value => Pure.pure value
  | none => fun _ => .crash

/-- The next `n`. -/
def skip (n : Nat) : Reader α (List α) := fun s =>
  if n ≤ s.length then .done (s.take n) n else .more

/-- The next one; it is looked at, and not read. -/
def peek : Reader α α
  | [] => .more
  | a :: _ => .done a 0

/-- A run of those that satisfy `p`; it has ended where another one follows. -/
def run (p : α → Bool) : Reader α (List α) := fun s =>
  if (s.takeWhile p).length < s.length then .done (s.takeWhile p) (s.takeWhile p).length else .more

theorem orCrash_reads (o : Option β) : Reads firm (orCrash o : Reader α β) := by
  cases o with
  | some value => exact Reads.pure value
  | none => exact ⟨fun h => (nomatch h), fun _ _ _ _ => rfl⟩

theorem skip_reads (n : Nat) : Reads firm (skip n : Reader α (List α)) where
  within {s value len} h := by
    rw [skip] at h
    split at h
    · cases h
      assumption
    · cases h
  stable _ s t h := by
    by_cases hn : n ≤ s.length
    · rw [skip, skip, if_pos hn, if_pos (by rw [length_append]; omega),
        take_append_of_le_length hn]
    · rw [skip, if_neg hn] at h
      exact absurd rfl h

theorem skip_prompt (n : Nat) : Prompt (skip n : Reader α (List α)) := by
  intro s value len h t ht hlen
  rw [skip] at h
  split at h
  · cases h
    rw [skip, if_pos (Nat.le_of_lt hlen)]
    obtain ⟨rest, rfl⟩ := ht
    rw [take_append_of_le_length (Nat.le_of_lt hlen)]
  · cases h

theorem peek_prompt : Prompt (peek : Reader α α) := by
  intro s value len h t ht hlen
  cases t with
  | nil => exact absurd hlen (Nat.not_lt_zero _)
  | cons a t =>
    obtain ⟨rest, rfl⟩ := ht
    exact h

theorem peek_reads : Reads firm (peek : Reader α α) where
  within {s value len} h := by
    cases s with
    | nil => cases h
    | cons a s =>
      cases h
      exact Nat.zero_le _
  stable _ s t h := by
    cases s with
    | nil => exact absurd rfl h
    | cons a s => rfl

theorem takeWhile_append_of_lt {p : α → Bool} {s : List α}
    (h : (s.takeWhile p).length < s.length) (t : List α) :
    (s ++ t).takeWhile p = s.takeWhile p := by
  induction s with
  | nil => exact absurd h (Nat.lt_irrefl _)
  | cons a s ih =>
    rw [cons_append, takeWhile_cons, takeWhile_cons]
    split
    · rename_i ha
      rw [takeWhile_cons, if_pos ha] at h
      rw [ih (Nat.lt_of_succ_lt_succ h)]
    · rfl

theorem run_reads (p : α → Bool) : Reads firm (run p) where
  within {s value len} h := by
    rw [run] at h
    split at h
    · cases h
      exact Nat.le_of_lt ‹_›
    · cases h
  stable _ s t h := by
    by_cases hlt : (s.takeWhile p).length < s.length
    · rw [run, run, takeWhile_append_of_lt hlt, if_pos hlt,
        if_pos (by rw [length_append]; omega)]
    · rw [run, if_neg hlt] at h
      exact absurd rfl h

theorem run_prompt (p : α → Bool) : Prompt (run p) := by
  intro s value len h t ht hlen
  rw [run] at h
  split at h
  · cases h
    obtain ⟨rest, rfl⟩ := ht
    have hlt : (t.takeWhile p).length < t.length := by
      by_contra hge
      have hwhole : t.takeWhile p = t :=
        ( takeWhile_prefix p).eq_of_length_le (Nat.le_of_not_lt hge)
      have hlonger : ((t ++ rest).takeWhile p).length = t.length + (rest.takeWhile p).length := by
        rw [takeWhile_append, hwhole, if_pos rfl, length_append]
      omega
    rw [run, if_pos hlt, takeWhile_append_of_lt hlt]
  · cases h

section
variable [DecidableEq α]

/-- Whether a marker stands here; where it does, it is read. -/
def marker (p : List α) : Reader α Bool := fun s =>
  if p.isPrefixOf s then .done true p.length
  else if couldBecome [p] s then .more
  else .done false 0

/-- The text up to a marker, which is read too. -/
def upTo (p : List α) : Reader α (List α) := fun s =>
  match find p s with
  | some i => .done (s.take i) (i + p.length)
  | none => .more

theorem marker_reads (p : List α) : Reads firm (marker p) where
  within {s value len} h := by
    rw [marker] at h
    split at h
    · cases h
      exact ( isPrefixOf_iff_prefix.1 ‹_›).length_le
    · split at h
      · cases h
      · cases h
        exact Nat.zero_le _
  stable _ s t h := by
    by_cases hp : p.isPrefixOf s = true
    · have hpre := isPrefixOf_iff_prefix.1 hp
      rw [marker, marker, if_pos hp,
        if_pos ( isPrefixOf_iff_prefix.2 (hpre.trans (prefix_append s t)))]
    by_cases hmay : couldBecome [p] s = true
    · rw [marker, if_neg hp, if_pos hmay] at h
      exact absurd rfl h
    have hmay := Bool.eq_false_iff.2 hmay
    have hp' : ¬ p.isPrefixOf (s ++ t) = true := by
      rw [ isPrefixOf_iff_prefix, prefix_append_iff hmay (mem_singleton_self p),
        ← isPrefixOf_iff_prefix]
      exact hp
    rw [marker, marker, if_neg hp, if_neg hp', if_neg (Bool.eq_false_iff.1 hmay),
      if_neg (Bool.eq_false_iff.1 (couldBecome_append hmay t))]

theorem upTo_reads (p : List α) : Reads firm (upTo p) where
  within {s value len} h := by
    rw [upTo] at h
    split at h
    · cases h
      exact find_le ‹_›
    · cases h
  stable _ s t h := by
    rw [upTo] at h ⊢
    rw [upTo]
    cases hi : find p s with
    | none => simp [hi] at h
    | some i =>
      have hle := find_le hi
      rw [find_append hi]
      simp only
      rw [take_append_of_le_length (by omega)]

end

end Reader

end Gen2.Lib
