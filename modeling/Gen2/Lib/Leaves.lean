import Gen2.Lib.Read
import Mathlib.Data.List.TakeWhile

/-!
# What a reader leaves

What a reader comes to, told by the text that is left behind what it has read, so that a run of
several readers is told by the parts of the text.

* `Comes f s` says how the reader ends on a text: it crashes, or it comes to a value and leaves a
  rest.  `bind_comes` takes a run apart.
* Each of the readers for a piece has its own lemma, which says what text it is that it reads.
* A `Calm` reader does not crash on any text.
-/

namespace Gen2.Lib

universe u v

namespace Reader

open List

variable {α : Type u} {β γ : Type v}

/-- How a reader ends: it crashes, or it comes to a value and leaves a rest. -/
def Comes (f : Reader α β) (s : List α) : Option (β × List α) → Prop
  | none => f s = .crash
  | some (value, rest) => ∃ len, f s = .done value len ∧ rest = s.drop len

/-- A reader that does not crash. -/
def Calm (f : Reader α β) : Prop := ∀ s, ¬ Comes f s none

variable {f : Reader α β} {g : β → Reader α γ} {s : List α}

/-- The second reader has crashed, or the first one. -/
theorem bind_crashes : Comes (f >>= g) s none ↔
    Comes f s none ∨ ∃ value mid, Comes f s (some (value, mid)) ∧ Comes (g value) mid none := by
  simp only [Comes, bind_apply]
  cases f s with
  | more => simp
  | crash => simp
  | done value len => cases h : g value (s.drop len) <;> simp [h]

variable {rest : List α}

theorem bind_comes_some {value : γ} : Comes (f >>= g) s (some (value, rest)) ↔
    ∃ first mid, Comes f s (some (first, mid)) ∧ Comes (g first) mid (some (value, rest)) := by
  constructor
  · rintro ⟨len, h, rfl⟩
    obtain ⟨first, len₁, len₂, h₁, h₂, rfl⟩ := bind_eq_done.1 h
    exact ⟨first, _, ⟨len₁, h₁, rfl⟩, len₂, h₂, drop_drop.symm⟩
  · rintro ⟨first, _, ⟨len₁, h₁, rfl⟩, len₂, h₂, rfl⟩
    exact ⟨len₁ + len₂, bind_eq_done.2 ⟨first, len₁, len₂, h₁, h₂, rfl⟩, drop_drop⟩

/-- **Taking a run apart**, whatever it ends in. -/
theorem bind_comes (hcalm : Calm f) {o : Option (γ × List α)} : Comes (f >>= g) s o ↔
    ∃ value mid, Comes f s (some (value, mid)) ∧ Comes (g value) mid o := by
  cases o with
  | none => rw [bind_crashes, or_iff_right (hcalm s)]
  | some end' => exact bind_comes_some

variable {value : β}

theorem pure_comes {o : Option (β × List α)} :
    Comes (Pure.pure value : Reader α β) s o ↔ o = some (value, s) := by
  cases o with
  | none => exact ⟨fun h => (nomatch h), fun h => nomatch h⟩
  | some end' =>
    constructor
    · rintro ⟨len, h, hrest⟩
      cases h
      rw [← Prod.eta end', hrest]
      rfl
    · rintro h
      cases h
      exact ⟨0, rfl, rfl⟩

/-- What a reader leaves says how much it has read. -/
theorem Reads.done_of_comes {firm : Prop} (hreads : Reads firm f)
    (h : Comes f s (some (value, rest))) : f s = .done value (s.length - rest.length) := by
  obtain ⟨len, hdone, rfl⟩ := h
  have hle := hreads.within hdone
  rw [hdone, length_drop, Nat.sub_sub_self hle]

theorem comes_of_done {len : Nat} (h : f s = .done value len) :
    Comes f s (some (value, s.drop len)) := ⟨len, h, rfl⟩

/-! ## Pieces to read -/

theorem skip_comes {n : Nat} {value : List α} :
    Comes (skip n) s (some (value, rest)) ↔ s = value ++ rest ∧ value.length = n := by
  constructor
  · rintro ⟨len, h, rfl⟩
    rw [skip] at h
    split at h
    next hle =>
      cases h
      exact ⟨(take_append_drop n s).symm, length_take_of_le hle⟩
    · cases h
  · rintro ⟨rfl, rfl⟩
    exact ⟨value.length, by rw [skip, if_pos (by simp), take_left], drop_left.symm⟩

theorem peek_comes {c : α} : Comes peek s (some (c, rest)) ↔ s.head? = some c ∧ rest = s := by
  cases s with
  | nil => exact ⟨fun ⟨_, h, _⟩ => (nomatch h), fun ⟨h, _⟩ => nomatch h⟩
  | cons a s =>
    constructor
    · rintro ⟨len, h, rfl⟩
      cases h
      exact ⟨rfl, rfl⟩
    · rintro ⟨h, rfl⟩
      cases h
      exact ⟨0, rfl, rfl⟩

theorem run_comes {p : α → Bool} {value : List α} :
    Comes (run p) s (some (value, rest)) ↔ s = value ++ rest ∧ (∀ a ∈ value, p a = true) ∧
      ∃ a t, rest = a :: t ∧ p a = false := by
  constructor
  · rintro ⟨len, h, rfl⟩
    rw [run] at h
    split at h
    next hlt =>
      cases h
      have hsplit := takeWhile_append_dropWhile (p := p) (l := s)
      have hdrop : s.drop (s.takeWhile p).length = s.dropWhile p := by
        have hleft : (s.takeWhile p ++ s.dropWhile p).drop (s.takeWhile p).length =
            s.dropWhile p := drop_left
        rwa [hsplit] at hleft
      refine ⟨by rw [hdrop, hsplit], fun a ha => mem_takeWhile_imp ha, ?_⟩
      rw [hdrop]
      cases hrest : s.dropWhile p with
      | nil =>
        rw [hrest, append_nil] at hsplit
        exact absurd hlt (by rw [hsplit]; exact Nat.lt_irrefl _)
      | cons a t =>
        have hhead := head_dropWhile_not p (by rw [hrest]; exact cons_ne_nil a t)
        simp only [hrest, head_cons] at hhead
        exact ⟨a, t, rfl, hhead⟩
    · cases h
  · rintro ⟨rfl, hall, a, t, rfl, ha⟩
    have htake : (value ++ a :: t).takeWhile p = value := by
      rw [takeWhile_append_of_pos hall, takeWhile_cons_of_neg (by simp [ha]),
        append_nil]
    refine ⟨value.length, ?_, drop_left.symm⟩
    rw [run, htake, if_pos (by simp)]

theorem orCrash_comes {o : Option β} :
    Comes (orCrash o) s (some (value, rest)) ↔ o = some value ∧ rest = s := by
  cases o with
  | none => exact ⟨fun ⟨_, h, _⟩ => (nomatch h), fun ⟨h, _⟩ => nomatch h⟩
  | some first =>
    rw [orCrash, pure_comes, Option.some.injEq, Option.some.injEq, Prod.mk.injEq]
    exact and_congr_left fun _ => eq_comm

theorem orCrash_crashes {o : Option β} : Comes (orCrash o) s none ↔ o = none := by
  cases o with
  | none => exact ⟨fun _ => rfl, fun _ => rfl⟩
  | some first => exact ⟨fun h => (nomatch h), fun h => nomatch h⟩

section
variable [DecidableEq α]

theorem marker_comes_true {p rest : List α} :
    Comes (marker p) s (some (true, rest)) ↔ s = p ++ rest := by
  constructor
  · rintro ⟨len, h, rfl⟩
    rw [marker] at h
    split at h
    next hpre =>
      cases h
      obtain ⟨t, rfl⟩ := isPrefixOf_iff_prefix.1 hpre
      rw [drop_left]
    · split at h <;> cases h
  · rintro rfl
    refine ⟨p.length, ?_, drop_left.symm⟩
    rw [marker, if_pos ( isPrefixOf_iff_prefix.2 (prefix_append _ _))]

theorem marker_comes_false {p rest : List α} : Comes (marker p) s (some (false, rest)) ↔
    ¬ p <+: s ∧ couldBecome [p] s = false ∧ rest = s := by
  constructor
  · rintro ⟨len, h, rfl⟩
    rw [marker] at h
    split at h
    · cases h
    next hpre =>
      split at h
      · cases h
      next hmay =>
        cases h
        exact ⟨mt isPrefixOf_iff_prefix.2 hpre, Bool.eq_false_iff.2 hmay, rfl⟩
  · rintro ⟨hpre, hmay, rfl⟩
    refine ⟨0, ?_, rfl⟩
    rw [marker, if_neg (mt isPrefixOf_iff_prefix.1 hpre), if_neg (by simp [hmay])]

theorem upTo_comes {p value rest : List α} : Comes (upTo p) s (some (value, rest)) ↔
    s = value ++ (p ++ rest) ∧ find p s = some value.length := by
  constructor
  · rintro ⟨len, h, rfl⟩
    rw [upTo] at h
    split at h
    next i hfind =>
      cases h
      have hroom := find_le hfind
      obtain ⟨-, ⟨t, ht⟩, -⟩ := find_eq_some_iff.1 hfind
      have hrest : s.drop (i + p.length) = t := by
        rw [← drop_drop, ← ht, drop_left]
      refine ⟨?_, ?_⟩
      · rw [hrest, ht, take_append_drop]
      · rw [length_take_of_le (by omega), hfind]
    · cases h
  · rintro ⟨rfl, hfind⟩
    refine ⟨value.length + p.length, ?_, ?_⟩
    · rw [upTo, hfind]
      simp only [take_left]
    · rw [← drop_drop, drop_left, drop_left]

end

/-! ## Readers that do not crash -/

theorem Calm.pure (value : β) : Calm (Pure.pure value : Reader α β) :=
  fun _ h => nomatch h

theorem Calm.bind (hf : Calm f) (hg : ∀ value, Calm (g value)) : Calm (f >>= g) := by
  intro s h
  obtain ⟨value, mid, -, hcrash⟩ := (bind_comes hf).1 h
  exact hg value mid hcrash

theorem Calm.ite {c : Prop} [Decidable c] {f g : Reader α β} (hf : Calm f) (hg : Calm g) :
    Calm (if c then f else g) := by
  split
  · exact hf
  · exact hg

theorem skip_calm (n : Nat) : Calm (skip n : Reader α (List α)) := by
  intro s h
  rw [Comes, skip] at h
  split at h <;> cases h

theorem peek_calm : Calm (peek : Reader α α) := by
  intro s h
  cases s <;> cases h

theorem run_calm (p : α → Bool) : Calm (run p) := by
  intro s h
  rw [Comes, run] at h
  split at h <;> cases h

theorem marker_calm [DecidableEq α] (p : List α) : Calm (marker p) := by
  intro s h
  rw [Comes, marker] at h
  split at h
  · cases h
  · split at h <;> cases h

theorem upTo_calm [DecidableEq α] (p : List α) : Calm (upTo p) := by
  intro s h
  rw [Comes, upTo] at h
  split at h <;> cases h

end Reader

end Gen2.Lib
