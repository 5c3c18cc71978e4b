import Mathlib.Data.Finset.Card
import Mathlib.Tactic.Common

/-!
# Repetitions at the end of a list

* `EndsTwice n`: a phrase of `n` elements stands twice at the end.  What is in front of the two does
  not matter (`endsTwice_drop`), and they can be compared element by element
  (`endsTwice_iff_getElem?`).
-/

namespace Gen2.Lib

open List

variable {α : Type}

/-- A phrase of `n` elements stands twice at the end. -/
def EndsTwice (n : Nat) (l : List α) : Prop :=
  ∃ front phrase, l = front ++ phrase ++ phrase ∧ phrase.length = n

theorem EndsTwice.length_le {n : Nat} {l : List α} (h : EndsTwice n l) : 2 * n ≤ l.length := by
  obtain ⟨front, phrase, rfl, rfl⟩ := h
  simp only [length_append]
  omega

theorem endsTwice_drop {n k : Nat} {l : List α} (h : k + 2 * n ≤ l.length) :
    EndsTwice n (l.drop k) ↔ EndsTwice n l := by
  constructor
  · rintro ⟨front, phrase, hdrop, hphrase⟩
    refine ⟨l.take k ++ front, phrase, ?_, hphrase⟩
    rw [append_assoc, append_assoc, ← append_assoc front, ← hdrop,
      take_append_drop]
  · rintro ⟨front, phrase, rfl, hphrase⟩
    simp only [length_append] at h
    refine ⟨front.drop k, phrase, ?_, hphrase⟩
    rw [append_assoc, drop_append_of_le_length (by omega), append_assoc]

theorem endsTwice_iff_getElem? {n : Nat} {l : List α} (h : 2 * n ≤ l.length) :
    EndsTwice n l ↔ ∀ i < n, l[l.length - 1 - i]? = l[l.length - 1 - n - i]? := by
  constructor
  · rintro ⟨front, phrase, rfl, rfl⟩ i hi
    simp only [length_append]
    rw [getElem?_append_right (by simp only [length_append]; omega),
      getElem?_append_left (by simp only [length_append]; omega),
      getElem?_append_right (by omega)]
    congr 1
    simp only [length_append]
    omega
  · intro hsame
    have hlast : (l.drop (l.length - n)).length = n := by
      rw [length_drop]
      omega
    refine ⟨l.take (l.length - 2 * n), l.drop (l.length - n), ?_, hlast⟩
    have hmiddle : (l.drop (l.length - 2 * n)).take n = l.drop (l.length - n) := by
      refine ext_getElem? fun j => ?_
      rcases Nat.lt_or_ge j n with hj | hj
      · have hj' := hsame (n - 1 - j) (by omega)
        rw [getElem?_take_of_lt hj, getElem?_drop, getElem?_drop,
          show l.length - n + j = l.length - 1 - (n - 1 - j) by omega, hj']
        congr 1
        omega
      · rw [getElem?_eq_none (by rw [length_take]; omega),
          getElem?_eq_none (by omega)]
    have hsplit : l.drop (l.length - 2 * n) = l.drop (l.length - n) ++ l.drop (l.length - n) := by
      conv_lhs => rw [← take_append_drop n (l.drop (l.length - 2 * n)), hmiddle,
        drop_drop, show l.length - 2 * n + n = l.length - n by omega]
    rw [append_assoc, ← hsplit, take_append_drop]

end Gen2.Lib
