import Mathlib.Tactic.Common

/-!
# Lines

A text in which every line is ended by a separator, the last one perhaps not: what an append-only
log looks like to its reader.

* `splitInclusive` is what the reader sees, every line with the separator that ends it.
* `terminate` is what a writer makes of whole lines, and `splitInclusive_terminate` says that the
  reader gets them back, followed by the lines of whatever comes after.
* `Ended` says that the next write starts on a line of its own.
-/

namespace Gen2.Lib

open List

universe u

variable {α : Type u}

/-- Every line, with a separator behind it. -/
def terminate (sep : α) (ls : List (List α)) : List α := ls.flatMap fun line => line ++ [sep]

theorem terminate_concat (sep : α) (ls : List (List α)) (line : List α) :
    terminate sep (ls ++ [line]) = terminate sep ls ++ (line ++ [sep]) := by
  simp [terminate]

/-- There is no unfinished line at the end. -/
def Ended (sep : α) (t : List α) : Prop := t = [] ∨ t.getLast? = some sep

theorem ended_terminate (sep : α) (ls : List (List α)) : Ended sep (terminate sep ls) := by
  rcases eq_nil_or_concat ls with rfl | ⟨ls', line, rfl⟩
  · exact .inl rfl
  · exact .inr (by simp [terminate])

/-- What has been written since the last whole line is all that can be unfinished. -/
theorem ended_terminate_append_iff {sep : α} (ls : List (List α)) {rest : List α}
    (h : sep ∉ rest) : Ended sep (terminate sep ls ++ rest) ↔ rest = [] := by
  constructor
  · intro hended
    rcases hended with hnil | hlast
    · exact (append_eq_nil_iff.1 hnil).2
    rcases eq_nil_or_concat rest with hnil | ⟨rest', last, rfl⟩
    · exact hnil
    · rw [concat_eq_append, ← append_assoc, getLast?_concat] at hlast
      exact absurd (by simp [Option.some.inj hlast]) h
  · intro hnil
    subst hnil
    rw [append_nil]
    exact ended_terminate sep ls

/-- A line that is cut ends in nothing, unless nothing of it or all of it is there. -/
theorem ended_terminate_take_iff {sep : α} (ls : List (List α)) {line : List α} (h : sep ∉ line)
    (n : Nat) : Ended sep (terminate sep ls ++ (line ++ [sep]).take n)
      ↔ n = 0 ∨ (line ++ [sep]).length ≤ n := by
  by_cases hn : (line ++ [sep]).length ≤ n
  · rw [take_of_length_le hn, ← terminate_concat]
    exact ⟨fun _ => .inr hn, fun _ => ended_terminate sep _⟩
  have hle : n ≤ line.length := by simp at hn; omega
  have htake : (line ++ [sep]).take n = line.take n := take_append_of_le_length hle
  rw [htake, ended_terminate_append_iff ls fun hmem => h (mem_of_mem_take hmem)]
  constructor
  · intro hnil
    rcases take_eq_nil_iff.1 hnil with hn0 | hline
    · exact .inl hn0
    · exact .inl (by simpa [hline] using hle)
  · rintro (rfl | hle')
    · exact take_zero
    · exact absurd hle' hn

variable [DecidableEq α]

/-- The lines of a text, each with its separator.  An unfinished last line has none. -/
def splitInclusive (sep : α) : List α → List (List α)
  | [] => []
  | a :: rest =>
    if a = sep then [a] :: splitInclusive sep rest
    else match splitInclusive sep rest with
      | [] => [[a]]
      | line :: more => (a :: line) :: more

theorem splitInclusive_line {sep : α} {line : List α} (h : sep ∉ line) (rest : List α) :
    splitInclusive sep (line ++ sep :: rest) = (line ++ [sep]) :: splitInclusive sep rest := by
  induction line with
  | nil => exact if_pos rfl
  | cons a line ih =>
    obtain ⟨hne, hline⟩ := ne_and_not_mem_of_not_mem_cons h
    rw [cons_append, splitInclusive, if_neg hne.symm, ih hline, cons_append]

theorem splitInclusive_unfinished {sep : α} {line : List α} (h : sep ∉ line) (hne : line ≠ []) :
    splitInclusive sep line = [line] := by
  induction line with
  | nil => exact absurd rfl hne
  | cons a line ih =>
    obtain ⟨hne', hline⟩ := ne_and_not_mem_of_not_mem_cons h
    rw [splitInclusive, if_neg hne'.symm]
    by_cases hnil : line = []
    · rw [hnil, splitInclusive]
    · rw [ih hline hnil]

/-- **The reader gets back what was written**, line by line. -/
theorem splitInclusive_terminate {sep : α} {ls : List (List α)} (h : ∀ line ∈ ls, sep ∉ line)
    (rest : List α) : splitInclusive sep (terminate sep ls ++ rest) =
      ls.map (· ++ [sep]) ++ splitInclusive sep rest := by
  induction ls with
  | nil => rfl
  | cons line ls ih =>
    obtain ⟨hline, hls⟩ := forall_mem_cons.1 h
    have hsplit : terminate sep (line :: ls) ++ rest =
        line ++ sep :: (terminate sep ls ++ rest) := by
      simp [terminate]
    rw [hsplit, splitInclusive_line hline, ih hls, map_cons, cons_append]

end Gen2.Lib
