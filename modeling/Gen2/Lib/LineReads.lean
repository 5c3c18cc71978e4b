import Gen2.Lib.Lines

/-!
# Reading lines from what arrives in pieces

A reader of lines over a source that hands its bytes out in pieces, and now and then fails instead.
A line that is not whole when a read fails is lost to the reader, which has handed it over with the
error.

* `lineReads` is what the calls for a line return, one after the other.
* `Follows` compares that with the lines of the text: line by line, as far as nothing is lost.
* `lineReads_follows`: however the text is cut into pieces, the calls follow its lines.
-/

namespace Gen2.Lib

open List

universe u v

/-- What a read of the source comes to: bytes, of which there is one at least; an error; or an
interruption, after which it is made again. -/
inductive Arrival (α : Type u) (ε : Type v)
  | data (first : α) (more : List α)
  | error (e : ε)
  | interrupted

/-- What a call for a line returns: a line with its end, or the last one without; or an error, and
the part of a line that had been read. -/
inductive LineRead (α : Type u) (ε : Type v)
  | line (l : List α)
  | error (e : ε) (lost : List α)

variable {α : Type u} {ε : Type v} [DecidableEq α] (sep : α)

/-- The whole lines of a text, each with its separator, and the unfinished rest. -/
def completeLines : List α → List (List α) × List α
  | [] => ([], [])
  | a :: t =>
    let (ls, rest) := completeLines t
    if a = sep then ([a] :: ls, rest)
    else match ls with
      | [] => ([], a :: rest)
      | l :: ls => ((a :: l) :: ls, rest)

/-- The calls for a line, with `held` left of what has arrived; the last of them returns what is
left at the end. -/
def lineReads : List α → List (Arrival α ε) → List (LineRead α ε)
  | held, [] => if held = [] then [] else [.line held]
  | held, .data first more :: reads =>
    (completeLines sep (held ++ first :: more)).1.map .line ++
      lineReads (completeLines sep (held ++ first :: more)).2 reads
  | held, .error e :: reads => .error e held :: lineReads [] reads
  | held, .interrupted :: reads => lineReads held reads

/-- All that arrives. -/
def arrived : List (Arrival α ε) → List α
  | [] => []
  | .data first more :: reads => first :: more ++ arrived reads
  | .error _ :: reads | .interrupted :: reads => arrived reads

/-- The calls return these lines, as far as nothing is lost. -/
def Follows : List (LineRead α ε) → List (List α) → Prop
  | [], lines => lines = []
  | .line l :: reads, lines => ∃ lines', lines = l :: lines' ∧ Follows reads lines'
  | .error _ lost :: reads, lines => lost = [] → Follows reads lines

variable {sep}

/-- What comes behind the whole lines of a text goes to its unfinished rest. -/
theorem splitInclusive_completeLines (t u : List α) : splitInclusive sep (t ++ u) =
    (completeLines sep t).1 ++ splitInclusive sep ((completeLines sep t).2 ++ u) := by
  induction t with
  | nil => rfl
  | cons a t ih =>
    rcases hcut : completeLines sep t with ⟨ls, rest⟩
    rw [hcut] at ih
    simp only [cons_append, splitInclusive, completeLines, ih, hcut]
    by_cases ha : a = sep
    · rw [if_pos ha, if_pos ha]
      rfl
    rw [if_neg ha, if_neg ha]
    cases ls with
    | nil =>
      simp only [nil_append, cons_append, splitInclusive, if_neg ha]
    | cons l ls => rfl

theorem sep_notMem_completeLines (t : List α) : sep ∉ (completeLines sep t).2 := by
  induction t with
  | nil => exact not_mem_nil
  | cons a t ih =>
    rcases hcut : completeLines sep t with ⟨ls, rest⟩
    rw [hcut] at ih
    simp only [completeLines, hcut]
    by_cases ha : a = sep
    · rw [if_pos ha]
      exact ih
    · rw [if_neg ha]
      cases ls with
      | nil => exact fun hmem => (mem_cons.mp hmem).elim (fun h => ha h.symm) ih
      | cons l ls => exact ih

omit [DecidableEq α] in
theorem Follows.append {ls lines : List (List α)} {reads : List (LineRead α ε)}
    (h : Follows reads lines) : Follows (ls.map .line ++ reads) (ls ++ lines) := by
  induction ls with
  | nil => exact h
  | cons l ls ih => exact ⟨_, rfl, ih⟩

/-- An error of a call is one of the source. -/
theorem error_mem_of_mem_lineReads {held : List α} {reads : List (Arrival α ε)} {e : ε}
    {lost : List α} (hmem : .error e lost ∈ lineReads sep held reads) : .error e ∈ reads := by
  induction reads generalizing held with
  | nil =>
    rw [lineReads] at hmem
    split at hmem
    · cases hmem
    · cases mem_singleton.mp hmem
  | cons r reads ih =>
    cases r with
    | data first more =>
      rw [lineReads] at hmem
      rcases mem_append.mp hmem with hmem | hmem
      · obtain ⟨_, _, heq⟩ := mem_map.mp hmem
        cases heq
      · exact mem_cons_of_mem _ (ih hmem)
    | error e' =>
      rcases mem_cons.mp hmem with heq | hmem
      · cases heq
        exact mem_cons_self
      · exact mem_cons_of_mem _ (ih hmem)
    | interrupted => exact mem_cons_of_mem _ (ih hmem)

/-- **The calls follow the lines of the text**, however it is cut. -/
theorem lineReads_follows (held : List α) (hheld : sep ∉ held) (reads : List (Arrival α ε)) :
    Follows (lineReads sep held reads) (splitInclusive sep (held ++ arrived reads)) := by
  induction reads generalizing held with
  | nil =>
    rw [lineReads, arrived, append_nil]
    by_cases hnil : held = []
    · rw [if_pos hnil, hnil]
      rfl
    · rw [if_neg hnil, splitInclusive_unfinished hheld hnil]
      exact ⟨[], rfl, rfl⟩
  | cons r reads ih =>
    cases r with
    | data first more =>
      rw [lineReads, arrived, ← append_assoc, splitInclusive_completeLines]
      exact (ih _ (sep_notMem_completeLines _)).append
    | error e =>
      rw [lineReads, arrived]
      intro hlost
      subst hlost
      exact ih [] not_mem_nil
    | interrupted => exact ih held hheld

end Gen2.Lib
