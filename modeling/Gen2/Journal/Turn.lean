import Gen2.Journal.Entry
import Mathlib.Data.List.FinRange

/-!
# Turns, and the projections that choose among them

`journal/turn.rs` and `journal/projection.rs`.  A projection decides what of a journal the model is
shown.  It never sees a record: the journal is first grouped into turns, and the projection keeps
some of these.

* **Grouping.**  A call opens a turn that stays open until every call in it has been answered; until
  then whatever comes belongs to it.  Anything else is a turn of its own.
* **References.**  The source's `keep` takes a slice of turns and returns references into it.  Two
  turns of a slice may be equal and are still two, so here a reference is a place in the slice, a
  `Fin turns.length`: it can point nowhere else.
* **A second answer.**  Once a call is answered it is no longer waited for.  A further result for
  the same call is a result with no open call, and stands alone.
-/

namespace Gen2
namespace Journal

open List

/-! ## The turns of a journal -/

/-- `Turn`: an indivisible run of records. -/
structure Turn where
  records : List Record

namespace Turn

/-- The loop of `Turn::group`.  `opened` is the turn being filled and the ids it waits for. -/
def groupLoop : Option (List Record × List String) → List Record → List Turn
  | none, [] => []
  | some (buffered, _), [] => [⟨buffered⟩]
  | some (buffered, awaiting), record :: records =>
    match record.entry with
    | .toolResult id _ _ _ =>
      let awaiting := awaiting.filter (· != id)
      if awaiting.isEmpty then ⟨buffered ++ [record]⟩ :: groupLoop none records
      else groupLoop (some (buffered ++ [record], awaiting)) records
    | .toolCall id _ _ => groupLoop (some (buffered ++ [record], awaiting ++ [id])) records
    | _ => groupLoop (some (buffered ++ [record], awaiting)) records
  | none, record :: records =>
    match record.entry with
    | .toolCall id _ _ => groupLoop (some ([record], [id])) records
    | _ => ⟨[record]⟩ :: groupLoop none records

/-- `Turn::group`. -/
def group (records : List Record) : List Turn := groupLoop none records

/-- `Turn::to_messages`. -/
def toMessages (turn : Turn) : List Message := turn.records.flatMap Record.toMessages

/-- `Turn::estimated_tokens`: characters over four. -/
def estimatedTokens (turn : Turn) : Nat :=
  (turn.toMessages.map fun m => (asBytes m.text).length / 4 + 4).sum

/-- `Turn::is_conversational`. -/
def isConversational (turn : Turn) : Bool := turn.records.any (·.entry.isConversational)

end Turn

/-! ## Projections -/

/-- `Projection`: which turns to keep, oldest first, and the transcript this makes of a journal. -/
structure Projection where
  keep : (turns : List Turn) → List (Fin turns.length)
  project : List Record → List Message := fun records =>
    (keep (Turn.group records)).flatMap fun i => ((Turn.group records).get i).toMessages

/-- The loop of `RecentTurns::keep`, over the turns from the newest on. -/
def recentLoop (budget : Nat) (turns : List Turn) :
    List (Fin turns.length) → List (Fin turns.length) → Nat → List (Fin turns.length)
  | [], kept, _ => kept
  | i :: older, kept, spent =>
    if (turns.get i).isConversational then
      let cost := (turns.get i).estimatedTokens
      if budget < spent + cost && !kept.isEmpty then kept
      else recentLoop budget turns older (i :: kept) (spent + cost)
    else recentLoop budget turns older kept spent

namespace Projection

/-- `RecentTurns`: the most recent turns that fit a budget. -/
def recentTurns (budget : Nat) : Projection where
  keep turns := recentLoop budget turns (List.finRange turns.length).reverse [] 0

/-- `Everything`. -/
def everything : Projection where
  keep turns := (List.finRange turns.length).filter fun i => (turns.get i).isConversational

/-- `WithPreamble`: a fixed beginning in front of whatever `inner` produces. -/
def withPreamble (preamble : List Message) (inner : Projection) : Projection where
  keep := inner.keep
  project records := preamble ++ inner.project records

end Projection

/-! ## Where a record went -/

/-- The turn that the record at a place of the journal is in. -/
def turnAt : List Turn → Nat → Nat
  | [], _ => 0
  | turn :: turns, p =>
    if p < turn.records.length then 0 else turnAt turns (p - turn.records.length) + 1

/-- The projection keeps the turn that the record at a place of the journal is in. -/
def Shown (projection : Projection) (records : List Record) (p : Nat) : Prop :=
  ∃ i ∈ projection.keep (Turn.group records), i.val = turnAt (Turn.group records) p

instance (projection : Projection) (records : List Record) (p : Nat) :
    Decidable (Shown projection records p) :=
  inferInstanceAs
    (Decidable (∃ i ∈ projection.keep (Turn.group records), i.val = turnAt (Turn.group records) p))

/-- The entry asks for a tool under this id. -/
def JournalEntry.calls (id : String) : JournalEntry → Bool
  | .toolCall id' _ _ => id' == id
  | _ => false

/-- The entry answers the call of this id. -/
def JournalEntry.answers (id : String) : JournalEntry → Bool
  | .toolResult id' _ _ _ => id' == id
  | _ => false

/-- The record at `j` is the first after the one at `i` to answer the call made there. -/
structure Answered (records : List Record) (id : String) (i j : Nat) : Prop where
  lt : i < j
  call : ∃ r, records[i]? = some r ∧ r.entry.calls id = true
  result : ∃ r, records[j]? = some r ∧ r.entry.answers id = true
  first : ∀ k r, i < k → k < j → records[k]? = some r → r.entry.answers id = false

/-! ## Grouping loses nothing -/

namespace Turn

theorem groupLoop_records (opened : Option (List Record × List String)) (records : List Record) :
    (groupLoop opened records).flatMap Turn.records =
      (opened.map Prod.fst).getD [] ++ records := by
  fun_induction groupLoop opened records <;> simp_all

theorem group_records (records : List Record) : (group records).flatMap Turn.records = records :=
  groupLoop_records none records

/-! ## What an open turn takes in -/

/-- The turn being filled comes out first, and keeps what it holds. -/
theorem groupLoop_first (buffered : List Record) (awaiting : List String)
    (records : List Record) :
    ∃ turn turns, groupLoop (some (buffered, awaiting)) records = turn :: turns ∧
      buffered.length ≤ turn.records.length := by
  induction records generalizing buffered awaiting with
  | nil => exact ⟨⟨buffered⟩, [], by rw [groupLoop], Nat.le_refl _⟩
  | cons record records ih =>
    have hgrow : ∀ awaiting', ∃ turn turns,
        groupLoop (some (buffered ++ [record], awaiting')) records = turn :: turns ∧
          buffered.length ≤ turn.records.length := by
      intro awaiting'
      obtain ⟨turn, turns, heq, hle⟩ := ih (buffered ++ [record]) awaiting'
      rw [length_append] at hle
      exact ⟨turn, turns, heq, by omega⟩
    rw [groupLoop]
    split
    · dsimp only
      split
      · exact ⟨_, _, rfl, by simp⟩
      · exact hgrow _
    · exact hgrow _
    · exact hgrow _

/-- While a call is waited for, the turn takes in everything up to its answer. -/
theorem groupLoop_awaits {id : String} (buffered : List Record) {awaiting : List String}
    {records : List Record} {j : Nat} (hid : id ∈ awaiting)
    (hresult : ∃ r, records[j]? = some r ∧ r.entry.answers id = true)
    (hfirst : ∀ k r, k < j → records[k]? = some r → r.entry.answers id = false) :
    ∃ turn turns, groupLoop (some (buffered, awaiting)) records = turn :: turns ∧
      buffered.length + j < turn.records.length := by
  induction records generalizing buffered awaiting j with
  | nil =>
    obtain ⟨r, hr, -⟩ := hresult
    cases hr
  | cons record records ih =>
    cases j with
    | zero =>
      -- this record is the answer: whether or not it closes the turn, it is in it
      obtain ⟨r, hr, hans⟩ := hresult
      obtain rfl : record = r := by simpa using hr
      have hgrow : ∀ awaiting', ∃ turn turns,
          groupLoop (some (buffered ++ [record], awaiting')) records = turn :: turns ∧
            buffered.length + 0 < turn.records.length := by
        intro awaiting'
        obtain ⟨turn, turns, heq, hle⟩ := groupLoop_first (buffered ++ [record]) awaiting' records
        rw [length_append, length_singleton] at hle
        exact ⟨turn, turns, heq, by omega⟩
      rw [groupLoop]
      split
      · dsimp only
        split
        · exact ⟨_, _, rfl, by simp⟩
        · exact hgrow _
      · exact hgrow _
      · exact hgrow _
    | succ j =>
      have hnot : record.entry.answers id = false := hfirst 0 record (by omega) rfl
      have hnext : ∀ awaiting', id ∈ awaiting' → ∃ turn turns,
          groupLoop (some (buffered ++ [record], awaiting')) records = turn :: turns ∧
            buffered.length + (j + 1) < turn.records.length := by
        intro awaiting' hid'
        obtain ⟨turn, turns, heq, hlt⟩ := ih (buffered ++ [record]) hid'
          (by simpa using hresult) fun k r hk hr => hfirst (k + 1) r (by omega) (by simpa using hr)
        rw [length_append, length_singleton] at hlt
        exact ⟨turn, turns, heq, by omega⟩
      rw [groupLoop]
      split
      next id' _ _ _ hentry =>
        have hne : id ≠ id' := by
          rintro rfl
          simp [hentry, JournalEntry.answers] at hnot
        have hstill : id ∈ awaiting.filter (· != id') := by simp [hid, hne]
        dsimp only
        rw [if_neg (by simpa [List.isEmpty_iff] using List.ne_nil_of_mem hstill)]
        exact hnext _ hstill
      · exact hnext _ (mem_append_left _ hid)
      · exact hnext _ hid

/-! ## A call and its answer are in one turn -/

theorem turnAt_cons_lt {turn : Turn} {turns : List Turn} {p : Nat}
    (h : p < turn.records.length) : turnAt (turn :: turns) p = 0 := by
  rw [turnAt, if_pos h]

theorem turnAt_cons_add (turn : Turn) (turns : List Turn) (p : Nat) :
    turnAt (turn :: turns) (turn.records.length + p) = turnAt turns p + 1 := by
  rw [turnAt, if_neg (by omega), Nat.add_sub_cancel_left]

end Turn

theorem Answered.tail {record : Record} {records : List Record} {id : String} {i j : Nat}
    (h : Answered (record :: records) id (i + 1) (j + 1)) : Answered records id i j :=
  ⟨Nat.lt_of_succ_lt_succ h.lt, by simpa using h.call, by simpa using h.result,
    fun k r hik hkj hr => h.first (k + 1) r (by omega) (by omega) (by simpa using hr)⟩

namespace Turn

theorem groupLoop_turnAt {id : String} {records : List Record} {i j : Nat}
    (h : Answered records id i j) (opened : Option (List Record × List String)) :
    turnAt (groupLoop opened records) (((opened.map Prod.fst).getD []).length + i) =
      turnAt (groupLoop opened records) (((opened.map Prod.fst).getD []).length + j) := by
  induction records generalizing opened i j with
  | nil =>
    obtain ⟨r, hr, -⟩ := h.call
    cases hr
  | cons record records ih =>
    obtain ⟨j, rfl⟩ : ∃ j', j = j' + 1 := ⟨j - 1, by have := h.lt; omega⟩
    cases i with
    | zero =>
      obtain ⟨r, hr, hcall⟩ := h.call
      obtain rfl : record = r := by simpa using hr
      -- the call is waited for from here on
      have hwait : ∀ buffered awaiting, id ∈ awaiting →
          turnAt (groupLoop (some (buffered ++ [record], awaiting)) records) (buffered.length + 0) =
            turnAt (groupLoop (some (buffered ++ [record], awaiting)) records)
              (buffered.length + (j + 1)) := by
        intro buffered awaiting hid
        obtain ⟨turn, turns, heq, hlt⟩ := groupLoop_awaits (buffered ++ [record]) hid
          (by simpa using h.result)
          (fun k r hk hr => h.first (k + 1) r (by omega) (by omega) (by simpa using hr))
        rw [length_append, length_singleton] at hlt
        rw [heq, turnAt_cons_lt (by omega), turnAt_cons_lt (by omega)]
      cases hentry : record.entry with
      | toolCall id' tool args =>
        obtain rfl : id' = id := by simpa [hentry, JournalEntry.calls] using hcall
        cases opened with
        | none =>
          simp only [groupLoop, hentry]
          exact hwait [] [id'] (by simp)
        | some opened =>
          simp only [groupLoop, hentry]
          exact hwait opened.1 (opened.2 ++ [id']) (by simp)
      | _ => simp [hentry, JournalEntry.calls] at hcall
    | succ i =>
      have hgrow : ∀ buffered awaiting,
          turnAt (groupLoop (some (buffered ++ [record], awaiting)) records)
              (buffered.length + (i + 1)) =
            turnAt (groupLoop (some (buffered ++ [record], awaiting)) records)
              (buffered.length + (j + 1)) := by
        intro buffered awaiting
        have := ih h.tail (some (buffered ++ [record], awaiting))
        simpa [Nat.add_assoc, Nat.add_comm 1] using this
      have hclose : ∀ buffered : List Record,
          turnAt (⟨buffered ++ [record]⟩ :: groupLoop none records) (buffered.length + (i + 1)) =
            turnAt (⟨buffered ++ [record]⟩ :: groupLoop none records)
              (buffered.length + (j + 1)) := by
        intro buffered
        have hlen : ∀ n, buffered.length + (n + 1) = (buffered ++ [record]).length + n := by
          intro n
          rw [length_append, length_singleton]
          omega
        rw [hlen, hlen, turnAt_cons_add ⟨buffered ++ [record]⟩,
          turnAt_cons_add ⟨buffered ++ [record]⟩]
        simpa using ih h.tail none
      cases opened with
      | none =>
        rw [groupLoop]
        split
        · exact hgrow [] _
        · exact hclose []
      | some opened =>
        obtain ⟨buffered, awaiting⟩ := opened
        rw [groupLoop]
        split
        · dsimp only
          split
          · exact hclose buffered
          · exact hgrow buffered _
        · exact hgrow buffered _
        · exact hgrow buffered _

theorem turnAt_eq_of_answered {id : String} {records : List Record} {i j : Nat}
    (h : Answered records id i j) : turnAt (group records) i = turnAt (group records) j := by
  simpa [group] using groupLoop_turnAt h none

end Turn

/-! ## What is shown -/

/-! ## The most recent turns -/

/-- What a choice of turns costs. -/
def cost (turns : List Turn) (kept : List (Fin turns.length)) : Nat :=
  (kept.map fun i => (turns.get i).estimatedTokens).sum

/-- The choice fits the budget, or it is a single turn. -/
def Fits (budget : Nat) (turns : List Turn) (kept : List (Fin turns.length)) : Prop :=
  cost turns kept ≤ budget ∨ kept.length ≤ 1

theorem recentLoop_fits {budget : Nat} {turns : List Turn} (newestFirst : List (Fin turns.length))
    {kept : List (Fin turns.length)} (h : Fits budget turns kept) :
    Fits budget turns (recentLoop budget turns newestFirst kept (cost turns kept)) ∧
      recentLoop budget turns newestFirst kept (cost turns kept) <:+
        (newestFirst.filter fun i => (turns.get i).isConversational).reverse ++ kept := by
  induction newestFirst generalizing kept with
  | nil => exact ⟨h, suffix_refl _⟩
  | cons i older ih =>
    rw [recentLoop]
    by_cases hconv : (turns.get i).isConversational = true
    · rw [if_pos hconv,
      filter_cons_of_pos (p := fun i => (turns.get i).isConversational) hconv,
        reverse_cons, append_assoc, singleton_append]
      dsimp only
      split
      · exact ⟨h, (suffix_cons _ _).trans (suffix_append _ _)⟩
      next hfits =>
        have hcost : cost turns (i :: kept) =
            cost turns kept + (turns.get i).estimatedTokens := by
          rw [cost, map_cons, sum_cons, Nat.add_comm]
          rfl
        have hnext : Fits budget turns (i :: kept) := by
          cases kept with
          | nil => exact Or.inr (Nat.le_refl 1)
          | cons i' kept =>
            refine Or.inl ?_
            rw [hcost]
            simpa using hfits
        rw [← hcost]
        exact ih hnext
    · rw [if_neg hconv,
      filter_cons_of_neg (p := fun i => (turns.get i).isConversational) hconv]
      exact ih h

theorem recentTurns_fits (budget : Nat) (turns : List Turn) :
    Fits budget turns ((Projection.recentTurns budget).keep turns) ∧
      (Projection.recentTurns budget).keep turns <:+ Projection.everything.keep turns := by
  have h := recentLoop_fits (finRange turns.length).reverse
    (show Fits budget turns [] from Or.inr (Nat.zero_le 1))
  rw [filter_reverse, reverse_reverse, append_nil] at h
  exact h

/-- **No projection splits a tool round.**  The turns of a journal are the journal; a call and the
first result recorded for it are in one turn, so that whatever chooses among turns shows both or
neither; and `RecentTurns` shows the newest of the conversational turns, as many as fit the budget
unless it is a single one. -/
theorem turns_never_split (records : List Record) :
    (Turn.group records).flatMap Turn.records = records ∧
      (∀ id i j, Answered records id i j →
        turnAt (Turn.group records) i = turnAt (Turn.group records) j ∧
          ∀ projection, Shown projection records i ↔ Shown projection records j) ∧
      ∀ budget,
        (Projection.recentTurns budget).keep (Turn.group records) <:+
            Projection.everything.keep (Turn.group records) ∧
          Fits budget (Turn.group records)
            ((Projection.recentTurns budget).keep (Turn.group records)) := by
  refine ⟨Turn.group_records records, fun id i j h => ?_, fun budget => ?_⟩
  · have heq := Turn.turnAt_eq_of_answered h
    exact ⟨heq, fun projection => by rw [Shown, Shown, heq]⟩
  · exact (recentTurns_fits budget (Turn.group records)).symm

/-- A call with its answer, and the next input. -/
theorem turns_never_split_round :
    turnAt (Turn.group [⟨1, 0, .toolCall "a" "t" .null⟩, ⟨2, 0, .toolResult "a" "t" "" true⟩,
        ⟨3, 0, .input .user (.user "b")⟩]) 0 =
      turnAt (Turn.group [⟨1, 0, .toolCall "a" "t" .null⟩, ⟨2, 0, .toolResult "a" "t" "" true⟩,
        ⟨3, 0, .input .user (.user "b")⟩]) 1 := by
  refine ((turns_never_split _).2.1 "a" 0 1 ⟨by decide, ⟨_, rfl, by decide⟩, ⟨_, rfl, by decide⟩,
    fun k r hik hkj => ?_⟩).1
  omega

/-- A call is answered twice.  The second answer is a turn of its own, and with little to spend it
is shown without the call. -/
theorem second_answer_stands_alone :
    let records : List Record := [⟨1, 0, .toolCall "a" "t" .null⟩,
      ⟨2, 0, .toolResult "a" "t" "" true⟩, ⟨3, 0, .toolResult "a" "t" "" true⟩]
    turnAt (Turn.group records) 0 ≠ turnAt (Turn.group records) 2 ∧
      Shown (.recentTurns 4) records 2 ∧ ¬ Shown (.recentTurns 4) records 0 := by
  decide +kernel

end Journal
end Gen2
