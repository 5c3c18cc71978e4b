import Gen2.Journal.Turn
import Mathlib.Data.List.Induction

/-!
# A call that nothing answers

`journal/turn.rs`: what `Turn::group` makes of a journal in which a tool call never gets its result.
The source says of such a call that it must not swallow the rest of the history.  It does: the turn
that it opens takes in every record after it.

* `Begins` — a record is the first of its turn.
* `Waited` — some call of a journal has no answer yet.  `group_begins` is what grouping comes down
  to: a record that is neither a call nor a result begins a turn exactly when, before it, no call is
  waited for.
* `user_turns_iff` — taking the unanswered call away changes nothing for the user messages after it
  exactly when another call is waited for at each of them.
-/

namespace Gen2
namespace Journal

open List JournalEntry

/-! ## Beginning a turn -/

/-- The record at a place of the journal is the first of its turn. -/
def Begins (turns : List Turn) (p : Nat) : Prop := ∀ q, q < p → turnAt turns q ≠ turnAt turns p

instance (turns : List Turn) (p : Nat) : Decidable (Begins turns p) :=
  inferInstanceAs (Decidable (∀ q, q < p → turnAt turns q ≠ turnAt turns p))

/-- The entry is something the user said. -/
def JournalEntry.fromUser : JournalEntry → Bool
  | .input .user _ => true
  | _ => false

/-- The entry neither asks for a tool nor answers. -/
def JournalEntry.plain : JournalEntry → Bool
  | .toolCall .. | .toolResult .. => false
  | _ => true

theorem JournalEntry.plain_of_fromUser {e : JournalEntry} (h : e.fromUser = true) :
    e.plain = true := by
  cases e with
  | toolCall => cases h
  | toolResult => cases h
  | _ => rfl

/-- A call of this id is made in the journal, and no result of that id comes after it. -/
def Waits (id : String) (records : List Record) : Prop :=
  ∃ before call after, records = before ++ call :: after ∧ call.entry.calls id = true ∧
    ∀ r ∈ after, r.entry.answers id = false

/-- Some call of the journal has no answer. -/
def Waited (records : List Record) : Prop := ∃ id, Waits id records

theorem not_waits_nil (id : String) : ¬ Waits id [] := by
  rintro ⟨before, call, after, h, -⟩
  exact absurd h.symm (by simp)

/-- What one more record does to what is waited for. -/
theorem waits_concat {id : String} {records : List Record} {r : Record} :
    Waits id (records ++ [r]) ↔
      r.entry.calls id = true ∨ Waits id records ∧ r.entry.answers id = false := by
  constructor
  · rintro ⟨before, call, after, heq, hcall, hnone⟩
    rcases eq_nil_or_concat after with rfl | ⟨after, last, rfl⟩
    · obtain ⟨-, hr⟩ := append_inj' heq rfl
      rw [singleton_inj.1 hr]
      exact Or.inl hcall
    rw [concat_eq_append, ← cons_append, ← append_assoc] at heq
    obtain ⟨hrecords, hr⟩ := append_inj' heq rfl
    rw [concat_eq_append] at hnone
    rw [singleton_inj.1 hr]
    exact Or.inr ⟨⟨before, call, after, hrecords, hcall,
      fun x hx => hnone x (mem_append_left _ hx)⟩, hnone last (by simp)⟩
  · rintro (hcall | ⟨⟨before, call, after, rfl, hcall, hnone⟩, hr⟩)
    · exact ⟨records, r, [], rfl, hcall, by simp⟩
    refine ⟨before, call, after ++ [r], by simp, hcall, fun x hx => ?_⟩
    rcases mem_append.1 hx with hx | hx
    · exact hnone x hx
    · rw [mem_singleton.1 hx]
      exact hr

/-! ## Grouping, part way through -/

namespace Turn

/-- Where the loop stands: the turns it has closed, and the one being filled. -/
structure Reached (records : List Record) (closed : List Turn)
    (opened : Option (List Record × List String)) : Prop where
  rest : ∀ later, group (records ++ later) = closed ++ groupLoop opened later
  taken : closed.flatMap Turn.records ++ (opened.map Prod.fst).getD [] = records
  /-- What the open turn holds begins with its call. -/
  filled : ∀ o ∈ opened, o.1 ≠ []
  /-- Only an open turn waits, and it does. -/
  waiting : ∀ o ∈ opened, o.2 ≠ []
  waits : ∀ id, Waits id records ↔ ∃ o ∈ opened, id ∈ o.2

theorem reached (records : List Record) : ∃ closed opened, Reached records closed opened := by
  induction records using reverseRecOn with
  | nil =>
    exact ⟨[], none, fun later => rfl, rfl, by simp, by simp,
      fun id => by simp [not_waits_nil]⟩
  | append_singleton records r ih =>
    obtain ⟨closed, opened, hrest, htaken, hfilled, hwaiting, hwaits⟩ := ih
    have hlater : ∀ later, group (records ++ [r] ++ later) =
        closed ++ groupLoop opened (r :: later) := by
      intro later
      rw [append_assoc, hrest, singleton_append]
    cases opened with
    | none =>
      have hnone : ∀ id, ¬ Waits id records := fun id h => by
        obtain ⟨o, ho, -⟩ := (hwaits id).1 h
        cases ho
      have hlone (hcalls : ∀ id, r.entry.calls id = false)
          (hloop : ∀ later, groupLoop none (r :: later) = ⟨[r]⟩ :: groupLoop none later) :
          ∃ closed opened, Reached (records ++ [r]) closed opened := by
        refine ⟨closed ++ [⟨[r]⟩], none, fun later => ?_, ?_, by simp, by simp, fun id => ?_⟩
        · rw [hlater, hloop, append_assoc, singleton_append]
        · rw [← htaken]
          simp
        · simp [waits_concat, hcalls, hnone]
      cases hentry : r.entry with
      | toolCall id tool args =>
        refine ⟨closed, some ([r], [id]), fun later => ?_, ?_, by simp, by simp, fun id' => ?_⟩
        · rw [hlater, groupLoop, hentry]
        · rw [← htaken]
          simp
        · simp [waits_concat, hentry, calls, hnone, @eq_comm _ id id']
      | _ =>
        exact hlone (fun id => by rw [hentry]; rfl) fun later => by rw [groupLoop, hentry]
    | some opened =>
      obtain ⟨buffered, awaiting⟩ := opened
      have hmem : ∀ id, Waits id records ↔ id ∈ awaiting := fun id => by simp [hwaits]
      have hgrown : closed.flatMap Turn.records ++ (buffered ++ [r]) = records ++ [r] := by
        rw [← append_assoc, ← htaken]
        rfl
      cases hentry : r.entry with
      | toolCall id tool args =>
        refine ⟨closed, some (buffered ++ [r], awaiting ++ [id]), fun later => ?_, hgrown,
          by simp, by simp, fun id' => ?_⟩
        · rw [hlater, groupLoop, hentry]
        · simp [waits_concat, hentry, calls, answers, hmem, or_comm,
            @eq_comm _ id id']
      | toolResult id tool output ok =>
        have hleft : ∀ id', Waits id' (records ++ [r]) ↔ id' ∈ awaiting.filter (· != id) := by
          intro id'
          simp [waits_concat, hentry, calls, answers, hmem,
            @eq_comm _ id' id, and_comm]
        by_cases hempty : (awaiting.filter (· != id)).isEmpty = true
        · refine ⟨closed ++ [⟨buffered ++ [r]⟩], none, fun later => ?_, ?_, by simp, by simp,
            fun id' => ?_⟩
          · rw [hlater, groupLoop, hentry]
            simp [hempty]
          · simpa using hgrown
          · rw [hleft, isEmpty_iff.1 hempty]
            simp
        · refine ⟨closed, some (buffered ++ [r], awaiting.filter (· != id)), fun later => ?_,
            hgrown, by simp, ?_, fun id' => ?_⟩
          · rw [hlater, groupLoop, hentry]
            simp [hempty]
          · rintro o ho
            obtain rfl : (buffered ++ [r], awaiting.filter (· != id)) = o := by simpa using ho
            exact fun h => hempty (isEmpty_iff.2 h)
          · rw [hleft]
            simp
      | _ =>
        refine ⟨closed, some (buffered ++ [r], awaiting), fun later => ?_, hgrown,
          by simp, by simpa using hwaiting, fun id' => ?_⟩
        · rw [hlater, groupLoop, hentry]
        · simp [waits_concat, hentry, calls, answers, hmem]

/-! ## Where a turn begins -/

theorem turnAt_append_lt {closed turns : List Turn} {q : Nat}
    (h : q < (closed.flatMap Turn.records).length) :
    turnAt (closed ++ turns) q < closed.length := by
  induction closed generalizing q with
  | nil => cases h
  | cons turn closed ih =>
    rw [cons_append, turnAt]
    split
    · exact Nat.succ_pos _
    next hq =>
      rw [flatMap_cons, length_append] at h
      exact Nat.succ_lt_succ (ih (by omega))

theorem turnAt_append_add (closed turns : List Turn) (p : Nat) :
    turnAt (closed ++ turns) ((closed.flatMap Turn.records).length + p) =
      closed.length + turnAt turns p := by
  induction closed with
  | nil => simp
  | cons turn closed ih =>
    rw [cons_append, flatMap_cons, length_append, Nat.add_assoc, turnAt_cons_add, ih,
      length_cons]
    omega

/-- A record that is neither a call nor a result begins a turn exactly when no call is waited
for. -/
theorem group_begins (records : List Record) {r : Record} (later : List Record)
    (hplain : r.entry.plain = true) :
    Begins (group (records ++ r :: later)) records.length ↔ ¬ Waited records := by
  obtain ⟨closed, opened, h⟩ := reached records
  have hlen := congrArg length h.taken
  rw [length_append] at hlen
  rw [h.rest]
  cases opened with
  | none =>
    have hloop : groupLoop none (r :: later) = ⟨[r]⟩ :: groupLoop none later := by
      rw [groupLoop]
      cases hentry : r.entry with
      | toolCall => simp [hentry, plain] at hplain
      | _ => rfl
    refine iff_of_true (fun q hq => ?_) ?_
    · rw [Option.map_none, Option.getD_none, length_nil] at hlen
      have hbefore : turnAt (closed ++ groupLoop none (r :: later)) q < closed.length :=
        turnAt_append_lt (by omega)
      have hat : turnAt (closed ++ groupLoop none (r :: later)) records.length = closed.length := by
        rw [← hlen, turnAt_append_add, hloop, turnAt_cons_lt (by simp), Nat.add_zero]
      omega
    · rintro ⟨id, hid⟩
      obtain ⟨o, ho, -⟩ := (h.waits id).1 hid
      cases ho
  | some opened =>
    obtain ⟨buffered, awaiting⟩ := opened
    have hloop : groupLoop (some (buffered, awaiting)) (r :: later) =
        groupLoop (some (buffered ++ [r], awaiting)) later := by
      rw [groupLoop]
      cases hentry : r.entry with
      | toolCall => simp [hentry, plain] at hplain
      | toolResult => simp [hentry, plain] at hplain
      | _ => rfl
    refine iff_of_false (fun hbegins => ?_) (not_not.2 ?_)
    · -- the turn begins with the call that opened it
      obtain ⟨turn, turns, heq, hle⟩ := groupLoop_first (buffered ++ [r]) awaiting later
      rw [length_append, length_singleton] at hle
      have hpos := length_pos_iff.2 (h.filled _ rfl)
      dsimp only [Option.map_some, Option.getD_some] at hlen hpos
      refine hbegins (closed.flatMap Turn.records).length (by omega) ?_
      rw [← hlen, turnAt_append_add, hloop, heq, turnAt_cons_lt (by omega),
        ← Nat.add_zero (length _), turnAt_append_add, turnAt_cons_lt (by omega)]
    · obtain ⟨id, hid⟩ := exists_mem_of_ne_nil _ (h.waiting _ rfl)
      exact ⟨id, (h.waits id).2 ⟨_, rfl, hid⟩⟩

end Turn

/-! ## The unanswered call -/

/-- Of the journal `front ++ call :: back`, the user messages after the call begin a turn where they
would without it. -/
def BeginAsWithout (front : List Record) (call : Record) (back : List Record) : Prop :=
  ∀ before r after, back = before ++ r :: after → r.entry.fromUser = true →
    (Begins (Turn.group (front ++ call :: back)) (front.length + 1 + before.length) ↔
      Begins (Turn.group (front ++ back)) (front.length + before.length))

/-- **An unanswered call swallows the user messages after it.**  They begin the turns they would
begin without it exactly when none would: at each of them another call is waited for. -/
theorem user_turns_iff {front back : List Record} {call : Record} {id : String}
    (hcall : call.entry.calls id = true) (hnever : ∀ r ∈ back, r.entry.answers id = false) :
    BeginAsWithout front call back ↔ ∀ before r after, back = before ++ r :: after →
      r.entry.fromUser = true → Waited (front ++ before) := by
  refine forall_congr' fun before => forall_congr' fun r => forall_congr' fun after =>
    forall_congr' fun hback => forall_congr' fun huser => ?_
  subst hback
  have hplain := JournalEntry.plain_of_fromUser huser
  have hwith := Turn.group_begins (front ++ call :: before) after hplain
  have hwithout := Turn.group_begins (front ++ before) after hplain
  have hwaited : Waited (front ++ call :: before) :=
    ⟨id, front, call, before, rfl, hcall, fun x hx => hnever x (List.mem_append_left _ hx)⟩
  rw [List.append_assoc, List.cons_append, List.length_append, List.length_cons,
    Nat.add_comm before.length 1, ← Nat.add_assoc] at hwith
  rw [List.append_assoc, List.length_append] at hwithout
  rw [hwith, hwithout, iff_false_left (not_not.2 hwaited), not_not]

/-- A second call is open when the user speaks. -/
theorem user_turns_open : BeginAsWithout [⟨1, 0, .toolCall "a" "t" .null⟩]
    ⟨2, 0, .toolCall "b" "t" .null⟩ [⟨3, 0, .input .user (.user "go")⟩] := by
  refine (@user_turns_iff _ _ _ "b" rfl (by simp [JournalEntry.answers])).2 ?_
  intro before r after hback huser
  cases before with
  | nil => exact ⟨"a", [], _, [], rfl, rfl, by simp⟩
  | cons x before => cases before <;> cases hback

/-- The process dies in a tool, and the user comes back. -/
theorem user_swallowed : ¬ ∀ front call back id, call.entry.calls id = true →
    (∀ r ∈ back, r.entry.answers id = false) → BeginAsWithout front call back := by
  intro h
  have hsame := h [] ⟨1, 0, .toolCall "a" "t" .null⟩ [⟨2, 0, .input .user (.user "go")⟩] "a" rfl
    (by simp [JournalEntry.answers]) [] _ [] rfl rfl
  exact absurd (hsame.2 (by decide)) (by decide)

end Journal
end Gen2
