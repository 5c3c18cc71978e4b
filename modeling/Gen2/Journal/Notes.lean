import Gen2.Journal.Resident
import Gen2.Lib.Gather

/-!
# An agent's notes are what its journal says

`journal/scratch.rs` and `journal/resident.rs`: an agent carries its notes along in memory, while
its journal fails now and then and its process starts again.

* A `Desk` is an agent with its log: what it read of the journal when it was opened, and what the
  journal has taken since.
* `lastNote` is what a log says of a note, and `notes_kept` that the agent's notes say the same.
-/

namespace Gen2
namespace Journal

open Lib List

/-! ## What a log says of a note -/

/-- What an entry says of a note: its text, that there is none, or nothing. -/
def JournalEntry.about (key : String) : JournalEntry → Option (Option String)
  | .scratchSet k value => if key = k then some (some value) else none
  | .scratchDelete k => if key = k then some none else none
  | _ => none

/-- What the last entry about a note says of it. -/
def lastNote (key : String) (log : List JournalEntry) : Option String :=
  (log.reverse.findSome? (·.about key)).join

theorem lookup_insertNote (key value k : String) (notes : List (String × String)) :
    (insertNote key value notes).lookup k = if k = key then some value else notes.lookup k := by
  induction notes with
  | nil => exact lookup_cons_ite k key value []
  | cons note notes ih =>
    obtain ⟨key', value'⟩ := note
    rw [insertNote]
    split
    · exact lookup_cons_ite k key value _
    split
    next heq =>
      subst heq
      rw [lookup_cons_ite, lookup_cons_ite]
      split <;> rfl
    next hne =>
      rw [lookup_cons_ite, ih, lookup_cons_ite]
      split
      next hk => rw [if_neg (hk ▸ Ne.symm hne)]
      next => rfl

theorem lookup_filter_ne (key k : String) (notes : List (String × String)) :
    (notes.filter (·.1 != key)).lookup k = if k = key then none else notes.lookup k := by
  induction notes with
  | nil => exact (ite_self _).symm
  | cons note notes ih =>
    obtain ⟨key', value'⟩ := note
    rw [filter_cons, lookup_cons_ite]
    by_cases hkey : key' = key
    · rw [if_neg (by simpa using hkey), ih]
      subst hkey
      split <;> rfl
    · rw [if_pos (by simpa using hkey), lookup_cons_ite, ih]
      split
      next hk => rw [if_neg (hk ▸ hkey)]
      next => rfl

namespace Scratch

/-- `Scratch::get`. -/
def get (scratch : Scratch) (key : String) : Option String := scratch.entries.lookup key

/-- The notes are those of a log. -/
def Tells (scratch : Scratch) (log : List JournalEntry) : Prop :=
  ∀ key, scratch.get key = lastNote key log

theorem get_apply (scratch : Scratch) (entry : JournalEntry) (key : String) :
    (scratch.apply entry).get key = (entry.about key).getD (scratch.get key) := by
  cases entry with
  | scratchSet k value =>
    refine (lookup_insertNote k value key scratch.entries).trans ?_
    rw [JournalEntry.about]
    split <;> rfl
  | scratchDelete k =>
    refine (lookup_filter_ne k key scratch.entries).trans ?_
    rw [JournalEntry.about]
    split <;> rfl
  | _ => rfl

theorem Tells.apply {scratch : Scratch} {log : List JournalEntry} (h : scratch.Tells log)
    (entry : JournalEntry) : (scratch.apply entry).Tells (log ++ [entry]) := by
  intro key
  rw [get_apply, h key, lastNote, lastNote, reverse_concat, findSome?_cons]
  cases entry.about key <;> rfl

theorem tells_replay (records : List Record) :
    (replay records).Tells (records.map Record.entry) := by
  induction records using List.reverseRecOn with
  | nil => exact fun _ => rfl
  | append_singleton records record ih =>
    rw [replay, foldl_append, map_append]
    exact ih.apply record.entry

end Scratch

/-! ## Runs -/

/-- An agent, with what it has read of its journal and what the journal has taken since. -/
structure Desk where
  agent : Resident
  log : List JournalEntry

/-- What can be done with an agent: `opened` is a new process, on a journal with these records, and
`note` is `remember` and `forget`. -/
inductive Act
  | opened (records : List Record) (heartbeat : Heartbeat)
  | note (entry : JournalEntry) (journal : Replies)
  | receive (source : InputSource) (content : Message) (journal : Replies)
  | poll (now : Nat) (journal : Replies)
  | finished (entries : List (JournalEntry × Replies))

/-- The entries that are taken, up to the first that is not. -/
def taken : List (JournalEntry × Replies) → List JournalEntry
  | [] => []
  | (entry, journal) :: entries =>
    match journal.append entry with
    | .error _ => []
    | .ok _ => entry :: taken entries

/-- One act. -/
def Desk.act (d : Desk) : Act → Desk
  | .opened records heartbeat =>
    (Resident.opened ⟨.ok records, fun _ => .ok 0⟩ heartbeat).toOption.elim d
      (⟨·, records.map Record.entry⟩)
  | .note entry journal => ⟨(d.agent.note entry journal).2, d.log ++ taken [(entry, journal)]⟩
  | .receive source content journal =>
    ⟨(d.agent.receive source content journal).2, d.log ++ taken [(.input source content, journal)]⟩
  | .poll now journal =>
    ⟨(d.agent.poll now journal).2, d.log ++
      ((d.agent.poll now journal).1.toOption.map fun wake => .wake wake.reason).toList⟩
  | .finished entries => ⟨(d.agent.finished entries).2, d.log ++ taken entries⟩

theorem record_tells {agent : Resident} {log : List JournalEntry} (h : agent.scratch.Tells log)
    (entries : List (JournalEntry × Replies)) :
    (agent.record entries).2.scratch.Tells (log ++ taken entries) := by
  fun_induction Resident.record agent entries generalizing log with
  | case1 => simpa [taken] using h
  | case2 agent entry journal entries e happend => simpa [taken, happend] using h
  | case3 agent entry journal entries id happend ih =>
    simpa [taken, happend] using ih (h.apply entry)

theorem poll_scratch (agent : Resident) (now : Nat) (journal : Replies) :
    (agent.poll now journal).2.scratch = agent.scratch := by
  rw [Resident.poll]
  split
  · rfl
  · dsimp only
    split
    · rfl
    · split <;> rfl

theorem act_tells {d : Desk} (h : d.agent.scratch.Tells d.log) (act : Act) :
    (d.act act).agent.scratch.Tells (d.act act).log := by
  cases act with
  | opened records heartbeat => exact Scratch.tells_replay records
  | note entry journal =>
    dsimp only [Desk.act]
    rw [Resident.note, taken]
    cases journal.append entry with
    | error e => simpa using h
    | ok id => exact h.apply entry
  | receive source content journal =>
    dsimp only [Desk.act]
    rw [Resident.receive, taken]
    cases journal.append (.input source content) with
    | error e => simpa using h
    | ok id => exact h.apply (.input source content)
  | poll now journal =>
    dsimp only [Desk.act]
    rw [poll_scratch]
    cases (d.agent.poll now journal).1 with
    | error e => exact (append_nil d.log).symm ▸ h
    | ok wake => exact h.apply (.wake wake.reason)
  | finished entries =>
    have hrecord := record_tells h entries
    dsimp only [Desk.act]
    rw [Resident.finished]
    generalize d.agent.record entries = x at hrecord
    obtain ⟨_ | _, agent⟩ := x <;> exact hrecord

/-- **Notes are kept.**  Whatever is done with an agent once it has been opened, however the journal
fails meanwhile and however often the process starts again: each of its notes is what the last entry
about it says. -/
theorem notes_kept (d : Desk) (records : List Record) (heartbeat : Heartbeat) (acts : List Act) :
    Always (fun act d => some (Desk.act d act)) (fun d => d.agent.scratch.Tells d.log) acts
      (d.act (.opened records heartbeat)) :=
  always_of_step (C := fun _ _ => True) (fun _ act h _ => ⟨_, rfl, act_tells h act⟩)
    (Scratch.tells_replay records) (everyStep_true _ _)

end Journal
end Gen2
