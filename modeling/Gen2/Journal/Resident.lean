import Gen2.Journal.Store
import Gen2.Journal.Turn
import Gen2.Journal.Wake
import Mathlib.Data.String.Basic

/-!
# An agent that outlives its runs

`journal/scratch.rs` and `journal/resident.rs`: the notes of an agent, and the agent itself, with
its notes, its schedule and the journal that both are kept in.

* **The journal** may be any, and may fail: what it replies to a call is an argument of the call.
* **Notes** are a map kept in the order of its keys, so a `Scratch` carries that it is.
* **Failures.**  `Resident.poll` takes the wake from the schedule before it asks the journal, and
  `Resident.finished` tells the schedule after.  `failing_journal_iff` says what each of them leaves
  when the journal fails in between: a wake that was asked for is lost, and an agent that was at
  work stays at work.
-/

namespace Gen2
namespace Journal

open List

/-! ## Notes -/

/-- `BTreeMap::insert`. -/
def insertNote (key value : String) : List (String × String) → List (String × String)
  | [] => [(key, value)]
  | (key', value') :: notes =>
    if key < key' then (key, value) :: (key', value') :: notes
    else if key = key' then (key, value) :: notes
    else (key', value') :: insertNote key value notes

theorem keys_insertNote {key value k : String} {notes : List (String × String)}
    (h : k ∈ (insertNote key value notes).map Prod.fst) : k = key ∨ k ∈ notes.map Prod.fst := by
  induction notes with
  | nil => simpa [insertNote] using h
  | cons note notes ih =>
    rw [insertNote] at h
    split at h
    · simpa using h
    split at h
    · simp only [map_cons, mem_cons] at h ⊢
      exact h.imp_right .inr
    · simp only [map_cons, mem_cons] at h ⊢
      rcases h with h | h
      · exact .inr (.inl h)
      · exact (ih h).imp_right .inr

theorem sorted_insertNote (key value : String) {notes : List (String × String)}
    (h : (notes.map Prod.fst).Pairwise (· < ·)) :
    ((insertNote key value notes).map Prod.fst).Pairwise (· < ·) := by
  induction notes with
  | nil => simp [insertNote]
  | cons note notes ih =>
    obtain ⟨key', value'⟩ := note
    have hcons := h
    rw [map_cons, pairwise_cons] at hcons
    rw [insertNote]
    split
    next hlt =>
      rw [map_cons, pairwise_cons]
      refine ⟨fun k hk => ?_, h⟩
      rcases mem_cons.1 hk with rfl | hk
      · exact hlt
      · exact lt_trans hlt (hcons.1 k hk)
    next hge =>
      split
      next heq =>
        subst heq
        exact h
      next hne =>
        rw [map_cons, pairwise_cons]
        refine ⟨fun k hk => ?_, ih hcons.2⟩
        rcases keys_insertNote hk with rfl | hk
        · exact lt_of_le_of_ne (not_lt.1 hge) (Ne.symm hne)
        · exact hcons.1 k hk

/-- `Scratch`: the agent's notes, in the order of their keys. -/
structure Scratch where
  entries : List (String × String)
  sorted : (entries.map Prod.fst).Pairwise (· < ·)

namespace Scratch

def new : Scratch := ⟨[], .nil⟩

/-- `Scratch::apply`. -/
def apply (scratch : Scratch) : JournalEntry → Scratch
  | .scratchSet key value =>
    ⟨insertNote key value scratch.entries, sorted_insertNote key value scratch.sorted⟩
  | .scratchDelete key =>
    ⟨scratch.entries.filter (·.1 != key),
      scratch.sorted.sublist (List.Sublist.map _ List.filter_sublist)⟩
  | _ => scratch

/-- `Scratch::replay`. -/
def replay (records : List Record) : Scratch :=
  records.foldl (fun scratch record => scratch.apply record.entry) new

/-- `Scratch::to_prompt`. -/
def toPrompt (scratch : Scratch) : String :=
  if scratch.entries.isEmpty then ""
  else scratch.entries.foldl
    (fun out note => out ++ "\n## " ++ note.1 ++ "\n" ++ note.2 ++ "\n") "Your notes:\n"

end Scratch

/-! ## The agent -/

/-- What a journal replies, to a replay and to an append. -/
structure Replies where
  replay : Except JournalError (List Record)
  append : JournalEntry → Except JournalError Nat

/-- `SELF_PROMPT`. -/
def SELF_PROMPT : String :=
  "You have been woken by your periodic heartbeat. Review your notes and recent activity. " ++
    "If there is useful work you can do now, do it. If there is not, say so briefly and stop."

/-- `Resident`, without its journal. -/
structure Resident where
  scratch : Scratch
  schedule : WakeScheduler
  system : Option String
  contextBudget : Nat

/-- `Wake`: a run the agent should perform. -/
structure Wake where
  reason : WakeReason
  messages : List Message

/-- `source_reason`. -/
def sourceReason : InputSource → Option WakeReason
  | .user => some .user
  | .external what => some (.external what)
  | .selfPrompt => none

namespace Resident

/-- `Resident::open`. -/
def opened (journal : Replies) (heartbeat : Heartbeat) : Except JournalError Resident := do
  let records ← journal.replay
  return ⟨.replay records, .new heartbeat, none, 4096⟩

/-- `Resident::remember` and `Resident::forget`: the journal first. -/
def note (agent : Resident) (entry : JournalEntry) (journal : Replies) :
    Except JournalError Unit × Resident :=
  match journal.append entry with
  | .error e => (.error e, agent)
  | .ok _ => (.ok (), { agent with scratch := agent.scratch.apply entry })

/-- `Resident::receive`. -/
def receive (agent : Resident) (source : InputSource) (content : Message) (journal : Replies) :
    Except JournalError Unit × Resident :=
  match journal.append (.input source content) with
  | .error e => (.error e, agent)
  | .ok _ =>
    (.ok (), { agent with
      schedule := agent.schedule.request ((sourceReason source).getD .user) })

/-- What stands in front of the history for one run. -/
def preamble (agent : Resident) (reason : WakeReason) : List Message :=
  (agent.system.map Message.system).toList ++
    (if agent.scratch.entries.isEmpty then [] else [.system agent.scratch.toPrompt]) ++
    match reason with
    | .heartbeat => [.system SELF_PROMPT]
    | _ => []

/-- `Resident::poll`. -/
def poll (agent : Resident) (now : Nat) (journal : Replies) : Except Declined Wake × Resident :=
  match agent.schedule.poll now with
  | (.error d, schedule) => (.error d, { agent with schedule })
  | (.ok reason, schedule) =>
    match journal.replay with
    | .error _ => (.error .busy, { agent with schedule })
    | .ok records =>
      let messages := (Projection.withPreamble (agent.preamble reason)
        (.recentTurns agent.contextBudget)).project records
      match journal.append (.wake reason) with
      | .error _ => (.error .busy, { agent with schedule })
      | .ok _ => (.ok ⟨reason, messages⟩, { agent with schedule := schedule.beganRunning })

/-- The loop of `Resident::finished`, over the entries with what the journal replies to each. -/
def record (agent : Resident) :
    List (JournalEntry × Replies) → Except JournalError Unit × Resident
  | [] => (.ok (), agent)
  | (entry, journal) :: entries =>
    match journal.append entry with
    | .error e => (.error e, agent)
    | .ok _ => record { agent with scratch := agent.scratch.apply entry } entries

/-- `Resident::finished`. -/
def finished (agent : Resident) (entries : List (JournalEntry × Replies)) :
    Except JournalError Unit × Resident :=
  match agent.record entries with
  | (.error e, agent) => (.error e, agent)
  | (.ok (), agent) =>
    (.ok (), { agent with schedule := agent.schedule.finishedRunning (!entries.isEmpty) })

end Resident

/-! ## When the journal fails -/

/-- The journal takes the entry. -/
def Replies.Takes (journal : Replies) (entry : JournalEntry) : Prop :=
  ∃ id, journal.append entry = .ok id

/-- The journal can be read, and takes everything. -/
def Replies.Works (journal : Replies) : Prop :=
  (∃ records, journal.replay = .ok records) ∧ ∀ entry, journal.Takes entry

/-- The journal can be read, and takes that the agent was woken for this. -/
def Replies.Serves (journal : Replies) (reason : WakeReason) : Prop :=
  (∃ records, journal.replay = .ok records) ∧ journal.Takes (.wake reason)

namespace Resident

/-- A wake that something outside asked for is waiting. -/
def Asked (agent : Resident) (reason : WakeReason) : Prop :=
  agent.schedule.pending = some reason ∧ reason ≠ .heartbeat

/-- The poll gets as far as the journal, and the journal fails. -/
def PollFails (agent : Resident) (now : Nat) (journal : Replies) : Prop :=
  ∃ reason, (agent.schedule.poll now).1 = .ok reason ∧ ¬ journal.Serves reason

/-- A poll that fails for the journal costs no wake that was asked for: the next one that the
journal serves returns it. -/
def KeepsWake (agent : Resident) (now : Nat) (journal : Replies) : Prop :=
  ∀ reason, agent.Asked reason → agent.PollFails now journal →
    ∀ later working, working.Works → ∃ wake,
      ((agent.poll now journal).2.poll later working).1 = .ok wake ∧ wake.reason = reason

/-- An agent whose `finished` fails for the journal is not at work any more. -/
def Unwedged (agent : Resident) (entries : List (JournalEntry × Replies)) : Prop :=
  ∀ e, (agent.finished entries).1 = .error e → (agent.finished entries).2.schedule.busy = false

theorem poll_fails {agent : Resident} {now : Nat} {journal : Replies}
    (h : agent.PollFails now journal) :
    agent.poll now journal =
      (.error .busy, { agent with schedule := (agent.schedule.poll now).2 }) := by
  obtain ⟨reason, hreason, hfails⟩ := h
  rw [poll]
  generalize agent.schedule.poll now = x at hreason
  obtain ⟨outcome, schedule⟩ := x
  obtain rfl : outcome = .ok reason := hreason
  dsimp only
  cases hreplay : journal.replay with
  | error e => rfl
  | ok records =>
    cases happend : journal.append (.wake reason) with
    | error e => rfl
    | ok id => exact absurd ⟨⟨records, hreplay⟩, id, happend⟩ hfails

/-- A wake that nobody asks for is a heartbeat. -/
theorem poll_reason {agent : Resident} {now : Nat} {journal : Replies} {wake : Wake}
    (hpending : agent.schedule.pending = none) (h : (agent.poll now journal).1 = .ok wake) :
    wake.reason = .heartbeat := by
  have hschedule : ∀ reason, (agent.schedule.poll now).1 = .ok reason → reason = .heartbeat := by
    intro reason heq
    rw [WakeScheduler.poll, hpending] at heq
    split at heq
    · cases heq
    dsimp only at heq
    split at heq
    · cases heq
    · split at heq
      · cases heq
      · exact (Except.ok.inj heq).symm
  rw [poll] at h
  generalize agent.schedule.poll now = x at h hschedule
  obtain ⟨outcome, schedule⟩ := x
  cases outcome with
  | error d => cases h
  | ok reason =>
    dsimp only at h
    split at h
    · cases h
    · split at h
      · cases h
      · rw [← Except.ok.inj h]
        exact hschedule reason rfl

/-- A poll that the journal fails keeps the wake only when there is none to lose. -/
theorem keepsWake_iff (agent : Resident) (now : Nat) (journal : Replies) :
    agent.KeepsWake now journal ↔
      agent.schedule.busy = true ∨ ∀ reason, agent.Asked reason → journal.Serves reason := by
  constructor
  · intro h
    by_cases hbusy : agent.schedule.busy = true
    · exact .inl hbusy
    refine .inr fun reason hasked => by_contra fun hserves => ?_
    have hpoll : agent.schedule.poll now =
        (.ok reason, { agent.schedule with pending := none, lastWake := some now }) := by
      rw [WakeScheduler.poll, if_neg hbusy, hasked.1]
    have hfails : agent.PollFails now journal := ⟨reason, by rw [hpoll], hserves⟩
    obtain ⟨wake, hwake, hreason⟩ := h reason hasked hfails now ⟨.ok [], fun _ => .ok 0⟩
      ⟨⟨[], rfl⟩, fun _ => ⟨0, rfl⟩⟩
    rw [poll_fails hfails, hpoll] at hwake
    exact hasked.2 (hreason.symm.trans (poll_reason rfl hwake))
  · rintro h reason hasked ⟨reason', hpoll, hfails⟩
    rw [WakeScheduler.poll] at hpoll
    rcases h with hbusy | hserves
    · rw [if_pos hbusy] at hpoll
      cases hpoll
    split at hpoll
    · cases hpoll
    · rw [hasked.1] at hpoll
      obtain rfl := Except.ok.inj hpoll
      exact absurd (hserves _ hasked) hfails

theorem record_schedule (agent : Resident) (entries : List (JournalEntry × Replies)) :
    (agent.record entries).2.schedule = agent.schedule := by
  fun_induction record agent entries with
  | case1 => rfl
  | case2 => rfl
  | case3 agent entry journal entries id happend ih => exact ih

theorem record_fails_iff (agent : Resident) (entries : List (JournalEntry × Replies)) :
    (∃ e, (agent.record entries).1 = .error e) ↔ ∃ x ∈ entries, ¬ x.2.Takes x.1 := by
  fun_induction record agent entries with
  | case1 => simp
  | case2 agent entry journal entries e happend =>
    refine iff_of_true ⟨e, rfl⟩ ⟨_, mem_cons_self, ?_⟩
    rintro ⟨id, hid⟩
    cases happend.symm.trans hid
  | case3 agent entry journal entries id happend ih =>
    rw [ih, exists_mem_cons_iff]
    exact (or_iff_right (not_not.2 ⟨id, happend⟩)).symm

/-- An agent stays at work when `finished` fails, if it was. -/
theorem unwedged_iff (agent : Resident) (entries : List (JournalEntry × Replies)) :
    agent.Unwedged entries ↔ agent.schedule.busy = false ∨ ∀ x ∈ entries, x.2.Takes x.1 := by
  have hfinished : ∀ e, (agent.finished entries).1 = .error e ↔
      (agent.record entries).1 = .error e := by
    intro e
    rw [finished]
    rcases agent.record entries with ⟨⟨⟩, agent'⟩ <;> rfl
  have hleft : ∀ e, (agent.record entries).1 = .error e →
      (agent.finished entries).2.schedule = agent.schedule := by
    intro e he
    have hschedule := agent.record_schedule entries
    rw [finished]
    generalize agent.record entries = x at he hschedule
    obtain ⟨outcome, agent'⟩ := x
    obtain rfl : outcome = .error e := he
    exact hschedule
  constructor
  · intro h
    by_cases hall : ∀ x ∈ entries, x.2.Takes x.1
    · exact .inr hall
    · obtain ⟨e, he⟩ := (agent.record_fails_iff entries).2 (by simpa using hall)
      exact .inl ((congrArg _ (hleft e he)).symm.trans (h e ((hfinished e).2 he)))
  · intro h e he
    have he := (hfinished e).1 he
    rw [hleft e he]
    refine h.resolve_right fun hall => ?_
    obtain ⟨x, hx, hfails⟩ := (agent.record_fails_iff entries).1 ⟨e, he⟩
    exact hfails (hall x hx)

/-- **What a failing journal costs.**  A poll keeps the wake that was asked for exactly when the
agent is at work, or the journal serves it; and `finished` leaves the agent free exactly when it
was, or the journal takes every entry. -/
theorem failing_journal_iff (agent : Resident) (now : Nat) (journal : Replies)
    (entries : List (JournalEntry × Replies)) :
    (agent.KeepsWake now journal ↔
      agent.schedule.busy = true ∨ ∀ reason, agent.Asked reason → journal.Serves reason) ∧
      (agent.Unwedged entries ↔
        agent.schedule.busy = false ∨ ∀ x ∈ entries, x.2.Takes x.1) :=
  ⟨agent.keepsWake_iff now journal, agent.unwedged_iff entries⟩

/-- A disk that is full, and one that is not. -/
def full : Replies := ⟨.ok [], fun _ => .error (.io "")⟩

def empty : Replies := ⟨.ok [], fun _ => .ok 0⟩

/-- A new agent that the user has spoken to. -/
def asked : Resident := (Resident.receive ⟨.new, .new (.every 0), none, 4096⟩ .user (.user "hello")
  empty).2

/-- The disk is full when the agent is to be woken; and when it is done. -/
theorem full_disk_costs : (¬ ∀ (agent : Resident) now journal, agent.KeepsWake now journal) ∧
    ¬ ∀ (agent : Resident) entries, agent.Unwedged entries := by
  constructor
  · intro h
    obtain ⟨wake, hwake, hreason⟩ := h asked 0 full .user ⟨rfl, nofun⟩
      ⟨.user, rfl, fun hserves => nomatch hserves.2⟩ minInterval empty
      ⟨⟨[], rfl⟩, fun _ => ⟨0, rfl⟩⟩
    exact absurd (hreason.symm.trans (poll_reason rfl hwake)) nofun
  · intro h
    exact absurd (h (asked.poll 0 empty).2 [(.assistant (.user "done"), full)] (.io "") rfl) nofun

end Resident

end Journal
end Gen2
