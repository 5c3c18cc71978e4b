import Gen2.Session.Replay

/-!
# A session and its engines

The engine-facing part of `api/session.rs`.  A session can be run on several models.  For each it
keeps a `Binding` — whether the engine has the conversation open, and a digest of exactly what the
engine was given — the one in use in fields of its own, the others parked.

* `noteEngine` brings a binding forward; `noteModel`, `noteThinking` and `noteTools` close the
  conversation when what it was opened under has changed.
* `recordPrefix` and `prefixStillHeld` are the two ends of the digest, and `tailIsAppendable` is the
  check of what comes after it.
* `bindingOf` is the binding of any engine, wherever it is kept, and `OpensNothing` says of a change
  to a session that every conversation open after it was open before it, under the same binding.  No
  operation of a conversation opens anything (`apply_closes`), nor does switching engines.
* `Lead` is the beginning of a transcript together with the ids of its messages: what a digest is a
  digest of.
-/

namespace Gen2
namespace Session

open List

/-! ## The transcript -/

/-- `transcript_with_system`. -/
def transcriptWithSystem (s : Session) (system : Option String) : List Message :=
  (system.map Message.system).toList ++ s.projection

/-- `transcript`: the system prompt, if any, followed by the active projection. -/
def transcript (s : Session) : List Message := s.transcriptWithSystem s.system

def transcriptLen (s : Session) : Nat := s.projection.length + if s.system.isSome then 1 else 0

/-- `pending`: what the engine still needs for the next turn. -/
def pending (s : Session) (sentThrough : Nat) : List Message :=
  if s.opened then s.transcript.drop (min sentThrough s.transcript.length) else s.transcript

/-- `note_shed`. -/
def noteShed (s : Session) (n : Nat) : Session := { s with shed := min (s.shed + n) (2 ^ 64 - 1) }

/-! ## Bindings -/

/-- `note_engine`: park what the engine bound so far holds, if it holds anything, and bring back
what this one held last time.  The answer is whether the bound engine changed. -/
def noteEngine (s : Session) (engine : Nat) : Bool × Session :=
  if s.boundEngine = some engine then
    (false, s)
  else
    let parked := match s.boundEngine with
      | some previous =>
        let binding : Binding := ⟨s.opened, s.toolsFingerprint, s.modelGeneration, s.thinking,
          s.prefixFingerprint, s.ownReplyFollows⟩
        if binding.opened then s.parked.insert previous binding else s.parked
      | none => s.parked
    let restored := (parked.lookup engine).getD Binding.default
    (true, { s with
      opened := restored.opened
      toolsFingerprint := restored.toolsFingerprint
      modelGeneration := restored.modelGeneration
      thinking := restored.thinking
      prefixFingerprint := restored.prefixFingerprint
      ownReplyFollows := restored.ownReplyFollows
      boundEngine := some engine
      parked := parked.erase engine })

/-- `note_model`. -/
def noteModel (s : Session) (generation : Nat) : Bool × Session :=
  match s.modelGeneration with
  | some current =>
    if current = generation then (false, s)
    else (true, { s with modelGeneration := some generation, opened := false })
  | none =>
    if !s.opened then (false, { s with modelGeneration := some generation })
    else (true, { s with modelGeneration := some generation, opened := false })

/-- `note_thinking`. -/
def noteThinking (s : Session) (mode : ThinkingMode) : Bool × Session :=
  match s.thinking with
  | some current =>
    if current = mode then (false, s)
    else (true, { s with thinking := some mode, opened := false })
  | none =>
    if !s.opened then (false, { s with thinking := some mode })
    else (true, { s with thinking := some mode, opened := false })

/-- `note_tools`. -/
def noteTools (s : Session) (fingerprint : UInt64) : Bool × Session :=
  match s.toolsFingerprint with
  | some current =>
    if current = fingerprint then (false, s)
    else (true, { s with toolsFingerprint := some fingerprint, opened := false })
  | none =>
    if !s.opened then (false, { s with toolsFingerprint := some fingerprint })
    else (true, { s with toolsFingerprint := some fingerprint, opened := false })

/-- `tail_is_appendable`: every assistant message after the first `count` entries is the engine's
own reply, and that one is right behind them. -/
def tailIsAppendable (s : Session) (count : Nat) : Bool :=
  let skip := count - if s.system.isSome then 1 else 0
  (s.projection.drop skip).zipIdx.all fun p =>
    p.1.role != "assistant" || (p.2 == 0 && s.ownReplyFollows)

section
variable [SerdeJson]

/-- `prefix_digest`: the system prompt, the active messages by id and content, and the tools that
were offered alongside them. -/
def prefixDigest (s : Session) (count : Nat) (offeredTools : UInt64) : UInt64 :=
  let h := Fnv.new.feedU64 offeredTools
  let p := match s.system with
    | some system => if 0 < count then (h.feed (asBytes system), count - 1) else (h, count)
    | none => (h, count)
  let take := min p.2 s.active.length
  let h := ((s.active.take take).zip (s.projection.take take)).foldl
    (fun h m => feedMessage h m.1 m.2) p.1
  (h.feedU64 (.ofNat take)).hash

/-- `record_prefix`. -/
def recordPrefix (s : Session) (count : Nat) : Session :=
  { s with
    prefixFingerprint := some (s.prefixDigest count s.offeredFingerprint)
    ownReplyFollows := true }

/-- `prefix_still_held`. -/
def prefixStillHeld (s : Session) (count : Nat) (offeredTools : UInt64) : Bool :=
  decide (0 < count) && decide (count ≤ s.transcriptLen) &&
    s.prefixFingerprint == some (s.prefixDigest count offeredTools)

end

/-! ## What a digest is a digest of -/

/-- The beginning of a transcript: the system prompt, and messages under their ids. -/
structure Lead where
  system : Option String
  entries : List (MessageId × Message)

namespace Lead

def length (l : Lead) : Nat := (if l.system.isSome then 1 else 0) + l.entries.length

def messages (l : Lead) : List Message :=
  (l.system.map Message.system).toList ++ l.entries.map (·.2)

/-- The digest of a beginning of a transcript, under the tools offered with it. -/
def digest [SerdeJson] (l : Lead) (offeredTools : UInt64) : UInt64 :=
  let h := Fnv.new.feedU64 offeredTools
  let h := match l.system with
    | some system => h.feed (asBytes system)
    | none => h
  let h := l.entries.foldl (fun h m => feedMessage h m.1 m.2) h
  (h.feedU64 (.ofNat l.entries.length)).hash

theorem length_messages (l : Lead) : l.messages.length = l.length := by
  cases hsys : l.system <;> simp [messages, length, hsys, Nat.add_comm]

end Lead

/-- The active messages under their ids. -/
def entries (s : Session) : List (MessageId × Message) := s.active.zip s.projection

/-- The first `count` entries of the transcript. -/
def lead (s : Session) (count : Nat) : Lead where
  system := if 0 < count then s.system else none
  entries := s.entries.take (count - if s.system.isSome then 1 else 0)

variable {s : Session}

theorem entries_map_snd (h : s.active.length = s.projection.length) :
    s.entries.map (·.2) = s.projection :=
  map_snd_zip (by omega)

theorem length_transcript (s : Session) : s.transcript.length = s.transcriptLen := by
  cases hsys : s.system <;> simp [transcript, transcriptWithSystem, transcriptLen, hsys]

theorem length_entries (h : s.active.length = s.projection.length) :
    s.entries.length = s.projection.length := by
  simp [entries, h]

theorem lead_messages (h : s.active.length = s.projection.length) (count : Nat) :
    (s.lead count).messages = s.transcript.take count := by
  rw [Lead.messages, lead, map_take, entries_map_snd h, transcript, transcriptWithSystem]
  cases hsys : s.system with
  | none => simp
  | some system =>
    cases count with
    | zero => simp
    | succ n => simp

theorem lead_length (h : s.active.length = s.projection.length) {count : Nat}
    (hcount : count ≤ s.transcriptLen) : (s.lead count).length = count := by
  rw [← Lead.length_messages, lead_messages h, length_take, length_transcript]
  omega

/-- As many entries as there are, or more, are all of them. -/
theorem lead_all (h : s.active.length = s.projection.length) {count : Nat}
    (hcount : s.transcriptLen ≤ count) :
    s.lead count = ⟨if 0 < count then s.system else none, s.entries⟩ := by
  have hlen : s.entries.length ≤ count - if s.system.isSome then 1 else 0 := by
    rw [length_entries h]
    rw [transcriptLen] at hcount
    omega
  rw [lead, take_of_length_le hlen]

theorem prefixDigest_eq [SerdeJson] (h : s.active.length = s.projection.length) (count : Nat)
    (offeredTools : UInt64) :
    s.prefixDigest count offeredTools = (s.lead count).digest offeredTools := by
  have htake : ∀ n, ((s.active.take (min n s.active.length)).zip
      (s.projection.take (min n s.active.length))) = s.entries.take n := fun n => by
    rw [entries, zip_eq_zipWith, zip_eq_zipWith, take_zipWith]
    by_cases hn : n ≤ s.active.length
    · rw [Nat.min_eq_left hn]
    · have hactive : s.active.length ≤ n := by omega
      have hprojection : s.projection.length ≤ n := by omega
      rw [Nat.min_eq_right hactive, take_length, take_of_length_le (Nat.le_of_eq h.symm),
        take_of_length_le hactive, take_of_length_le hprojection]
  have hlen : ∀ n, min n s.active.length = (s.entries.take n).length := fun n => by
    simp [entries, ← h]
  simp only [prefixDigest, Lead.digest, lead, htake]
  rw [hlen]
  cases hsys : s.system with
  | none => simp
  | some system =>
    cases count with
    | zero => simp
    | succ n => simp

/-! ## Where a binding is kept -/

/-- The binding of an engine: in the session's own fields when it is bound, parked when it is not,
and the default one when there is none. -/
def bindingOf (s : Session) (engine : Nat) : Binding :=
  if s.boundEngine = some engine then
    ⟨s.opened, s.toolsFingerprint, s.modelGeneration, s.thinking, s.prefixFingerprint,
      s.ownReplyFollows⟩
  else
    (s.parked.lookup engine).getD Binding.default

/-- Whatever is open in `t` was open in `s`, in the same session and under the same binding. -/
def OpensNothing (s t : Session) : Prop :=
  ∀ engine, (t.bindingOf engine).opened = true →
    t.id = s.id ∧ t.bindingOf engine = s.bindingOf engine

theorem OpensNothing.refl (s : Session) : OpensNothing s s := fun _ _ => ⟨rfl, rfl⟩

variable {t : Session}

theorem OpensNothing.trans {u : Session} (hst : OpensNothing s t) (htu : OpensNothing t u) :
    OpensNothing s u := by
  intro engine hopened
  obtain ⟨hid, hb⟩ := htu engine hopened
  obtain ⟨hid', hb'⟩ := hst engine (hb ▸ hopened)
  exact ⟨hid.trans hid', hb.trans hb'⟩

/-- A change to the binding in use that either leaves it as it is or closes it. -/
theorem opensNothing_of_bound (hid : t.id = s.id) (hbound : t.boundEngine = s.boundEngine)
    (hparked : t.parked = s.parked)
    (hfields : t.opened = true → s.opened = true ∧ t.toolsFingerprint = s.toolsFingerprint ∧
      t.modelGeneration = s.modelGeneration ∧ t.thinking = s.thinking ∧
      t.prefixFingerprint = s.prefixFingerprint ∧ t.ownReplyFollows = s.ownReplyFollows) :
    OpensNothing s t := by
  intro engine hopened
  refine ⟨hid, ?_⟩
  rw [bindingOf, hbound, hparked] at hopened ⊢
  rw [bindingOf]
  split
  · rename_i hb
    rw [if_pos hb] at hopened
    have hopened : t.opened = true := hopened
    obtain ⟨h1, h2, h3, h4, h5, h6⟩ := hfields hopened
    rw [hopened, h1, h2, h3, h4, h5, h6]
  · rfl

theorem opensNothing_of_engineView
    (h : t.engineView = s.engineView ∨ t.engineView = { s.engineView with opened := false }) :
    OpensNothing s t := by
  simp only [engineView, EngineView.mk.injEq] at h
  rcases h with ⟨hid, ho, ht, hm, hth, hp, hr, -, hb, hpk⟩ | ⟨hid, ho, ht, hm, hth, hp, hr, -, hb,
    hpk⟩
  · exact opensNothing_of_bound hid hb hpk fun hopened => ⟨ho ▸ hopened, ht, hm, hth, hp, hr⟩
  · refine opensNothing_of_bound hid hb hpk fun hopened => ?_
    rw [ho] at hopened
    cases hopened

theorem opensNothing_of_closed (hopened : t.opened = false) (hparked : t.parked = ∅) :
    OpensNothing s t := by
  intro engine h
  rw [bindingOf, hparked] at h
  split at h
  · rw [show t.opened = true from h] at hopened
    cases hopened
  · cases h

/-- Closing opens nothing. -/
theorem opensNothing_close (s : Session) : OpensNothing s { s with opened := false } :=
  opensNothing_of_engineView (.inr rfl)

theorem opensNothing_noteModel (s : Session) (generation : Nat) :
    OpensNothing s (s.noteModel generation).2 := by
  rw [noteModel]
  split
  · split
    · exact OpensNothing.refl s
    · exact opensNothing_of_bound rfl rfl rfl fun h => nomatch h
  · split
    · rename_i hclosed
      exact opensNothing_of_bound rfl rfl rfl fun h => by simp [show s.opened = true from h] at hclosed
    · exact opensNothing_of_bound rfl rfl rfl fun h => nomatch h

theorem opensNothing_noteThinking (s : Session) (mode : ThinkingMode) :
    OpensNothing s (s.noteThinking mode).2 := by
  rw [noteThinking]
  split
  · split
    · exact OpensNothing.refl s
    · exact opensNothing_of_bound rfl rfl rfl fun h => nomatch h
  · split
    · rename_i hclosed
      exact opensNothing_of_bound rfl rfl rfl fun h => by simp [show s.opened = true from h] at hclosed
    · exact opensNothing_of_bound rfl rfl rfl fun h => nomatch h

theorem opensNothing_noteTools (s : Session) (fingerprint : UInt64) :
    OpensNothing s (s.noteTools fingerprint).2 := by
  rw [noteTools]
  split
  · split
    · exact OpensNothing.refl s
    · exact opensNothing_of_bound rfl rfl rfl fun h => nomatch h
  · split
    · rename_i hclosed
      exact opensNothing_of_bound rfl rfl rfl fun h => by simp [show s.opened = true from h] at hclosed
    · exact opensNothing_of_bound rfl rfl rfl fun h => nomatch h

/-- The engine in use has nothing parked besides. -/
def Unparked (s : Session) : Prop :=
  ∀ engine, s.boundEngine = some engine → s.parked.lookup engine = none

theorem noteEngine_unparked (h : s.Unparked) (engine : Nat) : (s.noteEngine engine).2.Unparked := by
  rw [noteEngine]
  split
  · exact h
  · intro engine' heq
    cases heq
    exact AList.lookup_erase ..

theorem noteEngine_boundEngine (s : Session) (engine : Nat) :
    (s.noteEngine engine).2.boundEngine = some engine := by
  rw [noteEngine]
  split
  · assumption
  · rfl

/-- **Switching engines opens nothing**: what is parked is what was in use, and what is brought back
is what was parked. -/
theorem opensNothing_noteEngine (h : s.Unparked) (engine : Nat) :
    OpensNothing s (s.noteEngine engine).2 := by
  rw [noteEngine]
  split
  · exact OpensNothing.refl s
  rename_i hne
  intro engine' hopened
  refine ⟨rfl, ?_⟩
  dsimp only [bindingOf] at hopened ⊢
  by_cases heq : engine' = engine
  · subst heq
    rw [if_pos rfl] at hopened ⊢
    rw [if_neg hne]
    cases hb : s.boundEngine with
    | none => rfl
    | some previous =>
      have hp : engine' ≠ previous := fun h' => hne (by rw [hb, h'])
      simp only
      split <;> simp [AList.lookup_insert_ne hp]
  · rw [if_neg (by simpa using Ne.symm heq)] at hopened ⊢
    rw [AList.lookup_erase_ne heq] at hopened ⊢
    cases hb : s.boundEngine with
    | none =>
      rw [if_neg (by simp)]
    | some previous =>
      simp only [hb] at hopened ⊢
      by_cases hp : engine' = previous
      · subst hp
        rw [if_pos rfl]
        have hnone := h engine' hb
        by_cases hs : s.opened = true
        · simp [hs]
        · simp [hs, hnone, Binding.default] at hopened
      · rw [if_neg fun h' => hp (Option.some.inj h').symm]
        by_cases hs : s.opened = true
        · simp [hs, AList.lookup_insert_ne hp]
        · simp [hs]

/-- What an operation of the conversation does to the bindings: nothing, or it closes the one in
use, or it drops them all. -/
def Closes (s t : Session) : Prop :=
  (t.engineView = s.engineView ∨ t.engineView = { s.engineView with opened := false }) ∨
    t.opened = false ∧ t.parked = ∅

theorem Closes.refl (s : Session) : Closes s s := .inl (.inl rfl)

theorem Closes.opensNothing (h : Closes s t) : OpensNothing s t := by
  rcases h with h | ⟨hopened, hparked⟩
  · exact opensNothing_of_engineView h
  · exact opensNothing_of_closed hopened hparked

theorem Closes.unparked (h : Closes s t) (hs : s.Unparked) : t.Unparked := by
  intro engine hb
  rcases h with h | ⟨-, hparked⟩
  · simp only [engineView, EngineView.mk.injEq] at h
    rcases h with ⟨-, -, -, -, -, -, -, -, hbound, hparked⟩ |
      ⟨-, -, -, -, -, -, -, -, hbound, hparked⟩
    · rw [hparked]
      exact hs engine (hbound ▸ hb)
    · rw [hparked]
      exact hs engine (hbound ▸ hb)
  · rw [hparked]
    exact AList.lookup_empty engine

section
variable [SerdeJson]

theorem push_engineView (s : Session) (m : Message) : (s.push m).2.engineView = s.engineView := by
  rw [push, log_engineView]
  rfl

theorem closes_putSystem (s : Session) (system : Option String) : Closes s
    (s.putSystem system) := by
  rw [putSystem]
  split
  · exact Closes.refl s
  · exact .inl (.inr rfl)

theorem closes_putTools (s : Session) (tools : ToolSet) : Closes s (s.putTools tools) := by
  rw [putTools]
  split
  · exact Closes.refl s
  · exact .inl (.inr rfl)

theorem recordAll_engineView {s : Session} (ms : List Message) :
    (s.recordAll ms).2.engineView = s.engineView := by
  induction ms generalizing s with
  | nil => rfl
  | cons m ms ih => exact ih.trans (log_engineView _ _)

/-- A fork holds nothing on any engine. -/
theorem closes_forkWith {s t : Session} {id : SessionId} {active : List MessageId}
    {at_ : Option MessageId} (h : s.forkWith id active at_ = some t) : Closes s t := by
  obtain ⟨projection, -, ht⟩ := Option.bind_eq_some_iff.1 h
  cases ht
  exact .inr ⟨rfl, rfl⟩

/-- **No operation opens a conversation.** -/
theorem apply_closes {s t : Session} (h : Live s) {op : Op} (hrun : apply op s = some t) :
    Closes s t := by
  cases op with
  | push m =>
    cases hrun
    exact .inl (.inl (push_engineView s m))
  | replaceMessage old m =>
    rcases replaceMessage_spec h old m with ⟨⟨e, he⟩, -⟩ | ⟨_, u, _, _, hu, _, hview, _⟩
    · rw [apply, he] at hrun
      cases hrun
      exact Closes.refl s
    · rw [apply, hu] at hrun
      cases hrun
      exact .inl (.inr hview)
  | removeMessage id =>
    rcases removeMessage_spec h id with ⟨e, he⟩ | ⟨_, u, _, _, hu, _, hview, _⟩
    · rw [apply, he] at hrun
      cases hrun
      exact Closes.refl s
    · rw [apply, hu] at hrun
      cases hrun
      exact .inl (.inr hview)
  | replaceMessages ms =>
    rcases replaceMessages_spec h ms with ⟨⟨e, he⟩, -⟩ | ⟨u, _, hu, _, rfl⟩
    · rw [apply, he] at hrun
      cases hrun
      exact Closes.refl s
    · rw [apply, hu] at hrun
      cases hrun
      have hview := activated_engineView (s.recordAll ms).2 (s.recordAll ms).1 "replace_messages" true
      rw [recordAll_engineView] at hview
      exact .inl hview
  | restoreContext ids =>
    rcases restoreContext_spec h ids with ⟨e, he⟩ | ⟨u, _, hu, _, rfl⟩
    · rw [apply, he] at hrun
      cases hrun
      exact Closes.refl s
    · rw [apply, hu] at hrun
      cases hrun
      exact .inl (activated_engineView ..)
  | edit f =>
    obtain ⟨_, _, u, _, _, hu, _, hview, _⟩ := edit_spec h f
    rw [apply, hu] at hrun
    cases hrun
    exact .inl (.inr hview)
  | clear =>
    rw [apply, (clear_spec h).1] at hrun
    cases hrun
    exact .inr ⟨rfl, rfl⟩
  | rollbackTo len =>
    obtain ⟨u, hu, _, _, hview, _⟩ := rollbackTo_spec h len
    rw [apply, hu] at hrun
    cases hrun
    exact .inl hview
  | fork id => exact closes_forkWith hrun
  | forkAt id at_ =>
    rw [apply, forkAt] at hrun
    split at hrun
    · cases hrun
      exact Closes.refl s
    dsimp only at hrun
    split at hrun
    · cases hrun
      exact Closes.refl s
    · rw [Option.map_map] at hrun
      obtain ⟨u, hu, rfl⟩ := Option.map_eq_some_iff.1 hrun
      exact closes_forkWith hu
  | setSystem text | appendSystem text | clearSystem =>
    cases hrun
    exact closes_putSystem s _
  | setTools tools | addTool tool | removeTool name =>
    cases hrun
    exact closes_putTools s _

end

/-! ## What engines leave alone -/

/-- Two states of a session that differ in nothing but what it knows of its engines. -/
structure SameTalk (s t : Session) : Prop where
  id : t.id = s.id
  events : t.events = s.events
  revision : t.revision = s.revision
  core : t.core = s.core
  projection : t.projection = s.projection
  fingerprint : t.fingerprint = s.fingerprint

namespace SameTalk

theorem refl (s : Session) : SameTalk s s := ⟨rfl, rfl, rfl, rfl, rfl, rfl⟩

variable {s t : Session}

theorem trans {u : Session} (h : SameTalk s t) (h' : SameTalk t u) : SameTalk s u :=
  ⟨h'.id.trans h.id, h'.events.trans h.events, h'.revision.trans h.revision, h'.core.trans h.core,
    h'.projection.trans h.projection, h'.fingerprint.trans h.fingerprint⟩

theorem system (h : SameTalk s t) : t.system = s.system :=
  congrArg Core.system h.core

theorem active (h : SameTalk s t) : t.active = s.active :=
  congrArg Core.active h.core

theorem nextId (h : SameTalk s t) : t.nextId = s.nextId :=
  congrArg Core.nextId h.core

theorem entries (h : SameTalk s t) : t.entries = s.entries := by
  rw [Session.entries, h.active, h.projection]
  rfl

theorem lead (h : SameTalk s t) (count : Nat) : t.lead count = s.lead count := by
  rw [Session.lead, h.system, h.entries]
  rfl

theorem live [SerdeJson] (h : SameTalk s t) (hs : Live s) : Live t where
  ok := h.core ▸ hs.ok
  replays := by rw [h.events, h.id, h.core, hs.replays]
  revision := by rw [h.revision, h.events, hs.revision]
  projection := by
    have hok : t.core.Ok := h.core ▸ hs.ok
    have hrec : t.records = s.records := congrArg Core.records h.core
    rw [h.projection, hs.projection, h.active]
    refine filterMap_congr fun id _ => ?_
    rw [messageBy_eq hok, messageBy_eq hs.ok, hrec]
  fingerprint := by
    rw [h.fingerprint, hs.fingerprint, h.revision,
      computeFingerprint_congr h.system (congrArg Core.tools h.core) h.active h.projection]
  fresh h0 := by
    rw [h.revision] at h0
    rw [h.system, h.active, show t.tools = s.tools from congrArg Core.tools h.core]
    exact hs.fresh h0

end SameTalk

theorem sameTalk_noteEngine (s : Session) (engine : Nat) : SameTalk s (s.noteEngine engine).2 := by
  rw [noteEngine]
  split
  · exact SameTalk.refl s
  · exact ⟨rfl, rfl, rfl, rfl, rfl, rfl⟩

theorem sameTalk_noteModel (s : Session) (generation : Nat) :
    SameTalk s (s.noteModel generation).2 := by
  rw [noteModel]
  split <;> split <;> exact ⟨rfl, rfl, rfl, rfl, rfl, rfl⟩

theorem sameTalk_noteThinking (s : Session) (mode : ThinkingMode) :
    SameTalk s (s.noteThinking mode).2 := by
  rw [noteThinking]
  split <;> split <;> exact ⟨rfl, rfl, rfl, rfl, rfl, rfl⟩

theorem sameTalk_noteTools (s : Session) (fingerprint : UInt64) :
    SameTalk s (s.noteTools fingerprint).2 := by
  rw [noteTools]
  split <;> split <;> exact ⟨rfl, rfl, rfl, rfl, rfl, rfl⟩

/-- Which engine is bound, and what is parked. -/
def SameEngines (s t : Session) : Prop := t.boundEngine = s.boundEngine ∧ t.parked = s.parked

theorem SameEngines.unparked (h : SameEngines s t) (hs : s.Unparked) : t.Unparked := by
  intro engine hb
  rw [h.2]
  exact hs engine (h.1 ▸ hb)

theorem sameEngines_noteModel (s : Session) (generation : Nat) :
    SameEngines s (s.noteModel generation).2 := by
  rw [noteModel]
  split <;> split <;> exact ⟨rfl, rfl⟩

theorem sameEngines_noteThinking (s : Session) (mode : ThinkingMode) :
    SameEngines s (s.noteThinking mode).2 := by
  rw [noteThinking]
  split <;> split <;> exact ⟨rfl, rfl⟩

theorem sameEngines_noteTools (s : Session) (fingerprint : UInt64) :
    SameEngines s (s.noteTools fingerprint).2 := by
  rw [noteTools]
  split <;> split <;> exact ⟨rfl, rfl⟩

end Session
end Gen2
