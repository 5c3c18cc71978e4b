import Gen2.Agent.Defs
import Gen2.Api.Delivery
import Gen2.Session.Replay

/-!
# The ids of recorded calls

A call that comes without an id is given one: its name by `Agent` and by `Chat`, one out of
`CallIds` by the event stream.  A call that comes with one keeps it.

* `ids_perm`: what is recorded is the ids that came and the ids that were given, in another order;
  and ids that are minted are all different (`mint_inj`).
* `recorded_ids_distinct`: when the recorded ids tell the calls apart — in a turn of `Agent` and
  `Chat`, and in a session in which event streams are not the only ones to record calls.
-/

namespace Gen2
namespace Api

open List

open Generation (ChannelState SpeechChunk)

/-- `as_message_call` of `api/chat.rs`. -/
def asMessageCall (parse : Text → Json) (call : Generation.ToolCall) : Gen2.ToolCall :=
  ⟨String.ofList (call.id.getD call.name), "function",
    ⟨none, String.ofList call.name, parse call.arguments⟩⟩

/-- What is recorded, and what it is made of. -/
theorem ids_perm {α β : Type} (id : α → Option β) (name : α → β) (l : List α) :
    (l.map fun a => (id a).getD (name a)).Perm
      (l.filterMap id ++ (l.filter fun a => (id a).isNone).map name) := by
  induction l with
  | nil => exact .nil
  | cons a l ih =>
    rcases hid : id a with _ | b
    · simp only [map_cons, filterMap_cons, filter_cons, hid, Option.getD_none,
        Option.isNone_none, if_true]
      exact (ih.cons _).trans perm_middle.symm
    · simp only [map_cons, filterMap_cons, filter_cons, hid, Option.getD_some,
        Option.isNone_some, Bool.false_eq_true, if_false, cons_append]
      exact ih.cons _

theorem nodup_map_ofList (l : List Text) : (l.map String.ofList).Nodup ↔ l.Nodup :=
  nodup_map_iff fun _ _ h => String.ofList_injective h

/-- The calls of a turn that `Agent` and `Chat` tell apart: the ids that came differ, so do the
names of the calls without one, and no id is one of these names. -/
def NamedApart (calls : List Generation.ToolCall) : Prop :=
  (calls.filterMap fun call => call.id).Nodup ∧
    ((calls.filter fun call => call.id.isNone).map fun call => call.name).Nodup ∧
    ∀ a ∈ calls.filterMap fun call => call.id,
      ∀ b ∈ (calls.filter fun call => call.id.isNone).map fun call => call.name, a ≠ b

theorem nodup_named (calls : List Generation.ToolCall) :
    (calls.map fun call => String.ofList (call.id.getD call.name)).Nodup ↔ NamedApart calls := by
  have hmap : (calls.map fun call => String.ofList (call.id.getD call.name)) =
      (calls.map fun call => call.id.getD call.name).map String.ofList := by
    rw [map_map]
    rfl
  rw [hmap, nodup_map_ofList, (ids_perm _ _ calls).nodup_iff, nodup_append]
  rfl

/-! ## Minted ids -/

/-- The id that is minted for a message. -/
def mintText (message k : Nat) : Text :=
  "call_".toList ++ Nat.toDigits 10 message ++ "_".toList ++ Nat.toDigits 10 k

theorem toDigits_inj {m n : Nat} (h : Nat.toDigits 10 m = Nat.toDigits 10 n) : m = n := by
  rw [← Nat.ofDigitChars_toDigits (by decide : 1 < 10) (by decide) (n := m), h,
    Nat.ofDigitChars_toDigits (by decide) (by decide)]

/-- Minted ids differ, within a message and between messages. -/
theorem mint_inj {message message' k k' : Nat} (h : mintText message k = mintText message' k') :
    message = message' ∧ k = k' := by
  unfold mintText at h
  rw [append_assoc, append_assoc, append_assoc, append_assoc] at h
  have hrest := append_cancel_left h
  -- a number has no underscore, so the first one ends it
  have htake : ∀ (n : Nat) (rest : Text),
      (Nat.toDigits 10 n ++ ("_".toList ++ rest)).takeWhile (· ≠ '_') = Nat.toDigits 10 n := by
    intro n rest
    rw [takeWhile_append_of_pos]
    · simp
    · intro c hc
      refine decide_eq_true fun heq => ?_
      exact Nat.underscore_not_in_toDigits (heq ▸ hc)
  have hmessage : message = message' := by
    have h := congrArg (takeWhile (· ≠ '_')) hrest
    rw [htake, htake] at h
    exact toDigits_inj h
  subst hmessage
  exact ⟨rfl, toDigits_inj (append_cancel_left (append_cancel_left hrest))⟩

/-- The id that came with a call, an empty one being none. -/
def given (call : Generation.ToolCall) : Option Text := call.id.filter fun id => !id.isEmpty

/-- The ids that an assembler gives the calls of a turn. -/
def idsOf : CallIds → List Generation.ToolCall → List Text
  | _, [] => []
  | ids, call :: calls =>
    match given call with
    | some id => id :: idsOf ids calls
    | none => ids.mint.1 :: idsOf ids.mint.2 calls

/-- The calls of a turn that come without an id. -/
def bare (calls : List Generation.ToolCall) : Nat := calls.countP fun call => (given call).isNone

theorem idsOf_perm (message next : Nat) (calls : List Generation.ToolCall) :
    (idsOf ⟨message, next⟩ calls).Perm
      (calls.filterMap given ++ (range' next (bare calls)).map (mintText message)) := by
  induction calls generalizing next with
  | nil => exact .nil
  | cons call calls ih =>
    unfold idsOf
    rcases hgiven : given call with _ | id
    · have hbare : bare (call :: calls) = bare calls + 1 := by
        simp [bare, hgiven]
      rw [filterMap_cons_none hgiven, hbare, range'_succ, map_cons]
      exact ((ih (next + 1)).cons _).trans perm_middle.symm
    · have hbare : bare (call :: calls) = bare calls := by
        simp [bare, hgiven]
      rw [filterMap_cons_some hgiven, hbare]
      exact (ih next).cons _

/-! ## What the assembler records -/

/-- The call that an event carries. -/
def eventCall : StreamEvent → Option Generation.ToolCall
  | .toolCall call => some call
  | _ => none

namespace Assembler

/-- The parts of an answer hold no call until it is taken. -/
def Plain (parts : List OutputPart) : Prop := (⟨parts⟩ : AssistantMessage).toolCalls = []

theorem plain_iff (parts : List OutputPart) :
    Plain parts ↔ ∀ call, OutputPart.toolCall call ∉ parts := by
  unfold Plain AssistantMessage.toolCalls
  rw [filterMap_eq_nil_iff]
  constructor
  · intro h call hmem
    exact nomatch h _ hmem
  intro h part hmem
  cases part with
  | toolCall call => exact absurd hmem (h call)
  | text buf => rfl
  | reasoning buf => rfl
  | speech chunk => rfl

theorem plain_addPart {parts : List OutputPart} (h : Plain parts) (channel : Channel) (fresh : Bool)
    (chunk : Text) : Plain (addPart channel fresh chunk parts) := by
  rw [plain_iff] at h ⊢
  intro call hmem
  have hdrop : ∀ part, part ∈ parts.dropLast → part ∈ parts := fun _ h => dropLast_subset _ h
  unfold addPart at hmem
  split at hmem
  all_goals
    rcases mem_append.1 hmem with hmem | hmem
    · first
      | exact h call hmem
      | exact h call (hdrop _ hmem)
    · exact nomatch mem_singleton.1 hmem

theorem plain_addSpeech {parts : List OutputPart} (h : Plain parts) (chunk : SpeechChunk) :
    Plain (addSpeech chunk parts) := by
  rw [plain_iff] at h ⊢
  intro call hmem
  unfold addSpeech at hmem
  split at hmem
  · split at hmem
    · rcases mem_append.1 hmem with hmem | hmem
      · exact h call (dropLast_subset _ hmem)
      · exact nomatch mem_singleton.1 hmem
    · rcases mem_append.1 hmem with hmem | hmem
      · exact h call hmem
      · exact nomatch mem_singleton.1 hmem
  · rcases mem_append.1 hmem with hmem | hmem
    · exact h call hmem
    · exact nomatch mem_singleton.1 hmem

theorem plain_put {a : Assembler} (h : Plain a.parts) (p : ChannelState × Char) :
    Plain (a.put p).parts := by
  have henter : (a.enter (runOf p.1)).parts = a.parts := by
    unfold enter
    dsimp only
    split <;> split <;> rfl
  unfold put extend
  dsimp only
  generalize (if (a.enter (runOf p.1)).open.isNone = true then
    (a.enter (runOf p.1)).leading (runOf p.1) [p.2] else [p.2]) = text
  split
  · rwa [henter]
  · split
    · rwa [henter]
    · rw [henter]
      exact plain_addPart h _ _ _

theorem plain_foldl_put (out : List (ChannelState × Char)) {a : Assembler} (h : Plain a.parts) :
    Plain (out.foldl put a).parts := by
  induction out generalizing a with
  | nil => exact h
  | cons p out ih => exact ih (plain_put h p)

/-- The calls of an assembler, with what it will mint next. -/
theorem push_calls {a : Assembler} (h : Plain a.parts) (event : StreamEvent) :
    Plain (a.push event).2.parts ∧
      ∃ made, (a.push event).2.calls = a.calls ++ made ∧
        ∀ calls, made.map ToolCall.id ++ idsOf (a.push event).2.callIds calls =
          idsOf a.callIds ((eventCall event).toList ++ calls) := by
  cases event with
  | token text =>
    rw [push_token]
    exact ⟨plain_foldl_put _ h, [], (append_nil _).symm, fun calls => rfl⟩
  | speech chunk =>
    refine ⟨plain_addSpeech ?_ chunk, [], ?_, fun calls => ?_⟩
    · show Plain a.flush.2.parts
      rw [flush_eq]
      exact plain_foldl_put _ h
    · show a.flush.2.calls = _
      rw [flush_eq, append_nil]
    · show idsOf a.flush.2.callIds calls = _
      rw [flush_eq]
      rfl
  | toolCall call =>
    refine ⟨h, [_], rfl, fun calls => ?_⟩
    show _ = idsOf a.callIds (call :: calls)
    rw [idsOf]
    unfold push given
    dsimp only
    rcases call.id with _ | id
    · rfl
    · rcases id with _ | ⟨c, id⟩
      · rfl
      · rfl
  | contextTruncated dropped => exact ⟨h, [], (append_nil _).symm, fun calls => rfl⟩
  | mediaBoundary boundary => exact ⟨h, [], (append_nil _).symm, fun calls => rfl⟩

theorem pushAll_calls (events : List StreamEvent) {a : Assembler} (h : Plain a.parts) :
    Plain (a.pushAll events).parts ∧ (a.pushAll events).calls.map ToolCall.id =
      a.calls.map ToolCall.id ++ idsOf a.callIds (events.filterMap eventCall) := by
  induction events generalizing a with
  | nil => exact ⟨h, (append_nil _).symm⟩
  | cons event events ih =>
    obtain ⟨hplain, made, hcalls, hids⟩ := push_calls h event
    obtain ⟨hplain, ih⟩ := ih hplain
    refine ⟨hplain, ?_⟩
    have hcons : (event :: events).filterMap eventCall =
        (eventCall event).toList ++ events.filterMap eventCall := by
      rcases hevent : eventCall event with _ | call
      · rw [filterMap_cons_none hevent]
        rfl
      · rw [filterMap_cons_some hevent]
        rfl
    rw [hcons, ← hids]
    show ((a.push event).2.pushAll events).calls.map ToolCall.id = _
    rw [ih, hcalls, map_append, append_assoc]

/-- The ids of a reply's calls. -/
theorem reply_ids (callIds : CallIds) (finish : Finish) (events : List StreamEvent) :
    (reply callIds finish events).toolCalls.map ToolCall.id =
      idsOf callIds (events.filterMap eventCall) := by
  obtain ⟨hplain, hcalls⟩ := pushAll_calls events (a := new callIds) rfl
  have hparts : Plain ((new callIds).pushAll events).flush.2.parts := by
    rw [flush_eq]
    exact plain_foldl_put _ hplain
  have hmade : ((new callIds).pushAll events).flush.2.calls =
      ((new callIds).pushAll events).calls := by
    rw [flush_eq]
  have hmessage := toolCalls_message (((new callIds).pushAll events).finish finish).2
  rw [reply, hmessage, show (⟨(((new callIds).pushAll events).finish finish).2.parts⟩ :
    AssistantMessage).toolCalls = [] from hparts, nil_append]
  exact (congrArg (map ToolCall.id) hmade).trans hcalls

end Assembler

/-- The ids of the message that an event stream records. -/
theorem callsOf_recordOf (parse : Text → Json) (callIds : CallIds) (finish : Finish)
    (events : List StreamEvent) :
    callsOf (recordOf parse (Assembler.reply callIds finish events)) =
      (idsOf callIds (events.filterMap eventCall)).map String.ofList := by
  rw [← Assembler.reply_ids callIds finish events]
  generalize (Assembler.reply callIds finish events) = m
  unfold recordOf
  split
  · next h => rw [isEmpty_iff.1 h]; rfl
  · simp [callsOf, Message.assistantToolCalls, Function.comp_def]

/-! ## A session -/

/-- `complete`: a cancelled turn that produced nothing has nothing to record. -/
def worthRecording (finish : Finish) (message : AssistantMessage) : Bool :=
  decide (finish ≠ .stopped) || !message.text.isEmpty || message.reasoning.isSome ||
    !message.toolCalls.isEmpty ||
    message.content.any fun part => match part with | .speech _ => true | _ => false

/-- What is recorded in a session: the reply of an event stream, or a message from anywhere else. -/
inductive Recording
  | streamed (finish : Finish) (events : List StreamEvent)
  | pushed (message : Message)

section

variable [SerdeJson] (parse : Text → Json)

/-- The message that is recorded, where there is one. -/
def Recording.message (s : Session) : Recording → Option Message
  | .streamed finish events =>
    let reply := Assembler.reply ⟨s.nextId, 0⟩ finish events
    if worthRecording finish reply then some (recordOf parse reply) else none
  | .pushed message => some message

/-- One message recorded. -/
def record (s : Session) (r : Recording) : Session :=
  match r.message parse s with
  | some message => (s.push message).2
  | none => s

/-- The ids of the calls in a session. -/
def sessionIds (s : Session) : List String := s.records.flatMap fun r => callsOf r.message

/-- The ids that event streams record. -/
def streamedIds : Session → List Recording → List String
  | _, [] => []
  | s, .streamed finish events :: rest =>
    (((Recording.streamed finish events).message parse s).map callsOf).getD [] ++
      streamedIds (record parse s (.streamed finish events)) rest
  | s, .pushed message :: rest => streamedIds (record parse s (.pushed message)) rest

/-- The ids that are minted on the way. -/
def mintedIds : Session → List Recording → List String
  | _, [] => []
  | s, .streamed finish events :: rest =>
    ((List.range (bare (events.filterMap eventCall))).map (mintText s.nextId)).map String.ofList ++
      mintedIds (record parse s (.streamed finish events)) rest
  | s, .pushed message :: rest => mintedIds (record parse s (.pushed message)) rest

end

/-- The ids that came with the calls of event streams. -/
def givenIds (recordings : List Recording) : List String :=
  recordings.flatMap fun
    | .streamed _ events => ((events.filterMap eventCall).filterMap given).map String.ofList
    | .pushed _ => []

/-- The ids of the calls that are recorded otherwise. -/
def otherIds (recordings : List Recording) : List String :=
  recordings.flatMap fun
    | .streamed _ _ => []
    | .pushed message => callsOf message

/-- Each of these ids names one call of those that there are. -/
theorem count_eq_one_iff {other streamed all : List String} (h : all.Perm (other ++ streamed)) :
    (∀ id ∈ streamed, all.count id = 1) ↔
      streamed.Nodup ∧ ∀ a ∈ other, ∀ b ∈ streamed, a ≠ b := by
  have hcount : ∀ id, all.count id = other.count id + streamed.count id := fun id => by
    rw [h.count_eq, count_append]
  constructor
  · intro hone
    refine ⟨nodup_iff_count_le_one.2 fun id => ?_, ?_⟩
    · by_cases hid : id ∈ streamed
      · have := hone id hid
        rw [hcount] at this
        omega
      · rw [count_eq_zero_of_not_mem hid]
        exact Nat.zero_le _
    · rintro id ha _ hb rfl
      have := hone id hb
      rw [hcount] at this
      have hpos := count_pos_iff.2 ha
      have hpos' := count_pos_iff.2 hb
      omega
  · rintro ⟨hnodup, hdisjoint⟩ id hid
    rw [hcount, count_eq_one_of_mem hnodup hid,
      count_eq_zero_of_not_mem fun ha => hdisjoint id ha id hid rfl]

/-- The calls of a turn are recorded, or there are none. -/
theorem streamed_message (parse : Text → Json) (s : Session) (finish : Finish)
    (events : List StreamEvent) :
    (((Recording.streamed finish events).message parse s).map callsOf).getD [] =
        (idsOf ⟨s.nextId, 0⟩ (events.filterMap eventCall)).map String.ofList ∧
      ((Recording.streamed finish events).message parse s = none →
        events.filterMap eventCall = []) := by
  unfold Recording.message
  dsimp only
  split
  · refine ⟨callsOf_recordOf parse _ finish events, nofun⟩
  · next hworth =>
    have hnone : (Assembler.reply ⟨s.nextId, 0⟩ finish events).toolCalls = [] := by
      simp only [worthRecording, Bool.or_eq_true, not_or] at hworth
      simpa using hworth.1.2
    have hids := Assembler.reply_ids ⟨s.nextId, 0⟩ finish events
    rw [hnone] at hids
    refine ⟨by rw [← hids]; rfl, fun _ => ?_⟩
    rcases hcalls : events.filterMap eventCall with _ | ⟨call, calls⟩
    · rfl
    · rw [hcalls, idsOf] at hids
      split at hids <;> exact nomatch hids

section

variable [SerdeJson] {parse : Text → Json}

theorem push_nextId (s : Session) (message : Message) :
    (s.push message).2.nextId = s.nextId + 1 := by
  have hcore : (s.push message).2.core.nextId = s.nextId + 1 :=
    (congrArg Session.Core.nextId (Session.log_core _ _)).trans rfl
  exact hcore

theorem sessionIds_push (s : Session) (message : Message) :
    sessionIds (s.push message).2 = sessionIds s ++ callsOf message := by
  have hrecords : (s.push message).2.records = s.records ++ [⟨s.nextId, message, none⟩] :=
    Session.log_records _ _
  rw [sessionIds, hrecords, flatMap_append, flatMap_singleton]
  rfl

theorem record_nextId (s : Session) (r : Recording) : s.nextId ≤ (record parse s r).nextId := by
  unfold record
  split
  · rw [push_nextId]
    exact Nat.le_succ _
  · exact Nat.le_refl _

theorem streamedIds_perm (s : Session) (recordings : List Recording) :
    (streamedIds parse s recordings).Perm (givenIds recordings ++ mintedIds parse s recordings) := by
  induction recordings generalizing s with
  | nil => exact .nil
  | cons r recordings ih =>
    cases r with
    | pushed message => exact ih _
    | streamed finish events =>
      rw [streamedIds, mintedIds, (streamed_message parse s finish events).1]
      have hturn := (idsOf_perm s.nextId 0 (events.filterMap eventCall)).map String.ofList
      rw [map_append, ← range_eq_range'] at hturn
      refine (hturn.append (ih _)).trans ?_
      show List.Perm _ ((_ ++ givenIds recordings) ++ _)
      rw [append_assoc, append_assoc]
      refine List.Perm.append_left _ ?_
      rw [← append_assoc, ← append_assoc]
      exact List.Perm.append_right _ perm_append_comm

/-- What is minted is minted for the messages to come, and is all different. -/
theorem mintedIds_nodup (s : Session) (recordings : List Recording) :
    (mintedIds parse s recordings).Nodup ∧ ∀ id ∈ mintedIds parse s recordings,
      ∃ message k, s.nextId ≤ message ∧ id = String.ofList (mintText message k) := by
  induction recordings generalizing s with
  | nil => exact ⟨nodup_nil, nofun⟩
  | cons r recordings ih =>
    obtain ⟨hnodup, hlater⟩ := ih (record parse s r)
    have hstill : ∀ id ∈ mintedIds parse (record parse s r) recordings,
        ∃ message k, s.nextId ≤ message ∧ id = String.ofList (mintText message k) := by
      intro id hid
      obtain ⟨message, k, hle, heq⟩ := hlater id hid
      exact ⟨message, k, Nat.le_trans (record_nextId s r) hle, heq⟩
    cases r with
    | pushed message => exact ⟨hnodup, hstill⟩
    | streamed finish events =>
      rw [mintedIds]
      refine ⟨nodup_append.2 ⟨?_, hnodup, ?_⟩, fun id hid => ?_⟩
      · rw [nodup_map_ofList]
        exact nodup_map_iff_inj_on nodup_range |>.2
          fun k _ k' _ h => (mint_inj h).2
      · -- what is minted later is minted for a later message
        rintro a ha _ hb rfl
        obtain ⟨_, hmem, rfl⟩ := mem_map.1 ha
        obtain ⟨k, hk, rfl⟩ := mem_map.1 hmem
        obtain ⟨message, k', hle, heq⟩ := hlater _ hb
        obtain ⟨rfl, -⟩ := mint_inj (String.ofList_injective heq)
        have hsome : (Recording.streamed finish events).message parse s ≠ none := by
          intro hnone
          rw [(streamed_message parse s finish events).2 hnone] at hk
          exact not_mem_nil hk
        obtain ⟨recorded, hrecorded⟩ := Option.ne_none_iff_exists'.1 hsome
        rw [record, hrecorded, push_nextId] at hle
        exact absurd hle (by omega)
      · rcases mem_append.1 hid with hid | hid
        · obtain ⟨_, hmem, rfl⟩ := mem_map.1 hid
          obtain ⟨k, -, rfl⟩ := mem_map.1 hmem
          exact ⟨s.nextId, k, Nat.le_refl _, rfl⟩
        · exact hstill id hid

/-- The calls of the session in the end. -/
theorem sessionIds_recorded (s : Session) (recordings : List Recording) :
    (sessionIds (recordings.foldl (record parse) s)).Perm
      ((sessionIds s ++ otherIds recordings) ++ streamedIds parse s recordings) := by
  induction recordings generalizing s with
  | nil => simp [otherIds, streamedIds]
  | cons r recordings ih =>
    refine (ih (record parse s r)).trans ?_
    cases r with
    | pushed message =>
      have hids : sessionIds (record parse s (.pushed message)) =
          sessionIds s ++ callsOf message := sessionIds_push s message
      rw [hids, streamedIds, append_assoc (sessionIds s)]
      rfl
    | streamed finish events =>
      have hids : sessionIds (record parse s (.streamed finish events)) = sessionIds s ++
          (((Recording.streamed finish events).message parse s).map callsOf).getD [] := by
        unfold record
        rcases (Recording.streamed finish events).message parse s with _ | message
        · exact (append_nil _).symm
        · exact sessionIds_push s message
      rw [hids, streamedIds]
      show List.Perm _ ((sessionIds s ++ otherIds recordings) ++ _)
      rw [append_assoc, append_assoc, append_assoc]
      refine List.Perm.append_left _ ?_
      rw [← append_assoc, ← append_assoc]
      exact List.Perm.append_right _ perm_append_comm

end

/-- **When the recorded ids tell the calls apart.**  In a turn of `Agent` or `Chat`: when the ids
that came differ, and so do the names that stand in for the others.  In a session: an id that an
event stream records names one call when the ids that came differ, no id that came is one that is
minted, and no other call of the session has an id that came or is minted. -/
theorem recorded_ids_distinct [SerdeJson] (config : Agent.Config) (parse : Text → Json) :
    (∀ step calls,
      (callsOf ((Agent.Entry.calls step calls).message config)).Nodup ↔ NamedApart calls) ∧
    (∀ calls, (callsOf (.assistantToolCalls (calls.map (asMessageCall parse)))).Nodup ↔
      NamedApart calls) ∧
    ∀ (s : Session) (recordings : List Recording),
      (∀ id ∈ streamedIds parse s recordings,
        (sessionIds (recordings.foldl (record parse) s)).count id = 1) ↔
      (givenIds recordings).Nodup ∧
        (∀ a ∈ givenIds recordings, ∀ b ∈ mintedIds parse s recordings, a ≠ b) ∧
        ∀ a ∈ sessionIds s ++ otherIds recordings,
          ∀ b ∈ givenIds recordings ++ mintedIds parse s recordings, a ≠ b := by
  refine ⟨fun step calls => ?_, fun calls => ?_, fun s recordings => ?_⟩
  · rw [← nodup_named]
    simp only [Agent.Entry.message, Message.assistantToolCalls, callsOf, List.map_map]
    rfl
  · rw [← nodup_named]
    simp only [Message.assistantToolCalls, callsOf, List.map_map]
    rfl
  · have hperm : (streamedIds parse s recordings).Perm _ := streamedIds_perm s recordings
    rw [count_eq_one_iff (sessionIds_recorded s recordings), hperm.nodup_iff, List.nodup_append]
    simp only [hperm.mem_iff, (mintedIds_nodup s recordings).1, true_and, and_assoc]

/-- Two calls of one tool, without ids, are recorded under one id. -/
theorem two_calls_one_id : ¬ (callsOf (.assistantToolCalls
    (([⟨none, "read".toList, "a".toList⟩, ⟨none, "read".toList, "b".toList⟩] :
      List Generation.ToolCall).map (asMessageCall fun _ => .null)))).Nodup := by
  decide

end Api
end Gen2
