import Gen2.Api.Assembler

/-!
# What is streamed, and what is stored

`api/event.rs`: while a reply comes in, its text and its reasoning are handed on as deltas; when it
has ended, the message is made from parts that were collected beside them.

* `Adds` says of one step that the parts have grown by what its deltas carry; every operation of the
  assembler keeps to it (`emit_adds`, `push_adds`, `flush_adds`).
* The parts of a message depend on the text through its `stretches`, what comes between two chunks
  of speech, and on the other events in their order (`joined_eq_weave`).
* `streamed_eq_stored` puts both together; `cut_at_speech_differs` is why the stretches count.
-/

namespace Gen2.Api

open Generation Lib List

/-- What the deltas of one channel carry, taken together. -/
def deltas (channel : Channel) (events : List Event) : Text :=
  events.flatMap fun
    | .textDelta text => if channel = .text then text else []
    | .reasoningDelta text => if channel = .reasoning then text else []
    | _ => []

@[simp] theorem deltas_append (channel : Channel) (events events' : List Event) :
    deltas channel (events ++ events') = deltas channel events ++ deltas channel events' := by
  simp [deltas]

/-- What the parts of one channel say, taken together. -/
def said (channel : Channel) (parts : List OutputPart) : Text :=
  parts.flatMap fun
    | .text text => if channel = .text then text else []
    | .reasoning text => if channel = .reasoning then text else []
    | _ => []

@[simp] theorem said_append (channel : Channel) (parts parts' : List OutputPart) :
    said channel (parts ++ parts') = said channel parts ++ said channel parts' := by
  simp [said]

@[simp] theorem said_text (channel : Channel) (text : Text) :
    said channel [.text text] = if channel = .text then text else [] := by
  simp [said]

@[simp] theorem said_reasoning (channel : Channel) (text : Text) :
    said channel [.reasoning text] = if channel = .reasoning then text else [] := by
  simp [said]

@[simp] theorem said_speech (channel : Channel) (chunk : SpeechChunk) :
    said channel [.speech chunk] = [] := rfl

/-- A reasoning part says something. -/
def Spoken (parts : List OutputPart) : Prop := ∀ text, .reasoning text ∈ parts → text ≠ []

namespace Assembler

/-- One step of the assembler: the parts have grown by what the deltas carry. -/
structure Adds (a : Assembler) (step : List Event × Assembler) : Prop where
  said : ∀ channel, said channel step.2.parts = Api.said channel a.parts ++ deltas channel step.1
  spoken : Spoken a.parts → Spoken step.2.parts

theorem Adds.of_parts {a a' : Assembler} (h : a'.parts = a.parts) : Adds a ([], a') where
  said channel := by
    rw [h]
    exact (append_nil _).symm
  spoken hspoken := h ▸ hspoken

theorem Adds.trans {a : Assembler} {step step' : List Event × Assembler} (h : Adds a step)
    (h' : Adds step.2 step') : Adds a (step.1 ++ step'.1, step'.2) where
  said channel := by
    rw [h'.said, h.said, deltas_append, append_assoc]
  spoken hspoken := h'.spoken (h.spoken hspoken)

/-! ## A run's text -/

/-- A piece is added to the last part, or as a part of its own. -/
theorem addPart_cases (channel : Channel) (fresh : Bool) (chunk : Text) (parts : List OutputPart) :
    (∃ front buf, parts = front ++ [.text buf] ∧ channel = .text ∧
      addPart channel fresh chunk parts = front ++ [.text (buf ++ chunk)]) ∨
    (∃ front buf, parts = front ++ [.reasoning buf] ∧ channel = .reasoning ∧
      addPart channel fresh chunk parts = front ++ [.reasoning (buf ++ chunk)]) ∨
    addPart channel fresh chunk parts =
      parts ++ [match channel with
        | .text => .text chunk
        | .reasoning => .reasoning chunk] := by
  unfold addPart
  split
  · next heq => exact .inl ⟨_, _, (dropLast_append_getLast? _ heq).symm, rfl, rfl⟩
  · next heq => exact .inr (.inl ⟨_, _, (dropLast_append_getLast? _ heq).symm, rfl, rfl⟩)
  · exact .inr (.inr rfl)
  · exact .inr (.inr rfl)

theorem said_addPart (channel channel' : Channel) (fresh : Bool) (chunk : Text)
    (parts : List OutputPart) :
    said channel' (addPart channel fresh chunk parts) =
      said channel' parts ++ deltas channel' [delta channel chunk] := by
  have hdelta : deltas channel' [delta channel chunk] = if channel' = channel then chunk else [] := by
    cases channel <;> simp [deltas, delta]
  rw [hdelta]
  obtain ⟨front, buf, rfl, rfl, hadded⟩ | ⟨front, buf, rfl, rfl, hadded⟩ | hadded :=
    addPart_cases channel fresh chunk parts
  · rw [hadded]
    cases channel' <;> simp
  · rw [hadded]
    cases channel' <;> simp
  · rw [hadded]
    cases channel <;> simp

theorem spoken_addPart {channel : Channel} {fresh : Bool} {chunk : Text} {parts : List OutputPart}
    (hchunk : chunk ≠ []) (h : Spoken parts) : Spoken (addPart channel fresh chunk parts) := by
  intro text hmem
  obtain ⟨front, buf, rfl, rfl, hadded⟩ | ⟨front, buf, rfl, rfl, hadded⟩ | hadded :=
    addPart_cases channel fresh chunk parts
  all_goals
    rw [hadded] at hmem
    rcases mem_append.1 hmem with hmem | hmem
  · exact h text (mem_append_left _ hmem)
  · cases mem_singleton.1 hmem
  · exact h text (mem_append_left _ hmem)
  · cases mem_singleton.1 hmem
    simp [hchunk]
  · exact h text hmem
  · cases channel <;> cases mem_singleton.1 hmem
    exact hchunk

theorem enter_parts (channel : Channel) (a : Assembler) : (a.enter channel).parts = a.parts := by
  unfold enter closeRun
  dsimp only
  split <;> split <;> rfl

theorem extend_adds (channel : Channel) (text : Text) (a : Assembler) :
    Adds a (a.extend channel text) := by
  unfold extend
  dsimp only
  generalize (if a.open.isNone = true then a.leading channel text else text) = piece
  by_cases hpiece : piece.isEmpty = true
  · rw [if_pos hpiece]
    exact .of_parts rfl
  rw [if_neg hpiece]
  by_cases hbody : (settled channel (a.held ++ piece)).isEmpty = true
  · rw [if_pos hbody]
    exact .of_parts rfl
  · rw [if_neg hbody]
    exact ⟨fun channel' => said_addPart _ channel' _ _ _,
      spoken_addPart fun hnil => hbody (isEmpty_iff.2 hnil)⟩

/-- **One slice**: the parts grow by what is handed on of it. -/
theorem emit_adds (a : Assembler) (emission : StreamEmission) : Adds a (a.emit emission) := by
  have hslice : ∀ channel text, Adds a ((a.enter channel).extend channel text) := by
    intro channel text
    exact (Adds.of_parts (enter_parts channel a)).trans (extend_adds channel text _)
  cases emission with
  | content text => exact hslice .text text
  | reasoning text => exact hslice .reasoning text

theorem emitAll_adds (a : Assembler) (emissions : List StreamEmission) :
    Adds a (a.emitAll emissions) := by
  induction emissions generalizing a with
  | nil => exact .of_parts rfl
  | cons emission emissions ih => exact (emit_adds a emission).trans (ih _)

theorem flush_adds (a : Assembler) : Adds a a.flush :=
  have hall := emitAll_adds { a with splitter := a.splitter.flushPending.2 }
    a.splitter.flushPending.1
  ⟨hall.said, hall.spoken⟩

/-! ## Whole streams -/

/-- Speech says nothing. -/
theorem addSpeech_adds (a : Assembler) (chunk : SpeechChunk) :
    Adds a ([.speechDelta chunk], { a with parts := addSpeech chunk a.parts }) := by
  have hcases : (∃ front previous longer, a.parts = front ++ [.speech previous] ∧
      addSpeech chunk a.parts = front ++ [.speech longer]) ∨
      addSpeech chunk a.parts = a.parts ++ [.speech chunk] := by
    unfold addSpeech
    split
    · next heq =>
      split
      · exact .inl ⟨_, _, _, (dropLast_append_getLast? _ heq).symm, rfl⟩
      · exact .inr rfl
    · exact .inr rfl
  have hdelta : ∀ channel, deltas channel [.speechDelta chunk] = [] := fun _ => rfl
  have hmem : ∀ front : List OutputPart, ∀ text longer,
      OutputPart.reasoning text ∈ front ++ [.speech longer] → .reasoning text ∈ front := by
    intro front text longer h
    exact (mem_append.1 h).resolve_right fun h => by cases mem_singleton.1 h
  obtain ⟨front, previous, longer, hparts, hadded⟩ | hadded := hcases
  · refine ⟨fun channel => ?_, fun hspoken text h => ?_⟩
    · dsimp only
      rw [hadded, hparts, hdelta]
      simp
    · rw [hadded] at h
      rw [hparts] at hspoken
      exact hspoken text (mem_append_left _ (hmem _ _ _ h))
  · refine ⟨fun channel => ?_, fun hspoken text h => ?_⟩
    · dsimp only
      rw [hadded, hdelta]
      simp
    · rw [hadded] at h
      exact hspoken text (hmem _ _ _ h)

/-- **One event**: the parts grow by what is handed on. -/
theorem push_adds (a : Assembler) (event : StreamEvent) : Adds a (a.push event) := by
  cases event with
  | token text =>
    have hall := emitAll_adds { a with splitter := (a.splitter.pushEmit text).2 }
      (a.splitter.pushEmit text).1
    exact ⟨hall.said, hall.spoken⟩
  | speech chunk =>
    have hclosed : Adds a (a.flush.1, a.flush.2.closeRun) :=
      ⟨(flush_adds a).said, (flush_adds a).spoken⟩
    exact hclosed.trans (addSpeech_adds _ chunk)
  | toolCall call => exact ⟨fun channel => (append_nil _).symm, fun h => h⟩
  | mediaBoundary boundary => exact .of_parts rfl
  | contextTruncated dropped => exact .of_parts rfl

/-- A stream from its first event to its end: the events handed on, and the assembler then. -/
def run (a : Assembler) (finish : Finish) : List StreamEvent → List Event × Assembler
  | [] => a.finish finish
  | event :: events =>
    let (out, a) := a.push event
    let (out', a) := a.run finish events
    (out ++ out', a)

theorem run_snd (a : Assembler) (finish : Finish) (events : List StreamEvent) :
    (a.run finish events).2 = ((a.pushAll events).finish finish).2 := by
  induction events generalizing a with
  | nil => rfl
  | cons event events ih => exact ih _

theorem finish_adds (a : Assembler) (finish : Finish) : Adds a (a.finish finish) := by
  refine ⟨fun channel => ?_, (flush_adds a).spoken⟩
  refine ((flush_adds a).said channel).trans ?_
  unfold Assembler.finish
  dsimp only
  rw [deltas_append]
  exact congrArg (_ ++ ·) (append_nil _).symm

/-- **A whole stream**: what it says is what was handed on. -/
theorem run_adds (a : Assembler) (finish : Finish) (events : List StreamEvent) :
    Adds a (a.run finish events) := by
  induction events generalizing a with
  | nil => exact finish_adds a finish
  | cons event events ih => exact (push_adds a event).trans (ih _)

/-! ## The message -/

theorem text_eq_said (parts : List OutputPart) :
    (⟨parts⟩ : AssistantMessage).text = said .text parts := by
  unfold AssistantMessage.text said
  refine congrArg (flatMap · parts) (funext fun part => ?_)
  cases part <;> rfl

/-- The reasoning parts, picked out and taken together. -/
theorem flatten_filterMap_reasoning {pick : OutputPart → Option Text}
    (hpick : ∀ part text, pick part = some text ↔ part = .reasoning text)
    (parts : List OutputPart) : (parts.filterMap pick).flatten = said .reasoning parts := by
  induction parts with
  | nil => rfl
  | cons part parts ih =>
    have hcons : said .reasoning (part :: parts) =
        said .reasoning [part] ++ said .reasoning parts := said_append _ [part] parts
    rw [hcons, ← ih]
    cases hpart : pick part with
    | some text =>
      rw [filterMap_cons_some hpart, (hpick part text).1 hpart]
      simp
    | none =>
      rw [filterMap_cons_none hpart]
      cases part with
      | reasoning text => simp [(hpick _ text).2 rfl] at hpart
      | text text => simp
      | speech chunk => simp
      | toolCall call => rfl

theorem reasoning_eq_said {parts : List OutputPart} (h : Spoken parts) :
    (⟨parts⟩ : AssistantMessage).reasoning =
      if said .reasoning parts = [] then none else some (said .reasoning parts) := by
  unfold AssistantMessage.reasoning
  dsimp only
  generalize hpick : (fun part : OutputPart => (_ : Option Text)) = pick
  have hpick : ∀ part text, pick part = some text ↔ part = .reasoning text := by
    intro part text
    rw [← hpick]
    cases part <;> simp
  rw [← flatten_filterMap_reasoning hpick]
  cases hparts : parts.filterMap pick with
  | nil => rfl
  | cons text texts =>
    -- what is picked says something
    have hmem : text ∈ parts.filterMap pick := hparts ▸ mem_cons_self
    obtain ⟨part, hpart, htext⟩ := mem_filterMap.1 hmem
    rw [(hpick part text).1 htext] at hpart
    simp [h text hpart]

/-! ## Other chunks -/

end Assembler

/-- The text between the chunks of speech; `text` is what has come of the first stretch. -/
def stretches : Text → List StreamEvent → List Text
  | text, [] => [text]
  | text, .token text' :: events => stretches (text ++ text') events
  | text, .speech _ :: events => text :: stretches [] events
  | text, _ :: events => stretches text events

/-- The events that are not text. -/
def others (events : List StreamEvent) : List StreamEvent :=
  events.filter fun event => (Assembler.tokenText event).isNone

/-- A stretch in front of each chunk of speech, and one at the end. -/
def weave : List Text → List StreamEvent → List StreamEvent
  | texts, [] => texts.map .token
  | text :: texts, .speech chunk :: events => .token text :: .speech chunk :: weave texts events
  | texts, event :: events => event :: weave texts events

namespace Assembler

/-- With its tokens taken together, a stream is its stretches and its other events. -/
theorem joined_eq_weave (text : Text) (events : List StreamEvent) :
    joined text events = weave (stretches text events) (others events) := by
  induction events generalizing text with
  | nil => rfl
  | cons event events ih =>
    cases event with
    | token text' => exact ih (text ++ text')
    | speech chunk => exact congrArg (StreamEvent.token text :: .speech chunk :: ·) (ih [])
    | toolCall call =>
      refine (congrArg (StreamEvent.toolCall call :: ·) (ih text)).trans ?_
      rw [stretches]
      · cases stretches text events <;> rfl
      all_goals simp
    | mediaBoundary boundary =>
      refine (congrArg (StreamEvent.mediaBoundary boundary :: ·) (ih text)).trans ?_
      rw [stretches]
      · cases stretches text events <;> rfl
      all_goals simp
    | contextTruncated dropped =>
      refine (congrArg (StreamEvent.contextTruncated dropped :: ·) (ih text)).trans ?_
      rw [stretches]
      · cases stretches text events <;> rfl
      all_goals simp

/-- **What was streamed is what is stored**: the text of the message is what the text deltas carry,
its reasoning what the reasoning deltas carry; and another stream with the same other events, the
same text in front of, between and behind its chunks of speech, comes to the same message. -/
theorem streamed_eq_stored (callIds : CallIds) (finish : Finish) (events : List StreamEvent) :
    let streamed := ((new callIds).run finish events).1
    (reply callIds finish events).text = deltas .text streamed ∧
      (reply callIds finish events).reasoning =
        (if deltas .reasoning streamed = [] then none else some (deltas .reasoning streamed)) ∧
      ∀ events', others events' = others events → stretches [] events' = stretches [] events →
        reply callIds finish events' = reply callIds finish events := by
  intro streamed
  have hadds := run_adds (new callIds) finish events
  have hparts : ((new callIds).run finish events).2 =
      (((new callIds).pushAll events).finish finish).2 := run_snd _ _ _
  have hsaid : ∀ channel, said channel (((new callIds).pushAll events).finish finish).2.parts =
      deltas channel streamed := by
    intro channel
    rw [← hparts]
    exact hadds.said channel
  have hspoken : Spoken (((new callIds).pushAll events).finish finish).2.parts := by
    rw [← hparts]
    exact hadds.spoken fun _ h => absurd h List.not_mem_nil
  refine ⟨?_, ?_, fun events' hothers hstretches => ?_⟩
  · rw [reply, text_message, text_eq_said, hsaid]
  · rw [reply, reasoning_message, reasoning_eq_said hspoken, hsaid]
  · rw [reply_joined _ _ events, reply_joined _ _ events', joined_eq_weave, joined_eq_weave,
      hothers, hstretches]

/-- A marker cut in two by a chunk of speech, and the same text in front of the speech: the events
that are not text are the same, and so is the whole of the text, but not the message. -/
theorem cut_at_speech_differs :
    ¬ ∀ (callIds : CallIds) (finish : Finish) (events events' : List StreamEvent),
      others events' = others events →
      (events'.filterMap tokenText).flatten = (events.filterMap tokenText).flatten →
      reply callIds finish events' = reply callIds finish events := by
  intro h
  have heq := h ⟨0, 0⟩ .eos [.token "<thi".toList, .speech ⟨16000, []⟩, .token "nk>x".toList]
    [.token "<think>x".toList, .speech ⟨16000, []⟩, .token []] rfl rfl
  have htext := congrArg AssistantMessage.text heq
  revert htext
  decide +kernel

end Assembler

end Gen2.Api
