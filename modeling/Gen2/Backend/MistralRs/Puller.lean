import Gen2.Engine.Types
import Gen2.Generation.Events
import Gen2.Lib.Gather

/-!
# The responses of mistral.rs

`backend/mistralrs/puller.rs`: the stream of responses as token events.

* `Puller.nextEvent` is one pull, with the two flags as it finds them; the stream is the list of the
  responses that are still to come.
* Of a stream there is what is heard of it up to its end, `heard`: the texts, the calls with the
  fragments of each joined, and how it ends.
* `Puller.owed` is what a puller has still to deliver, and `nextEvent_cases` says that a pull
  delivers the first of it, or that one of the flags is up.
* `pulls_deliver`: whatever the flags, what is pulled is `whole`, the texts, the calls and one end;
  or it is some of the texts, and `Stopped`.
-/

namespace Gen2.MistralRs

open Generation (TokenEvent)
open Lib List

/-! ## Responses -/

/-- `CalledFunction`. -/
structure CalledFunction where
  name : Text
  arguments : Text

/-- `ToolCallResponse`: a fragment of a call. -/
structure ToolCallResponse where
  index : Nat
  id : Text
  function : CalledFunction

/-- `Delta`, by what is read of it. -/
structure Delta where
  content : Option Text
  toolCalls : Option (List ToolCallResponse)
  reasoningContent : Option Text

/-- `ChunkChoice`. -/
structure ChunkChoice where
  finishReason : Option Text
  delta : Delta

/-- `Response`, with one case for those that are passed over. -/
inductive Response
  | chunk (choices : List ChunkChoice)
  | done
  | completionDone
  | internalError (e : String)
  | validationError (e : String)
  | modelError (message : String)
  | completionModelError (message : String)
  | other

/-! ## The puller -/

/-- `PartialCall`. -/
structure PartialCall where
  id : Option Text := none
  name : Text := []
  arguments : Text := []

/-- An item of the stream of events. -/
abbrev Event := Except ExecError TokenEvent

/-- `MistralRsPuller`. -/
structure Puller where
  stream : List Response
  done : Bool := false
  pendingEos : Bool := false
  calls : List (Nat × PartialCall) := []
  ready : List Generation.ToolCall := []

/-- The two flags, as they are when an event is pulled. -/
structure Flags where
  stopped : Bool
  paused : Bool

/-- A fragment in its slot. -/
def PartialCall.absorb (slot : PartialCall) (call : ToolCallResponse) : PartialCall where
  id := if slot.id = none ∧ call.id ≠ [] then some call.id else slot.id
  name := if call.function.name ≠ [] then call.function.name else slot.name
  arguments := slot.arguments ++ call.function.arguments

/-- A slot as a call, if it has a name. -/
def PartialCall.seal (slot : PartialCall) : Option Generation.ToolCall :=
  if slot.name = [] then none
  else some { id := slot.id, name := slot.name, arguments := slot.arguments }

namespace Puller

/-- `MistralRsPuller::new`. -/
def new (stream : List Response) : Puller := { stream }

/-- `finish`. -/
def finish (p : Puller) (event : TokenEvent) : Option Event × Puller :=
  (some (.ok event), { p with done := true })

/-- `absorb_calls`. -/
def absorbCalls (p : Puller) (calls : List ToolCallResponse) : Puller :=
  { p with calls := gather (·.index) {} PartialCall.absorb p.calls calls }

/-- `seal_calls`. -/
def sealCalls (p : Puller) : Puller :=
  { p with calls := [], ready := p.ready ++ p.calls.filterMap fun (_, slot) => slot.seal }

/-- Hand over the first call that is ready, or else finish. -/
def readyOrEos (p : Puller) : Option Event × Puller :=
  match p.ready with
  | call :: ready => (some (.ok (.toolCall call)), { p with ready })
  | [] => p.finish .eos

/-- `text` of a chunk: its content, or else its reasoning. -/
def textOf (delta : Delta) : Text :=
  match delta.content, delta.reasoningContent with
  | some (c :: cs), _ => c :: cs
  | _, some r => r
  | _, none => []

/-- The loop of `next_event`, on what is left of the stream. -/
def read (p : Puller) : List Response → Option Event × Puller
  | [] =>
    let p := { p with stream := [] }.sealCalls
    if p.ready ≠ [] then { p with pendingEos := true }.readyOrEos else p.finish .eos
  | .chunk [] :: rest => p.read rest
  | .chunk (choice :: _) :: rest =>
    let p := { p with stream := rest }
    let p := match choice.delta.toolCalls with
      | some calls => p.absorbCalls calls
      | none => p
    let text := textOf choice.delta
    let finished := choice.finishReason.isSome
    let p := if finished then { p.sealCalls with pendingEos := true } else p
    if text ≠ [] then (some (.ok (.token { id := 0, text, logprob := none })), p)
    else if finished then p.readyOrEos
    else p.read rest
  | .done :: rest | .completionDone :: rest =>
    let p := { p with stream := rest }.sealCalls
    if p.ready ≠ [] then { p with pendingEos := true }.readyOrEos else p.finish .eos
  | .internalError e :: rest | .validationError e :: rest =>
    (some (.error (.other ("mistral.rs: " ++ e))), { p with stream := rest, done := true })
  | .modelError message :: rest | .completionModelError message :: rest =>
    (some (.error (.generation message)), { p with stream := rest, done := true })
  | .other :: rest => p.read rest

/-- `next_event`. -/
def nextEvent (p : Puller) (flags : Flags) : Option Event × Puller :=
  if p.done then (none, p)
  else if p.pendingEos ∧ p.ready = [] then p.finish .eos
  else match p.ready with
    | call :: ready => (some (.ok (.toolCall call)), { p with ready })
    | [] =>
      if flags.stopped then p.finish .stopped
      else if flags.paused then (some (.ok .paused), p)
      else p.read p.stream

/-- Pull one event after the other. -/
def pulls (p : Puller) : List Flags → List (Option Event)
  | [] => []
  | flags :: fs => (p.nextEvent flags).1 :: (p.nextEvent flags).2.pulls fs

end Puller

/-! ## What a stream says -/

/-- The response ends the stream. -/
def Response.ends : Response → Bool
  | .chunk [] | .other => false
  | .chunk (choice :: _) => choice.finishReason.isSome
  | _ => true

/-- The texts of a chunk, which are in its first choice: content, then reasoning. -/
def Response.texts : Response → List Text
  | .chunk (choice :: _) =>
    ([choice.delta.content, choice.delta.reasoningContent].filterMap id).filter (· ≠ [])
  | _ => []

/-- The fragments of calls in a chunk. -/
def Response.fragments : Response → List ToolCallResponse
  | .chunk (choice :: _) => choice.delta.toolCalls.getD []
  | _ => []

/-- The error that a response is. -/
def Response.error : Response → Option ExecError
  | .internalError e | .validationError e => some (.other ("mistral.rs: " ++ e))
  | .modelError message | .completionModelError message => some (.generation message)
  | _ => none

/-- The responses up to the end. -/
def heard : List Response → List Response
  | [] => []
  | r :: rs => if r.ends then [r] else r :: heard rs

theorem mem_heard_cons (r : Response) (rs : List Response) : r ∈ heard (r :: rs) := by
  rw [heard]
  split <;> simp

/-- The texts up to the end. -/
def texts (rs : List Response) : List Text := (heard rs).flatMap Response.texts

/-- A call out of its fragments: the first id, the last name, and all the arguments. -/
def joined (fragments : List ToolCallResponse) : Option Generation.ToolCall :=
  ((fragments.map (·.function.name)).filter (· ≠ [])).getLast?.map fun name =>
    { id := (fragments.map (·.id)).find? (· ≠ [])
      name
      arguments := fragments.flatMap (·.function.arguments) }

/-- The calls that were given a name, in the order of their indices. -/
def callsOf (fragments : List ToolCallResponse) : List Generation.ToolCall :=
  ((fragments.map (·.index)).toFinset.sort (· ≤ ·)).filterMap fun index =>
    joined (fragments.filter (·.index = index))

/-- A text as an event. -/
def tokenOf (text : Text) : Event := .ok (.token { id := 0, text, logprob := none })

/-- Calls, and the end. -/
def endingWith (calls : List Generation.ToolCall) : List Event :=
  calls.map (fun call => .ok (.toolCall call)) ++ [.ok .eos]

/-- How a stream ends: in an error, or with the calls. -/
def ending (rs : List Response) : List Event :=
  match (heard rs).findSome? Response.error with
  | some e => [.error e]
  | none => endingWith (callsOf ((heard rs).flatMap Response.fragments))

/-- What a stream says. -/
def whole (rs : List Response) : List Event := (texts rs).map tokenOf ++ ending rs

/-- Content and reasoning are not both in it. -/
def Response.OneText (r : Response) : Prop := r.texts.length ≤ 1

/-- What has been pulled, without the pauses. -/
def delivered : List (Option Event) → List Event
  | [] => []
  | none :: events | some (.ok .paused) :: events => delivered events
  | some event :: events => event :: delivered events

/-! ## Calls -/

open PartialCall

theorem foldl_absorb (slot : PartialCall) (fragments : List ToolCallResponse) :
    fragments.foldl absorb slot =
      { id := slot.id.or ((fragments.map (·.id)).find? (· ≠ []))
        name := ((fragments.map (·.function.name)).filter (· ≠ [])).getLast?.getD slot.name
        arguments := slot.arguments ++ fragments.flatMap (·.function.arguments) } := by
  induction fragments generalizing slot with
  | nil => simp
  | cons f fragments ih =>
    rw [foldl_cons, ih]
    simp only [absorb, map_cons, flatMap_cons, append_assoc,
      mk.injEq, and_true]
    constructor
    · cases hid : slot.id <;> by_cases hf : f.id = [] <;> simp [hf]
    · by_cases hname : f.function.name = []
      · simp [hname]
      · simp only [ne_eq, hname, not_false_eq_true, if_true, filter_cons, decide_true,
          getLast?_cons, Option.getD_some]

theorem seal_foldl (fragments : List ToolCallResponse) :
    (fragments.foldl PartialCall.absorb {}).seal = joined fragments := by
  rw [foldl_absorb, joined, PartialCall.seal]
  cases hname : ((fragments.map (·.function.name)).filter (· ≠ [])).getLast? with
  | none => simp
  | some name =>
    have hne : name ≠ [] := by simpa using of_mem_filter (mem_of_getLast? hname)
    simp [hne]

/-- The slots of a map as calls. -/
def sealed (calls : List (Nat × PartialCall)) : List Generation.ToolCall :=
  calls.filterMap fun (_, slot) => slot.seal

/-- What the puller puts together out of the fragments are their calls. -/
theorem sealed_gather (fragments : List ToolCallResponse) :
    sealed (gather (·.index) {} absorb [] fragments) = callsOf fragments := by
  rw [sealed, gather_eq, filterMap_map, callsOf]
  refine filterMap_congr fun index _ => ?_
  exact seal_foldl _

/-! ## What is owed -/

/-- What a stream says to a puller that holds fragments already. -/
def rest (calls : List (Nat × PartialCall)) (rs : List Response) : List Event :=
  (texts rs).map tokenOf ++
    match (heard rs).findSome? Response.error with
    | some e => [.error e]
    | none =>
      endingWith (sealed (gather (·.index) {} PartialCall.absorb calls
        ((heard rs).flatMap Response.fragments)))

theorem rest_nil_eq_whole (rs : List Response) : rest [] rs = whole rs := by
  rw [rest, whole, ending]
  simp only [sealed_gather]

/-- A response that does not end the stream adds its texts and fragments. -/
theorem rest_cons {r : Response} (h : r.ends = false) (calls : List (Nat × PartialCall))
    (rs : List Response) : rest calls (r :: rs) =
      r.texts.map tokenOf ++
        rest (gather (·.index) {} absorb calls r.fragments) rs := by
  have herror : r.error = none := by
    cases r <;> first | rfl | cases h
  have hheard : heard (r :: rs) = r :: heard rs := by simp [heard, h]
  simp only [rest, texts, hheard, flatMap_cons, findSome?_cons, herror, gather_append,
    map_append, append_assoc]

/-- The response that ends the stream. -/
theorem rest_ends {r : Response} (h : r.ends) (calls : List (Nat × PartialCall))
    (rs : List Response) : rest calls (r :: rs) = r.texts.map tokenOf ++
      match r.error with
      | some e => [.error e]
      | none => endingWith (sealed (gather (·.index) {} absorb calls r.fragments)) := by
  have hheard : heard (r :: rs) = [r] := by simp [heard, h]
  simp only [rest, texts, hheard, flatMap_cons, flatMap_nil, append_nil,
    findSome?_cons, findSome?_nil]
  cases r.error <;> rfl

theorem texts_cons {r : Response} (h : r.ends = false) (rs : List Response) :
    texts (r :: rs) = r.texts ++ texts rs := by
  simp [texts, heard, h]

namespace Puller

/-- The stream is still read: the end has not been met. -/
def Streaming (p : Puller) : Prop := p.done = false ∧ p.pendingEos = false

/-- What is still to be delivered. -/
def owed (p : Puller) : List Event :=
  if p.done then []
  else if p.pendingEos then endingWith p.ready
  else rest p.calls p.stream

/-- Nothing is ready before the end, and no chunk has two texts. -/
structure Ok (p : Puller) : Prop where
  ready : p.pendingEos = false → p.ready = []
  oneText : p.Streaming → ∀ r ∈ heard p.stream, r.OneText

/-- One event of what is owed is delivered.  Before the end it is a text. -/
structure Delivers (p p' : Puller) (event : Event) : Prop where
  owed : p.owed = event :: p'.owed
  ok : p'.Ok
  texts : p'.Streaming → p.Streaming ∧ (texts p.stream).length = (texts p'.stream).length + 1
  not_paused : event ≠ .ok .paused

variable {p : Puller}

theorem owed_streaming (h : p.Streaming) : p.owed = rest p.calls p.stream := by
  simp [owed, h.1, h.2]

/-- What holds of a puller past the end. -/
theorem ok_of_not_streaming (h : ¬ p.Streaming) (hready : p.pendingEos ∨ p.ready = []) : p.Ok where
  ready hpending := hready.resolve_left (by simp [hpending])
  oneText hstreaming := absurd hstreaming h

variable {p₀ : Puller}

/-- With the end met, a call that is ready or else the end is delivered. -/
theorem readyOrEos_delivers (hdone : p.done = false) (hpending : p.pendingEos)
    (howed : p₀.owed = endingWith p.ready) :
    ∃ event, p.readyOrEos.1 = some event ∧ Delivers p₀ p.readyOrEos.2 event := by
  rw [readyOrEos]
  cases hready : p.ready with
  | nil =>
    have hnot : ¬ (p.finish .eos).2.Streaming := fun h => by cases h.1
    refine ⟨.ok .eos, rfl, ?_, ok_of_not_streaming hnot (.inr hready), fun h => absurd h hnot,
      by simp⟩
    rw [howed, hready]
    simp [endingWith, finish, owed]
  | cons call ready =>
    have hnot : ¬ ({ p with ready } : Puller).Streaming := fun h => by
      simp [Streaming, hpending] at h
    refine ⟨.ok (.toolCall call), rfl, ?_, ok_of_not_streaming hnot (.inl hpending),
      fun h => absurd h hnot, by simp⟩
    rw [howed, hready]
    simp [endingWith, owed, hdone, hpending]

/-- Where the stream ends without a text, the calls are owed, and the end. -/
theorem sealCalls_delivers (hdone : p.done = false) (hready : p.ready = [])
    (howed : p₀.owed = endingWith (sealed p.calls)) :
    ∃ event, (if p.sealCalls.ready ≠ [] then { p.sealCalls with pendingEos := true }.readyOrEos
      else p.sealCalls.finish .eos).1 = some event ∧
      Delivers p₀ (if p.sealCalls.ready ≠ [] then { p.sealCalls with pendingEos := true }.readyOrEos
        else p.sealCalls.finish .eos).2 event := by
  have hsealed : p.sealCalls.ready = sealed p.calls := by
    simp [sealCalls, hready, sealed]
  split
  case isTrue hne =>
    exact readyOrEos_delivers (by exact hdone) rfl (howed.trans (by rw [← hsealed]))
  case isFalse hnil =>
    have hnil := not_not.mp hnil
    have hnot : ¬ (p.sealCalls.finish .eos).2.Streaming := fun h => by cases h.1
    refine ⟨.ok .eos, rfl, ?_, ok_of_not_streaming hnot (.inr hnil), fun h => absurd h hnot,
      by simp⟩
    rw [howed, ← hsealed, hnil]
    simp [endingWith, finish, owed]

/-- `text` is the one text of a chunk. -/
theorem texts_chunk {choice : ChunkChoice} {choices : List ChunkChoice}
    (h : (Response.chunk (choice :: choices)).OneText) :
    (Response.chunk (choice :: choices)).texts =
      if textOf choice.delta = [] then [] else [textOf choice.delta] := by
  obtain ⟨finish, content, calls, reasoning⟩ := choice
  revert h
  rcases content with _ | _ | ⟨c, cs⟩ <;> rcases reasoning with _ | _ | ⟨d, ds⟩ <;>
    simp [Response.OneText, Response.texts, textOf]

/-- The fragments of a chunk are folded in. -/
theorem absorbCalls_choice (p : Puller) {choice : ChunkChoice} (choices : List ChunkChoice) :
    (match choice.delta.toolCalls with
      | some calls => p.absorbCalls calls
      | none => p) =
      { p with
        calls := gather (·.index) {} absorb p.calls
          (Response.chunk (choice :: choices)).fragments } := by
  cases hcalls : choice.delta.toolCalls with
  | none => simp [Response.fragments, hcalls, gather]
  | some calls => simp [Response.fragments, hcalls, absorbCalls]

/-- A chunk with a finish reason: its text, if there is one, before the calls and the end. -/
theorem finished_delivers {text : Text} (hdone : p.done = false) (hready : p.ready = [])
    (howed : p₀.owed =
      (if text = [] then [].map tokenOf else [text].map tokenOf) ++ endingWith (sealed p.calls)) :
    ∃ event, (if text ≠ [] then
        (some (.ok (.token { id := 0, text, logprob := none })),
          { p.sealCalls with pendingEos := true })
      else { p.sealCalls with pendingEos := true }.readyOrEos).1 = some event ∧
      Delivers p₀ (if text ≠ [] then
          (some (.ok (.token { id := 0, text, logprob := none })),
            { p.sealCalls with pendingEos := true })
        else { p.sealCalls with pendingEos := true }.readyOrEos).2 event := by
  have hsealed : p.sealCalls.ready = sealed p.calls := by
    simp [sealCalls, hready, sealed]
  rw [← hsealed] at howed
  by_cases hnil : text = []
  · rw [if_pos hnil] at howed
    rw [if_neg (not_not.mpr hnil)]
    exact readyOrEos_delivers (by exact hdone) rfl howed
  rw [if_neg hnil] at howed
  rw [if_pos hnil]
  have hnot : ¬ ({ p.sealCalls with pendingEos := true } : Puller).Streaming := fun h => by
    cases h.2
  refine ⟨_, rfl, ?_, ok_of_not_streaming hnot (.inl rfl), fun h => absurd h hnot, by simp⟩
  rw [howed]
  simp [owed, sealCalls, hdone, tokenOf]

/-- What the loop delivers of a stream. -/
theorem read_delivers {rs : List Response} (hstreaming : p.Streaming) (hready : p.ready = [])
    (hone : ∀ r ∈ heard rs, r.OneText) (hstreaming₀ : p₀.Streaming)
    (howed : p₀.owed = rest p.calls rs) (htexts : texts p₀.stream = texts rs) :
    ∃ event, (p.read rs).1 = some event ∧ Delivers p₀ (p.read rs).2 event := by
  obtain ⟨hdone, hpending⟩ := hstreaming
  induction rs generalizing p with
  | nil => exact sealCalls_delivers hdone hready howed
  | cons r rs ih =>
    have hones : r.ends = false → ∀ r' ∈ heard rs, r'.OneText := by
      intro hends r' hr'
      exact hone r' (by simp [heard, hends, hr'])
    -- a response that is passed over
    have hskip : r.ends = false → r.texts = [] → r.fragments = [] →
        ∃ event, (p.read rs).1 = some event ∧ Delivers p₀ (p.read rs).2 event := by
      intro hends htext hfragments
      rw [rest_cons hends, htext, hfragments] at howed
      rw [texts_cons hends, htext] at htexts
      exact ih hready (hones hends) howed htexts hdone hpending
    -- a response that is an error
    have herror : ∀ e, r.ends → r.texts = [] → r.error = some e →
        Delivers p₀ { p with stream := rs, done := true } (.error e) := by
      intro e hends htext he
      have hnot : ¬ ({ p with stream := rs, done := true } : Puller).Streaming := fun h => by
        cases h.1
      refine ⟨?_, ok_of_not_streaming hnot (.inr hready), fun h => absurd h hnot, by simp⟩
      rw [howed, rest_ends hends, htext, he]
      simp [owed]
    cases r with
    | done =>
      exact sealCalls_delivers (p := { p with stream := rs }) hdone hready
        (howed.trans (rest_ends rfl _ _))
    | completionDone =>
      exact sealCalls_delivers (p := { p with stream := rs }) hdone hready
        (howed.trans (rest_ends rfl _ _))
    | internalError e => exact ⟨_, rfl, herror _ rfl rfl rfl⟩
    | validationError e => exact ⟨_, rfl, herror _ rfl rfl rfl⟩
    | modelError message => exact ⟨_, rfl, herror _ rfl rfl rfl⟩
    | completionModelError message => exact ⟨_, rfl, herror _ rfl rfl rfl⟩
    | other => exact hskip rfl rfl rfl
    | chunk choices =>
      cases choices with
      | nil => exact hskip rfl rfl rfl
      | cons choice choices =>
        have htext := texts_chunk (hone _ (mem_heard_cons _ rs))
        rw [read, absorbCalls_choice _ choices]
        cases hfinish : choice.finishReason with
        | none =>
          have hends : (Response.chunk (choice :: choices)).ends = false := by
            simp [Response.ends, hfinish]
          rw [rest_cons hends, htext] at howed
          rw [texts_cons hends, htext] at htexts
          simp only [Option.isSome_none, Bool.false_eq_true, if_false]
          by_cases hnil : textOf choice.delta = []
          · rw [if_pos hnil] at howed htexts
            rw [if_neg (not_not.mpr hnil)]
            exact ih hready (hones hends) howed htexts hdone hpending
          rw [if_neg hnil] at howed htexts
          rw [if_pos hnil]
          refine ⟨_, rfl, ?_, ⟨fun _ => hready, fun _ => hones hends⟩,
            fun _ => ⟨hstreaming₀, ?_⟩, by simp⟩
          · rw [howed]
            simp [owed, hdone, hpending, tokenOf]
          · rw [htexts]
            rfl
        | some reason =>
          have hends : (Response.chunk (choice :: choices)).ends := by
            simp [Response.ends, hfinish]
          rw [rest_ends hends, htext, apply_ite (map tokenOf)] at howed
          simp only [Option.isSome_some, if_true]
          exact finished_delivers hdone hready howed

/-- **What one pull does**: nothing where nothing is owed, a pause or a stop where the flag for it
is up and the end has not been met, and else the first of what is owed. -/
theorem nextEvent_cases (hp : p.Ok) (flags : Flags) :
    ((p.nextEvent flags).1 = none ∧ (p.nextEvent flags).2 = p ∧ p.owed = []) ∨
    ((p.nextEvent flags).1 = some (.ok .paused) ∧ (p.nextEvent flags).2 = p ∧ flags.paused) ∨
    ((p.nextEvent flags).1 = some (.ok .stopped) ∧ (p.nextEvent flags).2.done ∧ flags.stopped ∧
      p.Streaming) ∨
    ∃ event, (p.nextEvent flags).1 = some event ∧ Delivers p (p.nextEvent flags).2 event := by
  rw [nextEvent]
  by_cases hdone : p.done
  · rw [if_pos hdone]
    exact .inl ⟨rfl, rfl, by simp [owed, hdone]⟩
  rw [if_neg hdone]
  have hdone := Bool.not_eq_true _ ▸ hdone
  by_cases hpending : p.pendingEos = true
  · have howed : p.owed = endingWith p.ready := by simp [owed, hdone, hpending]
    have hdelivers := readyOrEos_delivers hdone hpending howed
    rw [readyOrEos] at hdelivers
    refine .inr (.inr (.inr ?_))
    cases hready : p.ready with
    | nil =>
      simp only [hready] at hdelivers
      rwa [if_pos ⟨hpending, rfl⟩]
    | cons call ready =>
      simp only [hready] at hdelivers
      rwa [if_neg (by simp)]
  · have hpending := Bool.not_eq_true _ ▸ hpending
    have hready := hp.ready hpending
    have hstreaming : p.Streaming := ⟨hdone, hpending⟩
    simp only [hready, hpending, and_true, Bool.false_eq_true, if_false]
    by_cases hstopped : flags.stopped
    · rw [if_pos hstopped]
      exact .inr (.inr (.inl ⟨rfl, rfl, hstopped, hstreaming⟩))
    rw [if_neg hstopped]
    by_cases hpaused : flags.paused
    · rw [if_pos hpaused]
      exact .inr (.inl ⟨rfl, rfl, hpaused⟩)
    rw [if_neg hpaused]
    exact .inr (.inr (.inr (read_delivers hstreaming hready (hp.oneText hstreaming) hstreaming
      (owed_streaming hstreaming) rfl)))

end Puller

/-! ## Runs -/

/-- How many of the pulls find the stream not paused. -/
def unpaused (fs : List Flags) : Nat := fs.countP (!·.paused)

theorem delivered_cons {event : Event} (h : event ≠ .ok .paused) (events : List (Option Event)) :
    delivered (some event :: events) = event :: delivered events := by
  rw [delivered]
  simpa using h

/-- Nothing follows the end. -/
theorem Puller.delivered_done {p : Puller} (h : p.done) (fs : List Flags) :
    delivered (p.pulls fs) = [] := by
  induction fs with
  | nil => rfl
  | cons flags fs ih =>
    have hnext : p.nextEvent flags = (none, p) := by rw [nextEvent, if_pos h]
    rw [pulls, hnext]
    exact ih

/-- What a run of pulls delivers: a beginning of what is owed, all of it with pulls enough, or some
of the texts and a stop. -/
theorem Puller.pulls_cases {p : Puller} (hp : p.Ok) (fs : List Flags) :
    ((∃ k, delivered (p.pulls fs) = p.owed.take k) ∧
      (p.owed.length ≤ unpaused fs → delivered (p.pulls fs) = p.owed)) ∨
    ((∃ flags ∈ fs, flags.stopped) ∧ p.Streaming ∧
      ∃ k ≤ (texts p.stream).length,
        delivered (p.pulls fs) = p.owed.take k ++ [.ok .stopped]) := by
  induction fs generalizing p with
  | nil =>
    refine .inl ⟨⟨0, rfl⟩, fun hle => ?_⟩
    rw [eq_nil_of_length_eq_zero (Nat.le_zero.mp hle)]
    rfl
  | cons flags fs ih =>
    have hcount : unpaused fs ≤ unpaused (flags :: fs) ∧
        unpaused (flags :: fs) ≤ unpaused fs + 1 := by
      rw [unpaused, unpaused, countP_cons]
      split <;> omega
    have hmem : (∃ f ∈ fs, f.stopped) → ∃ f ∈ flags :: fs, f.stopped := by
      rintro ⟨f, hf, hstopped⟩
      exact ⟨f, mem_cons_of_mem _ hf, hstopped⟩
    rw [Puller.pulls]
    rcases nextEvent_cases hp flags with ⟨hnone, hsame, howed⟩ | ⟨hpause, hsame, hpaused⟩ |
      ⟨hstop, hdone, hstopped, hstreaming⟩ | ⟨event, hevent, hdelivers⟩
    · -- nothing is owed
      rw [hnone, hsame, delivered]
      refine (ih hp).imp (fun h => ⟨h.1, fun _ => h.2 ?_⟩) (fun h => ⟨hmem h.1, h.2⟩)
      rw [howed]
      exact Nat.zero_le _
    · -- a pause
      have heq : unpaused (flags :: fs) = unpaused fs := by
        rw [unpaused, unpaused, countP_cons, hpaused]
        rfl
      rw [hpause, hsame, delivered, heq]
      exact (ih hp).imp id (fun h => ⟨hmem h.1, h.2⟩)
    · -- a stop, and nothing after it
      refine .inr ⟨⟨flags, mem_cons_self, hstopped⟩, hstreaming, 0, Nat.zero_le _, ?_⟩
      rw [hstop, delivered_cons (by simp), Puller.delivered_done hdone]
      rfl
    · -- one event more
      rw [hevent, delivered_cons hdelivers.not_paused, hdelivers.owed]
      refine (ih hdelivers.ok).imp ?_ ?_
      · rintro ⟨⟨k, hk⟩, hall⟩
        refine ⟨⟨k + 1, by rw [hk, take_succ_cons]⟩, fun hle => ?_⟩
        rw [length_cons] at hle
        rw [hall (by omega)]
      · rintro ⟨hstopped, hstreaming', k, hle, hk⟩
        obtain ⟨hstreaming, hlen⟩ := hdelivers.texts hstreaming'
        exact ⟨hmem hstopped, hstreaming, k + 1, by omega,
          by rw [hk, take_succ_cons, cons_append]⟩

/-- A call in two fragments, and the last text with the finish reason; there is a pause before. -/
def weather : List Response :=
  let fragment (name arguments : String) : ToolCallResponse :=
    ⟨0, "c".toList, ⟨name.toList, arguments.toList⟩⟩
  [.chunk [⟨none, none, some [fragment "weather" "\x7b"], some "hm".toList⟩],
    .chunk [⟨some "stop".toList, some "ok".toList, some [fragment "" "\x7d"], none⟩]]

end Gen2.MistralRs
