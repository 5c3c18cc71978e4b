import Gen2.Backend.Healing
import Gen2.Types.JsonText

/-!
# Messages that are saved

`types/message.rs`: what a message is written as, and what is read from it.

* `Message.toWire` is the value that is written, and `Message.ofWire` reads one; `Message.save` and
  `Message.load` do so by way of its text.
* A call's arguments go as a string, and a string that holds an object is read as that object.  So
  an array, a number, a boolean or `null` comes back as a string, and a string that holds an object
  comes back as the object.
* `Message.Restorable` leaves these out, and samples that no number of JSON stands for.
  `load_save_iff`: it is these messages that are read as they were.

The derived readers also take a sequence in place of an object, which nothing writes; that is left
out.
-/

namespace Gen2

open Backend List MessageContent

/-! ## Reading back -/

section
variable {α β : Type}

/-- What comes back of something is equal to it. -/
def Survives [BEq α] (back : Option α) (x : α) : Prop := ∃ y, back = some y ∧ (y == x) = true

/-- Reading what a list is written as, one after another. -/
theorem mapM_bind_mapM (f : α → Option β) (g : β → Option α) (xs : List α) :
    (xs.mapM f).bind (·.mapM g) = xs.mapM fun x => (f x).bind g := by
  induction xs with
  | nil => rfl
  | cons x xs ih =>
    rw [mapM_cons, mapM_cons, ← ih]
    cases hx : f x with
    | none => rfl
    | some y =>
      cases hxs : xs.mapM f with
      | none => cases g y <;> simp
      | some ys => simp [mapM_cons]

/-- A list survives if and only if what is in it does. -/
theorem survives_mapM [BEq α] (f : α → Option α) (xs : List α) :
    Survives (xs.mapM f) xs ↔ ∀ x ∈ xs, Survives (f x) x := by
  induction xs with
  | nil => exact ⟨fun _ _ h => (nomatch h), fun _ => ⟨[], rfl, rfl⟩⟩
  | cons x xs ih =>
    rw [forall_mem_cons, ← ih]
    constructor
    · rintro ⟨ys, hys, heq⟩
      rw [mapM_cons] at hys
      obtain ⟨y, hy, hys⟩ := Option.bind_eq_some_iff.1 hys
      obtain ⟨zs, hzs, hys⟩ := Option.bind_eq_some_iff.1 hys
      obtain rfl := Option.some.inj hys
      obtain ⟨hhead, htail⟩ := Bool.and_eq_true_iff.1 heq
      exact ⟨⟨y, hy, hhead⟩, zs, hzs, htail⟩
    · rintro ⟨⟨y, hy, hhead⟩, zs, hzs, htail⟩
      refine ⟨y :: zs, ?_, Bool.and_eq_true_iff.2 ⟨hhead, htail⟩⟩
      rw [mapM_cons, hy, hzs]
      rfl

/-- What is wrapped survives if and only if what is in it does. -/
theorem survives_map [BEq α] [BEq β] (wrap : α → β) {x : α}
    (hwrap : ∀ y, (wrap y == wrap x) = (y == x)) (back : Option α) :
    Survives (back.map wrap) (wrap x) ↔ Survives back x := by
  constructor
  · rintro ⟨_, hback, heq⟩
    obtain ⟨y, rfl, rfl⟩ := Option.map_eq_some_iff.1 hback
    exact ⟨y, rfl, (hwrap y).symm.trans heq⟩
  · rintro ⟨y, rfl, heq⟩
    exact ⟨wrap y, rfl, (hwrap y).trans heq⟩

end

/-! ## What is written -/

/-- What the code uses of `serde_json` for audio samples. -/
class SampleJson where
  /-- What a sample's text is read as: a number, or `null` where there is none for it. -/
  written : F32 → Json
  /-- `f32::deserialize`. -/
  read : Json → Option F32

section
variable [JsonText] [SampleJson]

/-- `serialize_as_string`. -/
def serializeAsString : Json → Json
  | .string s => .string s
  | other => .string (String.ofList (JsonText.toText other))

/-- An `Option<String>`. -/
def optionalString : Option String → Json
  | none => .null
  | some s => .string s

def FunctionDefinition.toWire (f : FunctionDefinition) : Json :=
  .object [("description", optionalString f.description), ("name", .string f.name),
    ("arguments", serializeAsString f.arguments)]

def ToolCall.toWire (call : ToolCall) : Json :=
  .object [("id", .string call.id), ("type", .string call.type), ("function", call.function.toWire)]

def Image.toWire (image : Image) : Json := .object [("source", .string image.source)]

def Video.toWire (video : Video) : Json :=
  .object [("frames", .array (video.frames.map Image.toWire)),
    ("soundtrack", .array (video.soundtrack.map SampleJson.written))]

/-- A chunk, with the tag that says which; a microphone cannot be written. -/
def MessageChunk.toWire : MessageChunk → Option Json
  | .text t => some (.object [("type", .string "text"), ("text", .string t)])
  | .imageUrl url =>
    some (.object [("type", .string "image_url"), ("image_url", .object [("url", .string url)])])
  | .audioPcm samples =>
    some (.object [("type", .string "audio_pcm"),
      ("samples", .array (samples.map SampleJson.written))])
  | .video v => some (.object [("type", .string "video"), ("video", v.toWire)])
  | .microphone => none

def MessageContent.toWire : MessageContent → Option Json
  | .singleText text => some (.string text)
  | .multipleChunks chunks => (chunks.mapM MessageChunk.toWire).map Json.array
  | .structuredAssistant content reasoning =>
    some (.object [("content", .string content), ("reasoning", optionalString reasoning)])

/-- The field of a message that its body is. -/
def MessageBody.toWire : MessageBody → Option (String × Json)
  | .content c => c.toWire.map fun v => ("content", v)
  | .tool toolCalls => some ("tool_calls", .array (toolCalls.map ToolCall.toWire))

def Message.toWire (m : Message) : Option Json :=
  m.body.toWire.map fun body =>
    .object ([("role", .string m.role), body, ("name", optionalString m.name)] ++
      match m.toolCallId with
      | none => []
      | some id => [("tool_call_id", .string id)])

/-! ## What is read -/

/-- `deserialize_from_string`. -/
def deserializeFromString : Json → Json
  | .string s =>
    match JsonText.fromStr s.toList with
    | some (.object fields) => .object fields
    | _ => .string s
  | other => other

/-- A field that is a string. -/
def readString (v : Json) (key : String) : Option String :=
  match Json.get v key with
  | some (.string s) => some s
  | _ => none

/-- A field that may be left out. -/
def readOptional (v : Json) (key : String) : Option (Option String) :=
  match Json.get v key with
  | none => some none
  | some .null => some none
  | some (.string s) => some (some s)
  | some _ => none

/-- A list. -/
def readList {α : Type} (read : Json → Option α) : Json → Option (List α)
  | .array items => items.mapM read
  | _ => none

/-- A function; `parameters` is another word for its arguments, and there is one of the two. -/
def FunctionDefinition.ofWire (v : Json) : Option FunctionDefinition := do
  let description ← readOptional v "description"
  let name ← readString v "name"
  let arguments ← match Json.get v "arguments", Json.get v "parameters" with
    | some a, none => some a
    | none, some a => some a
    | _, _ => none
  return ⟨description, name, deserializeFromString arguments⟩

def ToolCall.ofWire (v : Json) : Option ToolCall := do
  let id ← readString v "id"
  let type ← readString v "type"
  let function ← (Json.get v "function").bind FunctionDefinition.ofWire
  return ⟨id, type, function⟩

def Image.ofWire (v : Json) : Option Image := (readString v "source").map Image.mk

def Video.ofWire (v : Json) : Option Video := do
  let frames ← (Json.get v "frames").bind (readList Image.ofWire)
  let soundtrack ← (Json.get v "soundtrack").bind (readList SampleJson.read)
  return ⟨frames, soundtrack⟩

def MessageChunk.ofWire (v : Json) : Option MessageChunk := do
  match ← readString v "type" with
  | "text" => (readString v "text").map .text
  | "image_url" => ((Json.get v "image_url").bind (readString · "url")).map .imageUrl
  | "audio_pcm" => ((Json.get v "samples").bind (readList SampleJson.read)).map .audioPcm
  | "video" => ((Json.get v "video").bind Video.ofWire).map .video
  | _ => none

/-- The content: the first of the three shapes that it has. -/
def MessageContent.ofWire : Json → Option MessageContent
  | .string text => some (.singleText text)
  | .array items => (items.mapM MessageChunk.ofWire).map .multipleChunks
  | v => do
    let content ← readString v "content"
    let reasoning ← readOptional v "reasoning"
    return .structuredAssistant content reasoning

/-- The body: the content, or else the calls. -/
def MessageBody.ofWire (v : Json) : Option MessageBody :=
  (((Json.get v "content").bind MessageContent.ofWire).map .content).orElse fun _ =>
    ((Json.get v "tool_calls").bind (readList ToolCall.ofWire)).map .tool

def Message.ofWire (v : Json) : Option Message := do
  let role ← readString v "role"
  let body ← MessageBody.ofWire v
  let name ← readOptional v "name"
  let toolCallId ← readOptional v "tool_call_id"
  return ⟨role, body, name, toolCallId⟩

/-- `serde_json::to_string` on a message. -/
def Message.save (m : Message) : Option Text := m.toWire.map JsonText.toText

/-- `serde_json::from_str` to a message. -/
def Message.load (t : Text) : Option Message := (JsonText.fromStr t).bind Message.ofWire

/-! ## What comes back -/

/-- What is left of a call's arguments. -/
def argumentsBack (v : Json) : Json := deserializeFromString (serializeAsString v)

/-- Arguments that are read as they were: an object that `serde_json` reads from its text, or a
string that holds no object. -/
def RestorableArguments : Json → Prop
  | .object fields =>
    ∃ fields', JsonText.fromStr (JsonText.toText (.object fields)) = some (.object fields') ∧
      (Json.object fields' == Json.object fields) = true
  | .string s => ∀ fields, JsonText.fromStr s.toList ≠ some (.object fields)
  | _ => False

omit [SampleJson] in
theorem argumentsBack_of_ne_string {v : Json} (h : ∀ s, v ≠ .string s) :
    argumentsBack v = match JsonText.fromStr (JsonText.toText v) with
      | some (.object fields) => .object fields
      | _ => .string (String.ofList (JsonText.toText v)) := by
  have hwritten : serializeAsString v = .string (String.ofList (JsonText.toText v)) := by
    cases v with
    | string s => exact absurd rfl (h s)
    | _ => rfl
  rw [argumentsBack, hwritten, deserializeFromString, String.toList_ofList]

omit [SampleJson] in
/-- What is neither an object nor a string comes back as one of them. -/
theorem argumentsBack_ne {v : Json} (hstring : ∀ s, v ≠ .string s)
    (hobject : ∀ fields, v ≠ .object fields) : (argumentsBack v == v) = false := by
  rw [argumentsBack_of_ne_string hstring]
  split <;> cases v with
  | string s => exact absurd rfl (hstring s)
  | object fields => exact absurd rfl (hobject fields)
  | _ => rfl

omit [SampleJson] in
/-- **The arguments that come back.** -/
theorem argumentsBack_iff (v : Json) : (argumentsBack v == v) = true ↔ RestorableArguments v := by
  cases v with
  | object fields =>
    have hback := argumentsBack_of_ne_string (v := .object fields) nofun
    rw [hback]
    constructor
    · intro heq
      split at heq
      next fields' hread => exact ⟨fields', hread, heq⟩
      · cases heq
    · rintro ⟨fields', hread, heq⟩
      rw [hread]
      exact heq
  | string s =>
    rw [argumentsBack, serializeAsString, deserializeFromString]
    constructor
    · intro heq fields hread
      rw [hread] at heq
      cases heq
    · intro hread
      split
      next fields hobject => exact absurd hobject (hread fields)
      · exact beq_self_eq_true s
  | _ => exact iff_of_false (Bool.eq_false_iff.1 (argumentsBack_ne nofun nofun)) id

/-! ### Calls -/

omit [SampleJson] in
theorem FunctionDefinition.ofWire_toWire (f : FunctionDefinition) :
    ofWire f.toWire = some { f with arguments := argumentsBack f.arguments } := by
  obtain ⟨description, name, arguments⟩ := f
  cases description <;>
    simp [ofWire, toWire, readOptional, readString, Json.get, lookup_cons, optionalString,
      argumentsBack]

omit [SampleJson] in
theorem ToolCall.ofWire_toWire (call : ToolCall) :
    ofWire call.toWire = some { call with
      function := { call.function with arguments := argumentsBack call.function.arguments } } := by
  simp [ofWire, toWire, readString, Json.get, lookup_cons, FunctionDefinition.ofWire_toWire]

omit [JsonText] [SampleJson] in
/-- A call is the same if its arguments are. -/
theorem ToolCall.beq_arguments (call : ToolCall) (v : Json) :
    ({ call with function := { call.function with arguments := v } } == call) =
      (v == call.function.arguments) := by
  obtain ⟨id, type, ⟨description, name, arguments⟩⟩ := call
  show (id == id && (type == type && (description == description &&
    (name == name && v == arguments)))) = (v == arguments)
  simp

omit [SampleJson] in
/-- The calls survive if and only if their arguments do. -/
theorem survives_calls (calls : List ToolCall) :
    Survives (readList ToolCall.ofWire (.array (calls.map ToolCall.toWire))) calls ↔
      ∀ call ∈ calls, RestorableArguments call.function.arguments := by
  rw [readList, mapM_map, survives_mapM]
  refine forall₂_congr fun call _ => ?_
  rw [Function.comp_apply, ToolCall.ofWire_toWire, ← argumentsBack_iff, ← ToolCall.beq_arguments]
  exact ⟨fun ⟨_, hback, heq⟩ => Option.some.inj hback ▸ heq, fun heq => ⟨_, rfl, heq⟩⟩

/-! ### Samples and chunks -/

/-- A sample that is read as it was. -/
def RestorableSample (x : F32) : Prop := Survives (SampleJson.read (SampleJson.written x)) x

/-- The samples of a chunk. -/
def MessageChunk.samples : MessageChunk → List F32
  | .audioPcm samples => samples
  | .video v => v.soundtrack
  | _ => []

open SampleJson

omit [JsonText] in
theorem survives_samples (samples : List F32) :
    Survives (readList read (.array (samples.map written))) samples ↔
      ∀ x ∈ samples, RestorableSample x := by
  rw [readList, mapM_map, survives_mapM]
  rfl

omit [JsonText] [SampleJson] in
theorem readList_images (images : List Image) :
    readList Image.ofWire (.array (images.map Image.toWire)) = some images := by
  rw [readList, mapM_map]
  induction images with
  | nil => rfl
  | cons image images ih =>
    rw [mapM_cons, ih]
    rfl

omit [JsonText] [SampleJson] in
theorem Image.beq_self (image : Image) : (image == image) = true := beq_self_eq_true image.source

omit [JsonText] [SampleJson] in
/-- A video is the same if its soundtrack is. -/
theorem Video.beq_soundtrack (video : Video) (samples : List F32) :
    ({ video with soundtrack := samples } == video) = (samples == video.soundtrack) := by
  have hframes : ∀ frames : List Image, (frames == frames) = true := by
    intro frames
    induction frames with
    | nil => rfl
    | cons image frames ih => exact Bool.and_eq_true_iff.2 ⟨image.beq_self, ih⟩
  show (video.frames == video.frames && samples == video.soundtrack) = _
  rw [hframes, Bool.true_and]

omit [JsonText] in
theorem survives_video (video : Video) :
    Survives (Video.ofWire video.toWire) video ↔ ∀ x ∈ video.soundtrack, RestorableSample x := by
  have hback : Video.ofWire video.toWire =
      (readList read (.array (video.soundtrack.map written))).map
        fun soundtrack => { video with soundtrack := soundtrack } := by
    have hframes : Json.get video.toWire "frames" =
        some (.array (video.frames.map Image.toWire)) := rfl
    have hsound : Json.get video.toWire "soundtrack" =
        some (.array (video.soundtrack.map written)) := rfl
    rw [Video.ofWire, hframes, Option.bind_some, readList_images, hsound]
    cases hread : readList read
      (.array (video.soundtrack.map written)) <;> simp [hread]
  rw [hback, ← survives_samples]
  exact survives_map _ video.beq_soundtrack _

omit [JsonText] in
/-- A chunk survives if and only if its samples do; a microphone cannot be written. -/
theorem survives_chunk (chunk : MessageChunk) :
    Survives (chunk.toWire.bind MessageChunk.ofWire) chunk ↔
      chunk ≠ .microphone ∧ ∀ x ∈ chunk.samples, RestorableSample x := by
  cases chunk with
  | text t =>
    have hback : (MessageChunk.text t).toWire.bind MessageChunk.ofWire = some (.text t) := rfl
    rw [hback]
    exact iff_of_true ⟨_, rfl, beq_self_eq_true t⟩ ⟨nofun, nofun⟩
  | imageUrl url =>
    have hback : (MessageChunk.imageUrl url).toWire.bind MessageChunk.ofWire =
        some (.imageUrl url) := rfl
    rw [hback]
    exact iff_of_true ⟨_, rfl, beq_self_eq_true url⟩ ⟨nofun, nofun⟩
  | audioPcm samples =>
    have hback : (MessageChunk.audioPcm samples).toWire.bind MessageChunk.ofWire =
        (readList read (.array (samples.map written))).map .audioPcm := rfl
    rw [hback, survives_map MessageChunk.audioPcm fun _ => rfl, survives_samples,
      and_iff_right nofun]
    rfl
  | video v =>
    have hback : (MessageChunk.video v).toWire.bind MessageChunk.ofWire =
        (Video.ofWire v.toWire).map .video := rfl
    rw [hback, survives_map MessageChunk.video fun _ => rfl, survives_video, and_iff_right nofun]
    rfl
  | microphone => exact iff_of_false (fun ⟨_, hback, _⟩ => nomatch hback) fun h => h.1 rfl

/-! ### Messages -/

/-- The chunks of a content. -/
def MessageContent.chunks : MessageContent → List MessageChunk
  | .multipleChunks chunks => chunks
  | _ => []

omit [JsonText] in
/-- A content survives if and only if its chunks do. -/
theorem survives_content (c : MessageContent) :
    Survives (c.toWire.bind ofWire) c ↔
      ∀ chunk ∈ c.chunks, chunk ≠ .microphone ∧ ∀ x ∈ chunk.samples, RestorableSample x := by
  cases c with
  | singleText t =>
    have hback : (singleText t).toWire.bind ofWire =
        some (.singleText t) := rfl
    rw [hback]
    exact iff_of_true ⟨_, rfl, beq_self_eq_true t⟩ nofun
  | structuredAssistant content reasoning =>
    have hback : (structuredAssistant content reasoning).toWire.bind
        ofWire = some (.structuredAssistant content reasoning) := by
      cases reasoning <;> rfl
    rw [hback]
    refine iff_of_true ⟨_, rfl, ?_⟩ nofun
    exact Bool.and_eq_true_iff.2 ⟨beq_self_eq_true content, beq_self_eq_true reasoning⟩
  | multipleChunks chunks =>
    have hback : (multipleChunks chunks).toWire.bind ofWire =
        (chunks.mapM fun chunk : MessageChunk => chunk.toWire.bind MessageChunk.ofWire).map .multipleChunks := by
      rw [← mapM_bind_mapM, toWire]
      cases chunks.mapM MessageChunk.toWire <;> rfl
    rw [hback, survives_map multipleChunks fun _ => rfl, survives_mapM]
    exact forall₂_congr fun chunk _ => survives_chunk chunk

namespace Message

/-- The chunks of a message. -/
def chunks (m : Message) : List MessageChunk :=
  match m.body with
  | .content c => c.chunks
  | .tool _ => []

/-- The calls of a message. -/
def toolCalls (m : Message) : List ToolCall :=
  match m.body with
  | .content _ => []
  | .tool calls => calls

/-- A message that is read as it was. -/
structure Restorable (m : Message) : Prop where
  arguments : ∀ call ∈ m.toolCalls, RestorableArguments call.function.arguments
  samples : ∀ chunk ∈ m.chunks, ∀ x ∈ chunk.samples, RestorableSample x

end Message

omit [JsonText] [SampleJson] in
/-- A message is the same if its body is. -/
theorem Message.beq_body (m : Message) (body : MessageBody) :
    ({ m with body := body } == m) = (body == m.body) := by
  obtain ⟨role, body', name, toolCallId⟩ := m
  show (role == role && (body == body' && (name == name && toolCallId == toolCallId))) =
    (body == body')
  simp

/-- What comes back of a body. -/
def MessageBody.back : MessageBody → Option MessageBody
  | .content c => (c.toWire.bind MessageContent.ofWire).map .content
  | .tool calls => (readList ToolCall.ofWire (.array (calls.map ToolCall.toWire))).map .tool

/-- A message is read by its parts. -/
theorem Message.ofWire_of_fields {v : Json} {role : String} {body : Option MessageBody}
    {name toolCallId : Option String} (hrole : readString v "role" = some role)
    (hbody : MessageBody.ofWire v = body) (hname : readOptional v "name" = some name)
    (hid : readOptional v "tool_call_id" = some toolCallId) :
    Message.ofWire v = body.map fun body => ⟨role, body, name, toolCallId⟩ := by
  rw [Message.ofWire, hrole, hbody, hname, hid]
  cases body <;> rfl

/-- The rest of a message comes back as it is. -/
theorem Message.ofWire_toWire (m : Message) :
    m.toWire.bind Message.ofWire = m.body.back.map fun body => { m with body := body } := by
  obtain ⟨role, body, name, toolCallId⟩ := m
  cases body with
  | content c =>
    show (Option.map _ (c.toWire.map _)).bind _ = ((c.toWire.bind _).map _).map _
    cases c.toWire with
    | none => rfl
    | some w =>
      simp only [Option.map_some, Option.bind_some]
      refine Message.ofWire_of_fields rfl ?_ ?_ ?_
      · cases hread : MessageContent.ofWire w <;>
          simp [MessageBody.ofWire, Json.get, lookup_cons, hread]
        cases toolCallId <;> simp [lookup_cons]
      · cases name <;> rfl
      · cases toolCallId <;> rfl
  | tool calls =>
    refine Message.ofWire_of_fields rfl ?_ ?_ ?_
    · cases toolCallId <;> rfl
    · cases name <;> rfl
    · cases toolCallId <;> rfl

/-- A body survives if and only if its calls and its chunks do. -/
theorem survives_body (m : Message) (hmic : .microphone ∉ m.chunks) :
    Survives m.body.back m.body ↔ m.Restorable := by
  obtain ⟨role, body, name, toolCallId⟩ := m
  cases body with
  | content c =>
    rw [MessageBody.back, survives_map MessageBody.content fun _ => rfl, survives_content]
    constructor
    · exact fun h => ⟨nofun, fun chunk hchunk => (h chunk hchunk).2⟩
    · exact fun h chunk hchunk => ⟨fun heq => hmic (heq ▸ hchunk), h.samples chunk hchunk⟩
  | tool calls =>
    rw [MessageBody.back, survives_map MessageBody.tool fun _ => rfl, survives_calls]
    exact ⟨fun h => ⟨h, nofun⟩, fun h => h.arguments⟩

/-- **A message that is saved and loaded is equal to what it was** if and only if its arguments are
objects, or strings that hold none, and its samples are numbers of JSON. -/
theorem load_save_iff {m : Message} (hmic : .microphone ∉ m.chunks)
    (hread : ∀ w, m.toWire = some w → JsonText.fromStr (JsonText.toText w) = some w) :
    (∃ m', m.save.bind Message.load = some m' ∧ (m' == m) = true) ↔ m.Restorable := by
  have hload : m.save.bind Message.load = m.toWire.bind Message.ofWire := by
    rw [Message.save]
    cases hwire : m.toWire with
    | none => rfl
    | some w =>
      rw [Option.map_some, Option.bind_some, Option.bind_some, Message.load, hread w hwire,
        Option.bind_some]
  rw [hload, Message.ofWire_toWire, ← survives_body m hmic]
  exact survives_map _ m.beq_body _

end

/-- A turn that asks for one call, with these arguments. -/
def oneCall (arguments : Json) : Message :=
  .assistantToolCalls [⟨"c1", "function", ⟨none, "t", arguments⟩⟩]

/-- What it is written as, where its arguments have this text. -/
def oneCallJson (arguments : String) : Json :=
  .object [("role", .string "assistant"),
    ("tool_calls", .array [.object [("id", .string "c1"), ("type", .string "function"),
      ("function", .object [("description", .null), ("name", .string "t"),
        ("arguments", .string arguments)])]]),
    ("name", .null)]

/-- What comes back of it, where `serde_json` reads what it writes. -/
theorem load_oneCall [JsonText] [SampleJson] {arguments : Json} {t : String}
    (hwritten : serializeAsString arguments = .string t)
    (hread : JsonText.fromStr (JsonText.toText (oneCallJson t)) = some (oneCallJson t)) :
    (oneCall arguments).save.bind Message.load =
      some (oneCall (deserializeFromString (.string t))) := by
  have hwire : (oneCall arguments).toWire = some (oneCallJson t) := by
    show some (Json.object [_, ("tool_calls", .array [.object [_, _, ("function", .object [_, _,
      ("arguments", serializeAsString arguments)])]]), _]) = _
    rw [hwritten]
    rfl
  rw [Message.save, hwire, Option.map_some, Option.bind_some, Message.load, hread]
  rfl

/-- `serde_json` on certain values: it writes everything, and reads these. -/
abbrev JsonText.ofValues (values : List Json) : JsonText where
  fromStr t := values.find? fun v => v.write (fun _ => ['0']) == t
  streamNext _ := none
  toText v := v.write fun _ => ['0']

/-- It reads what it writes, where no earlier value is written like this. -/
theorem fromStr_ofValues (front : List Json) (v : Json) (back : List Json)
    (hfront : ∀ w ∈ front, (w.write (fun _ => ['0']) == v.write fun _ => ['0']) = false) :
    letI := JsonText.ofValues (front ++ v :: back)
    JsonText.fromStr (JsonText.toText v) = some v := by
  have hself : (v.write (fun _ => ['0']) == v.write fun _ => ['0']) = true := beq_self_eq_true _
  show (front ++ v :: back).find? (fun w => w.write (fun _ => ['0']) == v.write fun _ => ['0']) = _
  rw [find?_append, find?_eq_none.2 fun w hw => Bool.eq_false_iff.1 (hfront w hw),
    find?_cons, hself]
  rfl

/-- `serde_json` on the samples of silence. -/
abbrev SampleJson.silence : SampleJson where
  written x := if x.isZero then .number (.float ⟨0⟩) else .null
  read
    | .number (.float _) => some ⟨0⟩
    | _ => none

/-- An array comes back as a string, and a string that holds an object as the object. -/
theorem arguments_change :
    letI := JsonText.ofValues [.array [], .object [], oneCallJson "[]", oneCallJson "\x7b\x7d"]
    letI := SampleJson.silence
    (oneCall (.array [])).save.bind Message.load = some (oneCall (.string "[]")) ∧
      (oneCall (.string "[]") == oneCall (.array [])) = false ∧
      (oneCall (.string "\x7b\x7d")).save.bind Message.load = some (oneCall (.object [])) ∧
      (oneCall (.object []) == oneCall (.string "\x7b\x7d")) = false := by
  let _ := JsonText.ofValues [.array [], .object [], oneCallJson "[]", oneCallJson "\x7b\x7d"]
  let _ := SampleJson.silence
  have harray : JsonText.fromStr (JsonText.toText (oneCallJson "[]")) = some (oneCallJson "[]") :=
    fromStr_ofValues [.array [], .object []] _ [_] (by decide +kernel)
  have hstring : JsonText.fromStr (JsonText.toText (oneCallJson "\x7b\x7d")) =
      some (oneCallJson "\x7b\x7d") :=
    fromStr_ofValues [.array [], .object [], oneCallJson "[]"] _ [] (by decide +kernel)
  exact ⟨load_oneCall (by rfl) harray, by decide +kernel, load_oneCall (by rfl) hstring,
    by decide +kernel⟩

theorem city_survives :
    letI := JsonText.ofValues [.object [("city", .string "Paris")],
      oneCallJson "\x7b\"city\":\"Paris\"\x7d"]
    letI := SampleJson.silence
    (∃ m', (oneCall (.object [("city", .string "Paris")])).save.bind Message.load = some m' ∧
        (m' == oneCall (.object [("city", .string "Paris")])) = true) ↔
      (oneCall (.object [("city", .string "Paris")])).Restorable := by
  let _ := JsonText.ofValues [.object [("city", .string "Paris")],
    oneCallJson "\x7b\"city\":\"Paris\"\x7d"]
  let _ := SampleJson.silence
  refine load_save_iff nofun fun w hw => ?_
  have hwire : (oneCall (.object [("city", .string "Paris")])).toWire =
      some (oneCallJson "\x7b\"city\":\"Paris\"\x7d") := by rfl
  obtain rfl := Option.some.inj (hwire.symm.trans hw)
  exact fromStr_ofValues [.object [("city", .string "Paris")]] _ [] (by decide +kernel)

end Gen2
