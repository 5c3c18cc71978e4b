import Mathlib.Tactic.Linarith

/-!
# Messages, and the values they carry

The wire types of `types/message.rs`: a `Message` is a role, a body, and — on a tool turn — the id
of the call it answers.  Everything else in the development that talks about a conversation talks
about lists of these.

Three things of the source need a word.

* **`PartialEq` is not equality.**  A message may carry audio samples, which are `f32`s, and may
  carry tool arguments, which are `serde_json::Value`s.  The first compares by IEEE rules (`NaN` is
  not equal to itself, the two zeros are equal), the second ignores the order of an object's keys.
  So `Message` has a `BEq` instance of its own and no proof here assumes that it is lawful.
* **`serde_json`** is not part of the repository.  What the code uses of it — the text of a value,
  the bytes of a message — is the class `SerdeJson`; nothing is assumed about the functions in it.
* **Identifiers** that the source wraps in a newtype around `u64` are natural numbers.
-/

namespace Gen2

/-! ## Floating-point bit patterns -/

/-- An `f32`, by its bit pattern. -/
structure F32 where
  bits : UInt32
  deriving DecidableEq

/-- An exponent of all ones with a non-zero fraction. -/
def F32.isNaN (x : F32) : Bool :=
  x.bits &&& 0x7f800000 == 0x7f800000 && x.bits &&& 0x007fffff != 0

/-- Either of the two zeros. -/
def F32.isZero (x : F32) : Bool := x.bits &&& 0x7fffffff == 0

/-- IEEE equality: false on a `NaN`, and the two zeros are the same number. -/
instance : BEq F32 where
  beq x y := !x.isNaN && !y.isNaN && (x.bits == y.bits || (x.isZero && y.isZero))

/-- The `f64` of a JSON number.  `serde_json` refuses `NaN` and the infinities, so the zeros are the
only two patterns that are equal without being the same. -/
structure F64 where
  bits : UInt64
  deriving DecidableEq

instance : BEq F64 where
  beq x y := x.bits == y.bits || (x.bits &&& 0x7fffffffffffffff == 0 &&
    y.bits &&& 0x7fffffffffffffff == 0)

/-! ## JSON values -/

/-- `serde_json::Number`: the three shapes it keeps apart. -/
inductive JsonNumber
  | posInt (n : Nat)
  | negInt (n : Int)
  | float (x : F64)
  deriving BEq

/-- `serde_json::Value`.  An object is its entries in insertion order. -/
inductive Json
  | null
  | bool (b : Bool)
  | number (n : JsonNumber)
  | string (s : String)
  | array (items : List Json)
  | object (fields : List (String × Json))

mutual
/-- `Value`'s `PartialEq`: two objects are equal when they have as many entries and every entry of
one is an entry of the other, in whatever order. -/
def Json.beq : Json → Json → Bool
  | .null, .null => true
  | .bool a, .bool b => a == b
  | .number a, .number b => a == b
  | .string a, .string b => a == b
  | .array a, .array b => Json.beqItems a b
  | .object a, .object b => a.length == b.length && Json.beqFields a b
  | _, _ => false

def Json.beqItems : List Json → List Json → Bool
  | [], [] => true
  | a :: as, b :: bs => Json.beq a b && Json.beqItems as bs
  | _, _ => false

def Json.beqFields : List (String × Json) → List (String × Json) → Bool
  | [], _ => true
  | (key, value) :: rest, other =>
    (match other.lookup key with
      | some value' => Json.beq value value'
      | none => false) && Json.beqFields rest other
end

instance : BEq Json := ⟨Json.beq⟩

/-! ## Messages -/

/-- What a function is called by and called with.  In a call, `arguments` are the call's; in a tool
definition they are the schema. -/
structure FunctionDefinition where
  description : Option String
  name : String
  arguments : Json
  deriving BEq

/-- A tool call as a message stores it. -/
structure ToolCall where
  id : String
  type : String
  function : FunctionDefinition
  deriving BEq

structure Image where
  source : String
  deriving BEq

structure Video where
  frames : List Image
  soundtrack : List F32
  deriving BEq

inductive MessageChunk
  | text (text : String)
  | imageUrl (url : String)
  | audioPcm (samples : List F32)
  | video (video : Video)
  | microphone
  deriving BEq

inductive MessageContent
  | singleText (text : String)
  | multipleChunks (chunks : List MessageChunk)
  | structuredAssistant (content : String) (reasoning : Option String)
  deriving BEq

inductive MessageBody
  | content (content : MessageContent)
  | tool (toolCalls : List ToolCall)
  deriving BEq

/-- One message of a conversation. -/
structure Message where
  role : String
  body : MessageBody
  name : Option String
  /-- On a `tool` turn, the id of the call this result answers. -/
  toolCallId : Option String
  deriving BEq

/-- `MessageContent::as_visible_text`: reasoning is left out, and media are shown as placeholders.
-/
def MessageContent.asVisibleText : MessageContent → String
  | .singleText text => text
  | .multipleChunks chunks => String.join (chunks.map fun
      | .text text => text
      | .imageUrl url => "![](" ++ url ++ ")"
      | .audioPcm _ => "[audio]"
      | .video _ => "[video]"
      | .microphone => "[audio]")
  | .structuredAssistant content _ => content

namespace Message

/-- `Message::text`. -/
def text (message : Message) : String :=
  match message.body with
  | .content content => content.asVisibleText
  | .tool _ => ""

/-- `Message::user`. -/
def user (text : String) : Message := ⟨"user", .content (.singleText text), none, none⟩

/-- `Message::system`. -/
def system (text : String) : Message := ⟨"system", .content (.singleText text), none, none⟩

/-- `Message::tool_result`: a result that does not say which call it answers. -/
def toolResult (content : String) : Message :=
  ⟨"tool", .content (.singleText content), none, none⟩

/-- `Message::tool_result_for`. -/
def toolResultFor (toolCallId content : String) : Message :=
  { toolResult content with toolCallId := some toolCallId }

/-- `Message::assistant_tool_calls`. -/
def assistantToolCalls (toolCalls : List ToolCall) : Message :=
  ⟨"assistant", .tool toolCalls, none, none⟩

/-- `Message::assistant_structured`. -/
def assistantStructured (content : String) (reasoning : Option String) : Message :=
  ⟨"assistant", .content (.structuredAssistant content reasoning), none, none⟩

end Message

/-! ## Tool definitions -/

/-- What the model is told about one tool. -/
structure ToolDefinition where
  name : String
  description : String
  inputSchema : Json
  deriving BEq

/-- An ordered set of tool definitions. -/
structure ToolSet where
  tools : List ToolDefinition
  deriving BEq

namespace ToolSet

def new : ToolSet := ⟨[]⟩

/-- `ToolSet::add`: a tool of the same name is replaced where it stands. -/
def add (set : ToolSet) (tool : ToolDefinition) : ToolSet :=
  match set.tools.findIdx? (·.name == tool.name) with
  | some i => ⟨set.tools.set i tool⟩
  | none => ⟨set.tools ++ [tool]⟩

/-- `ToolSet::remove`. -/
def remove (set : ToolSet) (name : String) : Option ToolDefinition × ToolSet :=
  match set.tools.findIdx? (·.name == name) with
  | some i => (set.tools[i]?, ⟨set.tools.eraseIdx i⟩)
  | none => (none, set)

end ToolSet

/-! ## What the code uses of `serde_json` -/

/-- The two functions of `serde_json` a fingerprint is fed with. -/
class SerdeJson where
  /-- `Value::to_string`. -/
  valueToString : Json → String
  /-- `serde_json::to_vec` on a message; `none` where serialization fails. -/
  messageToVec : Message → Option (List UInt8)

/-- `str::as_bytes`. -/
def asBytes (s : String) : List UInt8 := s.toUTF8.data.toList

namespace SerdeJson

/-- A JSON string, for text in which nothing needs an escape. -/
def quote (s : String) : String := "\"" ++ s ++ "\""

/-- One tool call, its arguments as a string of JSON. -/
def toolCallText (arguments : Json → String) (call : ToolCall) : String :=
  "\x7b\"id\":" ++ quote call.id ++ ",\"type\":" ++ quote call.type ++
    ",\"function\":\x7b\"description\":" ++ (call.function.description.map quote).getD "null" ++
    ",\"name\":" ++ quote call.function.name ++
    ",\"arguments\":" ++ quote (arguments call.function.arguments) ++ "\x7d\x7d"

/-- What `serde_json` writes for the messages of the examples: plain text without escapes, and calls
whose arguments are an empty object.  A microphone has no serialization at all. -/
abbrev plain : SerdeJson where
  valueToString _ := "\x7b\x7d"
  messageToVec message :=
    let body : Option String := match message.body with
      | .content (.singleText text) => some ("\"content\":" ++ quote text)
      | .content (.structuredAssistant content reasoning) =>
        some ("\"content\":\x7b\"content\":" ++ quote content ++ ",\"reasoning\":" ++
          (reasoning.map quote).getD "null" ++ "\x7d")
      | .content (.multipleChunks _) => none
      | .tool calls => some ("\"tool_calls\":[" ++
          ",".intercalate (calls.map (toolCallText fun _ => "\x7b\x7d")) ++ "]")
    body.map fun body => asBytes ("\x7b\"role\":" ++ quote message.role ++ "," ++ body ++
      ",\"name\":" ++ (message.name.map quote).getD "null" ++
      (match message.toolCallId with
        | some id => ",\"tool_call_id\":" ++ quote id
        | none => "") ++ "\x7d")

end SerdeJson

/-! ## FNV-1a -/

/-- The FNV-1a hasher that `session.rs`, `tool_defs.rs` and `chat.rs` each carry a copy of. -/
structure Fnv where
  hash : UInt64

namespace Fnv

def prime : UInt64 := 0x00000100000001b3

def new : Fnv := ⟨0xcbf29ce484222325⟩

/-- Feed one field: its bytes, then the separator `0xff`. -/
def feed (h : Fnv) (bytes : List UInt8) : Fnv :=
  ⟨(bytes.foldl (fun h b => (h ^^^ b.toUInt64) * prime) h.hash ^^^ 0xff) * prime⟩

/-- `u64::to_le_bytes`. -/
def leBytes (n : UInt64) : List UInt8 :=
  (List.range 8).map fun i => (n >>> (8 * i).toUInt64).toUInt8

def feedU64 (h : Fnv) (n : UInt64) : Fnv := h.feed (leBytes n)

end Fnv

/-- `ToolSet::fingerprint`. -/
def ToolSet.fingerprint [SerdeJson] (set : ToolSet) : UInt64 :=
  (set.tools.foldl (fun h t =>
    ((h.feed (asBytes t.name)).feed (asBytes t.description)).feed
      (asBytes (SerdeJson.valueToString t.inputSchema))) Fnv.new).hash

end Gen2
