import Gen2.Engine.Types
import Gen2.Lib.Bytes
import Gen2.Types.Lossy

/-!
# GGUF headers

`bundle/gguf.rs`: what is read of the header of a model file.

* **Readers.**  They are `ByteReader`s: bytes are read from the front, and what cannot be read is
  refused.  `skipArray` has the nesting that is left to it, `MAX_ARRAY_DEPTH` and one at first.
* **Keys.**  `classify` says what an entry is read for: the text of a field, a number of a field, a
  width of the attention, the heads of the keys, or nothing.
* **Widths.**  They are kept with their keys until the end, and then those of the file's own
  architecture are taken: `finish`.
-/

namespace Gen2.Gguf

open Lib

@[match_pattern] abbrev GGUF_TYPE_UINT8 : Nat := 0
@[match_pattern] abbrev GGUF_TYPE_INT8 : Nat := 1
@[match_pattern] abbrev GGUF_TYPE_UINT16 : Nat := 2
@[match_pattern] abbrev GGUF_TYPE_INT16 : Nat := 3
@[match_pattern] abbrev GGUF_TYPE_UINT32 : Nat := 4
@[match_pattern] abbrev GGUF_TYPE_INT32 : Nat := 5
@[match_pattern] abbrev GGUF_TYPE_FLOAT32 : Nat := 6
@[match_pattern] abbrev GGUF_TYPE_BOOL : Nat := 7
@[match_pattern] abbrev GGUF_TYPE_STRING : Nat := 8
@[match_pattern] abbrev GGUF_TYPE_ARRAY : Nat := 9
@[match_pattern] abbrev GGUF_TYPE_UINT64 : Nat := 10
@[match_pattern] abbrev GGUF_TYPE_INT64 : Nat := 11
@[match_pattern] abbrev GGUF_TYPE_FLOAT64 : Nat := 12

def MAX_STRING_BYTES : Nat := 64 * 1024 * 1024

def MAX_ARRAY_DEPTH : Nat := 64

/-! ## What is found -/

/-- The fields of `GgufMetadata` that are texts. -/
inductive StringField
  | name | description | author | organization | contact | license | architecture | chatTemplate
  deriving DecidableEq

/-- The fields of `GgufMetadata` that are numbers. -/
inductive IntegerField
  | fileType | contextLength | embeddingLength | blockCount | headCount | headCountKv | vocabSize
  | feedForwardLength | expertCount | expertUsedCount
  deriving DecidableEq

/-- The fields of `GgufMetadata` that are widths of the attention. -/
inductive WidthField
  | keyLength | valueLength | keyLengthSwa | valueLengthSwa
  deriving DecidableEq

/-- `GgufMetadata`. -/
@[ext]
structure GgufMetadata where
  strings : StringField → Option Text
  integers : IntegerField → Option Nat
  headCountKvPerLayer : Option (List Nat)
  widths : WidthField → Option Nat

/-- `GgufMetadata::default()`. -/
def GgufMetadata.default : GgufMetadata := ⟨fun _ => none, fun _ => none, none, fun _ => none⟩

/-- `metadata.field = Some(value)`. -/
def GgufMetadata.setString (field : StringField) (value : Text) (m : GgufMetadata) : GgufMetadata :=
  { m with strings := fun f => if f = field then some value else m.strings f }

/-- `metadata.field = Some(value)`. -/
def GgufMetadata.setInteger (field : IntegerField) (value : Nat) (m : GgufMetadata) :
    GgufMetadata :=
  { m with integers := fun f => if f = field then some value else m.integers f }

/-- `metadata.field = Some(value)`. -/
def GgufMetadata.setWidth (field : WidthField) (value : Nat) (m : GgufMetadata) : GgufMetadata :=
  { m with widths := fun f => if f = field then some value else m.widths f }

/-! ## Readers -/

/-- What `byteorder` says at the end of a file. -/
def EOF : String := "failed to fill whole buffer"

/-- A number, its lowest byte first. -/
def ofLe : List UInt8 → Nat
  | [] => 0
  | b :: bytes => b.toNat + 256 * ofLe bytes

/-- `read_u8` to `read_u64::<LittleEndian>`. -/
def readLe (size : Nat) : ByteReader String Nat := do
  let bytes ← ByteReader.exact size EOF
  return ofLe bytes

/-- `read_len_prefixed_string`. -/
def readLenPrefixedString : ByteReader String Text := do
  let len ← readLe 8
  if MAX_STRING_BYTES < len then
    ByteReader.fail ("GGUF string declares " ++ Nat.repr len ++ " bytes, over the " ++
      Nat.repr MAX_STRING_BYTES ++ "-byte limit")
  else do
    let bytes ← ByteReader.exact len "GGUF string is truncated"
    return fromUtf8Lossy bytes

/-- `skip_exact`. -/
def skipExact (len : Nat) : ByteReader String Unit := do
  let _ ← ByteReader.exact len "GGUF value is truncated"
  return ()

/-- `skip_len_prefixed_string`. -/
def skipLenPrefixedString : ByteReader String Unit := do
  let len ← readLe 8
  skipExact len

/-- `primitive_byte_size`. -/
def primitiveByteSize : Nat → Option Nat
  | GGUF_TYPE_UINT8 | GGUF_TYPE_INT8 | GGUF_TYPE_BOOL => some 1
  | GGUF_TYPE_UINT16 | GGUF_TYPE_INT16 => some 2
  | GGUF_TYPE_UINT32 | GGUF_TYPE_INT32 | GGUF_TYPE_FLOAT32 => some 4
  | GGUF_TYPE_UINT64 | GGUF_TYPE_INT64 | GGUF_TYPE_FLOAT64 => some 8
  | _ => none

/-- `skip_array`, with the nesting that is left. -/
def skipArray : Nat → Nat → Nat → ByteReader String Unit
  | 0, _, _ => ByteReader.fail ("GGUF array nesting deeper than " ++ Nat.repr MAX_ARRAY_DEPTH)
  | left + 1, elementType, len =>
    if elementType = GGUF_TYPE_STRING then ByteReader.times len (fun _ => skipLenPrefixedString) ()
    else if elementType = GGUF_TYPE_ARRAY then
      ByteReader.times len (fun _ => do
        let nestedType ← readLe 4
        let nestedLen ← readLe 8
        skipArray left nestedType nestedLen) ()
    else
      match primitiveByteSize elementType with
      | some size =>
        if 2 ^ 64 ≤ size * len then ByteReader.fail "array too large" else skipExact (size * len)
      | none =>
        ByteReader.fail ("unsupported GGUF array element type: " ++ Nat.repr elementType)

/-- `skip_value`. -/
def skipValue (valueType : Nat) : ByteReader String Unit :=
  if valueType = GGUF_TYPE_STRING then skipLenPrefixedString
  else if valueType = GGUF_TYPE_ARRAY then do
    let elementType ← readLe 4
    let len ← readLe 8
    skipArray (MAX_ARRAY_DEPTH + 1) elementType len
  else
    match primitiveByteSize valueType with
    | some size => skipExact size
    | none => ByteReader.fail ("unsupported GGUF value type: " ++ Nat.repr valueType)

/-- `read_value_as_string`. -/
def readValueAsString (valueType : Nat) : ByteReader String (Option Text) :=
  if valueType = GGUF_TYPE_STRING then do
    let text ← readLenPrefixedString
    return some text
  else do
    skipValue valueType
    return none

/-- A number without a sign. -/
def readUnsigned (size : Nat) : ByteReader String (Option Nat) := do
  let n ← readLe size
  return some n

/-- A number with a sign, if it is not negative. -/
def readSigned (size : Nat) : ByteReader String (Option Nat) := do
  let n ← readLe size
  return if 2 ^ (8 * size - 1) ≤ n then none else some n

/-- `read_value_as_u64`. -/
def readValueAsU64 : Nat → ByteReader String (Option Nat)
  | GGUF_TYPE_UINT8 => readUnsigned 1
  | GGUF_TYPE_INT8 => readSigned 1
  | GGUF_TYPE_UINT16 => readUnsigned 2
  | GGUF_TYPE_INT16 => readSigned 2
  | GGUF_TYPE_UINT32 => readUnsigned 4
  | GGUF_TYPE_INT32 => readSigned 4
  | GGUF_TYPE_UINT64 => readUnsigned 8
  | GGUF_TYPE_INT64 => readSigned 8
  | valueType => do
    skipValue valueType
    return none

/-! ## Entries -/

/-- What an entry is read for. -/
inductive Purpose
  | string (field : StringField)
  | integer (field : IntegerField)
  | width
  | headCountKv
  | nothing
  deriving DecidableEq

/-- The keys that are read for a field as they are. -/
def exactKeys : List (String × Purpose) :=
  [("general.name", .string .name), ("general.description", .string .description),
    ("general.author", .string .author), ("general.organization", .string .organization),
    ("general.contact", .string .contact), ("general.license", .string .license),
    ("general.architecture", .string .architecture), ("general.file_type", .integer .fileType),
    ("tokenizer.chat_template", .string .chatTemplate)]

/-- The ends of keys that are read for a field, whatever the architecture, in the order they are
tried. -/
def suffixKeys : List (String × Purpose) :=
  [(".attention.key_length", .width), (".attention.value_length", .width),
    (".attention.key_length_swa", .width), (".attention.value_length_swa", .width),
    (".context_length", .integer .contextLength), (".embedding_length", .integer .embeddingLength),
    (".block_count", .integer .blockCount), (".attention.head_count_kv", .headCountKv),
    (".attention.head_count", .integer .headCount), (".vocab_size", .integer .vocabSize),
    (".feed_forward_length", .integer .feedForwardLength),
    (".expert_count", .integer .expertCount), (".expert_used_count", .integer .expertUsedCount)]

/-- The `match key.as_str()` of `parse_gguf_metadata`. -/
def classify (key : Text) : Purpose :=
  match exactKeys.find? fun k => k.1.toList = key with
  | some (_, purpose) => purpose
  | none =>
    match suffixKeys.find? fun k => k.1.toList.isSuffixOf key with
    | some (_, purpose) => purpose
    | none => .nothing

/-- What a text is taken as: all but a template are trimmed. -/
def StringField.take : StringField → Text → Text
  | .chatTemplate, value => value
  | _, value => trim value

/-- Where the entries that have been read leave the parser. -/
structure ParseState where
  metadata : GgufMetadata
  explicitWidths : List (Text × Nat)

/-- The types a width may have. -/
def isIntegerType (valueType : Nat) : Bool :=
  [GGUF_TYPE_UINT8, GGUF_TYPE_INT8, GGUF_TYPE_UINT16, GGUF_TYPE_INT16, GGUF_TYPE_UINT32,
    GGUF_TYPE_INT32, GGUF_TYPE_UINT64, GGUF_TYPE_INT64].contains valueType

/-- An explicit width. -/
def readWidth (key : Text) (valueType : Nat) (state : ParseState) :
    ByteReader ExecError ParseState :=
  if 256 < strLen key ∨ 16 ≤ state.explicitWidths.length ∨
      state.explicitWidths.any (fun seen => seen.1 = key) then
    ByteReader.fail (.invalidModelFile "Invalid or duplicate explicit attention width key")
  else if ! isIntegerType valueType then
    ByteReader.fail (.invalidModelFile "Explicit attention width must be an integer")
  else do
    let value ← ByteReader.mapErr
      (fun e => .invalidModelFile ("Invalid explicit attention width: " ++ e))
      (readValueAsU64 valueType)
    match value.filter (0 < ·) with
    | none => ByteReader.fail (.invalidModelFile "Explicit attention width must be positive")
    | some value => return { state with explicitWidths := state.explicitWidths ++ [(key, value)] }

/-- The heads of the keys in each layer; one that is no number spoils them all. -/
def readPerLayer : ByteReader ExecError (Option (List Nat)) := do
  let kind ← ByteReader.mapErr .io (readLe 4)
  let count ← ByteReader.mapErr .io (readLe 8)
  if count = 0 ∨ 4096 < count then ByteReader.fail (.io "KV head array exceeds layer limit")
  else do
    let (values, valid) ← ByteReader.times count (fun (values, valid) => do
      let value ← ByteReader.mapErr .io (readValueAsU64 kind)
      return match value with
        | some value => (values ++ [value], valid)
        | none => (values, false)) ([], true)
    return if valid then some values else none

/-- One turn of the loop of `parse_gguf_metadata`. -/
def readEntry (state : ParseState) : ByteReader ExecError ParseState := do
  let key ← ByteReader.mapErr .io readLenPrefixedString
  let valueType ← ByteReader.mapErr .io (readLe 4)
  match classify key with
  | .string field => do
    let value ← ByteReader.mapErr .io (readValueAsString valueType)
    return match value with
      | some value => { state with metadata := state.metadata.setString field (field.take value) }
      | none => state
  | .integer field => do
    let value ← ByteReader.mapErr .io (readValueAsU64 valueType)
    return match value with
      | some value => { state with metadata := state.metadata.setInteger field value }
      | none => state
  | .width => readWidth key valueType state
  | .headCountKv =>
    if valueType = GGUF_TYPE_ARRAY then do
      let perLayer ← readPerLayer
      return { state with metadata := { state.metadata with headCountKvPerLayer := perLayer } }
    else do
      let value ← ByteReader.mapErr .io (readValueAsU64 valueType)
      return match value with
        | some value => { state with metadata := state.metadata.setInteger .headCountKv value }
        | none => state
  | .nothing => do
    ByteReader.mapErr .io (skipValue valueType)
    return state

/-- The end of the key of a width. -/
def WidthField.suffix : WidthField → String
  | .keyLength => ".attention.key_length"
  | .valueLength => ".attention.value_length"
  | .keyLengthSwa => ".attention.key_length_swa"
  | .valueLengthSwa => ".attention.value_length_swa"

/-- One turn of the loop over the widths: it is taken for each key of the architecture that it has.
-/
def takeWidth (architecture : Text) (m : GgufMetadata) (kv : Text × Nat) : GgufMetadata :=
  [WidthField.keyLength, .valueLength, .keyLengthSwa, .valueLengthSwa].foldl
    (fun m field =>
      if kv.1 = architecture ++ field.suffix.toList then m.setWidth field kv.2 else m) m

/-- What `parse_gguf_metadata` does when the entries have been read. -/
def finish (state : ParseState) : Except ExecError GgufMetadata :=
  if state.explicitWidths.isEmpty then .ok state.metadata
  else
    match state.metadata.strings .architecture with
    | none => .error (.invalidModelFile "Explicit attention width requires an architecture")
    | some architecture =>
      .ok (state.explicitWidths.foldl (takeWidth architecture) state.metadata)

/-- A result that needs no more bytes. -/
def settle {α : Type} : Except ExecError α → ByteReader ExecError α
  | .ok a => pure a
  | .error e => ByteReader.fail e

/-- `parse_gguf_metadata`, of a file that can be opened. -/
def parseGgufMetadata : ByteReader ExecError GgufMetadata := do
  let magic ← ByteReader.mapErr .io (ByteReader.exact 4 EOF)
  if magic ≠ [0x47, 0x47, 0x55, 0x46] then
    ByteReader.fail (.io "file is not in GGUF format")
  else do
    let version ← ByteReader.mapErr .io (readLe 4)
    if version = 0 ∨ 3 < version then
      ByteReader.fail (.io ("unsupported GGUF version: " ++ Nat.repr version))
    else do
      let _tensorCount ← ByteReader.mapErr .io (readLe 8)
      let kvCount ← ByteReader.mapErr .io (readLe 8)
      let state ← ByteReader.times kvCount readEntry ⟨.default, []⟩
      settle (finish state)

end Gen2.Gguf
