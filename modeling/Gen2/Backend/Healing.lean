import Gen2.Lib.Patterns
import Gen2.Types.Text

/-!
# Healing malformed tool-call bodies

`backend/common/healing.rs`: where a body ends, and how the near-JSON that local models write
becomes JSON.

* `balancedBraceEnd` and `balancedBracketEnd` find the end of a body, or that it is not there yet.
* `decodeArrayItems` decodes the elements of an array one by one, and needs no commas between them.
* `gemmaArgumentsToJson` quotes the bare keys and values of Gemma's dialect.

The source walks over bytes and cuts the text at byte offsets.  A cut inside a character is a panic,
and two of the walks can make one; where they do, the functions here are `none` in the outermost
`Option`.  Every other offset is one of an ASCII character, and is a number of characters here.
-/

namespace Gen2
namespace Backend

open Lib

/-- What the code uses of `serde_json` to read and write values. -/
class JsonText where
  /-- `serde_json::from_str::<Value>`. -/
  fromStr : Text → Option Json
  /-- `Deserializer::from_str(..).into_iter::<Value>()`: its first item, and `byte_offset`. -/
  streamNext : Text → Option (Json × Nat)
  /-- `Value::to_string`. -/
  toText : Json → Text

/-- `serde_json` as it treats the values of a table: it reads them where their texts stand, and
writes these texts. -/
abbrev JsonText.table (entries : List (String × Json)) : JsonText where
  fromStr t := entries.lookup (String.ofList (trim t))
  streamNext t := entries.findSome? fun (text, value) =>
    if text.toList.isPrefixOf t then some (value, text.toList.length) else none
  toText value := ((entries.find? (·.2 == value)).map (·.1.toList)).getD []

/-- `Value::get` with a key. -/
def Json.get (v : Json) (key : String) : Option Json :=
  match v with
  | .object fields => fields.lookup key
  | _ => none

/-- `Value::as_str`. -/
def Json.asStr : Json → Option Text
  | .string s => some s.toList
  | _ => none

/-- `Value::is_object`. -/
def Json.isObject : Json → Bool
  | .object _ => true
  | _ => false

/-- `str::len` is more than one: the byte after the first is inside the character. -/
def isMultibyte (c : Char) : Bool := c.utf8Size != 1

/-! ## Where a body ends -/

/-- `GEMMA_QUOTE`. -/
def gemmaQuote : Text := "<|\"|>".toList

/-- The loop of `balanced_brace_end`, from the character at `i` on; `skip` characters are left of a
quote token or an escape.  Inside a string no cut is made, so only outside one does a character of
several bytes panic. -/
def balancedBraceLoop (gemmaQuotes : Bool) (i : Nat) (depth : Int) (inString inGemmaString : Bool)
    (skip : Nat) : Text → Option (Option Nat)
  | [] => some none
  | c :: rest =>
    if 0 < skip then
      balancedBraceLoop gemmaQuotes (i + 1) depth inString inGemmaString (skip - 1) rest
    else if gemmaQuotes && !inString && gemmaQuote.isPrefixOf (c :: rest) then
      balancedBraceLoop gemmaQuotes (i + 1) depth inString (!inGemmaString)
        (gemmaQuote.length - 1) rest
    else if gemmaQuotes && !inString && isMultibyte c then none
    else if inGemmaString then
      balancedBraceLoop gemmaQuotes (i + 1) depth inString inGemmaString 0 rest
    else if inString then
      if c = '\\' then balancedBraceLoop gemmaQuotes (i + 1) depth inString inGemmaString 1 rest
      else balancedBraceLoop gemmaQuotes (i + 1) depth (c != '"') inGemmaString 0 rest
    else if c = '"' then balancedBraceLoop gemmaQuotes (i + 1) depth true inGemmaString 0 rest
    else if c = '{' then
      balancedBraceLoop gemmaQuotes (i + 1) (depth + 1) inString inGemmaString 0 rest
    else if c = '}' then
      if depth - 1 = 0 then some (some i)
      else balancedBraceLoop gemmaQuotes (i + 1) (depth - 1) inString inGemmaString 0 rest
    else balancedBraceLoop gemmaQuotes (i + 1) depth inString inGemmaString 0 rest

/-- `balanced_brace_end`, in a text that begins with the opening brace. -/
def balancedBraceEnd (content : Text) (gemmaQuotes : Bool) : Option (Option Nat) :=
  balancedBraceLoop gemmaQuotes 0 0 false false 0 content

/-- The loop of `balanced_bracket_end`. -/
def balancedBracketLoop (i : Nat) (depth : Int) (inString : Bool) (skip : Nat) :
    Text → Option Nat
  | [] => none
  | c :: rest =>
    if 0 < skip then balancedBracketLoop (i + 1) depth inString (skip - 1) rest
    else if inString then
      if c = '\\' then balancedBracketLoop (i + 1) depth inString 1 rest
      else balancedBracketLoop (i + 1) depth (c != '"') 0 rest
    else if c = '"' then balancedBracketLoop (i + 1) depth true 0 rest
    else if c = '[' || c = '{' then balancedBracketLoop (i + 1) (depth + 1) inString 0 rest
    else if c = ']' || c = '}' then
      if depth - 1 = 0 then some i else balancedBracketLoop (i + 1) (depth - 1) inString 0 rest
    else balancedBracketLoop (i + 1) depth inString 0 rest

/-- `balanced_bracket_end`, in a text that begins with the opening bracket. -/
def balancedBracketEnd (src : Text) : Option Nat := balancedBracketLoop 0 0 false 0 src

/-! ## Arrays -/

/-- What stands between the elements. -/
def isItemSeparator (c : Char) : Bool := [' ', '\t', '\r', '\n', ','].contains c

theorem length_dropWhile_le (p : Char → Bool) (t : Text) : (t.dropWhile p).length ≤ t.length :=
  (List.dropWhile_suffix p).length_le

section
variable [JsonText]

/-- `decode_array_items`. -/
def decodeArrayItems (body : Text) : List Json :=
  match _hrest : body.dropWhile isItemSeparator with
  | [] => []
  | c :: rest =>
    if c = ']' then []
    else match JsonText.streamNext (c :: rest) with
      | some (v, consumed) =>
        if consumed = 0 then [] else v :: decodeArrayItems ((c :: rest).drop consumed)
      | none => []
termination_by body.length
decreasing_by
  have hle := length_dropWhile_le isItemSeparator body
  rw [_hrest] at hle
  rw [List.length_drop]
  simp only [List.length_cons] at hle ⊢
  omega

/-! ## Gemma's dialect -/

/-- `json_quote`: a string as JSON. -/
def jsonQuote (s : Text) : Text := JsonText.toText (.string (String.ofList s))

/-- `normalise_gemma_quoted_strings`; `skip` characters are left of a quoted span. -/
def normaliseGemmaQuotedStrings (skip : Nat) : Text → Text
  | [] => []
  | c :: rest =>
    if 0 < skip then normaliseGemmaQuotedStrings (skip - 1) rest
    else if gemmaQuote.isPrefixOf (c :: rest) then
      let body := (c :: rest).drop gemmaQuote.length
      match find gemmaQuote body with
      | none => c :: rest
      | some relEnd =>
        jsonQuote (body.take relEnd) ++
          normaliseGemmaQuotedStrings (2 * gemmaQuote.length + relEnd - 1) rest
    else c :: normaliseGemmaQuotedStrings 0 rest

/-- The loop of `split_top_level_commas`; `part` is what has been read of the current part. -/
def splitTopLevelLoop (depth : Int) (inString : Bool) (skip : Nat) (part : Text) :
    Text → List Text
  | [] => [part]
  | c :: rest =>
    if 0 < skip then splitTopLevelLoop depth inString (skip - 1) (part ++ [c]) rest
    else if inString then
      if c = '\\' then splitTopLevelLoop depth inString 1 (part ++ [c]) rest
      else splitTopLevelLoop depth (c != '"') 0 (part ++ [c]) rest
    else if c = '"' then splitTopLevelLoop depth true 0 (part ++ [c]) rest
    else if c = '[' || c = '{' then splitTopLevelLoop (depth + 1) inString 0 (part ++ [c]) rest
    else if c = ']' || c = '}' then splitTopLevelLoop (depth - 1) inString 0 (part ++ [c]) rest
    else if c = ',' && depth = 0 then part :: splitTopLevelLoop depth inString 0 [] rest
    else splitTopLevelLoop depth inString 0 (part ++ [c]) rest

/-- `split_top_level_commas`. -/
def splitTopLevelCommas (src : Text) : List Text := splitTopLevelLoop 0 false 0 [] src

/-- A character of a key of Gemma's dialect. -/
def isKeyChar (c : Char) : Bool := c.isAlphanum || c == '_' || c == '.' || c == '-'

/-- `next_key_follows`, after the comma. -/
def nextKeyFollows (src : Text) : Bool :=
  match src.dropWhile isAsciiWhitespace with
  | [] => false
  | c :: rest =>
    (c.isAlpha || c == '_') &&
      (((c :: rest).dropWhile isKeyChar).dropWhile isAsciiWhitespace).head? == some ':'

/-- How long a bare value is: up to a `}`, or to a comma that a key follows. -/
def bareValueLen : Text → Nat
  | [] => 0
  | c :: rest =>
    if c = '}' || (c = ',' && nextKeyFollows rest) then 0 else bareValueLen rest + 1

/-- A key and, where it has one, its bare or array value, as `quote_gemma_object_keys` reads them
after a `{` or a comma: what is put out, and how much is read. -/
def quoteGemmaKey (elements : Text → Option Text) (src : Text) : Option (Text × Nat) :=
  let ws := src.takeWhile isAsciiWhitespace
  let keyName := (src.drop ws.length).takeWhile isKeyChar
  let keyEnd := ws.length + keyName.length
  let ws' := (src.drop keyEnd).takeWhile isAsciiWhitespace
  let colonPos := keyEnd + ws'.length
  if keyName.isEmpty || (src.drop colonPos).head? != some ':' then some (src.take keyEnd, keyEnd)
  else
    let valueWs := (src.drop (colonPos + 1)).takeWhile isAsciiWhitespace
    let valueAt := colonPos + 1 + valueWs.length
    let value := src.drop valueAt
    let out := ws ++ jsonQuote keyName ++ ws' ++ [':'] ++ valueWs
    match value with
    | [] => some (out, valueAt)
    | '[' :: _ =>
      match balancedBracketEnd value with
      | none => some (out ++ value, src.length)
      | some arrEnd => do
        let inner ← elements ((value.take arrEnd).drop 1)
        return (out ++ ['['] ++ inner ++ [']'], valueAt + arrEnd + 1)
    | c :: _ =>
      if c = '"' || c = '{' then some (out, valueAt)
      else
        let raw := value.take (bareValueLen value)
        if (JsonText.fromStr (trim raw)).isSome then some (out ++ raw, valueAt + raw.length)
        else some (out ++ jsonQuote (trim raw), valueAt + raw.length)

/-- `quote_gemma_object_keys`; `skip` characters have been read already.  An escape is cut out with
the byte after it, which panics inside a character. -/
def quoteGemmaObjectKeys (elements : Text → Option Text) (inString : Bool) (skip : Nat) :
    Text → Option Text
  | [] => some []
  | c :: rest =>
    if 0 < skip then quoteGemmaObjectKeys elements inString (skip - 1) rest
    else if inString then
      match c, rest with
      | '\\', next :: _ =>
        if isMultibyte next then none
        else (quoteGemmaObjectKeys elements inString 1 rest).map ([c, next] ++ ·)
      | _, _ => (quoteGemmaObjectKeys elements (c != '"') 0 rest).map (c :: ·)
    else if c = '"' then (quoteGemmaObjectKeys elements true 0 rest).map (c :: ·)
    else if c != '{' && c != ',' then (quoteGemmaObjectKeys elements false 0 rest).map (c :: ·)
    else do
      let (out, consumed) ← quoteGemmaKey elements rest
      let more ← quoteGemmaObjectKeys elements false consumed rest
      return c :: out ++ more

/-- `quote_gemma_array_elements`.  The text of an element is shorter than that of its array, so that
as many levels as the text has characters are enough. -/
def quoteGemmaArrayElements : Nat → Text → Option Text
  | 0, body => some body
  | levels + 1, body => do
    let out ← (splitTopLevelCommas body).mapM fun element =>
      let stripped := trim element
      match stripped with
      | [] => some element
      | '"' :: _ => some element
      | '{' :: _ => quoteGemmaObjectKeys (quoteGemmaArrayElements levels) false 0 stripped
      | '[' :: _ =>
        match balancedBracketEnd stripped with
        | some arrEnd =>
          if arrEnd = stripped.length - 1 then
            (quoteGemmaArrayElements levels ((stripped.take arrEnd).drop 1)).map
              fun inner => ['['] ++ inner ++ [']']
          else some element
        | none => some element
      | _ =>
        if (JsonText.fromStr stripped).isSome then some element else some (jsonQuote stripped)
    return List.intercalate [','] out

/-- `gemma_arguments_to_json`: `some none` where the arguments cannot be healed. -/
def gemmaArgumentsToJson (argsSrc : Text) : Option (Option Json) :=
  let argsSrc := trim argsSrc
  if argsSrc.isEmpty then some (some (.object []))
  else do
    let src := ['{'] ++ normaliseGemmaQuotedStrings 0 argsSrc ++ ['}']
    let src ← quoteGemmaObjectKeys (quoteGemmaArrayElements src.length) false 0 src
    return (JsonText.fromStr src).filter Json.isObject

end

end Backend
end Gen2
