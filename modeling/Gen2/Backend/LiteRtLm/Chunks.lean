import Gen2.Backend.Healing
import Gen2.Generation.Events
import Gen2.Types.JsonText
import Mathlib.Data.List.Basic

/-!
# LiteRT-LM chunks

`decode_chunk` of `backend/litertlm/convert.rs`: what a chunk of the stream says.  A chunk is JSON
messages, one behind the other, or it is the model's text itself.

* `StreamDeserializer` is what `serde_json` finds where it looks for a value, and
  `StreamDeserializer.values` the values that stand at the head of a text, each with its own text.
* `decodeChunk` takes the whole chunk as read once there is one value at its head.
* `decodeChunk_eq` says what comes out: what the messages say, or else the chunk.
* `reaches_iff`: everything reaches the caller if and only if the chunk begins with no value, or is
  messages to its end.
-/

namespace Gen2.LiteRtLm

open Backend List

/-! ## Reading values -/

/-- An item of `Deserializer::into_iter::<Value>()`: its end, an error, or a value and what is
behind it. -/
inductive Item
  | done
  | error
  | value (v : Json) (rest : Text)

/-- `serde_json`, where values stand one behind the other: the stream ends where only spaces are
left, and a value takes up text that is not only spaces. -/
structure StreamDeserializer where
  next : Text → Item
  done_iff : ∀ t, next t = .done ↔ t.all isJsonSpace
  value_text : ∀ {t v rest}, next t = .value v rest →
    ∃ text, t = text ++ rest ∧ text.dropWhile isJsonSpace ≠ []

/-- `Value::index` with a key: `null` where there is no such field. -/
def Json.index (v : Json) (key : String) : Json := (Json.get v key).getD .null

/-- `Value::as_array`. -/
def Json.asArray : Json → Option (List Json)
  | .array items => some items
  | _ => none

/-! ## Chunks -/

/-- `Part`. -/
inductive Part
  | text (t : Text)
  | call (c : Generation.ToolCall)
  deriving DecidableEq

section
variable (number : JsonNumber → Text)

/-- The arguments of a call, `to_string` for everything that is no string. -/
def callArguments : Json → Text
  | .string s => s.toList
  | other => Json.write number other

/-- An entry of `tool_calls`, when it has a name. -/
def toolCall (call : Json) : Option Generation.ToolCall :=
  (Json.asStr (Json.index (Json.index call "function") "name")).map fun name =>
    { id := Json.asStr (Json.index call "id")
      name
      arguments := callArguments number (Json.index (Json.index call "function") "arguments") }

/-- What `absorb_message` pushes for the content. -/
def contentParts : Json → List Part
  | .string s => if s.toList ≠ [] then [.text s.toList] else []
  | .array chunks => chunks.filterMap fun chunk =>
    ((Json.asStr (Json.index chunk "text")).filter (· ≠ [])).map .text
  | _ => []

/-- `absorb_message`. -/
def absorbMessage (value : Json) (parts : List Part) : List Part :=
  let parts := parts ++ contentParts (Json.index value "content")
  match Json.asArray (Json.index value "tool_calls") with
  | some calls => parts ++ (calls.filterMap (toolCall number)).map .call
  | none => parts

variable (d : StreamDeserializer)

/-- The loop of `decode_chunk` over the stream, with `consumed` and the parts. -/
def decodeLoop (raw : Text) : Nat → Text → Nat → List Part → Nat × List Part
  | 0, _, consumed, parts => (consumed, parts)
  | fuel + 1, t, consumed, parts =>
    match d.next t with
    | .value v rest => decodeLoop raw fuel rest (strLen raw) (absorbMessage number v parts)
    | .done | .error => (consumed, parts)

/-- `decode_chunk`. -/
def decodeChunk (raw : Text) : List Part :=
  let (consumed, parts) := decodeLoop number d raw (raw.length + 1) raw 0 []
  if consumed = 0 ∧ raw ≠ [] then parts ++ [.text raw] else parts

end

/-! ## What a chunk says -/

/-- The values at the head of a text, each with its text, and what is behind the last of them. -/
def StreamDeserializer.valuesLoop (d : StreamDeserializer) : Nat → Text → List (Text × Json) × Text
  | 0, t => ([], t)
  | fuel + 1, t =>
    match d.next t with
    | .value v rest =>
      let (values, end_) := d.valuesLoop fuel rest
      ((t.take (t.length - rest.length), v) :: values, end_)
    | .done | .error => ([], t)

@[inherit_doc StreamDeserializer.valuesLoop]
def StreamDeserializer.values (d : StreamDeserializer) (t : Text) : List (Text × Json) × Text :=
  d.valuesLoop (t.length + 1) t

/-- A message of the runtime: an object with one of the fields of a message. -/
def isMessage (v : Json) : Bool :=
  ["role", "content", "tool_calls"].any fun key => (Json.get v key).isSome

/-- The texts of a message, which are its content or stand in the items of it. -/
def messageTexts (v : Json) : List Text :=
  match Json.index v "content" with
  | .string s => [s.toList]
  | .array items => items.filterMap fun item => Json.asStr (Json.index item "text")
  | _ => []

/-- The calls of a message that have a name. -/
def messageCalls (number : JsonNumber → Text) (v : Json) : List Generation.ToolCall :=
  match Json.index v "tool_calls" with
  | .array calls => calls.filterMap (toolCall number)
  | _ => []

/-- What a message says. -/
def messageParts (number : JsonNumber → Text) (v : Json) : List Part :=
  ((messageTexts v).filter (· ≠ [])).map .text ++ (messageCalls number v).map .call

/-- What a value says: a message what is in it, anything else its own text. -/
def saidBy (number : JsonNumber → Text) (value : Text × Json) : List Part :=
  if isMessage value.2 then messageParts number value.2 else [.text value.1]

/-- What a chunk says: what its values say, and what is behind them when it is not only spaces.
Where there are no values, it is all text. -/
def said (number : JsonNumber → Text) (d : StreamDeserializer) (raw : Text) : List Part :=
  match d.values raw with
  | ([], _) => if raw = [] then [] else [.text raw]
  | (values, rest) =>
    values.flatMap (saidBy number) ++ (if rest.all isJsonSpace then [] else [.text rest])

open StreamDeserializer

theorem StreamDeserializer.values_nil (d : StreamDeserializer) : (d.values []).1 = [] := by
  have hdone := (d.done_iff []).mpr rfl
  simp [values, valuesLoop, hdone]

/-! ## What comes out -/

section
variable (number : JsonNumber → Text)

theorem contentParts_eq (v : Json) : contentParts (Json.index v "content") =
    ((messageTexts v).filter (· ≠ [])).map .text := by
  unfold contentParts messageTexts
  cases Json.index v "content" with
  | string s => by_cases hs : s.toList = [] <;> simp [hs]
  | array items =>
    rw [filter_filterMap, map_filterMap]
  | null => rfl
  | bool => rfl
  | number => rfl
  | object => rfl

theorem absorbMessage_eq (v : Json) (parts : List Part) :
    absorbMessage number v parts = parts ++ messageParts number v := by
  rw [absorbMessage, messageParts, messageCalls]
  rw [contentParts_eq]
  cases Json.index v "tool_calls" <;> simp [Json.asArray]

/-- Nothing is taken from a value that is not a message. -/
theorem messageParts_of_not_message {v : Json} (h : isMessage v = false) :
    messageParts number v = [] := by
  have hnone : ∀ key ∈ ["role", "content", "tool_calls"], Json.get v key = none := by
    intro key hkey
    simpa using any_eq_false.mp h key hkey
  have hcontent : Json.index v "content" = .null := by simp [Json.index, hnone]
  have hcalls : Json.index v "tool_calls" = .null := by simp [Json.index, hnone]
  simp [messageParts, messageTexts, messageCalls, hcontent, hcalls]

variable (d : StreamDeserializer)

theorem decodeLoop_eq (raw : Text) (fuel : Nat) (t : Text) (consumed : Nat) (parts : List Part) :
    decodeLoop number d raw fuel t consumed parts =
      (if (d.valuesLoop fuel t).1 = [] then consumed else strLen raw,
        parts ++ (d.valuesLoop fuel t).1.flatMap fun value => messageParts number value.2) := by
  induction fuel generalizing t consumed parts with
  | zero => simp [decodeLoop, valuesLoop]
  | succ fuel ih =>
    rw [decodeLoop, valuesLoop]
    cases hnext : d.next t with
    | done => simp
    | error => simp
    | value v rest =>
      simp only [ih, absorbMessage_eq, flatMap_cons, append_assoc]
      simp

theorem strLen_ne_zero {t : Text} (ht : t ≠ []) : strLen t ≠ 0 := by
  obtain ⟨c, t, rfl⟩ := exists_cons_of_ne_nil ht
  rw [strLen_cons]
  have := c.utf8Size_pos
  omega

/-- What comes out of a chunk: what the messages at its head say, or else the chunk. -/
theorem decodeChunk_eq (raw : Text) : decodeChunk number d raw =
    if (d.values raw).1 = [] then (if raw = [] then [] else [.text raw])
    else (d.values raw).1.flatMap fun value => messageParts number value.2 := by
  have hloop := decodeLoop_eq number d raw (raw.length + 1) raw 0 []
  rw [← values, nil_append] at hloop
  simp only [decodeChunk, hloop]
  by_cases hvalues : (d.values raw).1 = []
  · simp only [hvalues, if_true, flatMap_nil, nil_append, true_and, ne_eq, ite_not]
  · have hraw : raw ≠ [] := by
      rintro rfl
      exact hvalues (d.values_nil)
    simp [hvalues, strLen_ne_zero hraw]

theorem said_eq (raw : Text) : said number d raw =
    if (d.values raw).1 = [] then (if raw = [] then [] else [.text raw])
    else (d.values raw).1.flatMap (saidBy number) ++
      (if (d.values raw).2.all isJsonSpace then [] else [.text (d.values raw).2]) := by
  rw [said]
  split
  case h_1 rest heq => simp [heq]
  case h_2 values rest hne heq => rw [heq, if_neg hne]

/-- What values say is what is taken of them, and a text for each that is no message. -/
theorem length_saidBy (values : List (Text × Json)) :
    (values.flatMap (saidBy number)).length =
      (values.flatMap fun value => messageParts number value.2).length +
        values.countP fun value => !isMessage value.2 := by
  induction values with
  | nil => rfl
  | cons value values ih =>
    rw [flatMap_cons, flatMap_cons, length_append, length_append, ih,
      countP_cons]
    cases hmessage : isMessage value.2 with
    | true =>
      simp only [saidBy, hmessage, if_true, Bool.not_true, Bool.false_eq_true, if_false]
      omega
    | false =>
      simp only [saidBy, hmessage, messageParts_of_not_message number hmessage, Bool.not_false,
        Bool.false_eq_true, if_false, if_true, length_singleton, length_nil]
      omega

/-- What messages say is what is taken of them. -/
theorem saidBy_of_messages {values : List (Text × Json)}
    (h : ∀ value ∈ values, isMessage value.2) :
    values.flatMap (saidBy number) = values.flatMap fun value => messageParts number value.2 := by
  refine flatMap_congr fun value hvalue => ?_
  rw [saidBy, if_pos (h value hvalue)]

/-- **What a chunk says reaches the caller, in order, if and only if no value stands at its head, or
it is messages with nothing but spaces behind them.** -/
theorem reaches_iff (raw : Text) : (said number d raw).Sublist (decodeChunk number d raw) ↔
    (d.values raw).1 = [] ∨
      ((∀ value ∈ (d.values raw).1, isMessage value.2) ∧ (d.values raw).2.all isJsonSpace) := by
  rw [said_eq, decodeChunk_eq]
  by_cases hvalues : (d.values raw).1 = []
  · simp [hvalues]
  rw [if_neg hvalues, if_neg hvalues, or_iff_right hvalues]
  constructor
  · intro hsub
    have hlen := hsub.length_le
    rw [List.length_append, length_saidBy] at hlen
    have hcount : (d.values raw).1.countP (fun value => !isMessage value.2) = 0 := by omega
    refine ⟨fun value hvalue => ?_, ?_⟩
    · simpa using List.countP_eq_zero.mp hcount value hvalue
    · by_contra hrest
      rw [if_neg hrest, List.length_singleton] at hlen
      omega
  · rintro ⟨hmessages, hrest⟩
    rw [saidBy_of_messages number hmessages, if_pos hrest, List.append_nil]

end

/-! ## A chunk that is cut off -/

/-- `serde_json` where no other values than the listed ones are met. -/
def StreamDeserializer.listed (entries : List (String × Json))
    (h : ∀ e ∈ entries, e.1.toList.dropWhile isJsonSpace ≠ []) : StreamDeserializer where
  next t :=
    if t.all isJsonSpace then .done
    else match entries.find? fun e => e.1.toList.isPrefixOf t with
      | some (text, v) => .value v (t.drop text.toList.length)
      | none => .error
  done_iff t := by
    split
    case isTrue hblank => simp [hblank]
    case isFalse hblank => split <;> simp [hblank]
  value_text := by
    intro t v rest hnext
    split at hnext
    · cases hnext
    split at hnext
    case h_1 text v' hfind =>
      cases hnext
      have hmem := List.mem_of_find?_eq_some hfind
      have hpre := List.find?_some hfind
      obtain ⟨rest, rfl⟩ := List.isPrefixOf_iff_prefix.mp hpre
      exact ⟨text.toList, by simp, h _ hmem⟩
    case h_2 => cases hnext

/-- Two messages of which the second is cut off: it is lost. -/
theorem cut_off_lost :
    let hello := "\x7b\"content\":\"Hello\"\x7d"
    let d := StreamDeserializer.listed [(hello, .object [("content", .string "Hello")])] (by decide)
    let raw := hello.toList ++ "\x7b\"content\":\" there".toList
    decodeChunk (fun _ => []) d raw = [.text "Hello".toList] ∧
      ¬ (said (fun _ => []) d raw).Sublist (decodeChunk (fun _ => []) d raw) := by
  decide +kernel

end Gen2.LiteRtLm
