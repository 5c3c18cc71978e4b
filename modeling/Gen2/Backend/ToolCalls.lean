import Gen2.Backend.Healing
import Gen2.Generation.Events
import Gen2.Lib.Read

/-!
# The streaming tool-call parser

`backend/common/tool_calls.rs`: the text of a reply arrives in chunks, and is taken apart into plain
text and the calls that the model makes in one of several formats.

* **Formats.**  An opener begins a call, and the format's resolver reads on from there.  It comes to
  a `Verdict`, or needs more of the text, or panics.
* **Rounds.**  `ToolCallParser.round` is one round of the loop of `drain_into`.  The loop ends with
  the round that waits for more.
* **Reasoning.**  Between the markers of a reasoning block nothing is looked for but its end.
* **Rehearsals.**  A call `name[ARGS]{..}` is found by the marker behind its name, and is one only
  if the name in front of the marker, as far as it is still in the buffer, is that of an enabled
  tool.
-/

namespace Gen2
namespace Backend

open Lib

/-! ## Formats -/

/-- `ParserOutput`. -/
inductive ParserOutput
  | text (text : Text)
  | toolCall (call : Generation.ToolCall)
  deriving DecidableEq

/-- `Protocol`. -/
inductive Protocol
  | auto
  | tagJson
  | bracketJson
  | anthropicXml
  | gemmaNative
  | funcXml
  deriving DecidableEq

/-- `ThinkKind`. -/
inductive ThinkKind
  | xml
  | bracket
  | channel
  deriving DecidableEq

namespace ThinkKind

/-- The marker that begins a reasoning block. -/
def opener : ThinkKind → Text
  | xml => "<think>".toList
  | bracket => "[THINK]".toList
  | channel => "<|channel>thought".toList

/-- The marker that ends one. -/
def close : ThinkKind → Text
  | xml => "</think>".toList
  | bracket => "[/THINK]".toList
  | channel => "<channel|>".toList

end ThinkKind

def tagOpen : Text := "<tool_call>".toList
def tagClose : Text := "</tool_call>".toList
def bracketTag : Text := "[TOOL_CALLS]".toList
def bracketCloser : Text := "[/TOOL_CALLS]".toList
def gemmaOpen : Text := "<|tool_call>".toList
def gemmaClose : Text := "<tool_call|>".toList
def funcOpen : Text := "<function=".toList
def funcClose : Text := "</function>".toList
def paramOpen : Text := "<parameter=".toList
def paramClose : Text := "</parameter>".toList
def argsTag : Text := "[ARGS]".toList
def callIdTag : Text := "[CALL_ID]".toList

/-- `MAX_REHEARSAL_NAME_HOLD`. -/
def maxRehearsalNameHold : Nat := 64

/-- `Trigger`. -/
inductive Trigger
  | tag
  | bracket
  | gemma
  | func
  | rehearsal
  | thinkOpen (kind : ThinkKind)
  deriving DecidableEq

/-- What begins with each trigger. -/
def Trigger.opener : Trigger → Text
  | tag => tagOpen
  | bracket => bracketTag
  | gemma => gemmaOpen
  | func => funcOpen
  | rehearsal => argsTag
  | thinkOpen kind => kind.opener

/-- `CallDialect`. -/
inductive CallDialect
  | cleanJson
  | gemmaDialect
  | commalessArray
  deriving DecidableEq

/-- `ToolCallTally`. -/
structure ToolCallTally where
  clean : UInt32
  gemmaDialect : UInt32
  commalessArray : UInt32
  fellThrough : UInt32
  deriving DecidableEq

/-! ## Names -/

/-- A character of a tool's name: `name_run_len` counts them. -/
def isNameChar (c : Char) : Bool := c.isAlphanum || c == '_' || c == '-'

/-- The same for `gemma_name_run_len`, with dots. -/
def isGemmaNameChar (c : Char) : Bool := isNameChar c || c == '.'

/-- `name_hold_start`. -/
def nameHoldStart (buf : Text) : Nat :=
  buf.length - min maxRehearsalNameHold (buf.reverse.takeWhile isNameChar).length

/-! ## Bodies -/

section
variable [JsonText]

/-- The keys of a call's arguments, the first of them that there is. -/
def argumentsOf (keys : List String) (v : Json) : Option Json := keys.findSome? (Json.get v)

/-- `parse_tag_json`. -/
def parseTagJson (body : Text) : Option Generation.ToolCall := do
  let v ← JsonText.fromStr body
  let name ← (Json.get v "name").bind Json.asStr
  let args := match argumentsOf ["arguments", "parameters", "args"] v with
    | some a => (Json.asStr a).getD (JsonText.toText a)
    | none => "\x7b\x7d".toList
  return ⟨(Json.get v "id").bind Json.asStr, name, args⟩

/-- `call_from_value`. -/
def callFromValue (v : Json) : Option Generation.ToolCall := do
  let name ← (Json.get v "name").bind Json.asStr
  let args := match argumentsOf ["arguments", "parameters"] v with
    | some (.string s) => s.toList
    | some a => if Json.isObject a then JsonText.toText a else "\x7b\x7d".toList
    | none => "\x7b\x7d".toList
  return ⟨(Json.get v "id").bind Json.asStr, name, args⟩

end

/-- `trim_param_value`. -/
def trimParamValue (val : Text) : Text :=
  let val := (stripPrefix val ['\n']).getD val
  let val := (stripSuffix val ['\n']).getD val
  (val.reverse.dropWhile fun c => c == ' ' || c == '\t').reverse

/-- `Map::insert`. -/
def insertField (fields : List (String × Json)) (name : String) (value : Json) :
    List (String × Json) :=
  if fields.any (·.1 == name) then
    fields.map fun field => if field.1 == name then (name, value) else field
  else fields ++ [(name, value)]

/-- The loop of `parse_parameters`; every parameter takes up characters, so that there are no more
of them than the body has. -/
def parseParametersLoop : Nat → List (String × Json) → Text → Option (List (String × Json))
  | 0, args, _ => some args
  | fuel + 1, args, body =>
    match find paramOpen body with
    | none => some args
    | some rel =>
      let rest := body.drop (rel + paramOpen.length)
      let name := rest.takeWhile isNameChar
      match rest.drop name.length with
      | '>' :: rest =>
        if name.isEmpty then none
        else
          let rest := rest.dropWhile fun c => c == ' ' || c == '\t'
          let valEnd := (find paramOpen rest).getD rest.length
          let val := trimEnd (rest.take valEnd)
          let val := trimParamValue ((stripSuffix val paramClose).getD val)
          parseParametersLoop fuel
            (insertField args (String.ofList name) (.string (String.ofList val)))
            (rest.drop valEnd)
      | _ => none

/-- `parse_parameters`. -/
def parseParameters (body : Text) : Option Json :=
  (parseParametersLoop body.length [] body).map .object

/-- `inside_open_parameter`. -/
def insideOpenParameter (body : Text) (pos : Nat) (atEos : Bool) : Bool :=
  match rfind (body.take pos) paramOpen with
  | none => false
  | some paramStart =>
    match find paramClose (body.drop paramStart) with
    | some rel => decide (pos < paramStart + rel)
    | none =>
      if !atEos then true
      else
        match find funcClose (body.drop paramStart) with
        | none => true
        | some rel => decide (pos < paramStart + rel)

/-- `func_close_index`, in the body. -/
def funcCloseIndex (body : Text) (atEos : Bool) : Option Nat :=
  (List.range body.length).find? fun idx =>
    funcClose.isPrefixOf (body.drop idx) && !insideOpenParameter body idx atEos

section
variable [JsonText]

/-- `parse_wrapped_func`. -/
def parseWrappedFunc (body : Text) : Option Generation.ToolCall :=
  let rest := body.drop funcOpen.length
  let name := rest.takeWhile isNameChar
  match rest.drop name.length with
  | '>' :: inner =>
    if name.isEmpty then none
    else
      (parseParameters (inner.take ((funcCloseIndex inner true).getD inner.length))).map
        fun args => ⟨none, name, JsonText.toText args⟩
  | _ => none

/-! ## Resolvers

Each reads from the opener of its format on. -/

/-- What a resolver comes to.  What it has read is the block; only where this is no call at all
(`bare`) is the opener alone to be released. -/
inductive Verdict
  | calls (dialect : CallDialect) (calls : List Generation.ToolCall)
  | noCall (malformed : Bool)
  | bare
  deriving DecidableEq

/-- A body in braces, and how it ends. -/
def braces (gemmaQuotes : Bool) : Reader Char Text := fun s =>
  match balancedBraceEnd s gemmaQuotes with
  | none => .crash
  | some none => .more
  | some (some braceEnd) => .done (s.take (braceEnd + 1)) (braceEnd + 1)

/-- A body in brackets. -/
def brackets : Reader Char Text := fun s =>
  match balancedBracketEnd s with
  | none => .more
  | some close => .done (s.take (close + 1)) (close + 1)

/-- `consume_bracket_closer`, and the same for the closer of Gemma's format: white space and the
closer, where they are there. -/
def optionalCloser (closer : Text) (atEos : Bool) : Reader Char Unit := fun s =>
  let tail := s.drop (wsLen s)
  if closer.isPrefixOf tail then .done () (wsLen s + closer.length)
  else if !atEos && (tail.isEmpty || couldBecome [closer] tail) then .more
  else .done () 0

/-- The body of a function, and its closer. -/
def funcBody (atEos : Bool) : Reader Char Text := fun s =>
  match funcCloseIndex s atEos with
  | none => .more
  | some close => .done (s.take close) (close + funcClose.length)

/-- `resolve_tag`. -/
def resolveTag : Reader Char Verdict := do
  let _ ← Reader.skip tagOpen.length
  let body ← Reader.upTo tagClose
  let body := trim body
  match parseTagJson body with
  | some call => return .calls .cleanJson [call]
  | none =>
    match if funcOpen.isPrefixOf body then parseWrappedFunc body else none with
    | some call => return .calls .cleanJson [call]
    | none => return .noCall true

/-- The items of the array form, which stand between the brackets. -/
def arrayItems (body : Text) : List Json := decodeArrayItems ((body.drop 1).dropLast)

/-- `resolve_bracket`, the array form. -/
def resolveBracketArray (atEos : Bool) : Reader Char Verdict := do
  let body ← brackets
  let strictOk := match JsonText.fromStr body with
    | some (.array _) => true
    | _ => false
  let calls := (arrayItems body).filterMap callFromValue
  optionalCloser bracketCloser atEos
  if calls.isEmpty then return .noCall true
  else return .calls (if strictOk then .cleanJson else .commalessArray) calls

/-- A body of arguments that has been read: an object. -/
def parseObject (body : Text) : Option Json := (JsonText.fromStr body).filter Json.isObject

/-- `resolve_bracket`, the name form, from the arguments on. -/
def resolveBracketArgs (atEos : Bool) (name : Text) : Reader Char Verdict := do
  let c ← Reader.peek
  if c = '{' then
    let body ← braces false
    match parseObject body with
    | none => return .noCall true
    | some args =>
      optionalCloser bracketCloser atEos
      return .calls .cleanJson [⟨none, name, JsonText.toText args⟩]
  else return .bare

/-- `resolve_bracket`, the name form, from behind the id on. -/
def resolveBracketMeta (atEos : Bool) (name : Text) : Reader Char Verdict := do
  let _ ← Reader.marker argsTag
  let _ ← Reader.run isWhitespace
  resolveBracketArgs atEos name

/-- `resolve_bracket`, the name form. -/
def resolveBracketName (atEos : Bool) : Reader Char Verdict := do
  let name ← Reader.run isNameChar
  if name.isEmpty then return .bare
  else
    let hasId ← Reader.marker callIdTag
    if hasId then
      let id ← Reader.run isNameChar
      if id.isEmpty then return .bare
      else resolveBracketMeta atEos name
    else resolveBracketMeta atEos name

/-- `resolve_bracket`. -/
def resolveBracket (atEos : Bool) : Reader Char Verdict := do
  let _ ← Reader.skip bracketTag.length
  let _ ← Reader.run isWhitespace
  let c ← Reader.peek
  if c = '[' then resolveBracketArray atEos else resolveBracketName atEos

/-- `resolve_gemma`, from behind the name on. -/
def resolveGemmaBody (atEos : Bool) (name : Text) : Reader Char Verdict := do
  let _ ← Reader.run isWhitespace
  let c ← Reader.peek
  if c = '{' then
    let body ← braces true
    optionalCloser gemmaClose atEos
    let args ← Reader.orCrash (gemmaArgumentsToJson ((body.drop 1).dropLast))
    match args with
    | none => return .noCall true
    | some args => return .calls .gemmaDialect [⟨none, name, JsonText.toText args⟩]
  else return .bare

/-- `resolve_gemma`. -/
def resolveGemma (atEos : Bool) : Reader Char Verdict := do
  let _ ← Reader.skip gemmaOpen.length
  let _ ← Reader.run isWhitespace
  let isCall ← Reader.marker "call".toList
  if !isCall then return .bare
  else
    let _ ← Reader.run isWhitespace
    let c ← Reader.peek
    if c != ':' then return .bare
    else
      let _ ← Reader.skip 1
      let _ ← Reader.run isWhitespace
      let name ← Reader.run isGemmaNameChar
      if name.isEmpty then return .bare else resolveGemmaBody atEos name

/-- `resolve_func`. -/
def resolveFunc (atEos : Bool) : Reader Char Verdict := do
  let _ ← Reader.skip funcOpen.length
  let name ← Reader.run isNameChar
  let c ← Reader.peek
  if c != '>' || name.isEmpty then return .bare
  else
    let _ ← Reader.skip 1
    let body ← funcBody atEos
    match parseParameters body with
    | some args => return .calls .cleanJson [⟨none, name, JsonText.toText args⟩]
    | none => return .noCall false

/-- `resolve_rehearsal`, from the marker on, once the name in front of it is that of a tool. -/
def resolveArgs (name : Text) : Reader Char Verdict := do
  let _ ← Reader.skip argsTag.length
  let _ ← Reader.run isWhitespace
  let c ← Reader.peek
  if c = '{' then
    let body ← braces false
    match parseObject body with
    | some args => return .calls .cleanJson [⟨none, name, JsonText.toText args⟩]
    | none => return .noCall false
  else return .bare

/-! ## The parser -/

/-- `ToolCallParser`. -/
structure ToolCallParser where
  protocol : Protocol
  buf : Text
  inThink : Option ThinkKind
  enabledTools : Option (List Text)
  tally : ToolCallTally
  atEos : Bool

/-- `Resolution`: what is at the beginning of the buffer, and how far it goes.  Text that goes on
without a trigger needs more, and a reasoning block that ends is left. -/
inductive Resolution
  | needMore (holdFrom : Nat)
  | notACall (emitEnd : Nat) (malformed : Bool)
  | complete (textEnd consumedEnd : Nat) (dialect : CallDialect) (calls : List Generation.ToolCall)
  | enterThink (kind : ThinkKind) (markerEnd : Nat)
  | leaveThink (closeEnd : Nat)
  deriving DecidableEq

namespace ToolCallParser

/-- `ToolCallParser::new`. -/
def new (protocol : Protocol) : ToolCallParser := ⟨protocol, [], none, none, ⟨0, 0, 0, 0⟩, false⟩

/-- `ToolCallParser::with_enabled_tools`. -/
def withEnabledTools (p : ToolCallParser) (tools : List Text) : ToolCallParser :=
  { p with enabledTools := some tools }

/-- What is looked for, in the order in which `find_trigger` considers it. -/
def triggers (p : ToolCallParser) : List Trigger :=
  let auto := p.protocol = .auto
  [.thinkOpen .xml, .thinkOpen .bracket, .thinkOpen .channel] ++
    (if auto ∨ p.protocol = .tagJson then [.tag] else []) ++
    (if auto ∨ p.protocol = .bracketJson then [.bracket] else []) ++
    (if auto ∨ p.protocol = .gemmaNative then [.gemma] else []) ++
    (if auto ∨ p.protocol = .funcXml then [.func] else []) ++
    (if auto ∧ p.enabledTools.isSome then [.rehearsal] else [])

/-- `find_trigger`. -/
def findTrigger (p : ToolCallParser) : Option (Nat × Trigger) :=
  earliest (p.triggers.map fun trigger => (trigger.opener, trigger)) p.buf

/-- `hold_literals`. -/
def holdLiterals (p : ToolCallParser) : List Text :=
  [ThinkKind.xml.opener, ThinkKind.bracket.opener, ThinkKind.channel.opener] ++
    match p.protocol with
    | .auto => [tagOpen, bracketTag, gemmaOpen, funcOpen, argsTag]
    | .tagJson => [tagOpen]
    | .bracketJson => [bracketTag]
    | .anthropicXml => ["<function_calls>".toList]
    | .gemmaNative => [gemmaOpen]
    | .funcXml => [funcOpen]

end ToolCallParser

/-- `safe_release_end`. -/
def safeReleaseEnd (buf : Text) (literals : List Text) : Nat := buf.length - holdLen literals buf

/-- The name at the end of a text. -/
def trailingName (t : Text) : Text := (t.reverse.takeWhile isNameChar).reverse

/-- Whether `resolve_rehearsal` takes the marker behind this text for that of a call, and of which
tool.  The name is cut out at the byte after the character in front of it, which panics inside that
character. -/
def rehearsalName (enabledTools : Option (List Text)) (before : Text) : Option (Option Text) :=
  let name := trailingName before
  let front := before.take (before.length - name.length)
  if front.getLast?.any isMultibyte then none
  else if name.isEmpty || callIdTag.isSuffixOf front || !enabledTools.any (·.contains name) then
    some none
  else some (some name)

/-- The resolution of a block at `start`, of what its resolver has come to; the call, if it is one,
begins at `callStart`. -/
def Resolution.ofLook (callStart start openerLen : Nat) : Look Verdict → Option Resolution
  | .crash => none
  | .more => some (.needMore callStart)
  | .done (.calls dialect calls) len => some (.complete callStart (start + len) dialect calls)
  | .done (.noCall malformed) len => some (.notACall (start + len) malformed)
  | .done .bare _ => some (.notACall (start + openerLen) false)

/-- `resolve`: what stands at `start`, after the text before it. -/
def resolve (enabledTools : Option (List Text)) (atEos : Bool) (before : Text) (start : Nat)
    (trigger : Trigger) (s : Text) : Option Resolution :=
  match trigger with
  | .thinkOpen kind => some (.enterThink kind (start + kind.opener.length))
  | .tag => Resolution.ofLook start start tagOpen.length (resolveTag s)
  | .bracket => Resolution.ofLook start start bracketTag.length (resolveBracket atEos s)
  | .gemma => Resolution.ofLook start start gemmaOpen.length (resolveGemma atEos s)
  | .func => Resolution.ofLook start start funcOpen.length (resolveFunc atEos s)
  | .rehearsal =>
    match rehearsalName enabledTools before with
    | none => none
    | some none => some (.notACall (start + argsTag.length) false)
    | some (some name) =>
      Resolution.ofLook (start - name.length) start argsTag.length (resolveArgs name s)

namespace ToolCallParser

/-- How much of a text without a trigger is released. -/
def safeEnd (p : ToolCallParser) : Nat :=
  let safe := safeReleaseEnd p.buf p.holdLiterals
  if p.enabledTools.isSome then min safe (nameHoldStart p.buf) else safe

/-- One round of the loop of `drain_into`; `none` if it panics. -/
def round (p : ToolCallParser) : Option Resolution :=
  match p.inThink with
  | some kind =>
    match find kind.close p.buf with
    | some start => some (.leaveThink (start + kind.close.length))
    | none => some (.needMore (safeReleaseEnd p.buf [kind.close]))
  | none =>
    match p.findTrigger with
    | none => some (.needMore p.safeEnd)
    | some (start, trigger) =>
      resolve p.enabledTools p.atEos (p.buf.take start) start trigger (p.buf.drop start)

end ToolCallParser

namespace Resolution

/-- How much of the buffer is released as text. -/
def textEnd : Resolution → Nat
  | needMore holdFrom => holdFrom
  | notACall emitEnd _ => emitEnd
  | complete textEnd _ _ _ => textEnd
  | enterThink _ markerEnd => markerEnd
  | leaveThink closeEnd => closeEnd

/-- How much of it is gone after the round. -/
def consumedEnd : Resolution → Nat
  | complete _ consumedEnd _ _ => consumedEnd
  | r => r.textEnd

/-- The calls that are put out behind the text. -/
def calls : Resolution → List Generation.ToolCall
  | complete _ _ _ calls => calls
  | _ => []

/-- The loop ends with this round. -/
def waits : Resolution → Bool
  | needMore _ => true
  | _ => false

/-- The text that is put out; a round that waits, and one with a call, puts out no empty text. -/
def textOutput (buf : Text) (r : Resolution) : List ParserOutput :=
  match r with
  | needMore 0 => []
  | complete 0 _ _ _ => []
  | r => [.text (buf.take r.textEnd)]

end Resolution

/-- `ToolCallTally`, after a round. -/
def ToolCallTally.count (tally : ToolCallTally) : Resolution → ToolCallTally
  | .notACall _ true => { tally with fellThrough := tally.fellThrough + 1 }
  | .complete _ _ .cleanJson calls => { tally with clean := tally.clean + calls.length.toUInt32 }
  | .complete _ _ .gemmaDialect calls =>
    { tally with gemmaDialect := tally.gemmaDialect + calls.length.toUInt32 }
  | .complete _ _ .commalessArray calls =>
    { tally with commalessArray := tally.commalessArray + calls.length.toUInt32 }
  | _ => tally

namespace ToolCallParser

/-- The parser after a round. -/
def after (p : ToolCallParser) (r : Resolution) : ToolCallParser :=
  { p with
    buf := p.buf.drop r.consumedEnd
    inThink := match r with
      | .enterThink kind _ => some kind
      | .leaveThink _ => none
      | _ => p.inThink
    tally := p.tally.count r }

/-- What the next round puts out. -/
def outputs (p : ToolCallParser) : List ParserOutput :=
  match p.round with
  | none => []
  | some r => r.textOutput p.buf ++ r.calls.map .toolCall

end ToolCallParser

/-- What a parser has gone through: it as it was before each round, and as it is now, if it has not
panicked. -/
structure Course where
  rounds : List ToolCallParser
  final : Option ToolCallParser

namespace Course

/-- Go on with the parser as it is now. -/
def andThen (c : Course) (next : ToolCallParser → Course) : Course :=
  match c.final with
  | none => c
  | some p => ⟨c.rounds ++ (next p).rounds, (next p).final⟩

/-- What has been put out. -/
def outputs (c : Course) : List ParserOutput := c.rounds.flatMap ToolCallParser.outputs

end Course

namespace ToolCallParser

/-- The loop of `drain_into`, for at most the given number of rounds. -/
def drainLoop : Nat → ToolCallParser → Course
  | 0, p => ⟨[], some p⟩
  | fuel + 1, p =>
    match p.round with
    | none => ⟨[p], none⟩
    | some r =>
      if r.waits then ⟨[p], some (p.after r)⟩
      else
        let rest := drainLoop fuel (p.after r)
        ⟨p :: rest.rounds, rest.final⟩

/-- `drain_into`.  Every round that goes on takes something off the buffer. -/
def drainInto (p : ToolCallParser) : Course := drainLoop (p.buf.length + 1) p

/-- The rounds of `push`. -/
def pushCourse (p : ToolCallParser) (text : Text) : Course :=
  if text.isEmpty then ⟨[], some p⟩ else drainInto { p with buf := p.buf ++ text }

/-- The rounds of `flush`. -/
def flushCourse (p : ToolCallParser) : Course :=
  if p.buf.isEmpty then ⟨[], some p⟩ else drainInto { p with atEos := true }

/-- `ToolCallParser::push`; `none` if it panics. -/
def push (p : ToolCallParser) (text : Text) : Option (List ParserOutput × ToolCallParser) :=
  let c := p.pushCourse text
  c.final.map fun p' => (c.outputs, p')

/-- `ToolCallParser::flush`. -/
def flush (p : ToolCallParser) : Option (List ParserOutput × ToolCallParser) :=
  if p.buf.isEmpty then some ([], p)
  else
    let c := p.flushCourse
    c.final.map fun p' =>
      (c.outputs ++ (if p'.buf.isEmpty then [] else [.text p'.buf]),
        { p' with buf := [], inThink := none, atEos := false })

/-- The rounds that are made when chunks arrive. -/
def feedCourse : ToolCallParser → List Text → Course
  | p, [] => ⟨[], some p⟩
  | p, chunk :: chunks => (p.pushCourse chunk).andThen fun p' => p'.feedCourse chunks

/-- The rounds for a text that arrives in chunks and ends. -/
def runCourse (p : ToolCallParser) (chunks : List Text) : Course :=
  (p.feedCourse chunks).andThen flushCourse

/-- What is put out for it. -/
def run : ToolCallParser → List Text → Option (List ParserOutput)
  | p, [] => p.flush.map Prod.fst
  | p, chunk :: chunks =>
    (p.push chunk).bind fun (outputs, p') => (p'.run chunks).map fun more => outputs ++ more

end ToolCallParser

end

end Backend
end Gen2
