import Gen2.Decision.Question
import Gen2.Lib.Replace

/-!
# The rows of a decision

`decision/encode.rs`: a question becomes one row of tokens, with its instructions, its options, each
behind a mask token, and the state, cut to the budgets where the policy allows it.

* **Tokens** are `i64`s; a `Tokenizer` gives the mask token only for a text with the mask text in
  it. Special tokens with an empty mask text, or that are not distinct, are refused when the
  tokenizer is opened, so `SpecialTokens` cannot be built with them.
* **The mask text.**  Before a text is tokenized the mask text in it is replaced by a space, so that
  it cannot add a mask.
-/

namespace Gen2.Decision

open Lib

/-! ## What a row is made from -/

/-- `SpecialTokens`, as `LayaTokenizer::from_file` lets them pass. -/
structure SpecialTokens where
  cls : Int
  sep : Int
  pad : Int
  mask : Int
  maskText : String
  nonempty : maskText.toList ≠ []
  distinct : [cls, sep, pad, mask].Nodup

/-- The first four ids. -/
theorem nodup_ids : ([1, 2, 0, 3] : List Int).Nodup := by decide

/-- A tokenizer whose mask token comes of the mask text alone. -/
structure Tokenizer (special : SpecialTokens) where
  encode : Text → Except DecisionError (List Int)
  maskOnly : ∀ text ids, encode text = .ok ids → special.mask ∈ ids →
    special.maskText.toList <:+: text

/-- `OverflowPolicy`. -/
inductive OverflowPolicy
  | reject
  | allowWithDiagnostics
  deriving DecidableEq

/-- `EncodeOptions`. -/
structure EncodeOptions where
  maxLen : Nat
  headMaxLen : Nat
  overflow : OverflowPolicy

/-- `EncodedQuestion`. -/
structure EncodedQuestion where
  id : String
  inputIds : List Int
  markerPos : List Nat
  qtype : Fin 3
  stateTokens : Nat
  stateTokensDropped : Nat
  optionsTotal : Nat
  optionsDistinct : Nat
  tokensPerOption : Option Nat
  instructionTokensDropped : Nat
  optionTokensDropped : List Nat

/-- `.replace(&special.mask_text, " ")`. -/
def SpecialTokens.clean (special : SpecialTokens) (text : Text) : Text :=
  replaceAll special.maskText.toList [' '] text

/-! ## One row -/

/-- The options with their masks, clipped to 48 tokens, and to fewer where the header has no room.
-/
def clipOptions (headMaxLen : Nat) (mask : Int) (spans : List (List Int)) :
    Except DecisionError (List (List Int) × Option Nat) :=
  let marked := spans.map fun v => mask :: v.take 48
  let sum := (marked.map List.length).sum
  if 2 ^ 64 ≤ sum then .error (.invalidRequest "option size overflow")
  else if headMaxLen - sum < 16 then
    let per := max ((headMaxLen - 16) / marked.length) 4
    .ok (marked.map (List.take per), some per)
  else .ok (marked, none)

/-- `markers.push(ids.len())` for each option, from where the first one begins. -/
def markersFrom (start : Nat) : List (List Int) → List Nat
  | [] => []
  | v :: options => start :: markersFrom (start + v.length) options

section Encode

variable [Formatting]

/-- A row, from the tokens of the instructions, of each option and of the state. -/
def encodeRow (options : EncodeOptions) (special : SpecialTokens) (truncateLeft : Bool)
    (id : String)
    (qtype : Fin 3) (head : List Int) (spans : List (List Int)) (stateIds : List Int) :
    Except DecisionError EncodedQuestion := do
  let question := "question " ++ Formatting.debugStr id
  let (clipped, perOption) ← clipOptions options.headMaxLen special.mask spans
  let total := clipped.length
  let distinct := clipped.dedup.length
  -- identical descriptions cannot denote different choices after clipping
  if distinct < total then
    .error (.inputOverflow (question ++ ": only " ++ Nat.repr distinct ++ " of " ++ Nat.repr total ++
      " option spans remain distinct"))
  else
    let sum := (clipped.map List.length).sum
    let kept := head.take (max (options.headMaxLen - sum) 8)
    let instructionTokensDropped := head.length - kept.length
    let optionTokensDropped :=
      List.zipWith (fun original actual => original.length + 1 - actual.length) spans clipped
    if options.overflow = .reject ∧
        (0 < instructionTokensDropped ∨ optionTokensDropped.any (0 < ·)) then
      .error (.inputOverflow (question ++ " would truncate instructions or options"))
    else
      let markers := markersFrom (kept.length + 2) clipped
      let header := special.cls :: kept ++ special.sep :: (clipped.flatten ++ [special.sep])
      if options.maxLen ≤ header.length then
        .error (.inputOverflow (question ++ " header does not fit"))
      else
        let room := options.maxLen - (header.length + 1)
        let used := min room stateIds.length
        let dropped := stateIds.length - used
        if 0 < dropped ∧ options.overflow = .reject then
          .error (.inputOverflow (question ++ " would drop " ++ Nat.repr dropped ++ " state tokens"))
        else
          let state := if truncateLeft then stateIds.drop (stateIds.length - used)
            else stateIds.take used
          let ids := (header ++ state ++ [special.sep]).take options.maxLen
          let markers := markers.filter (· < ids.length)
          if markers.length ≠ total then
            .error (.inputOverflow (question ++ ": only " ++ Nat.repr markers.length ++ " of " ++
              Nat.repr total ++ " option markers fit"))
          else
            .ok {
              id
              inputIds := ids
              markerPos := markers
              qtype
              stateTokens := stateIds.length
              stateTokensDropped := dropped
              optionsTotal := total
              optionsDistinct := distinct
              tokensPerOption := perOption
              instructionTokensDropped
              optionTokensDropped }

/-- What stands in front of the options. -/
def headText (special : SpecialTokens) (q : Question) : Text :=
  q.typeName ++ " question: ".toList ++ special.clean q.instructions.toList

/-- A row, from its question. -/
def encodeQuestion (options : EncodeOptions) (special : SpecialTokens)
    (tokenize : Text → Except DecisionError (List Int)) (truncateLeft : Bool)
    (stateIds : List Int) (id : String) (q : Question) : Except DecisionError EncodedQuestion := do
  let head ← tokenize (headText special q)
  let texts ← q.renderModelOptions
  let spans ← texts.mapM fun text => tokenize (' ' :: special.clean text)
  encodeRow options special truncateLeft id q.qtype head spans stateIds

/-- `encode`. -/
def encode (request : DecisionRequest) (options : EncodeOptions) (special : SpecialTokens)
    (tokenize : Text → Except DecisionError (List Int)) :
    Except DecisionError (List EncodedQuestion) := do
  request.validate
  if options.maxLen = 0 ∨ options.headMaxLen = 0 then
    .error (.invalidRequest "token budgets must be positive")
  else if request.questions.isEmpty then
    .ok []
  else
    let text ← request.state.serialize
    let stateIds ← tokenize (special.clean text)
    request.questions.mapM fun (id, q) =>
      encodeQuestion options special tokenize request.state.truncateLeft stateIds id q

end Encode

end Gen2.Decision
