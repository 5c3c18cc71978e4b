import Gen2.Decision.Worker
import Gen2.Lib.Results
import Gen2.Types.JsonText
import Mathlib.Data.List.Dedup
import Mathlib.Data.List.Perm.Subperm

/-!
# Questions

`decision/json.rs` and `decision/question.rs`: a question with its options, how they are written for
the model, and what is refused.

* **Order.**  The options of a question have a canonical order, the one they are written in; an
  `optionOrder` says which of them is presented in each slot.  `renderModelOptions_eq` says that it
  is a permutation, and that slot `s` presents the option `order[s]`.
* **Text.**  What is written is a list of characters.  How `f64`s and quoted strings are formatted
  is the class `Formatting`.
-/

namespace Gen2.Decision

open Lib List

/-- What the standard library writes for `{:?}`. -/
class Formatting where
  /-- A `str`. -/
  debugStr : String → String
  /-- A finite `f64`. -/
  debugF64 : F64 → Text

/-- Strings that need no escape, and a number. -/
@[reducible]
def quoting : Formatting where
  debugStr s := "\"" ++ s ++ "\""
  debugF64 _ := "0.5".toList

variable [Formatting]

/-! ## Ordered JSON -/

/-- `f64::is_finite`. -/
def isFinite (x : F64) : Bool := x.bits &&& 0x7ff0000000000000 != 0x7ff0000000000000

/-- `{e:+03}`. -/
def pythonExponent (e : Int) : Text :=
  let digits := (Nat.repr e.natAbs).toList
  (if e < 0 then '-' else '+') :: (List.replicate (2 - digits.length) '0' ++ digits)

/-- A number, as Python writes it. -/
def writePythonNumber : JsonNumber → Except DecisionError Text
  | .posInt n => .ok (Nat.repr n).toList
  | .negInt n => .ok (Int.repr n).toList
  | .float x =>
    if isFinite x then
      let raw := Formatting.debugF64 x
      match raw.dropWhile (· != 'e') with
      | [] => .ok raw
      | _ :: exponent =>
        match (String.ofList exponent).toInt? with
        | none => .error (.invalidRequest "invalid exponent")
        | some e => .ok (raw.takeWhile (· != 'e') ++ 'e' :: pythonExponent e)
    else .error (.invalidRequest "non-finite JSON number")

mutual

/-- `OrderedJson::write_python`. -/
def writePython : Json → Except DecisionError Text
  | .null => .ok "null".toList
  | .bool b => .ok (if b then "true".toList else "false".toList)
  | .number n => writePythonNumber n
  | .string s => .ok (writeString s.toList)
  | .array items => do
    let inner ← writePythonItems items
    return '[' :: (inner ++ [']'])
  | .object fields => do
    let inner ← writePythonFields [] fields
    return '{' :: (inner ++ ['}'])

def writePythonItems : List Json → Except DecisionError Text
  | [] => .ok []
  | [v] => writePython v
  | v :: items => do
    let first ← writePython v
    let rest ← writePythonItems items
    return first ++ ", ".toList ++ rest

def writePythonFields (seen : List String) :
    List (String × Json) → Except DecisionError Text
  | [] => .ok []
  | (key, v) :: fields =>
    if seen.contains key then
      .error (.invalidRequest ("duplicate JSON key " ++ Formatting.debugStr key))
    else do
      let value ← writePython v
      let field := writeString key.toList ++ ": ".toList ++ value
      match fields with
      | [] => return field
      | _ => do
        let rest ← writePythonFields (key :: seen) fields
        return field ++ ", ".toList ++ rest

end

/-- `OrderedJson::criterion`. -/
def criterion : Json → Except DecisionError Text
  | .string s => .ok s.toList
  | v => writePython v

/-- `OrderedJson::label_text`. -/
def labelText : Json → Except DecisionError Text
  | .string s => .ok s.toList
  | .number n => writePython (.number n)
  | .bool b => .ok (if b then "True".toList else "False".toList)
  | .null => .ok "None".toList
  | _ => .error (.invalidRequest "choice labels must be JSON scalars")

/-! ## Questions -/

/-- `ChoiceOption`. -/
structure ChoiceOption where
  label : Json
  description : Option Json

/-- `Question`. -/
inductive Question
  | choice (instructions : String) (options : List ChoiceOption) (optionOrder : Option (List Nat))
  | score (instructions : String) (levels : List Json) (optionOrder : Option (List Nat))
  | yesNo (instructions falseLabel trueLabel : String)
      (falseDescription trueDescription : Option Json) (optionOrder : Option (List Nat))

namespace Question

/-- `Question::option_order`. -/
def optionOrder : Question → Option (List Nat)
  | choice _ _ order | score _ _ order | yesNo _ _ _ _ _ order => order

/-- `Question::with_option_order`, without the check. -/
def setOptionOrder (order : Option (List Nat)) : Question → Question
  | choice instructions options _ => choice instructions options order
  | score instructions levels _ => score instructions levels order
  | yesNo instructions falseLabel trueLabel falseDescription trueDescription _ =>
    yesNo instructions falseLabel trueLabel falseDescription trueDescription order

/-- `Question::instructions`. -/
def instructions : Question → String
  | choice text _ _ | score text _ _ | yesNo text _ _ _ _ _ => text

local instance : NeZero 3 := ⟨by decide⟩

/-- `Question::qtype`. -/
def qtype : Question → Fin 3
  | choice .. => 0
  | score .. => 1
  | yesNo .. => 2

/-- `Question::type_name`. -/
def typeName : Question → Text
  | choice .. => "choice".toList
  | score .. => "score".toList
  | yesNo .. => "noul".toList

/-- How many options there are. -/
def count : Question → Nat
  | choice _ options _ => options.length
  | score _ levels _ => levels.length
  | yesNo .. => 2

/-! ## What is refused -/

/-- The labels of a choice are not empty, and distinct. -/
def checkLabels (seen : List Text) : List ChoiceOption → Except DecisionError Unit
  | [] => .ok ()
  | option :: options => do
    let label ← labelText option.label
    if label.isEmpty || seen.contains label then
      .error (.invalidRequest "choice labels must be non-empty and distinct")
    else checkLabels (label :: seen) options

/-- The order is one of the options. -/
def checkOrder (q : Question) : Except DecisionError Unit :=
  match q.optionOrder with
  | none => .ok ()
  | some order =>
    if order.length ≠ q.count ∨ order.dedup.length ≠ q.count ∨ order.any (q.count ≤ ·) then
      .error (.invalidRequest "option_order must be a permutation of canonical option indices")
    else .ok ()

/-- `Question::validate`. -/
def validate (q : Question) : Except DecisionError Unit := do
  q.checkOrder
  match q with
  | choice _ options _ =>
    if options.isEmpty then .error (.invalidRequest "choice needs at least one option")
    else checkLabels [] options
  | score _ levels _ =>
    if levels.isEmpty then .error (.invalidRequest "score needs at least one level") else .ok ()
  | yesNo _ falseLabel trueLabel _ _ _ =>
    let falseLabel := trim falseLabel.toList
    let trueLabel := trim trueLabel.toList
    if falseLabel.isEmpty || trueLabel.isEmpty || falseLabel == trueLabel then
      .error (.invalidRequest "yes/no labels must be distinct non-empty strings")
    else .ok ()

/-! ## What is presented -/

/-- A label with its description. -/
def described (label : Text) : Option Json → Except DecisionError Text
  | none | some .null | some (.string "") => .ok label
  | some d => do
    let text ← criterion d
    return label ++ ": ".toList ++ text

/-- A description, or what stands for it. -/
def descriptionOr (default : String) : Option Json → Except DecisionError Text
  | none | some .null | some (.string "") => .ok default.toList
  | some d => criterion d

/-- `Question::render_options`. -/
def renderOptions (q : Question) : Except DecisionError (List Text) := do
  q.validate
  match q with
  | choice _ options _ =>
    options.mapM fun option => do described (← labelText option.label) option.description
  | score _ levels _ =>
    levels.zipIdx.mapM fun (level, i) => do
      return "level ".toList ++ (Nat.repr i).toList ++ ": ".toList ++ (← criterion level)
  | yesNo _ falseLabel trueLabel falseDescription trueDescription _ => do
    let no ← descriptionOr "no, the statement does not hold" falseDescription
    let yes ← descriptionOr "yes, the statement holds" trueDescription
    return [trim falseLabel.toList ++ ": ".toList ++ no, trim trueLabel.toList ++ ": ".toList ++ yes]

/-- `Question::render_model_options`.  An index that is out of range panics; `validate` has refused
it. -/
def renderModelOptions (q : Question) : Except DecisionError (List Text) := do
  let canonical ← q.renderOptions
  match q.optionOrder with
  | some order => return order.map fun i => canonical.getD i []
  | none => return canonical

/-- What slot presents which option: the identity, where no order is given. -/
def slots (q : Question) : List Nat := q.optionOrder.getD (List.range q.count)

variable {q : Question}

theorem checkOrder_of_validate (h : q.validate = .ok ()) : q.checkOrder = .ok
    () := by
  obtain ⟨⟨⟩, horder, -⟩ := bind_eq_ok.1 h
  exact horder

/-- An order that is not refused is a permutation. -/
theorem perm_slots (h : q.validate = .ok ()) : q.slots.Perm (range q.count) := by
  have horder := checkOrder_of_validate h
  rw [checkOrder] at horder
  rw [slots]
  split at horder
  next hnone => rw [hnone]; rfl
  next order hsome =>
    rw [hsome, Option.getD_some]
    simp only [ite_error_eq_ok, not_or, not_not, and_true] at horder
    obtain ⟨hlength, hdedup, hlt⟩ := horder
    have hnodup : order.Nodup := by
      have heq := (dedup_sublist order).eq_of_length (hdedup.trans hlength.symm)
      exact heq ▸ nodup_dedup order
    have hsub : order ⊆ range q.count := by
      intro i hi
      refine mem_range.2 (lt_of_not_ge fun hge => hlt ?_)
      exact any_eq_true.2 ⟨i, hi, by simpa using hge⟩
    exact (subperm_of_subset hnodup hsub).perm_of_length_le (by simp [hlength])

theorem renderOptions_ok {texts : List Text} (h : q.renderOptions = .ok texts) :
    q.validate = .ok () ∧ texts.length = q.count := by
  obtain ⟨⟨⟩, hvalid, h⟩ := bind_eq_ok.1 h
  refine ⟨hvalid, ?_⟩
  cases q with
  | choice _ options _ => exact (mapM_eq_ok.1 h).length_eq.symm
  | score _ levels _ =>
    have := (mapM_eq_ok.1 h).length_eq
    rw [length_zipIdx] at this
    exact this.symm
  | yesNo =>
    obtain ⟨no, -, h⟩ := bind_eq_ok.1 h
    obtain ⟨yes, -, h⟩ := bind_eq_ok.1 h
    cases h
    rfl

/-- **Slot `s` presents the canonical option `slots[s]`.** -/
theorem renderModelOptions_eq {texts : List Text} (h : q.renderModelOptions = .ok texts) :
    ∃ canonical, q.renderOptions = .ok canonical ∧
      texts = q.slots.map fun i => canonical.getD i [] := by
  obtain ⟨canonical, hcanonical, h⟩ := bind_eq_ok.1 h
  refine ⟨canonical, hcanonical, ?_⟩
  rw [slots]
  cases horder : q.optionOrder with
  | some order =>
    rw [horder] at h
    cases h
    rfl
  | none =>
    rw [horder] at h
    cases h
    rw [Option.getD_none, ← (renderOptions_ok hcanonical).2]
    refine ext_getElem (by simp) fun i hi _ => ?_
    simp [getD_eq_getElem?_getD, hi]

/-! ## Without an order -/

theorem validate_setOptionOrder (h : q.validate = .ok ()) :
    (q.setOptionOrder none).validate = .ok () := by
  obtain ⟨⟨⟩, -, hshape⟩ := bind_eq_ok.1 h
  refine bind_eq_ok.2 ⟨(), ?_, ?_⟩ <;> cases q
  case refine_2.choice | refine_2.score | refine_2.yesNo => exact hshape
  all_goals rfl

theorem renderOptions_setOptionOrder (h : q.validate = .ok ()) :
    (q.setOptionOrder none).renderOptions = q.renderOptions := by
  rw [renderOptions.eq_def, renderOptions.eq_def q, h, validate_setOptionOrder h]
  cases q <;> rfl

end Question

/-! ## Requests -/

/-- `DecisionState`. -/
inductive DecisionState
  | text (s : String)
  | json (v : Json)
  | conversation (items : List Json)

/-- `DecisionState::serialize`. -/
def DecisionState.serialize : DecisionState → Except DecisionError Text
  | text s => .ok s.toList
  | json v => writePython v
  | conversation items => writePython (.array items)

/-- `DecisionState::truncate_left`. -/
def DecisionState.truncateLeft : DecisionState → Bool
  | conversation _ | json (.array _) => true
  | _ => false

/-- `DecisionRequest`. -/
structure DecisionRequest where
  state : DecisionState
  questions : List (String × Question)

/-- `{e}` of a `DecisionError`, for those that a question gives. -/
def DecisionError.text : DecisionError → String
  | invalidRequest m => "invalid decision request: " ++ m
  | invalidBundle m => "invalid decision bundle: " ++ m
  | inputOverflow m => "decision input overflow: " ++ m
  | invalidOutput m => "invalid decision output: " ++ m
  | backendUnavailable m => "decision backend is unavailable: " ++ m
  | execution m => "decision execution failed: " ++ m
  | busy => "decision queue is full"
  | cancelled => "decision was cancelled"
  | deadlineExceeded => "decision deadline expired"
  | unloaded => "decision model is unloaded"
  | resourceLimit m => "decision memory reservation refused: " ++ m

/-- The questions of a request, one after the other. -/
def checkQuestions (seen : List String) : List (String × Question) → Except DecisionError Unit
  | [] => .ok ()
  | (id, q) :: questions =>
    if id.isEmpty || seen.contains id then
      .error (.invalidRequest ("empty or duplicate question ID " ++ Formatting.debugStr id))
    else
      match q.validate with
      | .error e => .error (.invalidRequest
          ("question " ++ Formatting.debugStr id ++ ": " ++ e.text))
      | .ok () => checkQuestions (id :: seen) questions

/-- `DecisionRequest::validate`. -/
def DecisionRequest.validate (request : DecisionRequest) : Except DecisionError Unit := do
  checkQuestions [] request.questions
  let _ ← request.state.serialize

end Gen2.Decision
