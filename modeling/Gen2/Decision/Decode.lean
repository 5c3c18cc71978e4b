import Gen2.Decision.Question
import Gen2.Lib.Scatter
import Mathlib.Algebra.GroupWithZero.Nat
import Mathlib.Algebra.Order.Ring.Unbundled.Rat

/-!
# Decoding an answer

`decision/decode.rs`: the probabilities of a question's slots, in the canonical order of its
options, and what is read off them.

* **Floating point.**  `Floats` are the operations on `f32`s and `f64`s.  Nothing is assumed of how
  they round, but that a sum of two does not depend on which comes first, and that zero adds
  nothing.
* **Order.**  The logits are those of the slots.  `decode` writes the probability of slot `s` at the
  option `order[s]`, and everything else is read in the canonical order.
-/

namespace Gen2.Decision

open Lib

/-- `f32`s and the `f64`s that are numbers, where a zero and a negative zero are one. -/
structure Floats (L F : Type) where
  isFinite32 : L → Bool
  negInfinity : L
  max : L → L → L
  /-- `v as f64`. -/
  widen : L → F
  isFinite : F → Bool
  ofNat : Nat → F
  /-- `x as usize`. -/
  toNat : F → Nat
  add : F → F → F
  sub : F → F → F
  mul : F → F → F
  div : F → F → F
  neg : F → F
  exp : F → F
  ln : F → F
  max_comm : ∀ x y, max x y = max y x
  max_assoc : ∀ x y z, max (max x y) z = max x (max y z)
  add_comm : ∀ x y, add x y = add y x
  zero_add : ∀ x, add (ofNat 0) x = x

/-! ## Calibration -/

/-- `TemperatureMap`. -/
structure TemperatureMap (F : Type) where
  temperature : Fin 3 → F
  temperatureByOptions : List (String × F)

/-- `Histogram`. -/
structure Histogram (F : Type) where
  bins : Nat
  values : List F

/-- `Calibration`. -/
structure Calibration (F : Type) where
  base : TemperatureMap F
  languages : List (String × TemperatureMap F)
  binningMap : List (String × Histogram F)

/-- `AnswerValue`. -/
inductive AnswerValue (F : Type)
  | choice (index : Nat) (label : Json)
  | score (expectation : F) (legend : List Text)
  | yesNo (probabilityTrue : F)

/-- `Answer`. -/
structure Answer (F : Type) where
  value : AnswerValue F
  probabilities : List F
  confidence : F
  answerConfidence : F
  rawAnswerConfidence : F
  actProbability : F
  temperature : F
  temperatureBucket : String
  languageOverride : Bool

/-- `bucket`. -/
def bucket (q : Question) (k : Nat) : String :=
  String.ofList q.typeName ++ ":" ++
    (if k ≤ 2 then "2" else if k ≤ 5 then "3-5" else if k ≤ 10 then "6-10" else "11+")

/-- `x.clamp(low, high)`. -/
def clamp {F : Type} [LinearOrder F] (x low high : F) : F :=
  if x < low then low else if high < x then high else x

section Floats

variable {L F : Type} [LinearOrder F] (fp : Floats L F)

namespace Floats

/-- `.sum::<f64>()`. -/
def sum (xs : List F) : F := xs.foldl fp.add (fp.ofNat 0)

/-- The exponentials of a softmax. -/
def exponentials (logits : List L) (temperature : F) : List F :=
  let max := fp.widen (logits.foldl fp.max fp.negInfinity)
  logits.map fun v => fp.exp (fp.div (fp.sub (fp.widen v) max) temperature)

/-- `softmax`. -/
def softmax (logits : List L) (temperature : F) : Except DecisionError (List F) :=
  if logits.isEmpty || logits.any (! fp.isFinite32 ·) then
    .error (.invalidOutput "empty or non-finite logits")
  else
    let p := fp.exponentials logits temperature
    let sum := fp.sum p
    .ok (p.map (fp.div · sum))

end Floats

namespace Calibration

/-- `Calibration::validate`. -/
def validate (calibration : Calibration F) : Except DecisionError Unit :=
  let half := fp.div (fp.ofNat 1) (fp.ofNat 2)
  let temperatures := (calibration.base :: calibration.languages.map Prod.snd).flatMap fun map =>
    List.ofFn map.temperature ++ map.temperatureByOptions.map Prod.snd
  if temperatures.any fun v => ! fp.isFinite v || ! decide (half ≤ v ∧ v ≤ fp.ofNat 5) then
    .error (.invalidBundle "temperatures must be finite and in [0.5, 5]")
  else if calibration.binningMap.any fun (_, h) => h.bins == 0 || h.values.length != h.bins ||
      h.values.any fun v => ! fp.isFinite v || ! decide (fp.ofNat 0 ≤ v ∧ v ≤ fp.ofNat 1) then
    .error (.invalidBundle "invalid histogram bins or values")
  else .ok ()

/-- The temperatures of a language, which go by the part in front of its first hyphen. -/
def override (lowercase : String → String) (calibration : Calibration F)
    (language : Option String) : Option (TemperatureMap F) :=
  language.bind fun s =>
    calibration.languages.lookup (lowercase (String.ofList (s.toList.takeWhile (· != '-'))))

/-- The temperature of a question with `k` options. -/
def temperature (lowercase : String → String) (calibration : Calibration F) (q : Question) (k : Nat)
    (language : Option String) : F :=
  let map := (calibration.override lowercase language).getD calibration.base
  (map.temperatureByOptions.lookup (bucket q k)).getD (map.temperature q.qtype)

/-- The value of an answer. -/
def value [Formatting] (q : Question) (probabilities : List F) (winner : Nat) :
    Except DecisionError (AnswerValue F) :=
  match q with
  | .choice _ options _ =>
    .ok (.choice winner ((options[winner]?.map ChoiceOption.label).getD .null))
  | .score _ levels _ => do
    let expectation := fp.sum (probabilities.zipIdx.map fun (p, i) => fp.mul (fp.ofNat i) p)
    return .score expectation (← levels.mapM criterion)
  | .yesNo .. => .ok (.yesNo (probabilities.getD 1 (fp.ofNat 0)))

/-- What is read off the probabilities, in the canonical order. -/
def read [Formatting] (calibration : Calibration F) (q : Question) (k : Nat) (language : Bool)
    (temperature : F) (actionLogits : L × L) (probabilities : List F) :
    Except DecisionError (Answer F) := do
  let zero := fp.ofNat 0
  let one := fp.ofNat 1
  let winner := probabilities.zipIdx.foldl
    (fun best (p, i) => if probabilities.getD best zero < p then i else best) 0
  let raw := probabilities.getD winner zero
  let answerConfidence :=
    if language then raw
    else
      match calibration.binningMap.lookup (bucket q k) with
      | none => raw
      | some h => h.values.getD (min (fp.toNat (fp.mul raw (fp.ofNat h.bins))) (h.bins - 1)) zero
  let tiny := fp.div one (fp.ofNat 1000000000000)
  let entropy := fp.neg (fp.sum (probabilities.map fun p => fp.mul p (fp.ln (clamp p tiny one))))
  let confidence :=
    if q.qtype = 2 then raw
    else if k < 2 then one
    else clamp (fp.sub one (fp.div entropy (fp.ln (fp.ofNat k)))) zero one
  let value ← value fp q probabilities winner
  let act ← fp.softmax [actionLogits.1, actionLogits.2] one
  return {
    value
    probabilities
    confidence
    answerConfidence
    rawAnswerConfidence := raw
    actProbability := act.getD 0 zero
    temperature
    temperatureBucket := bucket q k
    languageOverride := language }

/-- `Calibration::decode`. -/
def decode [Formatting] (lowercase : String → String) (calibration : Calibration F) (q : Question)
    (logits : List L) (actionLogits : L × L) (language : Option String) :
    Except DecisionError (Answer F) := do
  calibration.validate fp
  q.validate
  let k := (← q.renderOptions).length
  if logits.length < k then .error (.invalidOutput "too few option logits")
  else
    let temperature := calibration.temperature lowercase q k language
    let slots ← fp.softmax (logits.take k) temperature
    let probabilities :=
      match q.optionOrder with
      | some order => scatter order slots slots
      | none => slots
    calibration.read fp q k (calibration.override lowercase language).isSome temperature actionLogits
      probabilities

end Calibration

end Floats

/-! ## Numbers of 53 bits -/

/-- A power of two. -/
def pow2 : Int → ℚ
  | .ofNat n => (2 ^ n : Nat)
  | .negSucc n => mkRat 1 (2 ^ (n + 1))

/-- The `f64` nearest to a number, the even one where two are. -/
def nearest (x : ℚ) : ℚ :=
  let e : Int := (Nat.log2 x.num.natAbs : Int) - Nat.log2 x.den
  let unit := if pow2 e ≤ (if x < 0 then -x else x) then pow2 (e - 52) else pow2 (e - 53)
  let y := x / unit
  let below := y.floor
  let chosen :=
    if y - below < mkRat 1 2 then below
    else if mkRat 1 2 < y - below then below + 1
    else if below % 2 = 0 then below
    else below + 1
  chosen * unit

/-- Numbers of 53 bits, with the exponentials of `0` and `-36.7368`, and the logarithms of `1e-12`,
of the number before `1`, of `1` and of `3`. -/
def binary64 : Floats ℚ ℚ where
  isFinite32 _ := true
  negInfinity := -1000000
  max := max
  widen x := x
  isFinite _ := true
  ofNat n := n
  toNat x := x.floor.toNat
  add x y := if x = 0 then y else if y = 0 then x else nearest (x + y)
  sub x y := nearest (x - y)
  mul x y := nearest (x * y)
  div x y := nearest (x / y)
  neg x := -x
  exp x := if x = 0 then 1 else mkRat 4503597025264179 (2 ^ 105)
  ln x :=
    if x < mkRat 1 2 then mkRat (-243045032034301) (2 ^ 43)
    else if x < 1 then mkRat (-4503599627370497) (2 ^ 104)
    else if x = 1 then 0 else mkRat 4947709893870347 (2 ^ 52)
  max_comm := max_comm
  max_assoc := max_assoc
  add_comm x y := by
    by_cases hx : x = 0 <;> by_cases hy : y = 0 <;> simp [hx, hy, add_comm]
  zero_add x := if_pos rfl

/-- No temperature but one. -/
def plain : Calibration ℚ := ⟨⟨fun _ => 1, []⟩, [], []⟩

end Gen2.Decision
