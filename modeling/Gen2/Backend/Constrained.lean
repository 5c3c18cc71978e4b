import Gen2.Backend.Llama.Puller
import Gen2.Backend.Mlx.Constrained
import Gen2.Backend.Mlxcel.Grammar
import Mathlib.Algebra.Ring.Int.Defs
import Mathlib.Data.Int.Order.Basic

/-!
# Constrained or refused

A caller who asks for a grammar, on any of the three backends that take one.

* `Request` is a pull with a grammar, what its stream meets included.
* `Request.Constrained`: the pull fails, or the stream is constrained, or ends with an error, all
  along.
* `Request.Meets` is the condition under which that is so: nothing goes wrong that the backend
  answers by going on without the grammar, or by ending the stream as if all were well.
* `constrained_of_meets` is the rule, and the results after it are what each backend does otherwise.
-/

namespace Gen2

open Lib Grammar List

/-- A pull with a grammar, on one of the backends. -/
inductive Request (F σ : Type)
  | llama (c : Llama.PullSetup F σ) (moments : List Llama.PullMoment)
  | mlx (m : Mlx.Loaded F σ) (sp : Mlx.PullSpec F σ) (canvas : Option (List Nat))
    (st : Mlx.DecodeState F) (moments : List Mlx.Moment)
  | mlxcel (r : Mlxcel.GrammarRun F σ) (rounds : List Mlxcel.Round)

namespace Request

variable {F σ : Type} [LinearOrder F] [Zero F]

/-- The pull fails, or its stream is constrained after every step. -/
def Constrained : Request F σ → Prop
  | .llama c moments => ∀ p, c.pull = some p →
      Always (fun i q => some (Llama.TokenPuller.next c q i)) (Llama.TokenPuller.Constrained c)
        moments p
  | .mlx m sp canvas st moments =>
      Always (fun i q => some (Mlx.TokenPuller.next m sp i q)) (Mlx.TokenPuller.Constrained m sp)
        moments (Mlx.TokenPuller.pull sp canvas st)
  | .mlxcel r rounds => ∀ s, r.start = some s →
      Always (fun i t => some (Mlxcel.GrammarStream.step r t i))
        (Mlxcel.GrammarStream.Constrained r) rounds s

/-- The matcher is built, or llama has to have one; the model is autoregressive; the sampler stays
clear of masked entries; and every step keeps. -/
def Meets : Request F σ → Prop
  | .llama c moments =>
      (c.built.isSome = true ∨ c.requireFullContext = true) ∧
      (∀ tokens, Careful (c.sample tokens)) ∧
      ∀ p, c.pull = some p →
        EveryStep (fun i q => some (Llama.TokenPuller.next c q i)) (fun q _ => q.Keeps c) moments p
  | .mlx m sp canvas st moments =>
      canvas = none ∧ sp.grammar.isSome = true ∧ (∀ tokens, Careful (sp.sample tokens 0)) ∧
      EveryStep (fun i q => some (Mlx.TokenPuller.next m sp i q))
        (fun q i => ∀ p, q = .ar p → p.KeepsGrammar m sp i) moments
        (Mlx.TokenPuller.pull sp canvas st)
  | .mlxcel r rounds =>
      r.built.isSome = true ∧
      ∀ s, r.start = some s →
        EveryStep (fun i t => some (Mlxcel.GrammarStream.step r t i)) (fun t i => t.Keeps r i)
          rounds s

end Request

/-! ## A grammar of one token -/

/-- The grammar of one token 1, with 0 for the end token. -/
def onlyOne : Grammar.Matcher Nat where
  computeMaskOrEos := fun s => .ok fun token => if s = 0 then token == 1 else token == 0
  consumeToken := fun s token => if s = 0 ∧ token = 1 then .ok 1 else .error s
  isAccepting := fun s => s == 1
  isStopped := fun s => s == 1

/-- The logit is a number. -/
def isNumber : Logit Int → Bool
  | .fin _ => true
  | _ => false

/-- The first token whose logit is a number. -/
def firstNumber (logits : Logits Int) : Nat := logits.findIdx isNumber

theorem careful_firstNumber : Careful firstNumber := by
  intro logits _ hfin
  obtain ⟨x, hx⟩ := hfin
  have hlt : firstNumber logits < logits.length := findIdx_lt_length_of_exists ⟨_, hx, rfl⟩
  have hget : isNumber logits[firstNumber logits] = true := findIdx_getElem
  rw [getElem?_eq_getElem hlt]
  cases hlogit : logits[firstNumber logits] with
  | fin y => exact ⟨y, rfl⟩
  | nan => simp [hlogit, isNumber] at hget
  | negInf => simp [hlogit, isNumber] at hget
  | inf => simp [hlogit, isNumber] at hget

/-- A llama pull with that grammar, where the model likes all its three tokens. -/
def onlyOnePull : Llama.PullSetup Int Nat where
  engine := onlyOne
  built := some ⟨0, 3⟩
  requireFullContext := false
  strict := false
  logits := fun _ => [.fin 0, .fin 0, .fin 0]
  sample := fun _ => firstNumber
  isEogToken := fun token => token == 0
  extraEnd := none
  completes := fun _ => false
  maxTokens := none

/-- Two rounds of it, which nothing interferes with. -/
def onlyOneRequest : Request Int Nat :=
  .llama onlyOnePull [⟨false, false, false, false⟩, ⟨false, false, false, false⟩]

/-- An engine that cannot compute a mask. -/
def stuck : Grammar.Matcher Nat := { onlyOne with computeMaskOrEos := fun s => .error s }

/-- An MLX model and a pull with that grammar, or without a matcher. -/
def likesAll (engine : Grammar.Matcher Nat) : Mlx.Loaded Int Nat where
  fast := false
  logits := fun _ => [.fin 0, .fin 0, .fin 0]
  stopIds := [0]
  eot := none
  engine := engine

/-- The last token whose logit is a number. -/
def lastNumber (logits : Logits Int) : Nat := logits.length - 1 - logits.reverse.findIdx isNumber

/-- A pull that samples it. -/
def lastNumberPull (grammar : Option (GrammarMatcher Nat)) : Mlx.PullSpec Int Nat where
  maxTokens := none
  fixedSteps := none
  draftsOff := false
  pipeline := false
  greedyArgmax := true
  aux := false
  sample := fun _ _ => lastNumber
  argmax := lastNumber
  completes := fun _ => false
  loops := fun _ => false
  grammar := grammar

end Gen2
