import Gen2.Backend.Grammar
import Gen2.Lib.Run
import Mathlib.Order.Lattice

/-!
# The grammar loop of mlxcel

`run_grammar_generation` of `gen2-mlxcel/src/grammar.rs`, with what `run_generation` of `worker.rs`
does before and after it, and the puller that its channel ends at.

* `argmaxHost` is the greedy argmax on the host; `getElem?_argmaxHost` says that it picks an entry
  that is more than `-inf` if there is one.
* `GrammarRun.start` begins a stream and `GrammarStream.step` is one round of the loop.  Once the
  stream has started an error only closes the channel, which the puller reports as `Eos`.
* `GrammarStream.Keeps` is the condition on a round, and `always_constrained` the rule for streams.
-/

namespace Gen2
namespace Mlxcel

open Lib Grammar List

/-! ## Sampling -/

section

variable {F : Type} [LinearOrder F]

/-- `v > best_val`, of two `f32`s. -/
def exceeds : Logit F → Logit F → Bool
  | .nan, _ | _, .nan => false
  | .inf, .inf | .negInf, _ | .fin _, .inf => false
  | .inf, _ | .fin _, .negInf => true
  | .fin x, .fin y => decide (y < x)

/-- The loop of `argmax_host`, from an index on, with the best entry so far. -/
def argmaxFrom (i bestId : Nat) (bestVal : Logit F) : Logits F → Nat
  | [] => bestId
  | v :: vs =>
    if exceeds v bestVal then argmaxFrom (i + 1) i v vs else argmaxFrom (i + 1) bestId bestVal vs

/-- `argmax_host`. -/
def argmaxHost (logits : Logits F) : Nat := argmaxFrom 0 0 .negInf logits

theorem exceeds_negInf {v w : Logit F} (h : exceeds v w = true) : exceeds v .negInf = true := by
  cases v <;> cases w <;> simp_all [exceeds]

/-- The loop ends at an entry that is more than `-inf`, if it began with one or meets one. -/
theorem argmaxFrom_spec (whole : Logits F) (vs : Logits F) (i bestId : Nat) (bestVal : Logit F)
    (hwhole : whole.drop i = vs)
    (hbest : exceeds bestVal .negInf = true ∧ whole[bestId]? = some bestVal ∨
      bestVal = .negInf ∧ ∃ v ∈ vs, exceeds v .negInf = true) :
    ∃ v, whole[argmaxFrom i bestId bestVal vs]? = some v ∧ exceeds v .negInf = true := by
  induction vs generalizing i bestId bestVal with
  | nil =>
    rcases hbest with ⟨hexceeds, hget⟩ | ⟨-, v, hv, -⟩
    · exact ⟨bestVal, hget, hexceeds⟩
    · cases hv
  | cons v vs ih =>
    have hget : whole[i]? = some v := by
      have := congrArg (·[0]?) hwhole
      simpa using this
    have hrest : whole.drop (i + 1) = vs := by
      have := congrArg tail hwhole
      simpa using this
    rw [argmaxFrom]
    split
    · next hv => exact ih _ _ _ hrest (.inl ⟨exceeds_negInf hv, hget⟩)
    · next hv =>
      refine ih _ _ _ hrest ?_
      rcases hbest with hbest | ⟨rfl, w, hw, hexceeds⟩
      · exact .inl hbest
      · rcases mem_cons.1 hw with rfl | hw
        · exact absurd hexceeds hv
        · exact .inr ⟨rfl, w, hw, hexceeds⟩

/-- **The argmax is an entry above `-inf`**, if the row has one. -/
theorem getElem?_argmaxHost {logits : Logits F} (h : ∃ v ∈ logits, exceeds v .negInf = true) :
    ∃ v, logits[argmaxHost logits]? = some v ∧ exceeds v .negInf = true :=
  argmaxFrom_spec logits logits 0 0 .negInf rfl (.inr ⟨rfl, h⟩)

/-- An entry of `mlxcel_core::add`, where the bias is zero or `-inf`. -/
def addBias : Logit F → Logit F → Logit F
  | .nan, _ | .inf, .negInf => .nan
  | _, .negInf => .negInf
  | logit, _ => logit

/-- What is not allowed is not more than `-inf` once the bias is added. -/
theorem exceeds_addBias_negInf (logit : Logit F) :
    exceeds (addBias logit .negInf) .negInf = false := by
  cases logit <;> rfl

end

/-! ## The loop -/

/-- A generation with a grammar: `built` is the matcher for it, `none` where it cannot be built. -/
structure GrammarRun (F σ : Type) where
  engine : Grammar.Matcher σ
  /-- The model directory has a `tokenizer.json`. -/
  hfTok : Bool
  built : Option (GrammarMatcher σ)
  /-- The logits after the prompt and these tokens. -/
  logits : List Nat → Logits F
  eosTokenIds : List Nat
  maxTokens : Nat

/-- What a round meets: the stop flag, and a channel whose other end is gone. -/
structure Round where
  stopped : Bool
  hungUp : Bool

/-- The stream, and the tokens sent so far. -/
structure GrammarStream (σ : Type) where
  matcher : Option (GrammarMatcher σ)
  n : Nat
  handed : List Nat
  ended : Option Ending

variable {F σ : Type} [LinearOrder F] [Zero F] (r : GrammarRun F σ)

/-- `run_generation` up to the loop; `none` is a pull that fails. -/
def GrammarRun.start : Option (GrammarStream σ) :=
  if r.hfTok then
    match r.built with
    | some g => some ⟨some g, 0, [], none⟩
    | none => some ⟨none, 0, [], some ⟨.failure, .eos⟩⟩
  else none

/-- `grammar_bias`. -/
def grammarBias (g : GrammarMatcher σ) (vocab : Nat) : Option (Logits F) :=
  match g.applyMask r.engine (List.replicate vocab (.fin (0 : F))) with
  | .error _ => none
  | .ok bias =>
    if bias.all fun b => match b with | .negInf => true | _ => false then none else some bias

namespace GrammarStream

variable (s : GrammarStream σ) (i : Round)

/-- The loop ends; whatever it returns, the puller reports the end of the channel as `Eos`. -/
def finish (cause : Cause) : GrammarStream σ := { s with ended := some ⟨cause, .eos⟩ }

/-- The rest of a round, once the matcher has consumed the token. -/
def send (g : GrammarMatcher σ) (token : Nat) : GrammarStream σ :=
  if i.hungUp then { s with matcher := some g }.finish .hungUp
  else if r.engine.isStopped g.matcher then
    { s with matcher := some g, handed := s.handed ++ [token] }.finish .completed
  else { s with matcher := some g, handed := s.handed ++ [token], n := s.n + 1 }

/-- The logits with the bias on them. -/
def masked (bias : Logits F) : Logits F := List.zipWith addBias (r.logits s.handed) bias

/-- A round, with the bias. -/
def decode (g : GrammarMatcher σ) (bias : Logits F) : GrammarStream σ :=
  if r.eosTokenIds.contains (argmaxHost (s.masked r bias)) then s.finish .endToken
  else
    match g.observe r.engine (argmaxHost (s.masked r bias)) with
    | .error _ => s.finish .failure
    | .ok g' => s.send r i g' (argmaxHost (s.masked r bias))

/-- A round of `run_grammar_generation`. -/
def step : GrammarStream σ :=
  match s.ended, s.matcher with
  | none, some g =>
    if r.maxTokens ≤ s.n then s.finish .limit
    else if i.stopped then s.finish .stopRequested
    else
      match grammarBias r g (r.logits s.handed).length with
      | none => s.finish .failure
      | some bias => s.decode r i g bias
  | _, _ => s

/-! ## Constrained streams -/

/-- A round keeps: if it comes to a token, the mask leaves something to sample, and the matcher
consumes what is sampled, unless it is the end token. -/
def Keeps : Prop :=
  s.ended = none → s.n < r.maxTokens → i.stopped = false → ∀ g, s.matcher = some g →
    Choosable r.engine g (r.logits s.handed) ∧
      ∀ bias, grammarBias r g (r.logits s.handed).length = some bias →
        r.eosTokenIds.contains (argmaxHost (s.masked r bias)) = true ∨
          ∃ g', g.observe r.engine (argmaxHost (s.masked r bias)) = .ok g'

/-- The matcher, while the stream goes on, has consumed what was sent, all of it permitted. -/
structure Advanced (s : GrammarStream σ) : Prop where
  live : s.ended = none
  follows : ∃ g₀ g, r.built = some g₀ ∧ s.matcher = some g ∧
    r.engine.consumed g₀.matcher s.handed = some g.matcher ∧
    Permitted r.engine g₀.matcher s.handed

/-- `Constrained`, of a stream. -/
def Constrained : Prop := Grammar.Constrained r.engine r.built s.handed s.ended

variable {r s i}

omit [LinearOrder F] [Zero F] in
theorem Advanced.permittedBy (h : s.Advanced r) : PermittedBy r.engine r.built s.handed := by
  obtain ⟨g₀, g, hbuilt, -, -, hpermitted⟩ := h.follows
  exact (permittedBy_iff hbuilt _).2 hpermitted

omit [LinearOrder F] [Zero F] in
theorem Advanced.constrained (h : s.Advanced r) : s.Constrained r := by
  unfold GrammarStream.Constrained
  rw [h.live]
  exact constrained_live h.permittedBy

end GrammarStream

omit [LinearOrder F] in
/-- Where the mask leaves something there is a bias, and it says of a token what the mask does. -/
theorem exists_grammarBias {r : GrammarRun F σ} {g : GrammarMatcher σ} {logits : Logits F}
    (h : Choosable r.engine g logits) :
    ∃ bias, grammarBias r g logits.length = some bias ∧ ∀ token,
      bias[token]? = if token < logits.length then
        some (if r.engine.allows g.matcher token = true then .fin 0 else .negInf) else none := by
  obtain ⟨bias, hbias⟩ := h.applyMask_ok (replicate logits.length (.fin (0 : F)))
  have hget : ∀ token, bias[token]? = if token < logits.length then
      some (if r.engine.allows g.matcher token = true then .fin 0 else .negInf) else none := by
    intro token
    rw [GrammarMatcher.applyMask_getElem? (by simpa using h.vocab) hbias, getElem?_replicate]
    by_cases hlt : token < logits.length <;> simp [hlt]
  refine ⟨bias, ?_, hget⟩
  obtain ⟨token, x, hx, hallows⟩ := h.choice
  have hlt : token < logits.length := by
    by_contra hge
    rw [getElem?_eq_none (Nat.le_of_not_lt hge)] at hx
    cases hx
  have hzero : Logit.fin 0 ∈ bias :=
    mem_of_getElem? (i := token) (by rw [hget, if_pos hlt, if_pos hallows])
  unfold grammarBias
  rw [hbias]
  dsimp only
  rw [if_neg]
  intro hall
  simpa using all_eq_true.1 hall _ hzero

namespace GrammarStream

variable {r : GrammarRun F σ} {s : GrammarStream σ} {i : Round}

/-- The token of a round is allowed. -/
theorem allows_argmaxHost {g : GrammarMatcher σ} {bias : Logits F}
    (h : Choosable r.engine g (r.logits s.handed))
    (hget : ∀ token, bias[token]? = if token < (r.logits s.handed).length then
      some (if r.engine.allows g.matcher token = true then .fin 0 else .negInf) else none) :
    r.engine.allows g.matcher (argmaxHost (s.masked r bias)) = true := by
  have hmasked : ∀ token, (s.masked r bias)[token]? = ((r.logits s.handed)[token]?).map
      fun logit => addBias logit
        (if r.engine.allows g.matcher token = true then .fin 0 else .negInf) := by
    intro token
    rw [masked, getElem?_zipWith, hget]
    by_cases hlt : token < (r.logits s.handed).length
    · rw [getElem?_eq_getElem hlt, if_pos hlt]
      rfl
    · rw [getElem?_eq_none (Nat.le_of_not_lt hlt)]
      rfl
  obtain ⟨token, x, hx, hallows⟩ := h.choice
  have hchoice : ∃ v ∈ s.masked r bias, exceeds v .negInf = true := by
    refine ⟨.fin x, mem_of_getElem? (i := token) ?_, rfl⟩
    rw [hmasked, hx]
    simp [hallows, addBias]
  obtain ⟨v, hv, hexceeds⟩ := getElem?_argmaxHost hchoice
  rw [hmasked] at hv
  obtain ⟨logit, -, rfl⟩ := Option.map_eq_some_iff.1 hv
  by_contra hnot
  rw [if_neg hnot, exceeds_addBias_negInf] at hexceeds
  cases hexceeds

/-- A round ends a stream as it may, or goes on with it. -/
theorem Advanced.step (h : s.Advanced r) (hkeeps : s.Keeps r i) :
    (s.step r i).Advanced r ∨ (s.step r i).ended.isSome = true ∧ (s.step r i).Constrained r := by
  have hfinish : ∀ cause, cause.asked = true →
      (s.finish cause).ended.isSome = true ∧ (s.finish cause).Constrained r :=
    fun cause hasked => ⟨rfl, constrained_ended h.permittedBy hasked⟩
  obtain ⟨g₀, g, hbuilt, hmatcher, hconsumed, hpermitted⟩ := h.follows
  unfold GrammarStream.step
  rw [h.live, hmatcher]
  dsimp only
  split
  · exact .inr (hfinish _ rfl)
  next hbudget =>
  split
  · exact .inr (hfinish _ rfl)
  next hgoes =>
  obtain ⟨hrow, hconsumes⟩ :=
    hkeeps h.live (Nat.lt_of_not_le hbudget) (by simpa using hgoes) g hmatcher
  obtain ⟨bias, hbias, hget⟩ := exists_grammarBias hrow
  have hallows := allows_argmaxHost hrow hget
  have htoken := hconsumes bias hbias
  rw [hbias]
  dsimp only
  unfold decode
  generalize argmaxHost (s.masked r bias) = token at hallows htoken ⊢
  split
  · exact .inr (hfinish _ rfl)
  next hnot =>
  obtain ⟨g', hobserve⟩ := htoken.resolve_left hnot
  have hon : Permitted r.engine g₀.matcher (s.handed ++ [token]) :=
    hpermitted.snoc hconsumed hallows
  rw [hobserve]
  dsimp only
  unfold send
  split
  · exact .inr (hfinish _ rfl)
  split
  · exact .inr ⟨rfl, constrained_ended ((permittedBy_iff hbuilt _).2 hon) rfl⟩
  · exact .inl ⟨h.live, g₀, g', hbuilt, rfl,
      r.engine.consumed_snoc hconsumed (GrammarMatcher.observe_ok hobserve), hon⟩

/-- The rule for whole streams. -/
theorem always_constrained (hbuilt : r.built.isSome = true) {rounds : List Round}
    (hstart : r.start = some s)
    (hkeeps : EveryStep (fun i t => some (GrammarStream.step r t i)) (fun t i => t.Keeps r i) rounds
      s) :
    Always (fun i t => some (GrammarStream.step r t i)) (GrammarStream.Constrained r) rounds s := by
  have hadvanced : s.Advanced r := by
    obtain ⟨g, hg⟩ := Option.isSome_iff_exists.1 hbuilt
    unfold GrammarRun.start at hstart
    split at hstart
    · simp only [hg, Option.some.injEq] at hstart
      rw [← hstart]
      exact ⟨rfl, g, g, hg, rfl, rfl, permitted_nil r.engine g.matcher⟩
    · cases hstart
  refine always_of_live (E := fun t => t.ended.isSome = true) (fun t i ht hk => ht.step hk)
    (fun t i hended => ?_) (fun t ht => ht.constrained) hadvanced hkeeps
  obtain ⟨e, he⟩ := Option.isSome_iff_exists.1 hended
  simp [GrammarStream.step, he]

end GrammarStream

end Mlxcel
end Gen2
