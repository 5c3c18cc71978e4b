import Gen2.Backend.Mlx.Puller
import Gen2.Lib.Run

/-!
# MLX pulls with a grammar

What `Session::pull` of `backend/mlx` gives a caller who asks for a grammar: the autoregressive
puller, or the canvas of a DiffusionGemma, which does not look at the grammar.

* `TokenPuller` is the puller of either kind, and `TokenPuller.next` one step of it.
* `ArPuller.KeepsGrammar` is the condition on a step under which the stream stays constrained.
* `always_constrained`: the stream of an autoregressive model whose matcher was built is constrained
  as long as every step keeps.
-/

namespace Gen2
namespace Mlx

open Lib Grammar

variable {F σ : Type} (m : Loaded F σ) (sp : PullSpec F σ)

/-- `TokenPuller`: for a canvas, the tokens to come, those handed over, and how the stream ended. -/
inductive TokenPuller (F σ : Type)
  | ar (p : ArPuller F σ)
  | precomputed (tokens handed : List Nat) (ended : Option Ending)

namespace TokenPuller

/-- `Session::pull`, with the canvas of a diffusion model, cut down to the token limit. -/
def pull (canvas : Option (List Nat)) (st : DecodeState F) : TokenPuller F σ :=
  match canvas with
  | none => .ar (.start sp st)
  | some tokens => .precomputed (tokens.take (sp.maxTokens.getD tokens.length)) [] none

/-- `TokenPuller::next_inner`, one step of it. -/
def next (i : Moment) : TokenPuller F σ → TokenPuller F σ
  | .ar p => .ar (p.stepOnce m sp i)
  | .precomputed (t :: ts) handed none => .precomputed ts (handed ++ [t]) none
  | .precomputed [] handed none => .precomputed [] handed (some ⟨.exhausted, .eos⟩)
  | .precomputed tokens handed (some e) => .precomputed tokens handed (some e)

/-- What was handed over. -/
def handed : TokenPuller F σ → List Nat
  | .ar p => p.handed
  | .precomputed _ handed _ => handed

/-- How the stream ended. -/
def ended : TokenPuller F σ → Option Ending
  | .ar p => p.ended
  | .precomputed _ _ ended => ended

/-- `Constrained`, of a puller. -/
def Constrained (q : TokenPuller F σ) : Prop :=
  Grammar.Constrained m.engine sp.grammar q.handed q.ended

end TokenPuller

namespace ArPuller

variable (p : ArPuller F σ) (i : Moment)

/-- The logits that the next token is sampled off. -/
def row : Logits F := p.state.pendingLogits.getD (p.state.answer m [p.state.lastToken])

/-- The step comes to a token. -/
def samples : Bool :=
  !i.stopped && !i.paused && !sp.limitReached p.produced &&
    (p.state.pendingLogits.isSome || i.panics.isNone)

/-- A step keeps: if it comes to a token, that is a stop id; or the mask leaves something to sample,
the matcher consumes the token, no loop is found with it and no stop pattern is complete. -/
def KeepsGrammar : Prop :=
  p.ended = none → p.samples sp i = true → ∀ g, p.grammar = some g →
    p.stops m sp (p.sampleWithGrammar m sp (p.row m)).1 = true ∨
      Answerable m.engine g (p.row m) ∧
      (∃ g', g.observe m.engine (p.sampleWithGrammar m sp (p.row m)).1 = .ok g') ∧
      p.loopsWith sp (p.sampleWithGrammar m sp (p.row m)).1 = false ∧
      sp.completes (p.handed ++ [(p.sampleWithGrammar m sp (p.row m)).1]) = false

/-- While the stream goes on the matcher has consumed what was handed over, all of it permitted. -/
structure Advanced (p : ArPuller F σ) : Prop where
  live : p.ended = none
  follows : ∃ g₀ g, sp.grammar = some g₀ ∧ p.grammar = some g ∧
    m.engine.consumed g₀.matcher p.handed = some g.matcher ∧
    Permitted m.engine g₀.matcher p.handed

variable {m sp p i}

theorem Advanced.permittedBy (h : p.Advanced m sp) :
    PermittedBy m.engine sp.grammar p.handed := by
  obtain ⟨g₀, g, hbuilt, -, -, hpermitted⟩ := h.follows
  exact (permittedBy_iff hbuilt _).2 hpermitted

/-- The token is sampled off the row, and the stream ends as it may, or goes on. -/
theorem Advanced.settle (h : p.Advanced m sp) (hsample : ∀ tokens, Careful (sp.sample tokens 0))
    {logits : Logits F} (hkeeps : ∀ g, p.grammar = some g →
      p.stops m sp (p.sampleWithGrammar m sp logits).1 = true ∨
        Answerable m.engine g logits ∧
        (∃ g', g.observe m.engine (p.sampleWithGrammar m sp logits).1 = .ok g') ∧
        p.loopsWith sp (p.sampleWithGrammar m sp logits).1 = false ∧
        sp.completes (p.handed ++ [(p.sampleWithGrammar m sp logits).1]) = false) :
    (p.settle m sp logits).Advanced m sp ∨ (p.settle m sp logits).ended.isSome = true ∧
      Grammar.Constrained m.engine sp.grammar (p.settle m sp logits).handed
        (p.settle m sp logits).ended := by
  obtain ⟨g₀, g, hbuilt, hgrammar, hconsumed, hpermitted⟩ := h.follows
  unfold ArPuller.settle
  rcases hkeeps g hgrammar with hstop | ⟨hrow, ⟨g', hobserve⟩, hloop, hc⟩
  · have hstop' : (p.sampleOff m sp logits).stops m sp
        (p.sampleWithGrammar m sp logits).1 = true := hstop
    right
    unfold emit
    rw [if_pos hstop']
    exact ⟨rfl, constrained_ended h.permittedBy rfl⟩
  · obtain ⟨masked, hmask⟩ := hrow.applyMask_ok logits
    have hallows := allows_of_sampled (hsample p.observed) hrow hmask
    have htoken : (p.sampleWithGrammar m sp logits).1 = sp.sample p.observed 0 masked := by
      simp only [sampleWithGrammar, hgrammar, hmask]
      split <;> rfl
    have hafter : p.sampleWithGrammar m sp logits = (sp.sample p.observed 0 masked, some g') := by
      rw [htoken] at hobserve
      simp only [sampleWithGrammar, hgrammar, hmask, hobserve]
    rw [htoken] at hobserve hloop hc ⊢
    by_cases hstop : (p.sampleOff m sp logits).stops m sp (sp.sample p.observed 0 masked) = true
    · right
      unfold emit
      rw [if_pos hstop]
      exact ⟨rfl, constrained_ended h.permittedBy rfl⟩
    · left
      have hends : (p.sampleOff m sp logits).ends m sp (sp.sample p.observed 0 masked) = false := by
        have hloop' : (p.sampleOff m sp logits).loopsWith sp
            (sp.sample p.observed 0 masked) = false := hloop
        simp [ends, hstop, hloop']
      rw [emit_of_not_ends hends]
      have hc' : sp.completes ((p.sampleOff m sp logits).handed ++
        [sp.sample p.observed 0 masked]) = false := hc
      refine ⟨?_, g₀, g', hbuilt, congrArg Prod.snd hafter, ?_, ?_⟩
      · simp only [pushToken, hc', Bool.false_eq_true, if_false]
        exact h.live
      · exact m.engine.consumed_snoc hconsumed (GrammarMatcher.observe_ok hobserve)
      · exact hpermitted.snoc hconsumed hallows

/-- A step ends a stream with an error or as it may, or goes on with it. -/
theorem Advanced.stepOnce (h : p.Advanced m sp) (hsample : ∀ tokens, Careful (sp.sample tokens 0))
    (hkeeps : p.KeepsGrammar m sp i) :
    (p.stepOnce m sp i).Advanced m sp ∨ (p.stepOnce m sp i).ended.isSome = true ∧
      Grammar.Constrained m.engine sp.grammar (p.stepOnce m sp i).handed
        (p.stepOnce m sp i).ended := by
  have hfinish : ∀ cause report, cause.asked = true →
      (p.finish cause report).ended.isSome = true ∧
        Grammar.Constrained m.engine sp.grammar (p.finish cause report).handed
          (p.finish cause report).ended :=
    fun cause report hasked => ⟨rfl, constrained_ended h.permittedBy hasked⟩
  obtain ⟨g, hgrammar⟩ : ∃ g, p.grammar = some g :=
    h.follows.elim fun _ h => h.imp fun _ h => h.2.1
  have hserial : p.fastPipelineEligible m sp = false := by
    simp [fastPipelineEligible, hgrammar]
  have hdrafts : p.drafts sp i = [] := by simp [drafts, hgrammar]
  have hkeeps := hkeeps h.live
  unfold ArPuller.stepOnce
  rw [h.live, hserial]
  unfold samples row at hkeeps
  cases hstopped : i.stopped with
  | true => exact .inr (hfinish _ _ rfl)
  | false =>
    cases hpaused : i.paused with
    | true => exact .inl h
    | false =>
      cases hlimit : sp.limitReached p.produced with
      | true => exact .inr (hfinish _ _ rfl)
      | false =>
        rw [hstopped, hpaused, hlimit] at hkeeps
        simp only [Option.isSome_none, Bool.false_eq_true, if_false]
        unfold stepSerial
        cases hpending : p.state.pendingLogits with
        | some logits =>
          rw [hpending] at hkeeps
          exact h.settle hsample (hkeeps rfl)
        | none =>
          rw [hpending] at hkeeps
          dsimp only
          rw [hdrafts]
          unfold stepSingle
          cases hpanics : i.panics with
          | some cells => exact .inr ⟨rfl, constrained_error _ _ _⟩
          | none =>
            rw [hpanics] at hkeeps
            have hfed : (p.fedLast m).Advanced m sp := ⟨h.live, h.follows⟩
            exact hfed.settle hsample (hkeeps rfl)

end ArPuller

/-- The rule for whole streams. -/
theorem always_constrained {m : Loaded F σ} {sp : PullSpec F σ}
    (hbuilt : sp.grammar.isSome = true) (hsample : ∀ tokens, Careful (sp.sample tokens 0))
    (st : DecodeState F) {moments : List Moment}
    (hkeeps : EveryStep (fun i q => some (TokenPuller.next m sp i q))
      (fun q i => ∀ p, q = .ar p → p.KeepsGrammar m sp i) moments (TokenPuller.pull sp none st)) :
    Always (fun i q => some (TokenPuller.next m sp i q)) (TokenPuller.Constrained m sp) moments
      (TokenPuller.pull sp none st) := by
  obtain ⟨g, hg⟩ := Option.isSome_iff_exists.1 hbuilt
  have hstart : (ArPuller.start sp st).Advanced m sp :=
    ⟨rfl, g, g, hg, hg, rfl, permitted_nil m.engine g.matcher⟩
  refine always_of_live (A := fun q => ∃ p : ArPuller F σ, q = .ar p ∧ p.Advanced m sp)
    (E := fun q => ∃ p : ArPuller F σ, q = .ar p ∧ p.ended.isSome = true) ?_ ?_ ?_
    ⟨_, rfl, hstart⟩ hkeeps
  · rintro q i ⟨p, rfl, hp⟩ hk
    exact (hp.stepOnce hsample (hk p rfl)).imp (fun h => ⟨_, rfl, h⟩)
      fun h => ⟨⟨_, rfl, h.1⟩, h.2⟩
  · rintro q i ⟨p, rfl, hended⟩
    simp [TokenPuller.next, ArPuller.stepOnce, hended]
  · rintro q ⟨p, rfl, hp⟩
    have hlive := constrained_live hp.permittedBy
    rw [← hp.live] at hlive
    exact hlive

end Mlx
end Gen2
