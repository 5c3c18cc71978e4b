import Gen2.Backend.Grammar
import Gen2.Lib.Run

/-!
# The llama puller, with a grammar

`Session::pull` and `TokenPuller` of `backend/llama`, for a pull of text that asks for a grammar.
The model, the sampler chain of llama.cpp, the end tokens and the stop patterns are parameters.
Such a pull neither drafts nor speaks.

* `PullSetup.pull` builds the matcher, `TokenPuller.sampleOne` masks, samples and advances it, and
  `TokenPuller.next` is one round of the iterator.
* `TokenPuller.Keeps` is the condition on a round under which it stays constrained.
* `always_constrained`: the stream of a pull whose matcher was built, or had to be, is constrained
  as long as every round keeps.
-/

namespace Gen2
namespace Llama

open Lib Grammar

/-! ## A pull -/

/-- What a pull that asks for a grammar is given: `sample` is the sampler chain, after the tokens it
accepted, on the logits it is shown. -/
structure PullSetup (F σ : Type) where
  engine : Matcher σ
  /-- `GrammarOwner::matcher`, for the grammar asked for; `none` is an error. -/
  built : Option (GrammarMatcher σ)
  requireFullContext : Bool
  /-- There is a `RequestContext`. -/
  strict : Bool
  /-- The logits after the tokens decoded since the pull began. -/
  logits : List Nat → Logits F
  sample : List Nat → Logits F → Nat
  isEogToken : Nat → Bool
  extraEnd : Option Nat
  completes : List Nat → Bool
  maxTokens : Option Nat

/-- What a round meets: the flags of the session, and whether decoding the token, or its text,
fails. -/
structure PullMoment where
  stopped : Bool
  paused : Bool
  decodeFails : Bool
  pieceFails : Bool

/-- `TokenPuller`, and the tokens that went through its filter. -/
structure TokenPuller (σ : Type) where
  grammar : Option (GrammarMatcher σ)
  produced : Nat
  handed : List Nat
  ended : Option Ending

variable {F σ : Type} (c : PullSetup F σ)

namespace PullSetup

/-- `Session::build_sampler_and_grammar`, and the puller made with it; `none` if the pull fails. -/
def pull : Option (TokenPuller σ) :=
  match c.built with
  | some g => some ⟨some g, 0, [], none⟩
  | none => if c.requireFullContext then none else some ⟨none, 0, [], none⟩

/-- `TokenPuller::is_text_end`. -/
def isTextEnd (token : Nat) : Bool := c.extraEnd == some token || c.isEogToken token

end PullSetup

namespace TokenPuller

variable (p : TokenPuller σ) (i : PullMoment)

/-- The stream ends. -/
def finish (cause : Cause) (report : Report) : TokenPuller σ :=
  { p with ended := some ⟨cause, report⟩ }

/-- `TokenPuller::sample_one`: the token and the matcher after it, or an error. -/
def sampleOne : Option (Nat × Option (GrammarMatcher σ)) :=
  match p.grammar with
  | none => some (c.sample p.handed (c.logits p.handed), none)
  | some g =>
    match g.applyMask c.engine (c.logits p.handed) with
    | .error _ => none
    | .ok masked =>
      match g.observe c.engine (c.sample p.handed masked) with
      | .ok g' => some (c.sample p.handed masked, some g')
      | .error g' =>
        if c.strict && !(c.engine.isAccepting g.matcher && c.isEogToken (c.sample p.handed masked))
        then none
        else some (c.sample p.handed masked, some g')

/-- `OutputFilter::push_token`, for a token that counts. -/
def pushToken (token : Nat) : TokenPuller σ :=
  { p with
    produced := p.produced + 1
    handed := p.handed ++ [token]
    ended := if c.completes (p.handed ++ [token]) then some ⟨.stopPattern, .eos⟩ else p.ended }

/-- What follows the sampled token. -/
def settle (token : Nat) : TokenPuller σ :=
  if c.isTextEnd token then p.finish .endToken .eos
  else if i.decodeFails || i.pieceFails then p.finish .failure .error
  else p.pushToken c token

/-- `TokenPuller::next`, one round of its loop. -/
def next : TokenPuller σ :=
  if p.ended.isSome then p
  else if i.stopped then p.finish .stopRequested .stopped
  else if i.paused then p
  else if c.maxTokens.any (· ≤ p.produced) then p.finish .limit .eos
  else
    match p.sampleOne c with
    | none => p.finish .failure .error
    | some (token, grammar) => { p with grammar }.settle c i token

/-! ## Constrained streams -/

/-- A round keeps: where a mask is put on the logits something is left to sample; and the token
sampled ends the stream, or the matcher consumes it, unless it is strict, and no stop pattern is
complete. -/
def Keeps : Prop :=
  p.ended = none → ∀ g masked, p.grammar = some g →
    g.applyMask c.engine (c.logits p.handed) = .ok masked →
    Answerable c.engine g (c.logits p.handed) ∧
      (c.isTextEnd (c.sample p.handed masked) = true ∨
        (c.strict = true ∨ ∃ g', g.observe c.engine (c.sample p.handed masked) = .ok g') ∧
          c.completes (p.handed ++ [c.sample p.handed masked]) = false)

/-- While the stream goes on the matcher has consumed what was handed over, all of it permitted. -/
structure Advanced (p : TokenPuller σ) : Prop where
  live : p.ended = none
  follows : ∃ g₀ g, c.built = some g₀ ∧ p.grammar = some g ∧
    c.engine.consumed g₀.matcher p.handed = some g.matcher ∧
    Permitted c.engine g₀.matcher p.handed

/-- `Constrained`, of a puller. -/
def Constrained : Prop := Grammar.Constrained c.engine c.built p.handed p.ended

variable {c p i}

theorem Advanced.permittedBy (h : p.Advanced c) : PermittedBy c.engine c.built p.handed := by
  obtain ⟨g₀, g, hbuilt, -, -, hpermitted⟩ := h.follows
  exact (permittedBy_iff hbuilt _).2 hpermitted

theorem Advanced.constrained (h : p.Advanced c) : p.Constrained c := by
  unfold TokenPuller.Constrained
  rw [h.live]
  exact constrained_live h.permittedBy

/-- A round ends a stream with an error or as it may, or goes on with it. -/
theorem Advanced.next (h : p.Advanced c) (hsample : ∀ tokens, Careful (c.sample tokens))
    (hkeeps : p.Keeps c) :
    (p.next c i).Advanced c ∨ (p.next c i).ended.isSome = true ∧ (p.next c i).Constrained c := by
  have hfinish : ∀ cause report, cause.asked = true →
      (p.finish cause report).ended.isSome = true ∧ (p.finish cause report).Constrained c :=
    fun cause report hasked => ⟨rfl, constrained_ended h.permittedBy hasked⟩
  have hfail : (p.finish .failure .error).ended.isSome = true ∧
      (p.finish .failure .error).Constrained c := ⟨rfl, constrained_error _ _ _⟩
  obtain ⟨g₀, g, hbuilt, hgrammar, hconsumed, hpermitted⟩ := h.follows
  unfold TokenPuller.next
  rw [h.live]
  simp only [Option.isSome_none, Bool.false_eq_true, if_false]
  split
  · exact .inr (hfinish _ _ rfl)
  split
  · exact .inl h
  split
  · exact .inr (hfinish _ _ rfl)
  -- the mask can be put on, or the stream ends with an error
  cases hmask : g.applyMask c.engine (c.logits p.handed) with
  | error g' =>
    simp only [sampleOne, hgrammar, hmask]
    exact .inr hfail
  | ok masked =>
    obtain ⟨hrow, hharmless⟩ := hkeeps h.live g masked hgrammar hmask
    have hallows := allows_of_sampled (hsample p.handed) hrow hmask
    simp only [sampleOne, hgrammar, hmask]
    generalize c.sample p.handed masked = token at hallows hharmless ⊢
    cases hobserve : g.observe c.engine token with
    | error g' =>
      dsimp only
      split
      · next hread =>
        split at hread
        · exact .inr hfail
        · cases hread
      · next token' grammar' hread =>
        split at hread
        · cases hread
        · next hstrict =>
          obtain ⟨rfl, rfl⟩ : token = token' ∧ some g' = grammar' := by simpa using hread
          have hend : c.isTextEnd token = true := by
            rcases hharmless with hend | ⟨hstrict' | ⟨g'', hok⟩, -⟩
            · exact hend
            · have heog : c.isEogToken token = true := by
                simp only [hstrict', Bool.true_and, Bool.not_eq_true', Bool.not_eq_false,
                  Bool.and_eq_true] at hstrict
                exact hstrict.2
              simp [PullSetup.isTextEnd, heog]
            · rw [hobserve] at hok
              cases hok
          right
          simp only [settle, hend, if_true]
          exact hfinish .endToken .eos rfl
    | ok g' =>
      dsimp only
      unfold settle
      split
      · exact .inr (hfinish .endToken .eos rfl)
      split
      · exact .inr hfail
      · next hend _ =>
        left
        have hc := (hharmless.resolve_left hend).2
        refine ⟨by simp [pushToken, hc], g₀, g', hbuilt, rfl, ?_, ?_⟩
        · exact c.engine.consumed_snoc hconsumed (GrammarMatcher.observe_ok hobserve)
        · exact hpermitted.snoc hconsumed hallows

/-- The rule for whole streams. -/
theorem always_constrained (hbuilds : c.built.isSome = true ∨ c.requireFullContext = true)
    (hsample : ∀ tokens, Careful (c.sample tokens)) {moments : List PullMoment}
    (hpull : c.pull = some p)
    (hkeeps : EveryStep (fun i q => some (TokenPuller.next c q i)) (fun q _ => q.Keeps c) moments
      p) :
    Always (fun i q => some (TokenPuller.next c q i)) (TokenPuller.Constrained c) moments p := by
  have hstart : p.Advanced c := by
    unfold PullSetup.pull at hpull
    cases hbuilt : c.built with
    | none =>
      have hfull : c.requireFullContext = true := by simpa [hbuilt] using hbuilds
      simp [hbuilt, hfull] at hpull
    | some g =>
      simp only [hbuilt, Option.some.injEq] at hpull
      rw [← hpull]
      exact ⟨rfl, g, g, hbuilt, rfl, rfl, permitted_nil c.engine g.matcher⟩
  exact always_of_live (E := fun q => q.ended.isSome = true) (fun q i hq hk => hq.next hsample hk)
    (fun q i hended => by simp [TokenPuller.next, hended]) (fun q hq => hq.constrained) hstart
    hkeeps

end TokenPuller

end Llama
end Gen2
