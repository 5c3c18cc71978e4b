import Mathlib.Tactic.Common

/-!
# Grammar-constrained decoding

`backend/common/grammar.rs`: the matcher that masks the logits before a token is sampled and is
advanced with the token that was.  The engine behind it is a parameter here, `Matcher`.

* `GrammarMatcher.applyMask` and `GrammarMatcher.observe` are the two calls a backend makes; both
  can fail.
* `Permitted M s ts` says that each token of `ts` is one the mask allows where it stands, the engine
  being in state `s` before the first and having consumed the ones in between.
* `Careful sample` is what is asked of a sampler: it stays clear of the masked entries.
* `Constrained` is what a caller who asked for a grammar may rely on, of a stream so far.
* `allows_of_sampled`: a careful sampler picks an allowed token off a masked row.
-/

namespace Gen2

open List

/-- An `f32` among the logits of a row. -/
inductive Logit (F : Type)
  | nan
  | negInf
  | fin (x : F)
  | inf
  deriving DecidableEq

/-- One logit for each token of the model's vocabulary. -/
abbrev Logits (F : Type) := List (Logit F)

namespace Grammar

/-- `llguidance::Matcher`.  An error leaves it in a state of its own. -/
structure Matcher (σ : Type) where
  computeMaskOrEos : σ → Except σ (Nat → Bool)
  consumeToken : σ → Nat → Except σ σ
  isAccepting : σ → Bool
  isStopped : σ → Bool

/-- `GrammarMatcher`. -/
structure GrammarMatcher (σ : Type) where
  matcher : σ
  vocabSize : Nat

variable {F σ : Type} (M : Matcher σ)

namespace GrammarMatcher

/-- `GrammarMatcher::apply_mask`.  Entries past the end of the vocabulary stay as they are. -/
def applyMask (g : GrammarMatcher σ) (logits : Logits F) :
    Except (GrammarMatcher σ) (Logits F) :=
  match M.computeMaskOrEos g.matcher with
  | .error s => .error { g with matcher := s }
  | .ok mask => .ok (logits.mapIdx fun i logit =>
      if i < min logits.length g.vocabSize ∧ mask i = false then .negInf else logit)

/-- `GrammarMatcher::observe`. -/
def observe (g : GrammarMatcher σ) (token : Nat) :
    Except (GrammarMatcher σ) (GrammarMatcher σ) :=
  match M.consumeToken g.matcher token with
  | .error s => .error { g with matcher := s }
  | .ok s => .ok { g with matcher := s }

end GrammarMatcher

/-! ## What a mask allows -/

/-- The mask computed in state `s` allows the token. -/
def Matcher.allows (s : σ) (token : Nat) : Bool :=
  match M.computeMaskOrEos s with
  | .error _ => false
  | .ok mask => mask token

/-- The state after a sequence of tokens, each of which is consumed without an error. -/
def Matcher.consumed (s : σ) : List Nat → Option σ
  | [] => some s
  | t :: ts =>
    match M.consumeToken s t with
    | .error _ => none
    | .ok s' => consumed s' ts

/-- Each token is one the mask allows where it stands. -/
def Permitted (s : σ) (tokens : List Nat) : Prop :=
  ∀ front token, front ++ [token] <+: tokens →
    ∃ s', M.consumed s front = some s' ∧ M.allows s' token = true

theorem permitted_nil (s : σ) : Permitted M s [] := by
  intro front token h
  simp at h

variable {M} in
/-- One more token. -/
theorem Permitted.snoc {s s' : σ} {tokens : List Nat} {token : Nat} (h : Permitted M s tokens)
    (hs : M.consumed s tokens = some s') (ht : M.allows s' token = true) :
    Permitted M s (tokens ++ [token]) := by
  intro front t hprefix
  rcases prefix_concat_iff.1 hprefix with heq | hearlier
  · obtain ⟨rfl, heq⟩ := append_inj' heq rfl
    obtain rfl : t = token := by simpa using heq
    exact ⟨s', hs, ht⟩
  · exact h front t hearlier

theorem Matcher.consumed_append (s : σ) (ts us : List Nat) :
    M.consumed s (ts ++ us) = (M.consumed s ts).bind fun s' => M.consumed s' us := by
  induction ts generalizing s with
  | nil => rfl
  | cons t ts ih =>
    simp only [cons_append, Matcher.consumed]
    cases M.consumeToken s t with
    | error _ => rfl
    | ok s' => exact ih s'

theorem Matcher.consumed_snoc {s s' : σ} {tokens : List Nat} (h : M.consumed s tokens = some s')
    {token : Nat} {s'' : σ} (ht : M.consumeToken s' token = .ok s'') :
    M.consumed s (tokens ++ [token]) = some s'' := by
  simp [Matcher.consumed_append, h, Matcher.consumed, ht]

/-! ## Sampling off a masked row -/

/-- The mask covers the row and leaves a number in it. -/
structure Choosable (g : GrammarMatcher σ) (logits : Logits F) : Prop where
  vocab : logits.length ≤ g.vocabSize
  choice : ∃ token x, logits[token]? = some (.fin x) ∧ M.allows g.matcher token = true

/-- Besides, every logit of the row is a number or masked already. -/
structure Answerable (g : GrammarMatcher σ) (logits : Logits F) : Prop
    extends Choosable M g logits where
  numbers : ∀ logit ∈ logits, logit ≠ .nan ∧ logit ≠ .inf

/-- Of a row of numbers and masked entries, a number is picked if there is one. -/
def Careful (pick : Logits F → Nat) : Prop :=
  ∀ logits : Logits F, (∀ logit ∈ logits, logit ≠ .nan ∧ logit ≠ .inf) →
    (∃ x, .fin x ∈ logits) → ∃ x, logits[pick logits]? = some (.fin x)

variable {M}

/-- What is not masked is allowed. -/
theorem GrammarMatcher.applyMask_getElem? {g : GrammarMatcher σ} {logits masked : Logits F}
    (hvocab : logits.length ≤ g.vocabSize) (h : g.applyMask M logits = .ok masked) (token : Nat) :
    masked[token]? = (logits[token]?).map fun logit =>
      if M.allows g.matcher token = true then logit else .negInf := by
  unfold GrammarMatcher.applyMask at h
  cases hmask : M.computeMaskOrEos g.matcher with
  | error s => simp [hmask] at h
  | ok mask =>
    simp only [hmask, Except.ok.injEq] at h
    have hallows : M.allows g.matcher token = mask token := by simp [Matcher.allows, hmask]
    rw [← h, getElem?_mapIdx, hallows]
    by_cases hlt : token < logits.length
    · have hlt' : token < min logits.length g.vocabSize := by omega
      cases mask token <;> simp [hlt']
    · simp [getElem?_eq_none (Nat.le_of_not_lt hlt)]

/-- A mask that leaves something can be computed, whatever it is put on. -/
theorem Choosable.applyMask_ok {g : GrammarMatcher σ} {logits : Logits F}
    (h : Choosable M g logits) (row : Logits F) : ∃ masked, g.applyMask M row = .ok masked := by
  obtain ⟨token, -, -, hallows⟩ := h.choice
  unfold GrammarMatcher.applyMask
  cases hmask : M.computeMaskOrEos g.matcher with
  | error s => simp [Matcher.allows, hmask] at hallows
  | ok mask => exact ⟨_, rfl⟩

/-- What the matcher has consumed. -/
theorem GrammarMatcher.observe_ok {g g' : GrammarMatcher σ} {token : Nat}
    (h : g.observe M token = .ok g') : M.consumeToken g.matcher token = .ok g'.matcher := by
  unfold GrammarMatcher.observe at h
  cases hconsume : M.consumeToken g.matcher token with
  | error s => simp [hconsume] at h
  | ok s =>
    simp only [hconsume, Except.ok.injEq] at h
    rw [← h]

/-- **A careful sampler picks an allowed token off a masked row.** -/
theorem allows_of_sampled {pick : Logits F → Nat} (hpick : Careful pick) {g : GrammarMatcher σ}
    {logits masked : Logits F} (hrow : Answerable M g logits)
    (h : g.applyMask M logits = .ok masked) : M.allows g.matcher (pick masked) = true := by
  have hget := GrammarMatcher.applyMask_getElem? hrow.vocab h
  have hnumbers : ∀ logit ∈ masked, logit ≠ .nan ∧ logit ≠ .inf := by
    intro logit hmem
    obtain ⟨i, hi⟩ := mem_iff_getElem?.1 hmem
    rw [hget i] at hi
    obtain ⟨l, hl, rfl⟩ := Option.map_eq_some_iff.1 hi
    split
    · exact hrow.numbers l (mem_of_getElem? hl)
    · simp
  have hfin : ∃ x, Logit.fin x ∈ masked := by
    obtain ⟨token, x, hx, hallows⟩ := hrow.choice
    exact ⟨x, mem_of_getElem? (by rw [hget token, hx]; simp [hallows])⟩
  obtain ⟨x, hx⟩ := hpick masked hnumbers hfin
  rw [hget] at hx
  obtain ⟨l, -, hl⟩ := Option.map_eq_some_iff.1 hx
  by_contra hnot
  simp [hnot] at hl

/-! ## What a stream keeps to -/

/-- Why a stream ended. -/
inductive Cause
  | endToken
  | completed
  | limit
  | stopRequested
  | hungUp
  | stopPattern
  | loopDetected
  | exhausted
  | failure
  deriving DecidableEq

/-- What the last event of a stream says: `Eos`, `Stopped` or an error. -/
inductive Report
  | eos
  | stopped
  | error
  deriving DecidableEq

structure Ending where
  cause : Cause
  report : Report
  deriving DecidableEq

/-- The model, the grammar or the caller ended the stream. -/
def Cause.asked : Cause → Bool
  | .endToken | .completed | .limit | .stopRequested | .hungUp => true
  | .stopPattern | .loopDetected | .exhausted | .failure => false

/-- The tokens so far are those the grammar permits; of a matcher that was never built there are
none. -/
def PermittedBy (M : Matcher σ) (built : Option (GrammarMatcher σ)) (tokens : List Nat) : Prop :=
  match built with
  | none => tokens = []
  | some g => Permitted M g.matcher tokens

theorem permittedBy_iff {M : Matcher σ} {built : Option (GrammarMatcher σ)} {g : GrammarMatcher σ}
    (h : built = some g) (tokens : List Nat) :
    PermittedBy M built tokens ↔ Permitted M g.matcher tokens := by
  rw [h]
  rfl

/-- **Constrained or refused**: the stream ended with an error, or its tokens are permitted and, if
it has ended, it was asked to. -/
def Constrained (M : Matcher σ) (built : Option (GrammarMatcher σ)) (tokens : List Nat)
    (ended : Option Ending) : Prop :=
  (∃ e, ended = some e ∧ e.report = .error) ∨
    PermittedBy M built tokens ∧ ∀ e, ended = some e → e.cause.asked = true

/-- `Constrained`, of a stream that goes on. -/
theorem constrained_live {built : Option (GrammarMatcher σ)} {tokens : List Nat}
    (h : PermittedBy M built tokens) : Constrained M built tokens none :=
  .inr ⟨h, fun _ he => nomatch he⟩

/-- `Constrained`, of a stream that has ended. -/
theorem constrained_ended {built : Option (GrammarMatcher σ)} {tokens : List Nat} {e : Ending}
    (h : PermittedBy M built tokens) (he : e.cause.asked = true) :
    Constrained M built tokens (some e) := by
  refine .inr ⟨h, fun e' he' => ?_⟩
  obtain rfl := Option.some.inj he'
  exact he

/-- `Constrained`, of a stream that ended with an error. -/
theorem constrained_error (built : Option (GrammarMatcher σ)) (tokens : List Nat) (cause : Cause) :
    Constrained M built tokens (some ⟨cause, .error⟩) :=
  .inl ⟨_, rfl, rfl⟩

end Grammar
end Gen2
