import Gen2.Backend.Mlx.Positions
import Gen2.Lib.Batch
import Mathlib.Data.List.Induction

/-!
# Drafting and single-token decoding

A pull of `backend/mlx/puller.rs` with a draft predictor, against the same pull with drafting
switched off.  The sampler's answer depends on the logits alone.

* `drafted` is the pull with drafts, and `serial` one step of it without.
* `CleanBatch` says of a batch that the cache is cut down to what was accepted, and that nothing in
  it ends the stream before its last token.
* `stepOnce_eq_iterate`: a step whose batch is clean does what some steps of the single-token decode
  do, in every field of the puller.
* `drafted_iff_serial` is the rule for whole pulls: where every batch is clean, the pull with drafts
  goes through states of the pull without, and ends where it ends.
-/

namespace Gen2
namespace Mlx

open Lib Grammar List

variable {F σ : Type} (m : Loaded F σ) (sp : PullSpec F σ)

/-- Drafting is switched off. -/
def PullSpec.off : PullSpec F σ := { sp with draftsOff := true }

/-- A step with these drafts that nothing else interferes with. -/
def drafting (drafts : List Nat) : Moment := ⟨false, false, drafts, none⟩

/-- The pull, with the drafts its predictor comes up with at each step. -/
def drafted (drafts : Nat → List Nat) : Nat → ArPuller F σ → ArPuller F σ :=
  iterateWith (fun ds p => p.stepOnce m sp (drafting ds)) drafts

/-- A step of the pull with drafting switched off. -/
def serial (p : ArPuller F σ) : ArPuller F σ := p.stepOnce m sp.off (drafting [])

/-- The sampler has no terms that depend on what it observed, or on the place in a batch. -/
def PullSpec.Stateless : Prop := ∀ observed k logits, sp.sample observed k logits =
  sp.sample [] 0 logits

namespace ArPuller

variable (p : ArPuller F σ)

/-- The batch that a step runs; it is empty where the step runs none. -/
def batch (ds : List Nat) : List Nat :=
  if p.ended.isSome || sp.limitReached p.produced || p.state.pendingLogits.isSome ||
      (p.fastPipelineEligible m sp && p.fastPipe.isSome) then []
  else p.drafts sp (drafting ds)

/-- A batch that does what the single-token decode does: every draft is accepted, or the rejected
ones are cut off; no stop id is among the tokens; no stop pattern is complete before the last; no
loop is found at any. -/
structure CleanBatch (drafts : List Nat) : Prop where
  cut : p.acceptedOf m sp drafts = drafts.length ∨
    if m.fast then p.state.cells.length ≤ p.state.curPos ∧ p.state.cacheLen = p.state.curPos
    else p.state.cacheLen = p.state.cells.length
  walks : walksOut m sp p.handed (p.verified m sp drafts) = true
  noLoop : ∀ front token, front ++ [token] <+: p.verified m sp drafts →
    sp.loops (p.observed ++ (front ++ [token])) = false

/-- The batch that the step runs, if it runs one, is clean. -/
def Clean (ds : List Nat) : Prop := p.batch m sp ds ≠ [] → p.CleanBatch m sp (p.batch m sp ds)

/-- The puller after it has handed over these tokens and a last one, one at a time. -/
def afterAll (front : List Nat) (token : Nat) : ArPuller F σ :=
  { p with
    state :=
      { cells := p.state.feed m (p.state.lastToken :: front)
        curPos := p.state.curPos + (front.length + 1)
        cacheLen := p.state.cacheLen + (front.length + 1)
        pendingLogits := none
        lastToken := token }
    observed := p.observed ++ (front ++ [token])
    produced := p.produced + (front.length + 1)
    handed := p.handed ++ (front ++ [token])
    ended :=
      if sp.completes (p.handed ++ (front ++ [token])) then some ⟨.stopPattern, .eos⟩
      else p.ended }

variable {m sp p}

/-! ## A batch -/

theorem take_accepted (ds ss : List Nat) :
    ds.take (accepted ds ss) = ss.take (accepted ds ss) := by
  fun_induction accepted ds ss with
  | case1 => simpa using ‹_›
  | case2 => rfl
  | case3 => rfl

variable {drafts : List Nat}

theorem getElem?_sampled {k : Nat} (hk : k ≤ drafts.length) :
    (p.sampled m sp drafts)[k]? = some (sp.sample p.observed k
      (p.state.answer m (p.state.lastToken :: drafts.take k))) := by
  rw [sampled, getElem?_map, getElem?_range (by omega)]
  rfl

variable {front : List Nat} {token : Nat}

/-- A token of a batch is the one sampled after those before it. -/
theorem eq_sample_of_verified (h : front ++ [token] <+: p.verified m sp drafts) :
    token = sp.sample p.observed front.length
      (p.state.answer m (p.state.lastToken :: front)) := by
  have hle : p.acceptedOf m sp drafts ≤ drafts.length := acceptedOf_le drafts
  rcases prefix_concat_iff.1 h with heq | hearlier
  · obtain ⟨rfl, heq⟩ := append_inj' heq rfl
    obtain rfl : token = p.bonus m sp drafts := by simpa using heq
    rw [bonus, getD_eq_getElem?_getD, getElem?_sampled hle, length_take,
      Nat.min_eq_left hle]
    rfl
  · have hfront : front = drafts.take front.length := by
      have hfront : front <+: drafts :=
        ((prefix_append front [token]).trans hearlier).trans ( take_prefix _ _)
      exact prefix_iff_eq_take.1 hfront
    have hlen : front.length < drafts.length := by
      have := hearlier.length_le
      simp only [length_append, length_singleton, length_take] at this
      omega
    have hsampled : front ++ [token] <+: p.sampled m sp drafts := by
      have htake : drafts.take (p.acceptedOf m sp drafts) =
          (p.sampled m sp drafts).take (p.acceptedOf m sp drafts) := take_accepted _ _
      rw [htake] at hearlier
      exact hearlier.trans ( take_prefix _ _)
    have hget : (p.sampled m sp drafts)[front.length]? = some token := by
      obtain ⟨rest, hrest⟩ := hsampled
      rw [← hrest]
      simp
    rw [getElem?_sampled (Nat.le_of_lt hlen), ← hfront] at hget
    exact (Option.some.inj hget).symm

variable {tokens : List Nat}

/-- The walk over a batch that it hands over whole. -/
theorem walk_of_walksOut {p : ArPuller F σ} (hended : p.ended = none) (hne : tokens ≠ [])
    (h : walksOut m sp p.handed tokens = true) :
    walk m sp tokens p = { p with
      handed := p.handed ++ tokens
      ended := if sp.completes (p.handed ++ tokens) then some ⟨.stopPattern, .eos⟩
        else p.ended } := by
  induction tokens generalizing p with
  | nil => exact absurd rfl hne
  | cons token tokens ih =>
    rw [walksOut, Bool.and_eq_true, Bool.or_eq_true, Bool.and_eq_true] at h
    obtain ⟨hstop, hrest⟩ := h
    have hstop' : m.stopIds.contains token = false := by simpa using hstop
    rw [walk, hstop', if_neg Bool.false_ne_true]
    cases tokens with
    | nil => by_cases hc : sp.completes (p.handed ++ [token]) <;> simp [pushToken, hc, hended, walk]
    | cons token' tokens =>
      obtain ⟨hc, hwalk⟩ : (!sp.completes (p.handed ++ [token])) = true ∧
          walksOut m sp (p.handed ++ [token]) (token' :: tokens) = true := by simpa using hrest
      have hc' : sp.completes (p.handed ++ [token]) = false := by simpa using hc
      have hgoes : (p.pushToken sp token).ended = none := by simp [pushToken, hc', hended]
      rw [if_neg (by simp [hgoes]), ih hgoes (by simp) hwalk]
      simp [pushToken, hc']

/-- The cache after a clean batch is as if only the accepted drafts had been fed. -/
theorem CleanBatch.batchCells_eq (h : p.CleanBatch m sp drafts) :
    p.batchCells m sp drafts =
      p.state.feed m (p.state.lastToken :: drafts.take (p.acceptedOf m sp drafts)) := by
  have hle : p.acceptedOf m sp drafts ≤ drafts.length := acceptedOf_le drafts
  have hcut := h.cut
  unfold batchCells
  generalize p.acceptedOf m sp drafts = acc at hle hcut ⊢
  split
  · next hrejected =>
    have hfed : p.state.lastToken :: drafts.take acc =
        (p.state.lastToken :: drafts).take (acc + 1) := rfl
    have hcut := hcut.resolve_left (Nat.ne_of_lt hrejected)
    rw [hfed]
    cases hfast : m.fast with
    | false =>
      simp only [hfast, Bool.false_eq_true, if_false] at hcut
      have hmore : p.state.cacheLen + (acc + 1) <
          (p.state.cells ++ place p.state.curPos (p.state.lastToken :: drafts)).length := by
        simp only [length_append, length_place, length_cons]
        omega
      simp only [DecodeState.feed, hfast, write_false, truncate, if_pos hmore]
      rw [hcut, take_append, Nat.add_sub_cancel_left, take_place,
        take_of_length_le (Nat.le_add_right p.state.cells.length (acc + 1))]
    | true =>
      simp only [hfast, if_true] at hcut
      obtain ⟨hshort, hsync⟩ := hcut
      have hdrop : ∀ n, p.state.cells.drop (p.state.curPos + n) = [] :=
        fun n => drop_of_length_le (by omega)
      have hmore : p.state.cacheLen + (acc + 1) <
          (write true p.state.cells p.state.curPos (p.state.lastToken :: drafts)).length := by
        rw [length_write_true, length_cons]
        omega
      simp only [DecodeState.feed, hfast, truncate, if_pos hmore]
      rw [write_true, write_true, hdrop, hdrop, append_nil, append_nil, hsync,
        take_append, length_take_padTo, Nat.add_sub_cancel_left, take_place,
        take_of_length_le (by rw [length_take_padTo]; omega)]
  · next hall =>
    rw [show acc = drafts.length by omega, take_length]

variable {ds : List Nat}

/-- A clean batch hands over its tokens as the single-token decode does. -/
theorem CleanBatch.stepSpeculative_eq (h : p.CleanBatch m sp drafts) (hended : p.ended = none)
    (hpending : p.state.pendingLogits = none) :
    p.stepSpeculative m sp drafts (drafting ds) =
      p.afterAll m sp (drafts.take (p.acceptedOf m sp drafts)) (p.bonus m sp drafts) := by
  have hle : p.acceptedOf m sp drafts ≤ drafts.length := acceptedOf_le drafts
  have hloop : sp.loops (p.observed ++ p.verified m sp drafts) = false :=
    h.noLoop _ _ (prefix_refl _)
  have hwalk := walk_of_walksOut (p := p.commitBatch m sp drafts) hended
    (by simp [verified]) h.walks
  unfold stepSpeculative
  simp only [drafting, hloop, Bool.and_false, Bool.false_eq_true, if_false]
  rw [hwalk]
  simp only [commitBatch, afterAll, h.batchCells_eq, hpending, length_take,
    Nat.min_eq_left hle, verified]

/-! ## The same tokens one at a time -/

/-- The puller is before a single-token step. -/
structure Single (m : Loaded F σ) (sp : PullSpec F σ) (p : ArPuller F σ) : Prop where
  live : p.ended = none
  budget : sp.limitReached p.produced = false
  unpiped : (p.fastPipelineEligible m sp && p.fastPipe.isSome) = false
  pending : p.state.pendingLogits = none
  free : p.grammar = none

/-- A single-token step that does not end. -/
theorem Single.serial_eq (h : p.Single m sp)
    (htoken : token = sp.sample p.observed 0 (p.state.answer m [p.state.lastToken]))
    (hends : p.ends m sp token = false) : serial m sp p = p.afterAll m sp [] token := by
  have hserial : serial m sp p = p.stepSerial m sp.off (drafting []) := by
    have hbudget : sp.off.limitReached p.produced = false := h.budget
    unfold serial stepOnce
    simp only [h.live, drafting, hbudget, Option.isSome_none, Bool.false_eq_true, if_false]
    split
    · next heligible =>
      have hpipe : p.fastPipe = none := by
        have heligible' : p.fastPipelineEligible m sp = true := heligible
        simpa [heligible'] using h.unpiped
      simp only [stepFastPipeline, hpipe, h.pending]
    · rfl
  have hsample : (p.fedLast m).sampleWithGrammar m sp.off
      (p.state.answer m [p.state.lastToken]) = (token, none) := by
    have hfree : (p.fedLast m).grammar = none := h.free
    simp only [sampleWithGrammar, hfree, htoken]
    rfl
  have hdrafts : p.drafts sp.off (drafting []) = [] := by simp [drafts, PullSpec.off]
  rw [hserial, stepSerial, h.pending]
  dsimp only
  rw [hdrafts]
  simp only [stepSingle, drafting]
  unfold settle
  rw [hsample]
  have hends' : ((p.fedLast m).sampleOff m sp.off
      (p.state.answer m [p.state.lastToken])).ends m sp.off token = false := hends
  rw [emit_of_not_ends hends']
  simp only [sampleOff, hsample]
  simp only [pushToken, fedLast, DecodeState.advance, afterAll, h.free, length_nil,
    nil_append, Nat.zero_add]
  rfl

/-- One more token. -/
theorem afterAll_afterAll (hended : p.ended = none)
    (hc : sp.completes (p.handed ++ (front ++ [token])) = false) (next : Nat) :
    (p.afterAll m sp front token).afterAll m sp [] next =
      p.afterAll m sp (front ++ [token]) next := by
  have hcells : write m.fast (p.state.feed m (p.state.lastToken :: front))
      (p.state.curPos + (front.length + 1)) [token] =
      p.state.feed m (p.state.lastToken :: (front ++ [token])) :=
    write_write m.fast p.state.cells p.state.curPos (p.state.lastToken :: front) [token]
  simp [afterAll, DecodeState.feed, hc, hended, Nat.add_assoc] at hcells ⊢
  exact hcells

/-- No token of a clean batch but the last completes a stop pattern. -/
theorem completes_of_walksOut {handed : List Nat} {next : Nat}
    (h : walksOut m sp handed tokens = true) (hfront : front ++ [token] ++ [next] <+: tokens) :
    sp.completes (handed ++ (front ++ [token])) = false := by
  induction tokens generalizing handed front with
  | nil => simp at hfront
  | cons t tokens ih =>
    rw [walksOut, Bool.and_eq_true, Bool.or_eq_true, Bool.and_eq_true] at h
    cases front with
    | nil =>
      obtain ⟨rfl, hrest⟩ := cons_prefix_cons.1 hfront
      have hne : tokens ≠ [] := by
        rintro rfl
        simp at hrest
      simpa [hne] using (h.2.resolve_left (by simpa using hne)).1
    | cons f front =>
      obtain ⟨rfl, hrest⟩ := cons_prefix_cons.1 hfront
      have hne : tokens ≠ [] := by
        rintro rfl
        simp at hrest
      have hwalk := (h.2.resolve_left (by simpa using hne)).2
      simpa using ih hwalk hrest

/-- No token of a clean batch is a stop id. -/
theorem stops_of_walksOut {handed : List Nat} (h : walksOut m sp handed tokens = true)
    (hfront : front ++ [token] <+: tokens) : token ∉ m.stopIds := by
  induction tokens generalizing handed front with
  | nil => simp at hfront
  | cons t tokens ih =>
    rw [walksOut, Bool.and_eq_true, Bool.or_eq_true, Bool.and_eq_true] at h
    cases front with
    | nil =>
      obtain ⟨rfl, -⟩ := cons_prefix_cons.1 hfront
      simpa using h.1
    | cons f front =>
      obtain ⟨rfl, hrest⟩ := cons_prefix_cons.1 hfront
      have hne : tokens ≠ [] := by
        rintro rfl
        simp at hrest
      exact ih (h.2.resolve_left (by simpa using hne)).2 hrest

/-- Before a batch of a length that the budget allows. -/
structure Batching (m : Loaded F σ) (sp : PullSpec F σ) (p : ArPuller F σ)
    (drafts : List Nat) : Prop extends p.Single m sp where
  clean : p.CleanBatch m sp drafts
  unfixed : sp.fixedSteps = none
  fits : drafts.length ≤ sp.draftCap p.produced
  stateless : sp.Stateless

/-- The budget allows every token of the batch. -/
theorem Batching.limitReached (h : p.Batching m sp drafts) {k : Nat} (hk : k ≤ drafts.length) :
    sp.limitReached (p.produced + k) = false := by
  have hbudget := h.budget
  have hfits := h.fits
  unfold PullSpec.limitReached PullSpec.draftCap at *
  cases hmax : sp.effectiveMaxTokens with
  | none => rfl
  | some n =>
    rw [hmax] at hbudget hfits
    simp only [Option.any_some, decide_eq_false_iff_not, Nat.not_le] at hbudget ⊢
    have hcap : drafts.length ≤ n - p.produced - 1 := Nat.le_trans hfits (Nat.min_le_left _ _)
    omega

/-- **The tokens of a clean batch, one at a time.** -/
theorem Batching.iterate_serial (h : p.Batching m sp drafts) (front : List Nat) :
    ∀ token, front ++ [token] <+: p.verified m sp drafts →
      (serial m sp)^[front.length + 1] p = p.afterAll m sp front token := by
  have hle : p.acceptedOf m sp drafts ≤ drafts.length := acceptedOf_le drafts
  induction front using reverseRecOn with
  | nil =>
    intro token hfront
    refine h.toSingle.serial_eq (eq_sample_of_verified hfront) ?_
    have hstop := stops_of_walksOut h.clean.walks hfront
    have hloop := h.clean.noLoop _ _ hfront
    rw [nil_append] at hloop
    simp [ends, stops, loopsWith, PullSpec.fixedStepsActive, h.unfixed, hstop, hloop]
  | append_singleton front token ih =>
    intro next hfront
    have hearlier : front ++ [token] <+: p.verified m sp drafts :=
      (prefix_append _ _).trans hfront
    have hc := completes_of_walksOut h.clean.walks hfront
    rw [length_append, length_singleton, Function.iterate_succ_apply', ih token hearlier,
      ← afterAll_afterAll h.live hc]
    have hlen : front.length + 1 ≤ drafts.length := by
      have := hfront.length_le
      simp only [length_append, length_singleton, verified, length_take] at this
      omega
    have hsingle : (p.afterAll m sp front token).Single m sp :=
      ⟨by simp [afterAll, hc, h.live], h.limitReached hlen, h.unpiped, rfl, h.free⟩
    refine hsingle.serial_eq ?_ ?_
    · have hanswer : (p.afterAll m sp front token).state.answer m [token] =
          p.state.answer m (p.state.lastToken :: (front ++ [token])) :=
        congrArg m.logits
          (seen_write m.fast p.state.cells p.state.curPos (p.state.lastToken :: front) [token])
      have hsample := eq_sample_of_verified hfront
      rw [h.stateless] at hsample ⊢
      rw [hsample]
      exact congrArg _ hanswer.symm
    · have hstop := stops_of_walksOut h.clean.walks hfront
      have hloop := h.clean.noLoop _ _ hfront
      rw [← append_assoc] at hloop
      simp [ends, stops, loopsWith, PullSpec.fixedStepsActive, h.unfixed, afterAll, hstop]
      simpa using hloop

/-! ## Steps and pulls -/

/-- Below the pipeline, a step without a batch is the same with drafting off. -/
theorem stepSerial_eq_off
    (h : p.state.pendingLogits.isSome = true ∨ p.drafts sp (drafting ds) = []) :
    p.stepSerial m sp (drafting ds) = p.stepSerial m sp.off (drafting []) := by
  have hoff : p.drafts sp.off (drafting []) = [] := by simp [drafts, PullSpec.off]
  unfold stepSerial
  cases hpending : p.state.pendingLogits with
  | some logits => rfl
  | none =>
    rw [h.resolve_left (by simp [hpending]), hoff]
    rfl

/-- A step without a batch is the same with drafting off. -/
theorem stepOnce_eq_serial (h : p.batch m sp ds = []) :
    p.stepOnce m sp (drafting ds) = serial m sp p := by
  have hbudget : sp.off.limitReached p.produced = sp.limitReached p.produced := rfl
  have heligible : p.fastPipelineEligible m sp.off = p.fastPipelineEligible m sp := rfl
  unfold serial stepOnce
  rw [hbudget, heligible]
  cases hended : p.ended.isSome with
  | true => rfl
  | false =>
    cases hlimit : sp.limitReached p.produced with
    | true => rfl
    | false =>
      have hnone : p.state.pendingLogits.isSome = true ∨
          (p.fastPipelineEligible m sp && p.fastPipe.isSome) = true ∨
            p.drafts sp (drafting ds) = [] := by
        simp only [batch, hended, hlimit, Bool.false_or, ite_eq_left_iff] at h
        by_cases hpending : p.state.pendingLogits.isSome = true
        · exact .inl hpending
        by_cases hpiped : (p.fastPipelineEligible m sp && p.fastPipe.isSome) = true
        · exact .inr (.inl hpiped)
        · exact .inr (.inr (h (by simp only [hpending, hpiped, Bool.or_self]; simp)))
      simp only [drafting, Bool.false_eq_true, if_false]
      cases hfast : p.fastPipelineEligible m sp with
      | false =>
        simp only [Bool.false_eq_true, if_false]
        exact stepSerial_eq_off (hnone.imp_right fun h => h.resolve_left (by simp [hfast]))
      | true =>
        simp only [if_true]
        unfold stepFastPipeline
        cases hpipe : p.fastPipe with
        | some y => rfl
        | none =>
          cases hpending : p.state.pendingLogits with
          | some logits => rfl
          | none =>
            exact stepSerial_eq_off (hnone.imp_right fun h => h.resolve_left (by simp [hpipe]))

/-- Before a clean batch. -/
theorem Clean.batching (h : p.Clean m sp ds) (hs : sp.Stateless) (hne : p.batch m sp ds ≠ []) :
    p.Batching m sp (p.batch m sp ds) := by
  have hclean := h hne
  unfold batch at hne hclean ⊢
  split at hne
  · exact absurd rfl hne
  · next hcond =>
    rw [if_neg hcond] at hclean ⊢
    simp only [Bool.or_eq_true, not_or, Bool.not_eq_true] at hcond
    obtain ⟨⟨⟨hended, hlimit⟩, hpending⟩, hpiped⟩ := hcond
    have hfree : p.grammar = none ∧ sp.fixedSteps = none := by
      unfold drafts at hne
      split at hne
      · exact absurd rfl hne
      · next hoff =>
        simp only [Bool.or_eq_true, not_or, Bool.not_eq_true] at hoff
        exact ⟨by simpa using hoff.1.1, by simpa using hoff.1.2⟩
    refine ⟨⟨by simpa using hended, hlimit, hpiped, by simpa using hpending, hfree.1⟩, hclean,
      hfree.2, ?_, hs⟩
    unfold drafts
    split
    · exact Nat.zero_le _
    · exact length_take_le _ _

/-- **One step with a clean batch** does what some steps of the single-token decode do. -/
theorem stepOnce_eq_iterate (hs : sp.Stateless) (p : ArPuller F σ) (ds : List Nat)
    (h : p.Clean m sp ds) :
    ∃ k, 1 ≤ k ∧ p.stepOnce m sp (drafting ds) = (serial m sp)^[k] p := by
  by_cases hne : p.batch m sp ds = []
  · exact ⟨1, Nat.le_refl 1, stepOnce_eq_serial hne⟩
  have hbatch := h.batching hs hne
  refine ⟨((p.batch m sp ds).take (p.acceptedOf m sp (p.batch m sp ds))).length + 1,
    Nat.le_add_left 1 _, ?_⟩
  rw [hbatch.iterate_serial _ _ (prefix_refl _),
    ← hbatch.clean.stepSpeculative_eq hbatch.live hbatch.pending]
  have hdrafts : p.drafts sp (drafting ds) = p.batch m sp ds := by
    have h' := hne
    unfold batch at h' ⊢
    split at h'
    · exact absurd rfl h'
    · next hcond => rw [if_neg hcond]
  have hserial : p.stepSerial m sp (drafting ds) =
      p.stepSpeculative m sp (p.batch m sp ds) (drafting ds) := by
    obtain ⟨d, rest, hcons⟩ := exists_cons_of_ne_nil hne
    rw [stepSerial, hbatch.pending]
    dsimp only
    rw [hdrafts, hcons]
  rw [← hserial]
  unfold stepOnce
  simp only [hbatch.live, drafting, hbatch.budget, Option.isSome_none, Bool.false_eq_true,
    if_false]
  split
  · next heligible =>
    have hpipe : p.fastPipe = none := by simpa [heligible] using hbatch.unpiped
    simp only [stepFastPipeline, hpipe, hbatch.pending]
  · rfl

end ArPuller

/-- Once the stream has ended, nothing changes. -/
theorem serial_of_ended {m : Loaded F σ} {sp : PullSpec F σ} {p : ArPuller F σ}
    (h : p.ended.isSome = true) : serial m sp p = p := by
  simp [serial, ArPuller.stepOnce, h]

/-- **Where every batch is clean, drafting does not show**: each state of the pull with drafts is
one that the pull without comes to, in at least as many steps, and they end in the same states. -/
theorem drafted_iff_serial (m : Loaded F σ) (sp : PullSpec F σ) (hs : sp.Stateless)
    (drafts : Nat → List Nat) (p : ArPuller F σ)
    (hclean : ∀ n, (drafted m sp drafts n p).Clean m sp (drafts n)) :
    (∀ n, ∃ k, n ≤ k ∧ drafted m sp drafts n p = (serial m sp)^[k] p) ∧
      ∀ q : ArPuller F σ, q.ended.isSome = true →
        ((∃ n, drafted m sp drafts n p = q) ↔ ∃ n, (serial m sp)^[n] p = q) :=
  ⟨exists_iterate_of_batches (ArPuller.stepOnce_eq_iterate hs) hclean,
    fun _ hq => reaches_iff_of_batches (ArPuller.stepOnce_eq_iterate hs) hclean
      (serial_of_ended hq)⟩

/-! ### Pulls from a small model -/

/-- A pull of four tokens with drafts. -/
def draftedPull : PullSpec Int Unit := { plainPull with maxTokens := some 4, draftsOff := false }

/-- The puller after a prompt of two tokens. -/
def afterPrompt (m : Loaded Int Unit) : ArPuller Int Unit :=
  .start draftedPull (DecodeState.prefill m ⟨[], 0, 0, none, 0⟩ [1, 1])

/-- From the third step on the pull has ended. -/
theorem drafted_twos_ended (n : Nat) :
    (drafted twos draftedPull (fun _ => [2, 2]) (n + 3) (afterPrompt twos)).ended.isSome =
      true := by
  induction n with
  | zero => decide
  | succ n ih =>
    have hstill : ∀ p : ArPuller Int Unit, p.ended.isSome = true →
        (p.stepOnce twos draftedPull (drafting [2, 2])).ended.isSome = true := by
      intro p hp
      simp [ArPuller.stepOnce, hp]
    exact hstill _ ih

/-- Where the drafts are right, the batch is clean and drafting does not show. -/
theorem drafted_twos :
    (∃ n, drafted twos draftedPull (fun _ => [2, 2]) n (afterPrompt twos) =
        drafted twos draftedPull (fun _ => [2, 2]) 3 (afterPrompt twos)) ↔
      ∃ n, (serial twos draftedPull)^[n] (afterPrompt twos) =
        drafted twos draftedPull (fun _ => [2, 2]) 3 (afterPrompt twos) := by
  refine (drafted_iff_serial twos draftedPull (fun _ _ _ => rfl) (fun _ => [2, 2])
    (afterPrompt twos) ?_).2 _ (drafted_twos_ended 0)
  intro n
  match n with
  | 0 => exact fun h => absurd rfl h
  | 1 =>
    exact fun _ => ⟨.inl (by decide), by decide, fun front token _ => rfl⟩
  | 2 => exact fun h => absurd (by decide) h
  | n + 3 =>
    intro h
    simp [ArPuller.batch, drafted_twos_ended n] at h

/-- A model that ends after a 2. -/
def twoThenEnd : Loaded Int Unit :=
  { twos with
    logits := fun cells =>
      if (cells.getLast?.getD none).map Prod.fst = some 2 then [.fin 1, .fin 0, .fin 0]
      else [.fin 0, .fin 0, .fin 1] }

/-- **The end token sampled in a batch is committed**: both pulls hand over one token and end with
the end token, and the one with drafts is left a position further, with one more token produced. -/
theorem endInBatch_commits :
    (drafted twoThenEnd draftedPull (fun _ => [3]) 2 (afterPrompt twoThenEnd)).ended =
        ((serial twoThenEnd draftedPull)^[2] (afterPrompt twoThenEnd)).ended ∧
      (drafted twoThenEnd draftedPull (fun _ => [3]) 2 (afterPrompt twoThenEnd)).ended.isSome =
        true ∧
      (drafted twoThenEnd draftedPull (fun _ => [3]) 2 (afterPrompt twoThenEnd)).state.curPos ≠
        ((serial twoThenEnd draftedPull)^[2] (afterPrompt twoThenEnd)).state.curPos ∧
      (drafted twoThenEnd draftedPull (fun _ => [3]) 2 (afterPrompt twoThenEnd)).produced ≠
        ((serial twoThenEnd draftedPull)^[2] (afterPrompt twoThenEnd)).produced := by
  decide

end Mlx
end Gen2
