import Gen2.Backend.Llama.Append

/-!
# Appends that fail

`Session::append_messages` puts the new messages into the transcript first, and may then clear the
context, before anything of what is to be prefilled is known to be there.

* `Untorn` is what a failed append should leave: the session as it was, or a session whose state is
  gone for good.
* An append that fails tears the two apart precisely if it fails before tokens are decoded
  (`Prepared`), in a session that lives on: when the transcript cannot be rendered, or the delta, or
  the compaction fails, or a puller has the state.
-/

namespace Gen2
namespace Llama

open Lib SessionRt

section

variable {Ctx : Type}

/-- What a failed append leaves: nothing has changed, or the state is gone.  Where a puller has it
(`lent`), it comes back. -/
def Untorn (lent : Bool) (s s' : Session Ctx) : Prop :=
  s'.messages = s.messages ∧ s'.state = s.state ∨ s'.state = none ∧ lent = false

/-- A session that is not torn apart by an append that leaves the transcript alone. -/
theorem Untorn.refl (lent : Bool) (s : Session Ctx) : Untorn lent s s := .inl ⟨rfl, rfl⟩

variable {lent : Bool} {s s' : Session Ctx} {newMessages : List Message}

/-- Messages that are in the transcript, in a session that lives on. -/
theorem not_untorn (hnew : newMessages ≠ []) (hmessages : s'.messages = s.messages ++ newMessages)
    (hlives : s'.state = none → lent = true) : ¬ Untorn lent s s' := by
  rintro (⟨hsame, -⟩ | ⟨hgone, hlent⟩)
  · rw [hmessages] at hsame
    exact hnew (List.append_right_eq_self.1 hsame)
  · rw [hlives hgone] at hlent
    cases hlent

variable [LlamaContext Ctx] [SerdeJson]

/-- What an append prefills is there before it is prefilled: the transcript can be rendered, there
is a state to prefill, and the delta, or the compacted transcript, can be rendered. -/
def Prepared (fuel : Nat) (s : Session Ctx) (newMessages : List Message) : Prop :=
  s.state ≠ none ∧ ∃ full, s.render (s.messages ++ newMessages) = .ok full ∧
    if ctxLimit (appendCtxSize s.bundle s.settings) s.settings < full.length then
      ∃ outcome remaining, warmStart fuel s newMessages = some (.ok outcome) ∧
        s.render outcome.messages = .ok remaining
    else ∃ delta, deltaTokens s newMessages = .ok delta

variable {st : DecodeState Ctx} {e : ExecError}

omit [SerdeJson] in
theorem finishAppend_error {fuel : Nat} {remaining : List LlamaToken} {dropped : Nat}
    (h : finishAppend fuel s st remaining dropped = some (.error e, s')) : s'.state = none := by
  obtain ⟨r, -, heq⟩ := Option.map_eq_some_iff.1 h
  cases r with
  | error e' =>
    obtain ⟨-, rfl⟩ := Prod.mk.inj heq
    rfl
  | ok st' => cases (Prod.mk.inj heq).1

/-- A session with video is not torn apart. -/
theorem appendLfm3Omni_error (hlent : lent = true → s.state = none)
    (h : appendLfm3Omni s newMessages = (.error e, s')) : Untorn lent s s' := by
  rw [appendLfm3Omni] at h
  split at h
  · obtain ⟨-, rfl⟩ := Prod.mk.inj h
    exact .refl lent s
  split at h
  · obtain ⟨-, rfl⟩ := Prod.mk.inj h
    exact .refl lent s
  dsimp only at h
  split at h
  · cases (Prod.mk.inj h).1
  split at h
  · obtain ⟨-, rfl⟩ := Prod.mk.inj h
    exact .refl lent s
  · obtain ⟨-, rfl⟩ := Prod.mk.inj h
    exact .refl lent s
  next st hprompt hst =>
    split at h
    · obtain ⟨-, rfl⟩ := Prod.mk.inj h
      refine .inr ⟨rfl, Bool.eq_false_iff.2 fun htrue => ?_⟩
      cases hst.symm.trans (hlent htrue)
    · cases (Prod.mk.inj h).1

/-- **What is prefilled decides**: an append that overflows leaves the session whole exactly where
the compacted transcript could be rendered. -/
theorem rebuild_error {fuel : Nat} (hnew : newMessages ≠ []) (hlent : lent = false)
    (h : rebuild fuel (s.extend newMessages) st = some (.error e, s')) :
    Untorn lent s s' ↔ ∃ outcome remaining, warmStart fuel s newMessages = some (.ok outcome) ∧
      s.render outcome.messages = .ok remaining := by
  rw [rebuild] at h
  dsimp only at h
  split at h
  · cases h
  next hwarm =>
    obtain ⟨-, rfl⟩ := Prod.mk.inj (Option.some.inj h)
    refine iff_of_false (not_untorn hnew rfl (by simp)) ?_
    rintro ⟨outcome, _, hok, -⟩
    cases hwarm.symm.trans hok
  next outcome hwarm =>
    split at h
    next hrender =>
      obtain ⟨-, rfl⟩ := Prod.mk.inj (Option.some.inj h)
      refine iff_of_false (not_untorn hnew rfl (by simp)) ?_
      rintro ⟨outcome', remaining, hok, hremaining⟩
      obtain rfl := Except.ok.inj (Option.some.inj (hwarm.symm.trans hok))
      cases hrender.symm.trans hremaining
    next remaining hrender =>
      exact iff_of_true (.inr ⟨finishAppend_error h, hlent⟩) ⟨outcome, remaining, hwarm, hrender⟩

/-- The same for one that does not, and the delta. -/
theorem appendDelta_error {fuel : Nat} (hnew : newMessages ≠ []) (hlent : lent = false)
    (hst : s.state = some st)
    (h : appendDelta fuel (s.extend newMessages) st newMessages = some (.error e, s')) :
    Untorn lent s s' ↔ ∃ delta, deltaTokens s newMessages = .ok delta := by
  rw [appendDelta] at h
  split at h
  · cases (Prod.mk.inj (Option.some.inj h)).1
  next hempty =>
    have hdelta : deltaTokens s newMessages = s.render (toRender newMessages) := if_neg hempty
    split at h
    next hrender =>
      obtain ⟨-, rfl⟩ := Prod.mk.inj (Option.some.inj h)
      refine iff_of_false (not_untorn hnew rfl fun hnone => ?_) ?_
      · cases hst.symm.trans hnone
      · rintro ⟨delta, hok⟩
        cases hrender.symm.trans (hdelta.symm.trans hok)
    · cases (Prod.mk.inj (Option.some.inj h)).1
    next remaining _ hrender =>
      exact iff_of_true (.inr ⟨finishAppend_error h, hlent⟩) ⟨remaining, hdelta.trans hrender⟩

/-- **What a failed append leaves.**  Transcript and context agree, or the state is gone, exactly if
the session is strict or one with video, or its state was gone before, or all that was to be
prefilled was there, so that it was the decoding that failed. -/
theorem append_error_untorn_iff {fuel : Nat} {lent : Bool} {s s' : Session Ctx}
    {newMessages : List Message} {e : ExecError} (hlent : lent = true → s.state = none)
    (h : appendMessages fuel s newMessages = some (.error e, s')) :
    Untorn lent s s' ↔ s.strict = true ∨ s.bundle.capabilities.video = true ∨
      (s.state = none ∧ lent = false) ∨ Prepared fuel s newMessages := by
  rw [appendMessages] at h
  split at h
  next hstrict =>
    obtain ⟨-, rfl⟩ := Prod.mk.inj (Option.some.inj h)
    exact iff_of_true (.refl lent s) (.inl hstrict)
  next hstrict =>
    split at h
    · cases (Prod.mk.inj (Option.some.inj h)).1
    next hempty =>
      have hnew : newMessages ≠ [] := by simpa using hempty
      split at h
      next hvideo =>
        exact iff_of_true (appendLfm3Omni_error hlent (Option.some.inj h)) (.inr (.inl hvideo))
      next hvideo =>
        rw [or_iff_right hstrict, or_iff_right hvideo]
        dsimp only at h
        split at h
        next hfull =>
          -- the transcript cannot be rendered, and has the messages in it
          obtain ⟨-, rfl⟩ := Prod.mk.inj (Option.some.inj h)
          have hnot : ¬ Prepared fuel s newMessages := by
            rintro ⟨-, full, hok, -⟩
            cases hfull.symm.trans hok
          rw [or_iff_left hnot]
          constructor
          · intro hun
            by_contra hlives
            refine not_untorn hnew rfl (fun hnone => ?_) hun
            by_contra hback
            exact hlives ⟨hnone, Bool.eq_false_iff.2 hback⟩
          · exact fun hgone => .inr hgone
        next hfull hst =>
          -- a puller has the state, or it is gone
          obtain ⟨-, rfl⟩ := Prod.mk.inj (Option.some.inj h)
          have hst : s.state = none := hst
          have hnot : ¬ Prepared fuel s newMessages := fun hprepared => hprepared.1 hst
          rw [or_iff_left hnot]
          constructor
          · intro hun
            refine ⟨hst, Bool.eq_false_iff.2 fun hback => ?_⟩
            exact not_untorn hnew rfl (fun _ => hback) hun
          · exact fun hgone => .inr hgone
        next full st hfull hst =>
          have hst : s.state = some st := hst
          have hnotLent : lent = false :=
            Bool.eq_false_iff.2 fun htrue => by cases hst.symm.trans (hlent htrue)
          have hsome : s.state ≠ none := by simp [hst]
          rw [or_iff_right fun hgone => hsome hgone.1]
          have hprepared : Prepared fuel s newMessages ↔
              if ctxLimit (appendCtxSize s.bundle s.settings) s.settings < full.length then
                ∃ outcome remaining, warmStart fuel s newMessages = some (.ok outcome) ∧
                  s.render outcome.messages = .ok remaining
              else ∃ delta, deltaTokens s newMessages = .ok delta := by
            constructor
            · rintro ⟨-, full', hfull', hrest⟩
              rwa [Except.ok.inj (hfull'.symm.trans hfull)] at hrest
            · exact fun hrest => ⟨hsome, full, hfull, hrest⟩
          rw [hprepared]
          split at h
          next hover =>
            rw [if_pos hover]
            exact rebuild_error hnew hnotLent h
          next hfits =>
            rw [if_neg hfits]
            exact appendDelta_error hnew hnotLent hst h

end

/-! ## Two questions in a row -/

/-- A template that will have the roles alternate. -/
def alternating : ChatTemplate where
  render inputs :=
    if inputs.messages.length ≠ 1 ∧ inputs.messages.all (·.role == "user") then
      .error "conversation roles must alternate"
    else PlainContext.template.render inputs
  bosToken := none
  eosToken := none
  useDefaultToolTemplate := false

/-- A session with a question in it, which has not been answered. -/
def unanswered : Session PlainContext where
  bundle := PlainContext.bundle 4096
  settings := ⟨⟨none⟩, ⟨some 128, none⟩⟩
  chatTemplate := alternating
  state := some ⟨⟨128, [104, 105, 59]⟩, 3, none⟩
  messages := [.user "hi"]
  initialMessagesDropped := 0
  ctxSize := 128
  enabledToolNames := none
  enableThinking := true
  strict := false

/-- Another question is in the transcript, and not in the context. -/
theorem second_question_tears :
    letI := SerdeJson.plain
    ¬ ∀ e s', appendMessages 2 unanswered [.user "go"] = some (.error e, s') →
      Untorn false unanswered s' := by
  let _ := SerdeJson.plain
  intro h
  have happend : ∃ e s', appendMessages 2 unanswered [.user "go"] = some (.error e, s') ∧
      s'.messages = unanswered.messages ++ [.user "go"] ∧ s'.state ≠ none :=
    ⟨_, _, rfl, rfl, by simp [unanswered]⟩
  obtain ⟨e, s', hrun, hmessages, hstate⟩ := happend
  exact not_untorn (by simp) hmessages (fun hnone => absurd hnone hstate) (h e s' hrun)

/-- A session whose context is full. -/
def filled : Session PlainContext := { asked with state := some ⟨⟨3, [104, 105, 59]⟩, 3, none⟩ }

/-- The decoding fails, and takes the state with it. -/
theorem full_context_fails_whole :
    letI := SerdeJson.plain
    ∃ e s', appendMessages 2 filled [.user "go"] = some (.error e, s') ∧ Untorn false filled s' := by
  let _ := SerdeJson.plain
  have happend : ∃ e s', @appendMessages _ _ SerdeJson.plain 2 filled [.user "go"] =
      some (.error e, s') := ⟨_, _, rfl⟩
  obtain ⟨e, s', hrun⟩ := happend
  have hfull : ∃ full, @Session.render _ SerdeJson.plain filled (filled.messages ++ [.user "go"]) =
      .ok full ∧ full.length = 6 := ⟨_, rfl, rfl⟩
  obtain ⟨full, hrender, hlength⟩ := hfull
  have hlent : false = true → filled.state = none := fun h => nomatch h
  refine ⟨e, s', hrun, (append_error_untorn_iff hlent hrun).2
    (.inr (.inr (.inr ⟨by simp [filled], full, hrender, ?_⟩)))⟩
  have hfits : ¬ ctxLimit (appendCtxSize filled.bundle filled.settings) filled.settings < 6 := by
    decide
  rw [hlength, if_neg hfits]
  exact ⟨_, rfl⟩

end Llama
end Gen2
