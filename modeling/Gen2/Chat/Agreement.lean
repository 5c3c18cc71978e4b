import Gen2.Chat.Defs

/-!
# Engine and session agree on the conversation

When a turn continues a conversation, the runtime's messages followed by the new ones must be the
session's transcript: every message is then delivered once, and in order.  Three pieces of state
keep this up — the session's binding, the facade's count and the runtime's list — and they are
written at different moments.

* `Begun` is what is known of a session once the turn has come to its command.
* `BoundAt` is the invariant of one engine: where its conversation is open, the digest is that of a
  beginning which, if it is as long as the count says, is what the runtime holds.  `Agreed` is the
  invariant of the whole.
* A step leaves the invariant only by one slip: a continuation that the runtime has appended, and
  whose stream is not read to its end, is never recorded (`Outcome.leavesBehind`).  The digest has
  64 bits, so that no two different beginnings it is taken of share it is a condition as well
  (`NoCollision`).  `StepOk` is both.
* `continuations_deliver` is the outcome: in every run of such steps, every continuation delivers
  exactly what the runtime does not have.
-/

namespace Gen2
namespace Chat

open Lib List
open Session (SameTalk OpensNothing SameEngines)

/-! ## Beginning a turn -/

/-- A change to what a session knows of its engines that opens nothing. -/
structure Quiet (s t : Session) : Prop where
  talk : SameTalk s t
  opens : OpensNothing s t
  unparked : t.Unparked

variable {s : Session}

theorem Quiet.andThen {t u : Session} (h : Quiet s t) (htalk : SameTalk t u)
    (hopens : OpensNothing t u) (hengines : SameEngines t u) : Quiet s u :=
  ⟨h.talk.trans htalk, h.opens.trans hopens, hengines.unparked h.unparked⟩

theorem Quiet.close {t : Session} (h : Quiet s t) : Quiet s { t with opened := false } :=
  h.andThen ⟨rfl, rfl, rfl, rfl, rfl, rfl⟩ t.opensNothing_close ⟨rfl, rfl⟩

theorem noted_spec (e : Engine) (engine : Nat) (t : TurnSpec) (wireTail : List Message)
    (hu : s.Unparked) :
    Quiet s (noted e engine t wireTail s) ∧
      (noted e engine t wireTail s).boundEngine = some engine ∧
      (t.systemOverride.isSome = true → (noted e engine t wireTail s).opened = false) := by
  let s₁ := (s.noteEngine engine).2
  let s₂ := (s₁.noteModel e.generation).2
  let s₃ := (s₂.noteThinking t.thinking).2
  have h₁ : Quiet s s₁ := ⟨s.sameTalk_noteEngine engine, Session.opensNothing_noteEngine hu engine,
    Session.noteEngine_unparked hu engine⟩
  have hs₂ : SameEngines s₁ s₂ := s₁.sameEngines_noteModel e.generation
  have hs₃ : SameEngines s₂ s₃ := s₂.sameEngines_noteThinking t.thinking
  have h₃ : Quiet s s₃ := (h₁.andThen (s₁.sameTalk_noteModel _) (s₁.opensNothing_noteModel _) hs₂)
    |>.andThen (s₂.sameTalk_noteThinking _) (s₂.opensNothing_noteThinking _) hs₃
  have hb₃ : s₃.boundEngine = some engine :=
    hs₃.1.trans (hs₂.1.trans (s.noteEngine_boundEngine engine))
  have hnoted : noted e engine t wireTail s =
      if t.systemOverride.isSome || wireTail.any (·.role == "assistant") then
        { s₃ with opened := false } else s₃ := rfl
  rw [hnoted]
  split
  · exact ⟨h₃.close, hb₃, fun _ => rfl⟩
  · rename_i hno
    refine ⟨h₃, hb₃, fun hsome => ?_⟩
    simp [hsome] at hno

theorem bindingOf_other {t : Session} {engine engine' : Nat} (hb : s.boundEngine = some engine)
    (h : SameEngines s t) (hne : engine' ≠ engine) : t.bindingOf engine' = s.bindingOf engine' := by
  have hne' : ¬ some engine = some engine' := fun heq => hne (Option.some.inj heq).symm
  rw [Session.bindingOf, Session.bindingOf, h.1, h.2, hb, if_neg hne', if_neg hne']

theorem sent_markSent (e : Engine) (id : SessionId) (count : Nat) :
    (e.markSent id count).sent id = count := by
  rw [Engine.sent, Engine.markSent]
  simp

section
variable [SerdeJson]

variable {s : Session}

theorem pushAll_spec (h : s.Live) (ms : List Message) :
    (pushAll s ms).Live ∧ (pushAll s ms).engineView = s.engineView := by
  induction ms generalizing s with
  | nil => exact ⟨h, rfl⟩
  | cons m ms ih =>
    obtain ⟨hlive, hview⟩ := ih (Session.live_push h m)
    exact ⟨hlive, hview.trans (Session.push_engineView s m)⟩

theorem proved_quiet (held : Nat) {s₀ : Session} (h : Quiet s₀ s) : Quiet s₀ (proved held s) := by
  rw [proved]
  split
  · exact h.close
  · exact h

theorem proved_boundEngine (held : Nat) (s : Session) :
    (proved held s).boundEngine = s.boundEngine := by
  rw [proved]
  split <;> rfl

/-- What is open after the proof was open before it, and is held and appendable. -/
theorem proved_opened {held : Nat} (h : (proved held s).opened = true) :
    proved held s = s ∧ s.opened = true ∧
      s.prefixStillHeld held s.offeredFingerprint = true ∧ s.tailIsAppendable held = true := by
  rw [proved] at h ⊢
  split at h
  · cases h
  · rename_i hno
    rw [if_neg hno]
    simpa [h] using hno

/-- What is known of the session a turn has come to its command with. -/
structure Begun (e : Engine) (engine : Nat) (t : TurnSpec) (s : Session) (cmd : Cmd)
    (s' : Session) : Prop where
  live : s'.Live
  unparked : s'.Unparked
  opens : OpensNothing s s'
  bound : s'.boundEngine = some engine
  talk : SameTalk (pushAll s t.staged) s'
  overridden : t.systemOverride.isSome = true → s'.opened = false
  held : s'.opened = true → s'.prefixStillHeld (e.sent s'.id) s'.offeredFingerprint = true
  appendable : s'.opened = true → s'.tailIsAppendable (e.sent s'.id) = true
  command : ∃ tools, cmd = Chat.command t (e.sent s'.id) tools [] s'

/-- The session a turn stages its messages in. -/
def stagedFor (t : TurnSpec) (s : Session) : Session :=
  if t.perTurnPrefix then { pushAll s t.staged with opened := false } else pushAll s t.staged

theorem stagedFor_spec (hl : s.Live) (hu : s.Unparked) (t : TurnSpec) :
    (stagedFor t s).Live ∧ SameTalk (pushAll s t.staged) (stagedFor t s) ∧
      OpensNothing s (stagedFor t s) ∧ (stagedFor t s).Unparked := by
  obtain ⟨hlive, hview⟩ := pushAll_spec hl t.staged
  have hopens : OpensNothing s (pushAll s t.staged) :=
    Session.opensNothing_of_engineView (.inl hview)
  have hunparked : (pushAll s t.staged).Unparked := Session.Closes.unparked (.inl (.inl hview)) hu
  have h : Quiet (pushAll s t.staged) (stagedFor t s) := by
    have h₀ : Quiet (pushAll s t.staged) (pushAll s t.staged) :=
      ⟨SameTalk.refl _, OpensNothing.refl _, hunparked⟩
    rw [stagedFor]
    split
    · exact h₀.close
    · exact h₀
  exact ⟨h.talk.live hlive, h.talk, hopens.trans h.opens, h.unparked⟩

theorem beginTurn_eq (e : Engine) (engine : Nat) (t : TurnSpec) (s : Session) :
    ∃ mark, beginTurn e engine t s = beginWithWireTail e engine mark t [] (stagedFor t s) :=
  ⟨_, rfl⟩

variable {e : Engine} {t : TurnSpec} {s' : Session} {cmd : Cmd}

theorem beginTurn_ok {engine : Nat} (hl : s.Live) (hu : s.Unparked)
    (h : beginTurn e engine t s = some (.ok cmd, s')) : Begun e engine t s cmd s' := by
  obtain ⟨hlive, htalk, hopens, hunparked⟩ := stagedFor_spec hl hu t
  obtain ⟨mark, heq⟩ := beginTurn_eq e engine t s
  rw [heq, beginWithWireTail] at h
  obtain ⟨hq, hb, hover⟩ := noted_spec e engine t [] hunparked
  generalize noted e engine t [] (stagedFor t s) = n at h hq hb hover
  dsimp only at h
  split at h
  · obtain ⟨_, -, hbad⟩ := Option.bind_eq_some_iff.1 h
    cases hbad
  let n' : Session := { n with offeredFingerprint := offeredFingerprint (offered t n) }
  have hq' : Quiet (stagedFor t s) n' :=
    hq.andThen ⟨rfl, rfl, rfl, rfl, rfl, rfl⟩ (fun engine h => ⟨rfl, rfl⟩) ⟨rfl, rfl⟩
  have hp := proved_quiet (e.sent n.id) hq'
  have hid : (proved (e.sent n.id) n').id = n.id := by
    rw [proved]
    split <;> rfl
  obtain ⟨hcmd, hs'⟩ := Prod.mk.inj (Option.some.inj h)
  have hs' : proved (e.sent n.id) n' = s' := hs'
  rw [← hs']
  refine ⟨hp.talk.live hlive, hp.unparked, hopens.trans hp.opens,
    (proved_boundEngine _ n').trans hb, htalk.trans hp.talk, fun hsome => ?_, fun hopened => ?_,
    fun hopened => ?_, offered t n, ?_⟩
  · have hclosed := hover hsome
    rw [proved]
    split
    · rfl
    · exact hclosed
  · obtain ⟨hsame, -, hheld, -⟩ := proved_opened hopened
    rw [hid, hsame]
    exact hheld
  · obtain ⟨hsame, -, -, htail⟩ := proved_opened hopened
    rw [hid, hsame]
    exact htail
  · rw [hid]
    exact (Except.ok.inj hcmd).symm

theorem beginTurn_error {engine : Nat} {media : String} (hl : s.Live) (hu : s.Unparked)
    (h : beginTurn e engine t s = some (.error media, s')) :
    s'.Live ∧ s'.Unparked ∧ OpensNothing s s' := by
  obtain ⟨hlive, -, hopens, hunparked⟩ := stagedFor_spec hl hu t
  obtain ⟨mark, heq⟩ := beginTurn_eq e engine t s
  rw [heq, beginWithWireTail] at h
  obtain ⟨hq, -, -⟩ := noted_spec e engine t [] hunparked
  generalize noted e engine t [] (stagedFor t s) = n at h hq
  dsimp only at h
  split at h
  · obtain ⟨u, hu', hlu, -, hview, -⟩ := Session.rollbackTo_spec (hq.talk.live hlive) mark
    rw [hu'] at h
    obtain ⟨-, rfl⟩ := Prod.mk.inj (Option.some.inj h)
    have hcloses : Session.Closes n u := .inl hview
    exact ⟨hlu, hcloses.unparked hq.unparked, (hopens.trans hq.opens).trans hcloses.opensNothing⟩
  · cases (Prod.mk.inj (Option.some.inj h)).1

/-- Beginning a turn does not panic. -/
theorem beginTurn_isSome (e : Engine) (engine : Nat) (t : TurnSpec) (hl : s.Live)
    (hu : s.Unparked) : ∃ r, beginTurn e engine t s = some r := by
  obtain ⟨hlive, -, -, hunparked⟩ := stagedFor_spec hl hu t
  obtain ⟨mark, heq⟩ := beginTurn_eq e engine t s
  obtain ⟨hq, -, -⟩ := noted_spec e engine t [] hunparked
  rw [heq, beginWithWireTail]
  dsimp only
  split
  · obtain ⟨u, hu', -⟩ := Session.rollbackTo_spec (hq.talk.live hlive) mark
    exact ⟨_, by rw [hu']; rfl⟩
  · exact ⟨_, rfl⟩

/-! ### The two commands -/

/-- A turn starts afresh exactly where the conversation is closed, and then sends everything. -/
theorem Begun.start {engine : Nat} (h : Begun e engine t s cmd s') (hclosed : s'.opened = false) :
    ∃ tools, cmd = .startChat s'.id (s'.transcriptWithSystem (t.systemOverride.getD s'.system))
      t.thinking tools := by
  obtain ⟨tools, rfl⟩ := h.command
  refine ⟨tools, ?_⟩
  simp only [Chat.command, hclosed, append_nil, Session.pending]
  cases hover : t.systemOverride <;> rfl

/-- Where it is open, a turn sends what comes after the beginning that is held. -/
theorem Begun.continue {engine : Nat} (h : Begun e engine t s cmd s') (hopened : s'.opened = true) :
    ∃ tools, cmd = .continueChat s'.id (s'.transcript.drop (e.sent s'.id))
      (s'.transcript.take (e.sent s'.id)) t.thinking tools := by
  obtain ⟨tools, rfl⟩ := h.command
  refine ⟨tools, ?_⟩
  have hover : t.systemOverride = none := by
    cases hover : t.systemOverride with
    | none => rfl
    | some x =>
      have := h.overridden (by rw [hover]; rfl)
      rw [hopened] at this
      cases this
  have hle : e.sent s'.id ≤ s'.transcript.length := by
    have := h.held hopened
    simp only [Session.prefixStillHeld, Bool.and_eq_true, decide_eq_true_eq] at this
    rw [Session.length_transcript]
    exact this.1.2
  simp [Chat.command, hopened, hover, Session.pending, Nat.min_eq_left hle]

theorem Begun.held_pos {engine : Nat} (h : Begun e engine t s cmd s') (hopened : s'.opened = true) :
    0 < e.sent s'.id ∧ e.sent s'.id ≤ s'.transcriptLen ∧
      s'.prefixFingerprint = some ((s'.lead (e.sent s'.id)).digest s'.offeredFingerprint) := by
  have := h.held hopened
  simp only [Session.prefixStillHeld, Bool.and_eq_true, decide_eq_true_eq] at this
  obtain ⟨⟨hpos, hle⟩, hfp⟩ := this
  rw [Session.prefixDigest_eq h.live.length_active] at hfp
  exact ⟨hpos, hle, by simpa using hfp⟩

/-! ## The invariant -/

/-- The invariant of one engine.  Where its conversation is open, its digest is that of a beginning
which was given to it; and if that is as long as the count says, a runtime there is holds its
messages. -/
def BoundAt (s : Session) (engine : Nat) (e : Engine) (given : Option Given) : Prop :=
  (s.bindingOf engine).opened = true → ∃ g, given = some g ∧
    (s.bindingOf engine).prefixFingerprint = some (g.lead.digest g.offered) ∧
    ∀ r, e.chats.lookup s.id = some r → 0 < e.sent s.id → e.sent s.id = g.lead.length →
      g.lead.messages = r.messages

/-- The invariant of the whole. -/
structure Agreed (w : World) : Prop where
  live : w.session.Live
  unparked : w.session.Unparked
  bound : ∀ engine, BoundAt w.session engine (w.engines engine) (w.given engine)

theorem BoundAt.opensNothing {t : Session} {engine : Nat} {given : Option Given}
    (h : BoundAt s engine e given) (ho : OpensNothing s t) : BoundAt t engine e given := by
  intro hopened
  obtain ⟨hid, hb⟩ := ho engine hopened
  rw [hid, hb]
  exact h (hb ▸ hopened)

variable {w : World}

/-- A change of the session that opens nothing keeps the invariant. -/
theorem Agreed.opensNothing (h : Agreed w) {t : Session} (hl : t.Live) (hu : t.Unparked)
    (ho : OpensNothing w.session t) : Agreed { w with session := t } :=
  ⟨hl, hu, fun engine => (h.bound engine).opensNothing ho⟩

/-- A change of one engine, and of the session where it is bound to that engine. -/
theorem Agreed.update (h : Agreed w) {engine : Nat} {t : Session} {given : Option Given}
    (hl : t.Live) (hu : t.Unparked)
    (hothers : ∀ engine', engine' ≠ engine → (t.bindingOf engine').opened = true →
      t.id = w.session.id ∧ t.bindingOf engine' = w.session.bindingOf engine')
    (hb : BoundAt t engine e given) :
    Agreed ⟨t, Function.update w.engines engine e, Function.update w.given engine given⟩ := by
  refine ⟨hl, hu, fun engine' => ?_⟩
  dsimp only
  by_cases heq : engine' = engine
  · subst heq
    rw [Function.update_self, Function.update_self]
    exact hb
  · rw [Function.update_of_ne heq, Function.update_of_ne heq]
    intro hopened
    obtain ⟨hid, hbinding⟩ := hothers engine' heq hopened
    rw [hid, hbinding]
    exact h.bound engine' (hbinding ▸ hopened)

/-- What a turn leaves of the other engines' bindings. -/
theorem Begun.others {engine : Nat} {u : Session} (h : Begun e engine t s cmd s')
    (hid : u.id = s'.id) (hsame : SameEngines s' u) (engine' : Nat) (hne : engine' ≠ engine)
    (hopened : (u.bindingOf engine').opened = true) :
    u.id = s.id ∧ u.bindingOf engine' = s.bindingOf engine' := by
  have hother := bindingOf_other h.bound hsame hne
  obtain ⟨hid', hb⟩ := h.opens engine' (hother ▸ hopened)
  exact ⟨hid.trans hid', hother.trans hb⟩

/-! ## What is held when a turn continues -/

/-- The digests that decide the turn are not of two different beginnings. -/
def NoCollision (w : World) (engine : Nat) (t : TurnSpec) : Prop :=
  ∀ cmd s g, w.begins engine t = some (.ok cmd, s) → w.given engine = some g →
    (s.lead ((w.engines engine).sent s.id)).digest s.offeredFingerprint = g.lead.digest g.offered →
    s.lead ((w.engines engine).sent s.id) = g.lead

/-- **A turn continues only where the runtime holds the beginning of the transcript** that its count
says. -/
theorem Agreed.holds (h : Agreed w) {engine : Nat} (hno : NoCollision w engine t)
    (hbegins : w.begins engine t = some (.ok cmd, s)) (hopened : s.opened = true) :
    ∃ g, w.given engine = some g ∧ s.prefixFingerprint = some (g.lead.digest g.offered) ∧
      s.lead ((w.engines engine).sent s.id) = g.lead ∧
      ∀ r, (w.engines engine).chats.lookup s.id = some r →
        r.messages = s.transcript.take ((w.engines engine).sent s.id) := by
  have hb := beginTurn_ok h.live h.unparked hbegins
  have hbinding : (s.bindingOf engine).opened = true := by
    rw [Session.bindingOf, if_pos hb.bound]
    exact hopened
  obtain ⟨g, hg, hfp, hr⟩ := (h.bound engine).opensNothing hb.opens hbinding
  rw [Session.bindingOf, if_pos hb.bound] at hfp
  have hfp : s.prefixFingerprint = some (g.lead.digest g.offered) := hfp
  obtain ⟨hpos, hle, hdigest⟩ := hb.held_pos hopened
  have hlead := hno cmd s g hbegins hg (Option.some.inj (hdigest.symm.trans hfp))
  refine ⟨g, hg, hfp, hlead, fun r hlookup => ?_⟩
  have hlen : (w.engines engine).sent s.id = g.lead.length := by
    rw [← hlead, Session.lead_length hb.live.length_active hle]
  rw [← hr r hlookup hpos hlen, ← hlead, Session.lead_messages hb.live.length_active]

/-! ## Settling -/

theorem complete_spec (hl : s.Live) (t : TurnSpec) (reply : Option Message) (shed : Nat)
    (stopped : Bool) :
    (complete t s reply shed stopped).Live ∧ OpensNothing s (complete t s reply shed stopped) ∧
      SameEngines s (complete t s reply shed stopped) ∧
      (complete t s reply shed stopped).id = s.id ∧
      (complete t s reply shed stopped).prefixFingerprint = s.prefixFingerprint ∧
      ((complete t s reply shed stopped).opened = true → s.opened = true ∧
        ¬ (t.via = .turn ∧ (stopped = true ∨ t.perTurnPrefix = true))) := by
  -- the session with its reply, before it may be closed
  have hreply : ∃ u : Session, u.Live ∧ u.engineView = s.engineView ∧
      complete t s reply shed stopped =
        if t.via = .turn ∧ (stopped = true ∨ t.perTurnPrefix = true) then { u with opened := false }
        else u := by
    have hshed : (s.noteShed shed).Live :=
      (⟨rfl, rfl, rfl, rfl, rfl, rfl⟩ : SameTalk s (s.noteShed shed)).live hl
    cases reply with
    | none => exact ⟨s.noteShed shed, hshed, rfl, rfl⟩
    | some m =>
      exact ⟨_, Session.live_push hshed m, Session.push_engineView (s.noteShed shed) m, rfl⟩
  obtain ⟨u, hlu, hview, heq⟩ := hreply
  have hopens : OpensNothing s u := Session.opensNothing_of_engineView (.inl hview)
  simp only [Session.engineView, Session.EngineView.mk.injEq] at hview
  obtain ⟨hid, ho, -, -, -, hfp, -, -, hbound, hparked⟩ := hview
  rw [heq]
  split
  · exact ⟨hlu.closed, hopens.trans u.opensNothing_close, ⟨hbound, hparked⟩, hid, hfp,
      fun h => by cases h⟩
  · rename_i hopen
    exact ⟨hlu, hopens, ⟨hbound, hparked⟩, hid, hfp, fun h => ⟨ho ▸ h, hopen⟩⟩

/-- A settled turn: the engine's binding is open, and its digest is that of the beginning it has
acknowledged. -/
theorem settled_agreed (h : Agreed w) {engine : Nat}
    (hb : Begun (w.engines engine) engine t w.session cmd s) {delivered : Nat}
    {reply : Option Message} {shed : Nat} {stopped : Bool}
    (hr : ¬ (t.via = .turn ∧ (stopped = true ∨ t.perTurnPrefix = true)) →
      ∀ r, e.chats.lookup s.id = some r → ∀ count,
        count = (if s.opened then e.sent s.id else 0) + delivered →
        count = (s.lead count).length → (s.lead count).messages = r.messages) :
    Agreed (w.settled engine t e s (some delivered) reply shed stopped) := by
  let count := (if s.opened then e.sent s.id else 0) + delivered
  let u : Session := ({ s with opened := true } : Session).recordPrefix count
  have hlu : u.Live := (⟨rfl, rfl, rfl, rfl, rfl, rfl⟩ : SameTalk s u).live hb.live
  obtain ⟨hlive, -, hsame, hid, hfp, hopen⟩ := complete_spec hlu t reply shed stopped
  have hsame' : SameEngines s (complete t u reply shed stopped) := hsame
  have hbound : (complete t u reply shed stopped).boundEngine = some engine := hsame'.1.trans hb.bound
  have hat : BoundAt (complete t u reply shed stopped) engine (e.markSent s.id count)
      (some (givenAfter e s delivered reply)) := by
    intro hopened
    rw [Session.bindingOf, if_pos hbound] at hopened ⊢
    obtain ⟨-, hnot⟩ := hopen hopened
    refine ⟨_, rfl, ?_, fun r hlookup hpos hlen => ?_⟩
    · refine hfp.trans ?_
      show some (s.prefixDigest count s.offeredFingerprint) = _
      rw [Session.prefixDigest_eq hb.live.length_active]
      rfl
    · have hid : (complete t u reply shed stopped).id = s.id := hid
      rw [hid, sent_markSent] at hlen
      rw [hid] at hlookup
      exact hr hnot r hlookup count rfl hlen
  exact h.update hlive (hsame'.unparked hb.unparked) (hb.others hid hsame') hat

/-! ## One step -/

/-- The turn leaves messages behind in a runtime without their being recorded: the backend fails
after appending them, or the stream is not read to its end. -/
def Outcome.leavesBehind (o : Outcome) (hasRuntime : Bool) : Bool :=
  match o with
  | .failed appended => appended && hasRuntime
  | .dropped _ => true
  | _ => false

/-- The steps that keep the agreement: no continuation that sends anything is left behind, and no
two digests collide. -/
def StepOk (w : World) : Step → Prop
  | .turn engine t o => NoCollision w engine t ∧
      ∀ id new transcript thinking tools s,
        w.begins engine t = some (.ok (.continueChat id new transcript thinking tools), s) →
        new ≠ [] → o.leavesBehind ((w.engines engine).chats.lookup id).isSome = false
  | _ => True

/-- An engine whose runtime for the session has been changed, while the session has not settled. -/
theorem Agreed.unsettled (h : Agreed w) {engine : Nat} {u : Session}
    (hb : Begun (w.engines engine) engine t w.session cmd s) (hu : Quiet s u)
    (hsame : SameEngines s u) {chats : AList (fun _ : SessionId => Runtime)}
    (hat : u.opened = true → BoundAt s engine { w.engines engine with chats := chats }
      (w.given engine)) :
    Agreed { w with
      session := u
      engines := Function.update w.engines engine { w.engines engine with chats := chats } } := by
  have hat' : BoundAt u engine { w.engines engine with chats := chats } (w.given engine) := by
    intro hopened
    have hopen : u.opened = true := by
      rw [Session.bindingOf, if_pos (hsame.1.trans hb.bound)] at hopened
      exact hopened
    exact (hat hopen).opensNothing hu.opens hopened
  have hupdate := h.update (hu.talk.live hb.live) hu.unparked (hb.others hu.talk.id hsame) hat'
  rw [Function.update_eq_self] at hupdate
  exact hupdate

/-- A turn that was read to its end without having been acknowledged. -/
theorem Agreed.unacknowledged (h : Agreed w) {engine : Nat}
    (hb : Begun (w.engines engine) engine t w.session cmd s)
    {chats : AList (fun _ : SessionId => Runtime)} {reply : Option Message} {shed : Nat}
    {stopped : Bool}
    (hat : s.opened = true → BoundAt s engine
      { w.engines engine with chats := chats } (w.given engine)) :
    Agreed (w.settled engine t { w.engines engine with chats := chats } s none reply shed stopped) := by
  obtain ⟨hlive, hopens, hsame, hid, -, hopen⟩ := complete_spec hb.live t reply shed stopped
  refine h.update hlive (hsame.unparked hb.unparked) (hb.others hid hsame) fun hopened => ?_
  have hopened' : (complete t s reply shed stopped).opened = true := by
    rw [Session.bindingOf, if_pos (hsame.1.trans hb.bound)] at hopened
    exact hopened
  exact (hat (hopen hopened').1).opensNothing hopens hopened

/-- A turn that starts afresh keeps the agreement, whatever becomes of it. -/
theorem start_agreed (h : Agreed w) {engine : Nat}
    (hb : Begun (w.engines engine) engine t w.session cmd s) (hclosed : s.opened = false)
    (o : Outcome) : Agreed (w.finishTurn engine t cmd s o) := by
  obtain ⟨tools, rfl⟩ := hb.start hclosed
  have hquiet : Quiet s s := ⟨SameTalk.refl s, OpensNothing.refl s, hb.unparked⟩
  have hno : ∀ chats, s.opened = true → BoundAt s engine { w.engines engine with chats := chats }
      (w.given engine) := fun chats hopen => by
    rw [hclosed] at hopen
    cases hopen
  -- what is settled is the whole transcript, unless the turn had a prompt of its own and closes
  have hwhole : ∀ (chats : AList (fun _ : SessionId => Runtime)) (stopped : Bool) (r : Runtime),
      r.messages = s.transcriptWithSystem (t.systemOverride.getD s.system) →
      ¬ (t.via = .turn ∧ (stopped = true ∨ t.perTurnPrefix = true)) → ∀ count,
      count = (if s.opened then ({ w.engines engine with chats := chats } : Engine).sent s.id else 0) +
        (s.transcriptWithSystem (t.systemOverride.getD s.system)).length →
      (s.lead count).messages = r.messages := by
    intro chats stopped r hmessages hopen count hcount
    have hover : t.systemOverride = none := by
      cases hover : t.systemOverride with
      | none => rfl
      | some x =>
        obtain ⟨hvia, hper⟩ := t.overrideIsPerTurn (by rw [hover]; rfl)
        exact absurd ⟨hvia, .inr hper⟩ hopen
    rw [hclosed, hover] at hcount
    have hcount : count = s.transcript.length := by simpa [Session.transcript] using hcount
    rw [Session.lead_messages hb.live.length_active, hmessages, hover, hcount, take_length]
    rfl
  cases o with
  | undelivered => exact h.unsettled hb hquiet ⟨rfl, rfl⟩ (hno _)
  | refused => exact h.unsettled hb hquiet ⟨rfl, rfl⟩ (hno _)
  | failed appended => exact h.unsettled hb hquiet ⟨rfl, rfl⟩ (hno _)
  | dropped generated => exact h.unsettled hb hquiet ⟨rfl, rfl⟩ (hno _)
  | abandoned => exact h.unsettled hb hquiet.close ⟨rfl, rfl⟩ fun hopen => by cases hopen
  | finished reply shed =>
    refine settled_agreed h hb fun hopen r hlookup count hcount _ => ?_
    rw [AList.lookup_insert] at hlookup
    cases hlookup
    exact hwhole _ false _ rfl hopen count hcount
  | stopped acknowledged reply shed =>
    cases acknowledged with
    | false => exact h.unacknowledged hb (hno _)
    | true =>
      refine settled_agreed h hb fun _ r hlookup _ _ _ => ?_
      rw [AList.lookup_erase] at hlookup
      cases hlookup

/-- A turn that continues keeps the agreement, unless it leaves behind what it has sent. -/
theorem continue_agreed (h : Agreed w) {engine : Nat}
    (hbegins : w.begins engine t = some (.ok cmd, s)) (hopened : s.opened = true)
    (hno : NoCollision w engine t) {o : Outcome}
    (hleft : s.transcript.drop ((w.engines engine).sent s.id) ≠ [] →
      o.leavesBehind ((w.engines engine).chats.lookup s.id).isSome = false) :
    Agreed (w.finishTurn engine t cmd s o) := by
  have hb := beginTurn_ok h.live h.unparked hbegins
  obtain ⟨g, hg, hfp, hlead, hholds⟩ := h.holds hno hbegins hopened
  obtain ⟨hpos, hle, -⟩ := hb.held_pos hopened
  obtain ⟨tools, rfl⟩ := hb.continue hopened
  generalize hheld : (w.engines engine).sent s.id = held at *
  have hquiet : Quiet s s := ⟨SameTalk.refl s, OpensNothing.refl s, hb.unparked⟩
  have hall : s.transcript.take held ++ s.transcript.drop held = s.transcript :=
    take_append_drop ..
  have hlen := s.length_transcript
  -- the binding as it was, for runtimes that hold the beginning
  have hat : ∀ chats : AList (fun _ : SessionId => Runtime),
      (∀ r, chats.lookup s.id = some r → r.messages = s.transcript.take held) →
      s.opened = true → BoundAt s engine { w.engines engine with chats := chats }
        (w.given engine) := by
    intro chats hchats _ _
    refine ⟨g, hg, ?_, fun r hlookup _ _ => ?_⟩
    · rw [Session.bindingOf, if_pos hb.bound]
      exact hfp
    · rw [hchats r hlookup, ← hlead, Session.lead_messages hb.live.length_active]
  have herase : ∀ r, ((w.engines engine).chats.erase s.id).lookup s.id = some r →
      r.messages = s.transcript.take held := fun r hlookup => by
    rw [AList.lookup_erase] at hlookup
    cases hlookup
  have hsent : ∀ chats : AList (fun _ : SessionId => Runtime),
      (if s.opened then ({ w.engines engine with chats := chats } : Engine).sent s.id else 0) =
        held := fun chats => by
    rw [if_pos hopened]
    exact hheld
  cases hr : (w.engines engine).chats.lookup s.id with
  | some r =>
    have hmessages : r.messages = s.transcript.take held := hholds r hr
    have hsame : ∀ r', (w.engines engine).chats.lookup s.id = some r' →
        r'.messages = s.transcript.take held := hholds
    -- a runtime that nothing has been appended to
    have hinsert : s.transcript.drop held = [] → ∀ (reply : Option Message) r',
        ((w.engines engine).chats.insert s.id
          { r with messages := r.messages ++ s.transcript.drop held, reply := reply }).lookup s.id =
            some r' → r'.messages = s.transcript.take held := by
      intro hnil reply r' hlookup
      rw [AList.lookup_insert] at hlookup
      cases hlookup
      rw [hnil, append_nil, hmessages]
    simp only [World.finishTurn, handle, hr]
    cases o with
    | undelivered => exact h.unsettled hb hquiet ⟨rfl, rfl⟩ (hat _ hsame)
    | refused => exact h.unsettled hb hquiet ⟨rfl, rfl⟩ (hat _ hsame)
    | failed appended =>
      cases appended with
      | false => exact h.unsettled hb hquiet ⟨rfl, rfl⟩ (hat _ hsame)
      | true =>
        refine h.unsettled hb hquiet ⟨rfl, rfl⟩ (hat _ (hinsert ?_ none))
        by_contra hne
        have := hleft hne
        rw [hr] at this
        cases this
    | dropped generated =>
      refine h.unsettled hb hquiet ⟨rfl, rfl⟩ (hat _ (hinsert ?_ generated))
      by_contra hne
      cases hleft hne
    | abandoned => exact h.unsettled hb hquiet.close ⟨rfl, rfl⟩ fun hopen => by cases hopen
    | finished reply shed =>
      refine settled_agreed h hb fun _ r' hlookup count hcount _ => ?_
      simp only [continueRuntime, AList.lookup_insert] at hlookup hcount
      cases hlookup
      rw [hsent, length_drop] at hcount
      rw [Session.lead_messages hb.live.length_active, hmessages, hall]
      exact take_of_length_le (by omega)
    | stopped acknowledged reply shed =>
      cases acknowledged with
      | false => exact h.unacknowledged hb (hat _ herase)
      | true =>
        refine settled_agreed h hb fun _ r hlookup _ _ _ => ?_
        simp only [continueRuntime, AList.lookup_erase] at hlookup
        cases hlookup
  | none =>
    have hsame : ∀ r', (w.engines engine).chats.lookup s.id = some r' →
        r'.messages = s.transcript.take held := fun r' hr' => by
      rw [hr] at hr'
      cases hr'
    simp only [World.finishTurn, handle, hr]
    cases o with
    | undelivered => exact h.unsettled hb hquiet ⟨rfl, rfl⟩ (hat _ hsame)
    | refused => exact h.unsettled hb hquiet ⟨rfl, rfl⟩ (hat _ hsame)
    | failed appended => exact h.unsettled hb hquiet ⟨rfl, rfl⟩ (hat _ herase)
    | dropped generated =>
      refine h.unsettled hb hquiet ⟨rfl, rfl⟩ (hat _ fun r' hlookup => ?_)
      simp only [startChat, AList.lookup_insert] at hlookup
      cases hlookup
      by_cases hnil : s.transcript.drop held = []
      · exact (congrArg _ hnil).trans (append_nil _)
      · cases hleft hnil
    | abandoned => exact h.unsettled hb hquiet.close ⟨rfl, rfl⟩ fun hopen => by cases hopen
    | finished reply shed =>
      -- the rebuilt runtime has everything, but the count is too high, and proves nothing
      refine settled_agreed h hb fun _ r' _ count hcount hlead' => ?_
      simp only [startChat] at hcount
      rw [hsent, hall] at hcount
      rw [← Session.Lead.length_messages, Session.lead_messages hb.live.length_active,
        length_take] at hlead'
      omega
    | stopped acknowledged reply shed =>
      cases acknowledged with
      | false => exact h.unacknowledged hb (hat _ herase)
      | true =>
        refine settled_agreed h hb fun _ r hlookup _ _ _ => ?_
        simp only [startChat, AList.lookup_erase] at hlookup
        cases hlookup

theorem turn_agreed {w' : World} (h : Agreed w) {engine : Nat} {o : Outcome}
    (hok : StepOk w (.turn engine t o)) (hrun : w.turn engine t o = some w') : Agreed w' := by
  obtain ⟨r, hr⟩ := beginTurn_isSome (w.engines engine) engine t h.live h.unparked
  have hbegins : w.begins engine t = some r := hr
  rw [World.turn, hbegins] at hrun
  obtain ⟨result, s⟩ := r
  cases result with
  | error media =>
    cases hrun
    obtain ⟨hl, hu, ho⟩ := beginTurn_error h.live h.unparked hbegins
    exact h.opensNothing hl hu ho
  | ok cmd =>
    cases hrun
    have hb := beginTurn_ok h.live h.unparked hbegins
    by_cases hopened : s.opened = true
    · refine continue_agreed h hbegins hopened hok.1 fun hne => ?_
      obtain ⟨tools, rfl⟩ := hb.continue hopened
      exact hok.2 _ _ _ _ _ _ hbegins hne
    · exact start_agreed h hb (by simpa using hopened) o

/-- A change of one engine that makes no runtime and no count. -/
theorem Agreed.engine (h : Agreed w) {engine : Nat}
    (hchats : ∀ r, e.chats.lookup w.session.id = some r →
      (w.engines engine).chats.lookup w.session.id = some r)
    (hsent : 0 < e.sent w.session.id → e.sent w.session.id = (w.engines engine).sent w.session.id) :
    Agreed { w with engines := Function.update w.engines engine e } := by
  have hat : BoundAt w.session engine e (w.given engine) := by
    intro hopened
    obtain ⟨g, hg, hfp, hr⟩ := h.bound engine hopened
    refine ⟨g, hg, hfp, fun r hlookup hpos hlen => ?_⟩
    rw [hsent hpos] at hlen
    exact hr r (hchats r hlookup) (hsent hpos ▸ hpos) hlen
  have hupdate := h.update h.live h.unparked (fun _ _ _ => ⟨rfl, rfl⟩) hat
  rw [Function.update_eq_self] at hupdate
  exact hupdate

/-- **The step lemma.** -/
theorem step_agreed {w' : World} (h : Agreed w) {i : Step} (hok : StepOk w i)
    (hrun : step i w = some w') : Agreed w' := by
  cases i with
  | edit op =>
    obtain ⟨s, hs, rfl⟩ := Option.map_eq_some_iff.1 hrun
    obtain ⟨s', hs', hl⟩ := Session.live_apply h.live op
    rw [hs] at hs'
    cases hs'
    have hcloses := Session.apply_closes h.live hs
    exact h.opensNothing hl (hcloses.unparked h.unparked) hcloses.opensNothing
  | noteTools fingerprint =>
    cases hrun
    exact h.opensNothing ((w.session.sameTalk_noteTools fingerprint).live h.live)
      ((w.session.sameEngines_noteTools fingerprint).unparked h.unparked)
      (w.session.opensNothing_noteTools fingerprint)
  | turn engine t o => exact turn_agreed h hok hrun
  | evict engine id =>
    cases hrun
    refine h.engine (fun r hlookup => ?_) fun _ => rfl
    by_cases hid : w.session.id = id
    · rw [hid, AList.lookup_erase] at hlookup
      cases hlookup
    · rwa [AList.lookup_erase_ne hid] at hlookup
  | forget engine id =>
    cases hrun
    refine h.engine (fun r hlookup => hlookup) fun hpos => ?_
    rw [Engine.sent, Engine.forget] at hpos ⊢
    by_cases hid : w.session.id = id
    · rw [hid, AList.lookup_erase] at hpos
      cases hpos
    · rw [AList.lookup_erase_ne hid]
      rfl
  | swapModel engine capabilities =>
    cases hrun
    refine h.engine (fun r hlookup => ?_) fun hpos => ?_
    · cases hlookup
    · cases hpos

/-- No session has been opened on any engine yet. -/
theorem agreed_new {id : SessionId} (h : w.session = Session.blank id) : Agreed w where
  live := h ▸ Session.live_blank id
  unparked := by
    rw [h]
    exact fun engine hb => nomatch hb
  bound engine hopened := by
    rw [h] at hopened
    cases hopened

/-! ## The outcome -/

/-- What a turn's command continues: the chat, what is sent and the transcript. -/
def continued? {ε : Type} : Except ε Cmd → Option (SessionId × List Message × List Message)
  | .ok (.continueChat id new transcript _ _) => some (id, new, transcript)
  | _ => none

omit [SerdeJson] in
theorem exists_of_continued? {ε : Type} {r : Except ε Cmd} {id : SessionId}
    {new transcript : List Message} (h : continued? r = some (id, new, transcript)) :
    ∃ thinking tools, r = .ok (.continueChat id new transcript thinking tools) := by
  rcases r with e | ⟨⟩ | ⟨⟩
  · cases h
  · cases h
  · cases h
    exact ⟨_, _, rfl⟩

/-- What a continuation is for: the conversation the runtime holds — or the beginning it is rebuilt
from, where there is no runtime — followed by what is sent is the session's transcript. -/
def Delivers (w : World) : Step → Prop
  | .turn engine t _ => ∀ id new transcript thinking tools s,
      w.begins engine t = some (.ok (.continueChat id new transcript thinking tools), s) →
      (match (w.engines engine).chats.lookup id with
        | some r => r.messages
        | none => transcript) ++ new = s.transcript
  | _ => True

theorem Agreed.delivers (h : Agreed w) {i : Step} (hok : StepOk w i) : Delivers w i := by
  cases i with
  | turn engine t o =>
    intro id new transcript thinking tools s hbegins
    have hb := beginTurn_ok h.live h.unparked hbegins
    have hopened : s.opened = true := by
      by_contra hclosed
      obtain ⟨_, hcmd⟩ := hb.start (by simpa using hclosed)
      cases hcmd
    obtain ⟨g, -, -, -, hholds⟩ := h.holds hok.1 hbegins hopened
    obtain ⟨_, hcmd⟩ := hb.continue hopened
    cases hcmd
    split
    · rename_i r hr
      rw [hholds r hr]
      exact take_append_drop ..
    · exact take_append_drop ..
  | edit op | noteTools fingerprint | evict engine id | forget engine id
  | swapModel engine capabilities => trivial

end

/-! ### Two turns, and three -/

/-- A new session and engines with nothing loaded into them yet. -/
def World.new : World where
  session := Session.blank "s"
  engines _ := ⟨0, ⟨true, true, true, true⟩, ∅, ∅⟩
  given _ := none

/-- A turn that says one thing and asks for nothing special. -/
def say (text : String) : TurnSpec where
  via := .turn
  staged := [.user text]
  thinking := .auto
  tools := none
  suppressTools := false
  systemOverride := none
  perTurnPrefix := false
  overrideIsPerTurn h := nomatch h

end Chat
end Gen2
