import Gen2.Engine.Types
import Gen2.Lib.Run
import Gen2.Types.Message
import Mathlib.Data.List.Basic

/-!
# LiteRT-LM sessions

`backend/litertlm/session.rs`: a session holds the messages that the runtime was given and those
that are still to be sent, and a pull sends what is pending, on the live conversation or on one that
is opened for it.  Of `convert.rs` there is what decides which of the two it is, and what refuses a
pull.

* What the C API answers is an argument, as `Outside`.  A conversation is what it was given: the
  messages it was opened with, and those that were sent to it.
* `Session.pull` empties the pending messages before the conversation is opened and the message is
  sent; where either fails they are nowhere.
* `pull_cases` says what a pull does.
* `delivered_once_iff`: along a run nothing is lost, repeated or out of order, and the live
  conversation has what was delivered, if and only if no pull fails at either of the two.
-/

namespace Gen2.LiteRtLm

open Lib List

/-! ## Sampling -/

/-- `SamplingSettings`, by what this backend reads. -/
structure SamplingSettings where
  temperature : Option F32 := none
  topP : Option F32 := none
  topK : Option Int := none
  minP : Option F32 := none
  penaltyLastN : Option Int := none
  penaltyRepeat : Option F32 := none
  penaltyFreq : Option F32 := none
  penaltyPresent : Option F32 := none
  seed : Option UInt32 := none

/-- `Settings`, with `stopping.max_tokens`. -/
structure Settings where
  sampling : SamplingSettings := {}
  maxTokens : Option Nat := none

/-- `GrammarSpec`.  A schema is given by its text. -/
inductive GrammarSpec
  | jsonObject
  | jsonSchema (schema : String)
  | regex (rx : String)
  | lark (text : String)

/-- `GenSpec`, by what this backend reads. -/
structure GenSpec where
  maxTokens : Option Nat := none
  temperature : Option F32 := none
  seed : Option UInt64 := none
  topP : Option F32 := none
  topK : Option Int := none
  minP : Option F32 := none
  dryMultiplier : Option F32 := none
  xtcProbability : Option F32 := none
  penaltyRepeat : Option F32 := none
  penaltyFreq : Option F32 := none
  penaltyPresent : Option F32 := none
  grammar : Option GrammarSpec := none

/-- `x > 0.0`. -/
def isPositive (x : F32) : Bool := !x.isNaN && !x.isZero && x.bits &&& 0x80000000 == 0

/-- `x <= 0.0`. -/
def isAtMostZero (x : F32) : Bool := !x.isNaN && (x.isZero || x.bits &&& 0x80000000 != 0)

/-- `1.0`. -/
def F32_ONE : F32 := ⟨0x3f800000⟩

/-- `Settings::with_gen_spec_overrides`. -/
def Settings.withGenSpecOverrides (settings : Settings) (spec : GenSpec) : Settings :=
  { settings with
    sampling :=
      { settings.sampling with
        temperature := spec.temperature <|> settings.sampling.temperature
        topP := spec.topP <|> settings.sampling.topP
        topK := spec.topK <|> settings.sampling.topK
        minP := spec.minP <|> settings.sampling.minP
        penaltyRepeat := spec.penaltyRepeat <|> settings.sampling.penaltyRepeat
        penaltyFreq := spec.penaltyFreq <|> settings.sampling.penaltyFreq
        penaltyPresent := spec.penaltyPresent <|> settings.sampling.penaltyPresent
        seed := spec.seed.map UInt64.toUInt32 <|> settings.sampling.seed } }

/-- `convert::Sampler`, whose equality is that of its numbers. -/
structure Sampler where
  kind : Nat
  temperature : Option F32
  topK : Option Int
  topP : Option F32
  seed : Option Int
  deriving BEq

/-- `sampler_type::TOP_P`. -/
def TOP_P : Nat := 2

def DEFAULT_TOP_K : Int := 1000

def GREEDY_TOP_K : Int := 1

def UNTRUNCATED_TOP_P : F32 := F32_ONE

/-- `v as i32`. -/
def asI32 (v : UInt32) : Int := if v.toNat < 2 ^ 31 then v.toNat else (v.toNat : Int) - 2 ^ 32

/-- `sampler_of`. -/
def samplerOf (settings : Settings) (spec : GenSpec) : Option Sampler :=
  let s := (settings.withGenSpecOverrides spec).sampling
  if s.temperature.isNone && s.topK.isNone && s.topP.isNone && s.seed.isNone then none
  else
    let seed := s.seed.map asI32
    if s.temperature.any isAtMostZero then
      some
        { kind := TOP_P
          temperature := none
          topK := some GREEDY_TOP_K
          topP := some UNTRUNCATED_TOP_P
          seed }
    else
      some
        { kind := TOP_P
          temperature := s.temperature
          topK := some ((s.topK.filter (0 < ·)).getD DEFAULT_TOP_K)
          topP := some (s.topP.getD UNTRUNCATED_TOP_P)
          seed }

/-- `unsupported_sampling`. -/
def unsupportedSampling (settings : Settings) (spec : GenSpec) : Option String :=
  if (settings.withGenSpecOverrides spec).sampling.minP.any isPositive then
    some ("min_p: LiteRT-LM samples with top-k and top-p only; use top_p, or " ++
      "a backend with min-p")
  else if spec.dryMultiplier.any isPositive then
    some "dry: LiteRT-LM has no DRY repetition penalty; use penalty_repeat instead"
  else if spec.xtcProbability.any isPositive then some "xtc: LiteRT-LM has no XTC sampler"
  else none

/-- `penalties_of`. -/
def penaltiesOf (settings : Settings) (spec : GenSpec) : Option (F32 × F32 × F32) :=
  let s := (settings.withGenSpecOverrides spec).sampling
  if s.penaltyRepeat.isSome || s.penaltyFreq.isSome || s.penaltyPresent.isSome then
    some (s.penaltyRepeat.getD F32_ONE, s.penaltyFreq.getD ⟨0⟩, s.penaltyPresent.getD ⟨0⟩)
  else none

/-- `penalty_window`. -/
def penaltyWindow (settings : Settings) (spec : GenSpec) : Option Int :=
  (settings.withGenSpecOverrides spec).sampling.penaltyLastN.filter (0 < ·)

/-- `constraint_of`, with the kinds of `constraint_type`. -/
def constraintOf : GrammarSpec → Except ExecError (Nat × String)
  | .jsonObject => .ok (2, "\x7b\"type\":\"object\"\x7d")
  | .jsonSchema schema => .ok (2, schema)
  | .regex rx => .ok (1, rx)
  | .lark _ =>
    .error (.featureUnsupported ("Lark grammar: LiteRT-LM constrains with regex and JSON schema " ++
      "only. Use GrammarSpec::JsonSchema or GrammarSpec::Regex, or a backend with " ++
      "a general grammar engine."))

/-! ## Sessions -/

/-- `OwnedConversation`, by what it was given: the messages it was opened with, and those that were
sent to it, each with the call that it answers. -/
structure Conversation where
  opened : List Message
  sent : List (Message × String)

/-- All that a conversation was given. -/
def Conversation.given (c : Conversation) : List Message := c.opened ++ c.sent.map Prod.fst

/-- `LiteRtLmSession`. -/
structure Session where
  conversation : Option Conversation
  settings : Settings
  sampler : Option Sampler
  delivered : List Message
  pending : List Message
  stopped : Bool
  paused : Bool

/-- `LiteRtLmEngine::start_session`: the last message is the one to generate from. -/
def startSession (settings : Settings) (messages : List Message) : Session where
  conversation := none
  settings := settings
  sampler := none
  delivered := messages.dropLast
  pending := messages.getLast?.toList
  stopped := false
  paused := false

/-- What the C API answers during a pull. -/
structure Outside where
  newArgs : Except ExecError Unit
  setConstraint : Except ExecError Unit
  setPenalties : Except ExecError Unit
  openConversation : Except ExecError Unit
  sendStream : Except ExecError Unit

/-- `OwnedOptionalArgs`. -/
structure OptionalArgs where
  maxOutputTokens : Option Nat
  constraint : Option (Nat × String)
  penalties : Option ((F32 × F32 × F32) × Option Int)

/-- The options of a pull, or the reason why there are none. -/
def optionsOf (o : Outside) (settings : Settings) (spec : GenSpec) :
    Except ExecError OptionalArgs := do
  o.newArgs
  let maxOutputTokens := (spec.maxTokens <|> settings.maxTokens).map (min · (2 ^ 31 - 1))
  let constraint ←
    match spec.grammar with
    | none => pure none
    | some grammar => do
      let constraint ← constraintOf grammar
      o.setConstraint
      pure (some constraint)
  let penalties ←
    match penaltiesOf settings spec with
    | none => pure none
    | some penalties => do
      o.setPenalties
      pure (some (penalties, penaltyWindow settings spec))
  pure ⟨maxOutputTokens, constraint, penalties⟩

namespace Session

/-- `rebuild`. -/
def rebuild (o : Outside) (history : List Message) (spec : GenSpec) (s : Session) :
    Except ExecError Session :=
  match o.openConversation with
  | .error e => .error e
  | .ok () =>
    .ok { s with conversation := some ⟨history, []⟩, sampler := samplerOf s.settings spec }

/-- `conversation_for`. -/
def conversationFor (o : Outside) (spec : GenSpec) (history : List Message) (s : Session) :
    Except ExecError Session :=
  if s.conversation.isSome && s.sampler == samplerOf s.settings spec then .ok s
  else s.rebuild o history spec

/-- The id of the call that a message answers: its own, or that of the last call that was
delivered. -/
def callIdOf (last : Message) (delivered : List Message) : String :=
  last.toolCallId.getD
    ((delivered.reverse.findSome? fun m =>
      match m.body with
      | .tool toolCalls => toolCalls.getLast?.map ToolCall.id
      | .content _ => none).getD "")

/-- `send_stream`, on the live conversation. -/
def send (message : Message) (callId : String) (s : Session) : Session :=
  { s with conversation := s.conversation.map fun c =>
      { c with sent := c.sent ++ [(message, callId)] } }

/-- `pull`, up to the puller that it returns. -/
def pull (o : Outside) (spec : GenSpec) (s : Session) : Except ExecError Unit × Session :=
  let s := { s with stopped := false, paused := false }
  match unsupportedSampling s.settings spec with
  | some reason => (.error (.featureUnsupported reason), s)
  | none =>
    match optionsOf o s.settings spec with
    | .error e => (.error e, s)
    | .ok _ =>
      let turn := s.pending
      let s := { s with pending := [] }
      match turn.getLast? with
      | none =>
        (.error (.invalidArg ("no new message to generate from — the conversation already " ++
          "holds everything gen2 has sent")), s)
      | some last =>
        let earlier := turn.dropLast
        let history := s.delivered ++ earlier
        let opened :=
          if earlier.isEmpty then s.conversationFor o spec history else s.rebuild o history spec
        match opened with
        | .error e => (.error e, s)
        | .ok s =>
          let callId := callIdOf last s.delivered
          match o.sendStream with
          | .error e => (.error e, s)
          | .ok () =>
            let s := s.send last callId
            (.ok (), { s with delivered := s.delivered ++ turn })

/-- `append_messages`. -/
def appendMessages (newMessages : List Message) (s : Session) : Session :=
  { s with pending := s.pending ++ newMessages }

/-! ## What a pull does -/

variable {o : Outside} {spec : GenSpec} {s s' : Session} {r : Except ExecError Unit}

/-- Nothing refuses a pull before it takes the pending messages. -/
def Passes (o : Outside) (spec : GenSpec) (s : Session) : Prop :=
  unsupportedSampling s.settings spec = none ∧ ∃ options, optionsOf o s.settings spec = .ok options

/-- A pull opens a conversation: there is context to send, or no live conversation with the sampler
that is asked for. -/
def Reopens (spec : GenSpec) (s : Session) : Prop :=
  s.pending.dropLast ≠ [] ∨
    (s.conversation.isSome && s.sampler == samplerOf s.settings spec) = false

/-- A pull delivers what it takes: where it gets as far as the pending messages and there are any,
the conversation opens if one is to be opened, and the stream starts. -/
def Delivers (o : Outside) (spec : GenSpec) (s : Session) : Prop :=
  s.Passes o spec → s.pending ≠ [] →
    (s.Reopens spec → o.openConversation = .ok ()) ∧ o.sendStream = .ok ()

/-- What a pull comes to. -/
inductive Pulled (o : Outside) (spec : GenSpec) (s : Session) :
    Except ExecError Unit → Session → Prop
  /-- It is refused before it takes anything. -/
  | refused {e : ExecError} {s' : Session} (hpasses : ¬ s.Passes o spec)
      (hdelivered : s'.delivered = s.delivered) (hpending : s'.pending = s.pending)
      (hconversation : s'.conversation = s.conversation) : Pulled o spec s (.error e) s'
  /-- There is nothing to take. -/
  | idle {e : ExecError} {s' : Session} (hnone : s.pending = [])
      (hdelivered : s'.delivered = s.delivered) (hpending : s'.pending = [])
      (hconversation : s'.conversation = s.conversation) : Pulled o spec s (.error e) s'
  /-- What it has taken is lost. -/
  | lost {e : ExecError} {s' : Session} (hpasses : s.Passes o spec) (hsome : s.pending ≠ [])
      (hfails : ¬ ((s.Reopens spec → o.openConversation = .ok ()) ∧ o.sendStream = .ok ()))
      (hdelivered : s'.delivered = s.delivered) (hpending : s'.pending = []) :
      Pulled o spec s (.error e) s'
  /-- What it has taken is delivered: on the live conversation, or on one that was opened with all
  that came before the last message. -/
  | sent {s' : Session} {c : Conversation} (hpasses : s.Passes o spec) (hsome : s.pending ≠ [])
      (hworks : (s.Reopens spec → o.openConversation = .ok ()) ∧ o.sendStream = .ok ())
      (hdelivered : s'.delivered = s.delivered ++ s.pending) (hpending : s'.pending = [])
      (hconversation : s'.conversation = some c)
      (hgiven : c.given = s.delivered ++ s.pending ∨
        ∃ c₀, s.conversation = some c₀ ∧ c.given = c₀.given ++ s.pending) :
      Pulled o spec s (.ok ()) s'

/-- The conversation that a pull goes on with, where it has taken the pending messages. -/
theorem opened_of_reopens (h : s.Reopens spec) (history : List Message) :
    (if s.pending.dropLast.isEmpty then
        conversationFor o spec history { s with stopped := false, paused := false, pending := [] }
      else
        rebuild o history spec { s with stopped := false, paused := false, pending := [] }) =
      rebuild o history spec { s with stopped := false, paused := false, pending := [] } := by
  split
  next hempty =>
    have hlive := h.resolve_left (not_not.2 (isEmpty_iff.1 hempty))
    rw [conversationFor]
    exact if_neg (Bool.eq_false_iff.1 hlive)
  next => rfl

theorem opened_of_not_reopens (h : ¬ s.Reopens spec) (history : List Message) :
    (if s.pending.dropLast.isEmpty then
        conversationFor o spec history { s with stopped := false, paused := false, pending := [] }
      else
        rebuild o history spec { s with stopped := false, paused := false, pending := [] }) =
      .ok { s with stopped := false, paused := false, pending := [] } := by
  obtain ⟨hempty, hlive⟩ := not_or.1 h
  rw [if_pos (isEmpty_iff.2 (not_not.1 hempty)), conversationFor]
  exact if_pos (Bool.not_eq_false _ ▸ hlive)

theorem pull_spec (o : Outside) (spec : GenSpec) (s : Session) :
    Pulled o spec s (s.pull o spec).1 (s.pull o spec).2 := by
  rw [pull]
  dsimp only
  cases hunsupported : unsupportedSampling s.settings spec with
  | some reason =>
    exact .refused (fun h => by simp [h.1] at hunsupported) rfl rfl rfl
  | none =>
    dsimp only
    cases hoptions : optionsOf o s.settings spec with
    | error e =>
      refine .refused (fun h => ?_) rfl rfl rfl
      obtain ⟨-, options, hok⟩ := h
      exact nomatch hoptions.symm.trans hok
    | ok options =>
      have hpasses : s.Passes o spec := ⟨hunsupported, options, hoptions⟩
      dsimp only
      cases hlast : s.pending.getLast? with
      | none => exact .idle (getLast?_eq_none_iff.1 hlast) rfl rfl rfl
      | some last =>
        have hsome : s.pending ≠ [] := fun hnil => by simp [hnil] at hlast
        have hturn : s.pending.dropLast ++ [last] = s.pending :=
          dropLast_append_getLast? last hlast
        dsimp only
        by_cases hreopens : s.Reopens spec
        · rw [opened_of_reopens hreopens, rebuild]
          cases hopen : o.openConversation with
          | error e => exact .lost hpasses hsome (fun h => nomatch hopen ▸ h.1 hreopens) rfl rfl
          | ok _ =>
            dsimp only
            cases hsend : o.sendStream with
            | error e => exact .lost hpasses hsome (fun h => nomatch hsend ▸ h.2) rfl rfl
            | ok _ =>
              exact .sent hpasses hsome ⟨fun _ => hopen, hsend⟩ rfl rfl rfl
                (.inl ((append_assoc _ _ _).trans (congrArg _ hturn)))
        · rw [opened_of_not_reopens hreopens]
          obtain ⟨hempty, hlive⟩ := not_or.1 hreopens
          dsimp only
          cases hsend : o.sendStream with
          | error e => exact .lost hpasses hsome (fun h => nomatch hsend ▸ h.2) rfl rfl
          | ok _ =>
            have hboth := Bool.eq_true_of_not_eq_false hlive
            obtain ⟨c₀, hc₀⟩ := Option.isSome_iff_exists.1 (Bool.and_eq_true_iff.1 hboth).1
            rw [not_not.1 hempty, nil_append] at hturn
            refine .sent (c := ⟨c₀.opened, c₀.sent ++ [(last, callIdOf last s.delivered)]⟩) hpasses
              hsome ⟨fun h => absurd h hreopens, hsend⟩ rfl rfl ?_ (.inr ⟨c₀, hc₀, ?_⟩)
            · simp only [send, hc₀, Option.map_some]
            · rw [Conversation.given, Conversation.given, map_append, ← append_assoc,
                ← hturn]
              rfl

/-- A pull hands on the messages where it delivers what it takes. -/
theorem whole_pull_iff {all : List Message} (hwhole : s.delivered ++ s.pending = all) :
    (s.pull o spec).2.delivered ++ (s.pull o spec).2.pending = all ↔ s.Delivers o spec := by
  have hspec := pull_spec o spec s
  cases hr : (s.pull o spec).1 <;> rw [hr] at hspec
  · cases hspec with
    | refused hpasses hdelivered hpending =>
      rw [hdelivered, hpending]
      exact iff_of_true hwhole fun h => absurd h hpasses
    | idle hnone hdelivered hpending =>
      rw [hdelivered, hpending, ← hnone]
      exact iff_of_true hwhole fun _ h => absurd hnone h
    | lost hpasses hsome hfails hdelivered hpending =>
      rw [hdelivered, hpending, ← hwhole]
      refine iff_of_false (fun h => hsome ?_) fun h => hfails (h hpasses hsome)
      exact (append_cancel_left h).symm
  · cases hspec with
    | sent hpasses hsome hworks hdelivered hpending =>
      rw [hdelivered, hpending, append_nil]
      exact iff_of_true hwhole fun _ _ => hworks

/-- The live conversation has what was delivered. -/
def Live (s : Session) : Prop := ∀ c, s.conversation = some c → c.given = s.delivered

theorem Live.pull (h : s.Live) (hdelivers : s.Delivers o spec) :
    (s.pull o spec).2.Live ∧
      ((s.pull o spec).1 = .ok () → (s.pull o spec).2.conversation ≠ none) := by
  have hspec := pull_spec o spec s
  cases hr : (s.pull o spec).1 <;> rw [hr] at hspec
  · refine ⟨fun c hc => ?_, nofun⟩
    cases hspec with
    | refused hpasses hdelivered hpending hconversation =>
      rw [hdelivered]
      exact h c (hconversation ▸ hc)
    | idle hnone hdelivered hpending hconversation =>
      rw [hdelivered]
      exact h c (hconversation ▸ hc)
    | lost hpasses hsome hfails hdelivered hpending => exact absurd (hdelivers hpasses hsome) hfails
  · cases hspec with
    | @sent _ c hpasses hsome hworks hdelivered hpending hconversation hgiven =>
      refine ⟨fun c' hc' => ?_, fun _ hnone => nomatch hconversation.symm.trans hnone⟩
      obtain rfl := Option.some.inj (hconversation.symm.trans hc')
      rw [hdelivered]
      rcases hgiven with hgiven | ⟨c₀, hc₀, hgiven⟩
      · exact hgiven
      · rw [hgiven, h c₀ hc₀]

end Session

/-! ## Runs -/

/-- What a caller does with a session. -/
inductive Act
  | append (newMessages : List Message)
  | pull (o : Outside) (spec : GenSpec)

/-- A session in use: all the messages that it was ever given, and whether the last thing that
happened was a pull that worked. -/
structure Run where
  session : Session
  given : List Message
  pulled : Bool

namespace Run

/-- A session as it is opened. -/
def start (settings : Settings) (messages : List Message) : Run :=
  ⟨startSession settings messages, messages, false⟩

/-- One thing that happens. -/
def step (act : Act) (r : Run) : Option Run :=
  some <|
    match act with
    | .append newMessages =>
      ⟨r.session.appendMessages newMessages, r.given ++ newMessages, false⟩
    | .pull o spec =>
      ⟨(r.session.pull o spec).2, r.given, (r.session.pull o spec).1.isOk⟩

/-- Every message is delivered once or still to be delivered, in order. -/
def Whole (r : Run) : Prop := r.session.delivered ++ r.session.pending = r.given

/-- What is promised: no message is lost or repeated, and after a pull that works the live
conversation was given exactly what was delivered. -/
def Kept (r : Run) : Prop :=
  r.Whole ∧ (r.pulled = true → ∃ c, r.session.conversation = some c ∧ c.given = r.session.delivered)

/-- No pull fails between taking what is pending and the start of its stream. -/
def Delivers (r : Run) : Act → Prop
  | .append _ => True
  | .pull o spec => r.session.Delivers o spec

/-- What carries the promise on. -/
structure Inv (r : Run) : Prop where
  whole : r.Whole
  live : r.session.Live
  pulled : r.pulled = true → r.session.conversation ≠ none

theorem Inv.kept {r : Run} (h : r.Inv) : r.Kept := by
  refine ⟨h.whole, fun hpulled => ?_⟩
  obtain ⟨c, hc⟩ := Option.ne_none_iff_exists'.1 (h.pulled hpulled)
  exact ⟨c, hc, h.live c hc⟩

theorem Inv.step {r r' : Run} {act : Act} (h : r.Inv) (hdelivers : r.Delivers act)
    (hstep : Run.step act r = some r') : r'.Inv := by
  obtain rfl := Option.some.inj hstep
  cases act with
  | append newMessages =>
    have happended : r.session.delivered ++ (r.session.pending ++ newMessages) =
        r.given ++ newMessages :=
      (append_assoc _ _ _).symm.trans (congrArg (· ++ newMessages) h.whole)
    exact ⟨happended, h.live, nofun⟩
  | pull o spec =>
    have hlive := h.live.pull hdelivers
    refine ⟨(Session.whole_pull_iff h.whole).2 hdelivers, hlive.1, fun hpulled => hlive.2 ?_⟩
    change (r.session.pull o spec).1.isOk = true at hpulled
    cases hr : (r.session.pull o spec).1 with
    | error e =>
      rw [hr] at hpulled
      exact nomatch hpulled
    | ok _ => rfl

theorem Inv.start (settings : Settings) (messages : List Message) :
    (start settings messages).Inv := by
  refine ⟨?_, nofun, nofun⟩
  change messages.dropLast ++ messages.getLast?.toList = messages
  cases hlast : messages.getLast? with
  | none => rw [getLast?_eq_none_iff.1 hlast]; rfl
  | some last => exact dropLast_append_getLast? last hlast

/-- **Each message once.**  Along a run, what was delivered and what is pending are all the messages
that the session was given, in order, and after a pull that works the live conversation has what was
delivered, if and only if no pull that takes pending messages fails to open a conversation or to
start its stream. -/
theorem delivered_once_iff (settings : Settings) (messages : List Message) (acts : List Act) :
    Always step Kept acts (start settings messages) ↔
      EveryStep step Delivers acts (start settings messages) := by
  constructor
  · intro h
    refine (always_iff_everyStep (A := fun _ _ => True) (I := fun _ => True) (P := Whole)
      (fun r act _ _ => ⟨_, rfl, trivial⟩) ?_ trivial (Inv.start settings messages).whole
      (everyStep_true acts _)).1 (h.mono fun _ hkept => hkept.1)
    rintro r act r' - hwhole - hstep
    obtain rfl := Option.some.inj hstep
    cases act with
    | append newMessages =>
      exact iff_of_true ((List.append_assoc _ _ _).symm.trans (congrArg (· ++ newMessages) hwhole))
        trivial
    | pull o spec => exact Session.whole_pull_iff hwhole
  · intro h
    exact (always_of_step (fun r act hinv hdelivers => ⟨_, rfl, hinv.step hdelivers rfl⟩)
      (Inv.start settings messages) h).mono fun _ hinv => hinv.kept

/-- An outside in which everything works but the start of the stream. -/
def refusesStream : Outside :=
  ⟨.ok (), .ok (), .ok (), .ok (), .error (.generation
    "LiteRT-LM refused to start generation (code 1)")⟩

/-- A question. -/
def question : Message := ⟨"user", .content (.singleText "hi"), none, none⟩

/-- The runtime refuses to start on the only message of a session, and the message is gone. -/
theorem message_lost : ¬ Always step Kept [.pull refusesStream {}] (start {} [question]) := by
  rintro ⟨-, r, hr, hkept⟩
  obtain rfl := Option.some.inj hr
  have hgone : ([] : List Message) = [question] := hkept.1
  exact nomatch hgone

end Run

end Gen2.LiteRtLm
