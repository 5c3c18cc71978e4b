import Gen2.Backend.ChatTemplate
import Gen2.Lib.Lru

/-!
# The prefix cache

How `backend/mlx/engine.rs` and `backend/mlx/session.rs` start a session, and what they keep of the
system messages for the next one.

* A bundle is what the loaded model contributes: its template, its tokenizer, what it can do.  The
  key/value cache of a model is the sequence of tokens it was fed.
* A `Call` is a `start_session` with what it reads of the world: the settings of the engine at the
  time, the meta prompt with its date, and whether a forward pass fails.
* `Compatible a b` relates two calls: what `a` may leave in the cache under their common key is a
  beginning of what `b` is prompted with.
* `sound_iff_compatible` says that calls of a kind can come in any number and order without a
  session being built on another's system messages exactly if they are compatible in pairs.
-/

namespace Gen2
namespace Mlx

open Lib Lib.Lru List

/-! ## What a session is started with -/

/-- `PromptSettings`. -/
structure PromptSettings where
  systemPrompt : Option String
  includeMeta : Option Bool

/-- `Settings::inherit_missing`. -/
def PromptSettings.inheritMissing (overrides defaults : PromptSettings) : PromptSettings :=
  ⟨overrides.systemPrompt <|> defaults.systemPrompt,
    overrides.includeMeta <|> defaults.includeMeta⟩

/-- `Persona`. -/
structure Persona where
  id : String
  name : String
  instructions : String

/-- `ThinkingMode`. -/
inductive ThinkingMode
  | auto
  | off
  | on

/-- `ThinkingMode::as_enable_thinking`. -/
def ThinkingMode.asEnableThinking : ThinkingMode → Option Bool
  | auto | on => some true
  | off => some false

/-- `SessionSpec`. -/
structure SessionSpec where
  overrides : Option PromptSettings
  messages : List Message
  persona : Option Persona
  thinking : ThinkingMode

/-- `ExecError`, as far as starting a session goes. -/
inductive ExecError
  | featureUnsupported (what : String)
  | other (text : String)

/-- A `start_session`, and what it finds: the settings of the engine, the meta prompt of the day,
and the error of a forward pass that fails. -/
structure Call where
  spec : SessionSpec
  settings : PromptSettings
  metaPrompt : String
  failure : Option ExecError

/-- `ModelBundle`, with the hash function of the standard library. -/
structure Bundle (τ : Type) where
  modelDir : String
  /-- `Capabilities::IMAGES`. -/
  images : Bool
  /-- There is a vision tower. -/
  vision : Bool
  /-- `model.is_diffusion()`. -/
  diffusion : Bool
  template : ChatTemplate
  /-- `tokenizer.encode(_, true)`. -/
  encode : String → Except String (List τ)
  hashStr : String → UInt64

/-- `str::trim`. -/
def trimStr (s : String) : String := String.ofList (trim s.toList)

/-- `merge_prompts`. -/
def mergePrompts (metaPrompt : String) (systemPrompt : Option String) (persona : Option Persona) :
    String :=
  let sys := match systemPrompt.map trimStr with
    | none | some "" => []
    | some sys => ["# User instructions\n" ++ sys]
  let persona := match persona with
    | none => []
    | some persona =>
      let instructions := trimStr persona.instructions
      let name := trimStr persona.name
      if instructions ≠ "" ∨ name ≠ "" then
        ["# Persona\nName: " ++ name ++ "\nInstructions:\n" ++ instructions]
      else []
  "\n\n".intercalate ([trimStr metaPrompt] ++ sys ++ persona)

/-- `messages_have_images`. -/
def messagesHaveImages (messages : List Message) : Bool :=
  messages.any fun m => match m.body with
    | .content (.multipleChunks chunks) => chunks.any fun
      | .imageUrl _ => true
      | _ => false
    | _ => false

namespace Call

/-- The settings of the session: its own, and the engine's where it has none. -/
def effective (c : Call) : PromptSettings :=
  (c.spec.overrides.map (·.inheritMissing c.settings)).getD c.settings

/-- `prefix_key`: the model, the system prompt of the settings, and the persona. -/
def prefixKey {τ : Type} (b : Bundle τ) (c : Call) : UInt64 :=
  b.hashStr (b.modelDir ++ "|" ++ c.effective.systemPrompt.getD "" ++ "|" ++
    (c.spec.persona.map (·.id)).getD "")

/-- The messages of the session: those it comes with, behind the merged prompt if no system message
is among them. -/
def messages (c : Call) : List Message :=
  let metaPrompt := if c.effective.includeMeta.getD true then c.metaPrompt else ""
  let merged := mergePrompts metaPrompt c.effective.systemPrompt c.spec.persona
  if !c.spec.messages.any (·.role == "system") && !isBlank merged then
    .system merged :: c.spec.messages
  else c.spec.messages

/-- The system messages at the front. -/
def sysMessages (c : Call) : List Message := c.messages.takeWhile (·.role == "system")

end Call

/-! ## Starting a session -/

/-- What a session is prompted with: an image prompt, the prompt of a diffusion model, or tokens for
the model's cache. -/
inductive Prompt (τ : Type)
  | images
  | diffusion (tokens : List τ)
  | text (tokens : List τ)

/-- A session as it is built.  Of one that has a cache of its own there are the tokens of its
prompt, the tokens its cache was fed, and those of the entry it was built on. -/
inductive Built (τ : Type)
  | images
  | diffusion (tokens : List τ)
  | text (full kv : List τ) (entry : Option (List τ))

/-- `PREFIX_LRU_CAP`. -/
def prefixLruCap : Nat := 4

instance : NeZero prefixLruCap := ⟨by decide⟩

/-- `PrefixCacheLru`: under a key, the tokens that the cached keys and values are of. -/
abbrev PrefixCacheLru (τ : Type) := Lru UInt64 (List τ) prefixLruCap

section
variable {τ : Type} [DecidableEq τ] [SerdeJson]

namespace Call

/-- An error of the template or of the tokenizer. -/
def orOther {α : Type} (r : Except String α) : Except ExecError α := r.mapError .other

/-- The prompt of a session, as far as it is text. -/
def prompt (b : Bundle τ) (c : Call) : Except ExecError (Prompt τ) := do
  let full ← orOther (b.template.apply c.messages none c.spec.thinking.asEnableThinking)
  if b.vision && messagesHaveImages c.messages then .ok .images
  else
    let tokens ← orOther (b.encode full)
    if b.diffusion then .ok (.diffusion tokens) else .ok (.text tokens)

/-- The tokens of the system messages alone, if they are a proper beginning of the prompt. -/
def systemPrefix (b : Bundle τ) (c : Call) (full : List τ) : Option (List τ) :=
  if c.sysMessages.isEmpty || c.prefixKey b == 0 then none
  else
    match b.template.applyWithOptions c.sysMessages none c.spec.thinking.asEnableThinking false with
    | .error _ => none
    | .ok text =>
      match b.encode text with
      | .error _ => none
      | .ok tokens =>
        if tokens.length < full.length ∧ tokens <+: full then some tokens else none

/-- `Session::new_with_prefix` without a cached entry: the system messages first, which are kept for
the cache, and then the rest; or all at once. -/
def buildFresh (b : Bundle τ) (c : Call) (full : List τ) (cache : PrefixCacheLru τ) :
    Built τ × PrefixCacheLru τ :=
  match c.systemPrefix b full with
  | some tokens =>
    (.text full (tokens ++ full.drop tokens.length) none, cache.insert (c.prefixKey b, tokens))
  | none => (.text full full none, cache)

/-- `Session::new_with_prefix` on a prompt for the model's cache.  An entry is taken if it is
shorter than the prompt. -/
def build (b : Bundle τ) (c : Call) (full : List τ) (cached : Option (List τ))
    (cache : PrefixCacheLru τ) : Built τ × PrefixCacheLru τ :=
  match cached with
  | some entry =>
    if entry.length < full.length then
      (.text full (entry ++ full.drop entry.length) (some entry), cache)
    else c.buildFresh b full cache
  | none => c.buildFresh b full cache

/-- `Engine::start_session`, of a loaded engine. -/
def startSession (b : Bundle τ) (c : Call) (cache : PrefixCacheLru τ) :
    Except ExecError (Built τ) × PrefixCacheLru τ :=
  if messagesHaveImages c.spec.messages && !b.images then
    (.error (.featureUnsupported "images"), cache)
  else
    let (cached, cache) := cache.touch (c.prefixKey b)
    match c.prompt b, c.failure with
    | .error e, _ => (.error e, cache)
    | .ok (.diffusion tokens), _ => (.ok (.diffusion tokens), cache)
    | .ok .images, some e => (.error e, cache)
    | .ok .images, none => (.ok .images, cache)
    -- a pass that fails comes before anything is kept
    | .ok (.text _), some e => (.error e, cache)
    | .ok (.text full), none =>
      let (built, cache) := c.build b full cached cache
      (.ok built, cache)

end Call

/-- The sessions of calls one after the other. -/
def startAll (b : Bundle τ) : List Call → PrefixCacheLru τ → List (Except ExecError (Built τ))
  | [], _ => []
  | c :: rest, cache => (c.startSession b cache).1 :: startAll b rest (c.startSession b cache).2

/-! ## What may go wrong -/

/-- The cache of a session holds its own prompt, and the entry it is built on is the beginning. -/
def Sound : Except ExecError (Built τ) → Prop
  | .ok (.text full kv entry) => kv = full ∧ ∀ tokens ∈ entry, tokens <+: full
  | _ => True

namespace Call

/-- The tokens a call feeds the model's cache, if it comes to that. -/
def fed (b : Bundle τ) (c : Call) : Option (List τ) :=
  if messagesHaveImages c.spec.messages && !b.images then none
  else match c.prompt b, c.failure with
    | .ok (.text full), none => some full
    | _, _ => none

/-- The tokens of its system messages a call may leave under its key. -/
def leaves (b : Bundle τ) (c : Call) : Option (List τ) := (c.fed b).bind (c.systemPrefix b)

/-- What the first call may leave under the key of both is a beginning of what the second feeds,
unless it is no shorter than that. -/
def Compatible (b : Bundle τ) (c d : Call) : Prop :=
  c.prefixKey b = d.prefixKey b → ∀ tokens ∈ c.leaves b, ∀ full ∈ d.fed b,
    tokens.length < full.length → tokens <+: full

end Call

/-! ## One call -/

variable {b : Bundle τ} {c : Call}

theorem prefix_of_systemPrefix {full tokens : List τ} (h : c.systemPrefix b full = some tokens) :
    tokens <+: full := by
  rw [Call.systemPrefix] at h
  split at h
  · cases h
  split at h
  · cases h
  split at h
  · cases h
  · split at h
    next hprefix => exact Option.some.inj h ▸ hprefix.2
    next => cases h

/-- A call that feeds the cache does it by way of what is under its key. -/
theorem startSession_of_fed {full : List τ} (h : c.fed b = some full) (cache : PrefixCacheLru τ) :
    c.startSession b cache
      = (.ok (c.build b full (cache.touch (c.prefixKey b)).1 (cache.touch (c.prefixKey b)).2).1,
        (c.build b full (cache.touch (c.prefixKey b)).1 (cache.touch (c.prefixKey b)).2).2) := by
  rw [Call.fed] at h
  split at h
  · cases h
  next himages =>
    rw [Call.startSession, if_neg himages]
    split at h
    next hprompt hfailure =>
      obtain rfl := Option.some.inj h
      simp only [hprompt, hfailure]
    next => cases h

/-- A call that does not feed the cache leaves nothing in it. -/
theorem startSession_of_not_fed (h : c.fed b = none) (cache : PrefixCacheLru τ) :
    Sound (c.startSession b cache).1
      ∧ ∀ e ∈ (c.startSession b cache).2.entries, e ∈ cache.entries := by
  rw [Call.fed] at h
  rw [Call.startSession]
  split
  · exact ⟨trivial, fun e he => he⟩
  next himages =>
    rw [if_neg himages] at h
    dsimp only
    split <;> first
      | exact ⟨trivial, fun e he => mem_touch he⟩
      | simp_all

/-- A session built without an entry is its own, and leaves its own system messages. -/
theorem buildFresh_spec (b : Bundle τ) (c : Call) (full : List τ) (cache : PrefixCacheLru τ) :
    Sound (.ok (c.buildFresh b full cache).1)
      ∧ ∀ e ∈ (c.buildFresh b full cache).2.entries,
        e ∈ cache.entries ∨ (e.1 = c.prefixKey b ∧ c.systemPrefix b full = some e.2) := by
  rw [Call.buildFresh]
  split
  next tokens hprefix =>
    refine ⟨⟨(prefix_iff_eq_append.1 (prefix_of_systemPrefix hprefix)), nofun⟩, fun e he => ?_⟩
    rcases mem_insert he with rfl | he
    · exact Or.inr ⟨rfl, hprefix⟩
    · exact Or.inl he
  next => exact ⟨⟨rfl, nofun⟩, fun e he => Or.inl he⟩

/-- Everything in the cache was left there by some call of the kind, under its key. -/
def Held (b : Bundle τ) (K : Call → Prop) (cache : PrefixCacheLru τ) : Prop :=
  ∀ e ∈ cache.entries, ∃ c, K c ∧ c.prefixKey b = e.1 ∧ c.leaves b = some e.2

/-- **The step lemma.**  A call that is compatible with those before it is built on its own
tokens. -/
theorem startSession_spec {K : Call → Prop} {cache : PrefixCacheLru τ} (hK : K c)
    (hcompatible : ∀ a, K a → Call.Compatible b a c) (hheld : Held b K cache) :
    Sound (c.startSession b cache).1 ∧ Held b K (c.startSession b cache).2 := by
  cases hfed : c.fed b with
  | none =>
    obtain ⟨hsound, hsub⟩ := startSession_of_not_fed hfed cache
    exact ⟨hsound, fun e he => hheld e (hsub e he)⟩
  | some full =>
    rw [startSession_of_fed hfed]
    have htouched : Held b K (cache.touch (c.prefixKey b)).2 := fun e he => hheld e (mem_touch he)
    -- built without an entry
    have hfresh := buildFresh_spec b c full (cache.touch (c.prefixKey b)).2
    have hleft : Held b K (c.buildFresh b full (cache.touch (c.prefixKey b)).2).2 := by
      intro e he
      rcases hfresh.2 e he with he | ⟨hkey, hprefix⟩
      · exact htouched e he
      · exact ⟨c, hK, hkey.symm, by rw [Call.leaves, hfed]; exact hprefix⟩
    simp only [Call.build]
    split
    next entry hentry =>
      split
      next hlt =>
        refine ⟨?_, htouched⟩
        -- the entry is what some call left under the key
        obtain ⟨a, ha, hkey, hleaves⟩ := hheld _ (mem_of_touch (Prod.ext hentry rfl))
        have hprefix := hcompatible a ha hkey entry hleaves full hfed hlt
        refine ⟨prefix_iff_eq_append.1 hprefix, fun tokens htokens => ?_⟩
        exact Option.some.inj htokens ▸ hprefix
      next => exact ⟨hfresh.1, hleft⟩
    next => exact ⟨hfresh.1, hleft⟩

/-! ## Runs -/

/-- **The run lemma.** -/
theorem sound_of_compatible {K : Call → Prop}
    (hcompatible : ∀ a c, K a → K c → Call.Compatible b a c) {calls : List Call}
    (hcalls : ∀ c ∈ calls, K c) {cache : PrefixCacheLru τ} (hheld : Held b K cache) :
    ∀ r ∈ startAll b calls cache, Sound r := by
  induction calls generalizing cache with
  | nil => exact nofun
  | cons c rest ih =>
    obtain ⟨hc, hrest⟩ := forall_mem_cons.1 hcalls
    obtain ⟨hsound, hheld'⟩ := startSession_spec hc (fun a ha => hcompatible a c ha hc) hheld
    exact forall_mem_cons.2 ⟨hsound, ih hrest hheld'⟩

/-- Two calls in a row are enough to tell. -/
theorem compatible_of_sound {d : Call} (h : ∀ r ∈ startAll b [c, d] .empty, Sound r) :
    Call.Compatible b c d := by
  intro hkey tokens hleaves full hfull hlt
  obtain ⟨full', hfed, hprefix⟩ := Option.bind_eq_some_iff.1 hleaves
  -- the first call leaves its system messages under the key
  have hcache : (c.startSession b .empty).2
      = ((Lru.empty : PrefixCacheLru τ).touch (c.prefixKey b)).2.insert
        (c.prefixKey b, tokens) := by
    rw [startSession_of_fed hfed]
    simp only [Call.build, Call.buildFresh, hprefix]
    rfl
  have hfound : ((c.startSession b .empty).2.touch (d.prefixKey b)).1 = some tokens := by
    rw [hcache, ← hkey]
    exact touch_insert _ (c.prefixKey b, tokens)
  -- and the second is built on it
  have hsound := h _ (mem_cons_of_mem _ mem_cons_self)
  rw [startSession_of_fed hfull, hfound] at hsound
  simp only [Call.build, if_pos hlt] at hsound
  exact hsound.2 tokens rfl

/-- **Calls of a kind never get one another's system messages exactly if they are compatible in
pairs.** -/
theorem sound_iff_compatible (b : Bundle τ) (K : Call → Prop) :
    (∀ calls : List Call, (∀ c ∈ calls, K c) → ∀ r ∈ startAll b calls .empty, Sound r)
      ↔ ∀ c d, K c → K d → Call.Compatible b c d := by
  constructor
  · intro h c d hc hd
    refine compatible_of_sound (h [c, d] fun a ha => ?_)
    rcases List.mem_cons.1 ha with rfl | ha
    · exact hc
    · exact List.mem_singleton.1 ha ▸ hd
  · intro h calls hcalls
    exact sound_of_compatible h hcalls nofun

end

/-! ## Two sessions of one engine

Each has a system message of its own, so neither reads the settings' prompt that the key is of. -/

/-- A template that writes the role before every message, and tokens that are characters. -/
def plainBundle : Bundle Char where
  modelDir := "/models/m"
  images := false
  vision := false
  diffusion := false
  template := ⟨fun inputs => .ok (
    String.join (inputs.messages.map fun m => m.role ++ ": " ++ m.content ++ "\n")
      ++ if inputs.addGenerationPrompt then "assistant: " else ""), none, none, false⟩
  encode text := .ok text.toList
  hashStr text := (Fnv.new.feed (asBytes text)).hash

/-- A session with a system message of its own, under settings without any. -/
def ownSystem (text : String) : Call :=
  ⟨⟨none, [.system text, .user "Hi"], none, .auto⟩, ⟨none, none⟩, "You are Pio.", none⟩

local instance : SerdeJson := SerdeJson.plain

/-- The second session is built on the first one's system message. -/
theorem ownSystem_not_sound :
    ¬ ∀ r ∈ startAll plainBundle [ownSystem "Be terse.", ownSystem "Answer in French."] .empty,
      Sound r := by
  intro h
  have hleaves : (ownSystem "Be terse.").leaves plainBundle
      = some "system: Be terse.\n".toList := by decide +kernel
  have hfed : (ownSystem "Answer in French.").fed plainBundle
      = some "system: Answer in French.\nuser: Hi\nassistant: ".toList := by decide +kernel
  have hprefix := compatible_of_sound h rfl _ hleaves _ hfed (by decide +kernel)
  exact absurd hprefix (by decide +kernel)

end Mlx
end Gen2
