import Gen2.Backend.ChatTemplate
import Gen2.Kv.Codec
import Gen2.SessionRt.Warm

/-!
# The llama session

`backend/llama/session.rs`: what a session is opened with, what it prefills when it is, and what it
prefills when messages are appended to it; and `tokenizer_adapter.rs`, by which it counts.

* **llama.cpp** is not part of the repository.  A model is a tokenizer and a way to make contexts
  (`LlamaModel`), a context is any type with the operations of `LlamaContext`.  What they are
  documented to do is `LawfulContext`, and only results about the contents of a context assume it.
* **Positions** are `i32`s in the source and integers here: no context has `2 ^ 31` cells.
* **Mutation.**  An operation takes a session and gives it back beside its result, also where the
  result is an error, since the transcript and the context may have changed by then.
* **Loops.**  An operation with a loop in it takes the number of rounds the loops may go on for;
  `none` is an operation that has not ended by then.
* The sessions opened here are those of requests that are not strict; a session that is strict is
  only said to be.
-/

namespace Gen2
namespace Llama

open Lib SessionRt Kv List

/-! ## The host -/

/-- `LlamaToken`. -/
abbrev LlamaToken := Int32

/-- `AddBos`. -/
inductive AddBos
  | always
  | never
  deriving DecidableEq

/-- What `HardwareProfile::cached` says of the host. -/
class HardwareProfile where
  inferenceBudgetBytes : UInt64
  tierContextCap : UInt32

/-- `MtmdInputChunks`: a prompt with media.  Evaluating it in a context, from a position on, takes
as many positions as it has. -/
structure MtmdInputChunks (Ctx : Type) where
  totalPositions : Int
  evalChunks : Ctx → Int → Int → Bool → Except ExecError (Ctx × Int)
  evalChunks_end : ∀ {ctx ctx' : Ctx} {nPast nBatch nPast' : Int} {logitsLast : Bool},
    evalChunks ctx nPast nBatch logitsLast = .ok (ctx', nPast') → nPast' = nPast + totalPositions

/-- `MediaPrompt`. -/
structure MediaPrompt (Ctx : Type) where
  chunks : MtmdInputChunks Ctx
  microphoneSuffix : Option String

/-- What the backend uses of a context of llama.cpp. -/
class LlamaContext (Ctx : Type) where
  nCtx : Ctx → UInt32
  /-- `decode`, on a batch of tokens with their positions. -/
  decode : Ctx → List (LlamaToken × Int) → Except ExecError Ctx
  clearKvCache : Ctx → Ctx
  getStateSize : Ctx → Nat
  copyStateData : Ctx → List UInt8
  setStateData : Ctx → List UInt8 → Ctx
  kvCacheSeqPosMax : Ctx → Int
  startMtmdAudioInput : Ctx → Except ExecError Ctx

/-- A batch: tokens at consecutive positions. -/
def batchOf (curPos : Int) (chunk : List LlamaToken) : List (LlamaToken × Int) :=
  chunk.mapIdx fun i token => (token, curPos + i)

/-- What llama.cpp is documented to do to the tokens in a context: what is decoded comes after them,
clearing leaves none, and a copied state is the same tokens again. -/
class LawfulContext (Ctx : Type) [LlamaContext Ctx] where
  cells : Ctx → List LlamaToken
  decode_ok : ∀ {ctx ctx' : Ctx} {curPos : Int} {chunk : List LlamaToken},
    LlamaContext.decode ctx (batchOf curPos chunk) = .ok ctx' → cells ctx' = cells ctx ++ chunk
  clear : ∀ ctx : Ctx, cells (LlamaContext.clearKvCache ctx) = []
  restore : ∀ ctx ctx' : Ctx,
    cells (LlamaContext.setStateData ctx (LlamaContext.copyStateData ctx')) = cells ctx'

/-- `LlamaModel`. -/
structure LlamaModel (Ctx : Type) where
  size : UInt64
  strToToken : String → AddBos → Except ExecError (List LlamaToken)
  /-- `new_context`, with `n_ctx` and `n_batch`. -/
  newContext : UInt32 → UInt32 → Except ExecError Ctx

/-- `MtmdContext`, with the marker that stands for media in its prompts: `media::tokenize`. -/
structure MtmdContext (Ctx : Type) where
  marker : String
  tokenize : String → List Message → Bool → Except ExecError (MediaPrompt Ctx)

/-- `Capabilities`. -/
structure Capabilities where
  images : Bool
  audio : Bool
  video : Bool
  microphone : Bool

/-- `ModelMeta`. -/
structure ModelMeta where
  modelUuid : String
  nCtx : UInt32
  nLayer : UInt32
  tokenizerDigest : Digest
  templateFingerprint : Digest

/-- `ModelBundle`. -/
structure ModelBundle (Ctx : Type) where
  model : LlamaModel Ctx
  modelMeta : ModelMeta
  contextKvBytesPerToken : UInt64
  capabilities : Capabilities
  mtmdCtx : Option (MtmdContext Ctx)

/-! ## Sessions -/

/-- `DecodeState`.  Of a microphone that is listening, the suffix to be prefilled after it. -/
structure DecodeState (Ctx : Type) where
  ctx : Ctx
  curPos : Int
  microphone : Option (List LlamaToken)

/-- `Session`. -/
structure Session (Ctx : Type) where
  bundle : ModelBundle Ctx
  settings : Settings
  chatTemplate : ChatTemplate
  /-- `None` while a puller has it, and for good once it is lost. -/
  state : Option (DecodeState Ctx)
  messages : List Message
  initialMessagesDropped : Nat
  ctxSize : UInt32
  enabledToolNames : Option (List String)
  enableThinking : Bool
  strict : Bool

/-! ## The size of the context -/

/-- `fit_context`. -/
def fitContext (budgetBytes modelResidentBytes kvPerToken : UInt64) (trainCtx : UInt32)
    (tierCap : Option UInt32) : UInt32 :=
  let overhead := 500 * 1024 * 1024
  let floor := 2048
  let remaining := budgetBytes.toNat - modelResidentBytes.toNat - overhead
  let maxTokens := min (remaining / max kvPerToken.toNat 1) (2 ^ 32 - 1)
  let fitted := max (maxTokens / 1024 * 1024) floor
  let capped := match tierCap with
    | some cap => min fitted (max cap.toNat floor)
    | none => fitted
  UInt32.ofNat (min capped (max trainCtx.toNat floor))

/-- The size of the context a session is created with: the setting, or what fits the host. -/
def createdCtxSize {Ctx : Type} [HardwareProfile] (bundle : ModelBundle Ctx)
    (settings : Settings) : UInt32 :=
  settings.system.ctxSize.getD (max (fitContext HardwareProfile.inferenceBudgetBytes
    bundle.model.size bundle.contextKvBytesPerToken (max bundle.modelMeta.nCtx 128)
    (some HardwareProfile.tierContextCap)) 128)

/-- The size of the context as an append takes it: the setting, or what the model was trained on. -/
def appendCtxSize {Ctx : Type} (bundle : ModelBundle Ctx) (settings : Settings) : Nat :=
  (settings.system.ctxSize.getD (max bundle.modelMeta.nCtx 128)).toNat

/-- `DEFAULT_BATCH_SIZE`. -/
def defaultBatchSize : UInt32 := 512

def batchSize (settings : Settings) : UInt32 := settings.system.batchSize.getD defaultBatchSize

/-- What is left of a context once the reserve for the reply is taken from it. -/
def ctxLimit (ctxSize : Nat) (settings : Settings) : Nat :=
  ctxSize - generationReserve ctxSize settings.stopping.maxTokens

/-! ## Media -/

/-- `media_parts`. -/
def mediaParts (messages : List Message) : List MessageChunk :=
  messages.flatMap fun message =>
    match message.body with
    | .content (.multipleChunks chunks) => chunks.filter fun
      | .text _ => false
      | _ => true
    | _ => []

/-- A conversation that waits for a microphone. -/
def hasMicrophone (messages : List Message) : Bool :=
  (mediaParts messages).any fun
    | .microphone => true
    | _ => false

/-- `with_media_markers`. -/
def withMediaMarkers (messages : List Message) (marker : String) : List Message :=
  messages.map fun message =>
    match message.body with
    | .content (.multipleChunks chunks) =>
      { message with body := .content (.multipleChunks (chunks.map fun
          | .text text => .text text
          | _ => .text marker)) }
    | _ => message

/-- `unsupported_media`. -/
def unsupportedMedia (messages : List Message) (available : Capabilities) : Option String :=
  (mediaParts messages).findSome? fun
    | .imageUrl _ => if available.images then none else some "images"
    | .audioPcm _ => if available.audio then none else some "audio input"
    | .microphone => if available.microphone then none else some "microphone input"
    | .video _ => if available.video then none else some "video input"
    | .text _ => none

/-- `u32 as i32`. -/
def u32AsI32 (n : UInt32) : Int := n.toInt32.toInt

section

variable {Ctx : Type}

/-! ## Rendering and counting -/

/-- `tokenize_chat_prompt`. -/
def tokenizeChatPrompt (model : LlamaModel Ctx) (prompt : String) :
    Except ExecError (List LlamaToken) :=
  model.strToToken prompt .never

/-- Render a conversation, and tokenize what comes out. -/
def chatTokens [SerdeJson] (model : LlamaModel Ctx) (tpl : ChatTemplate) (messages : List Message)
    (tools : ToolsAndPrompt) (enableThinking : Option Bool) :
    Except ExecError (List LlamaToken) :=
  match tpl.apply messages tools enableThinking with
  | .error e => .error (.other e)
  | .ok prompt => tokenizeChatPrompt model prompt

/-- `LlamaSessionTokenizer::count_tokens`. -/
def countTokens [SerdeJson] (model : LlamaModel Ctx) (tpl : ChatTemplate) : CountTokens :=
  fun messages => (chatTokens model tpl messages none none).map List.length

/-! ## Prefill -/

variable [LlamaContext Ctx]

/-- One round of the loop over what remains to be prefilled. -/
def prefillStep (batchSize : Nat) (s : DecodeState Ctx × List LlamaToken) :
    (DecodeState Ctx × List LlamaToken) ⊕ Except ExecError (DecodeState Ctx) :=
  if s.2.isEmpty then .inr (.ok s.1)
  else
    let chunkSize := min s.2.length batchSize
    match LlamaContext.decode s.1.ctx (batchOf s.1.curPos (s.2.take chunkSize)) with
    | .error e => .inr (.error e)
    | .ok ctx => .inl ({ s.1 with ctx := ctx, curPos := s.1.curPos + chunkSize },
        s.2.drop chunkSize)

/-- Prefill tokens from the current position on. -/
def prefill (fuel : Nat) (settings : Settings) (st : DecodeState Ctx) (tokens : List LlamaToken) :
    Option (Except ExecError (DecodeState Ctx)) :=
  loop (prefillStep (batchSize settings).toNat) fuel (st, tokens)

/-- The tokens to be prefilled after a microphone, where the prompt ends with one. -/
def microphoneCapture (bundle : ModelBundle Ctx) (prompt : MediaPrompt Ctx) :
    Except ExecError (Option (List LlamaToken)) :=
  match prompt.microphoneSuffix with
  | none => .ok none
  | some suffix =>
    match tokenizeChatPrompt bundle.model suffix with
    | .error e => .error e
    | .ok [] => .error (.invalidArg "empty microphone prompt suffix")
    | .ok tokens => .ok (some tokens)

/-- `DecodeState::prefill_media`. -/
def prefillMedia (bundle : ModelBundle Ctx) (settings : Settings) (st : DecodeState Ctx)
    (prompt : MediaPrompt Ctx) : Except ExecError (DecodeState Ctx) :=
  if st.microphone.isSome then .error (.invalidArg "microphone is already capturing")
  else
    match microphoneCapture bundle prompt with
    | .error e => .error e
    | .ok microphone =>
      let prefixPositions := prompt.chunks.totalPositions
      let suffixPositions : Int := ((microphone.map List.length).getD 0 : Nat)
      let available := u32AsI32 (LlamaContext.nCtx st.ctx)
      if prefixPositions ≤ 0 ∨ available ≤ st.curPos + prefixPositions + suffixPositions then
        .error (.contextOverflow "media turn exceeds the remaining context")
      else
        match prompt.chunks.evalChunks st.ctx st.curPos (u32AsI32 (batchSize settings))
            microphone.isNone with
        | .error e => .error e
        | .ok (ctx, nPast) =>
          if microphone.isSome then
            (LlamaContext.startMtmdAudioInput ctx).map fun ctx => ⟨ctx, nPast, microphone⟩
          else .ok ⟨ctx, nPast, microphone⟩

/-! ## Appending messages -/

/-- What an operation on a session comes to: its result, and the session after it. -/
abbrev Outcome (Ctx : Type) := Except ExecError Nat × Session Ctx

/-- The messages of an append that are rendered: the assistant's are in the context already. -/
def toRender (newMessages : List Message) : List Message :=
  newMessages.filter (·.role != "assistant")

/-- What is put around the rendering of an append to a session with video. -/
def continuation (prompt : String) : String :=
  "<|im_end|>\n" ++
    ((stripPrefix prompt.toList "<|startoftext|>".toList).map String.ofList).getD prompt

variable [SerdeJson]

/-- What an append to a session with video has to prefill. -/
def lfm3Prompt (mtmd : MtmdContext Ctx) (s : Session Ctx) (newMessages : List Message) :
    Except ExecError (MediaPrompt Ctx) :=
  match s.chatTemplate.apply (withMediaMarkers (toRender newMessages) mtmd.marker) none
      (some s.enableThinking) with
  | .error e => .error (.other e)
  | .ok prompt => mtmd.tokenize (continuation prompt) (toRender newMessages) false

/-- `Session::append_lfm3_omni`. -/
def appendLfm3Omni (s : Session Ctx) (newMessages : List Message) : Outcome Ctx :=
  match s.bundle.mtmdCtx with
  | none => (.error (.featureUnsupported "LFM3-Omni projector"), s)
  | some mtmd =>
    match unsupportedMedia newMessages s.bundle.capabilities with
    | some media => (.error (.featureUnsupported media), s)
    | none =>
      let extended := { s with messages := s.messages ++ newMessages }
      if (toRender newMessages).isEmpty then (.ok 0, extended)
      else
        match lfm3Prompt mtmd s newMessages, s.state with
        | .error e, _ => (.error e, s)
        | .ok _, none => (.error (.invalidArg "session already consumed"), s)
        | .ok prompt, some st =>
          match prefillMedia s.bundle s.settings st prompt with
          | .error e => (.error e, { s with state := none })
          | .ok st => (.ok 0, { extended with state := some st })

/-- The end of an append: what remains is prefilled, and a context that fails on the way is lost. -/
def finishAppend (fuel : Nat) (s : Session Ctx) (st : DecodeState Ctx)
    (remaining : List LlamaToken) (dropped : Nat) : Option (Outcome Ctx) :=
  (prefill fuel s.settings st remaining).map fun
    | .error e => (.error e, { s with state := none })
    | .ok st => (.ok dropped, { s with state := some st })

/-- An append that overflows: the context is cleared, the conversation compacted, and prefilled from
the start. -/
def rebuild (fuel : Nat) (s : Session Ctx) (st : DecodeState Ctx) : Option (Outcome Ctx) :=
  let cleared : DecodeState Ctx := { st with ctx := LlamaContext.clearKvCache st.ctx, curPos := 0 }
  let emptied := { s with state := some cleared }
  match WarmStart.apply fuel (countTokens s.bundle.model s.chatTemplate) s.settings
      (appendCtxSize s.bundle s.settings) s.messages with
  | none => none
  | some (.error e) => some (.error e, emptied)
  | some (.ok outcome) =>
    match chatTokens s.bundle.model s.chatTemplate outcome.messages none
        (some s.enableThinking) with
    | .error e => some (.error e, emptied)
    | .ok remaining =>
      finishAppend fuel { emptied with messages := outcome.messages } cleared remaining
        outcome.dropped

/-- An append that does not overflow: only what is new is rendered. -/
def appendDelta (fuel : Nat) (s : Session Ctx) (st : DecodeState Ctx)
    (newMessages : List Message) : Option (Outcome Ctx) :=
  if (toRender newMessages).isEmpty then some (.ok 0, s)
  else
    match chatTokens s.bundle.model s.chatTemplate (toRender newMessages) none
        (some s.enableThinking) with
    | .error e => some (.error e, s)
    | .ok [] => some (.ok 0, s)
    | .ok remaining => finishAppend fuel s st remaining 0

/-- `Session::append_messages`. -/
def appendMessages (fuel : Nat) (s : Session Ctx) (newMessages : List Message) :
    Option (Outcome Ctx) :=
  if s.strict then some (.error (.featureUnsupported "strict session append"), s)
  else if newMessages.isEmpty then some (.ok 0, s)
  else if s.bundle.capabilities.video then some (appendLfm3Omni s newMessages)
  else
    let s := { s with messages := s.messages ++ newMessages }
    match chatTokens s.bundle.model s.chatTemplate s.messages none (some s.enableThinking),
        s.state with
    | .error e, _ => some (.error e, s)
    | .ok _, none => some (.error (.invalidArg "session already consumed"), s)
    | .ok fullTokens, some st =>
      if ctxLimit (appendCtxSize s.bundle s.settings) s.settings < fullTokens.length then
        rebuild fuel s st
      else appendDelta fuel s st newMessages

/-! ## A new session's prompt -/

/-- The prompt goes in front of what the first user message says, if it says it in plain text. -/
def foldIntoFirstUser (mergedPrompt : String) : List Message → List Message
  | [] => []
  | message :: messages =>
    if message.role == "user" then
      match message.body with
      | .content (.singleText text) =>
        { message with body := .content (.singleText (mergedPrompt ++ "\n\n" ++ text)) } ::
          messages
      | _ => message :: messages
    else message :: foldIntoFirstUser mergedPrompt messages

/-- The system message a new session puts in front of a conversation that has none. -/
def injectPrompt (tpl : ChatTemplate) (mergedPrompt : String) (messages : List Message) :
    List Message :=
  if !messages.any (·.role == "system") && !isBlank mergedPrompt then
    if tpl.supportsSystemRole then .system mergedPrompt :: messages
    else foldIntoFirstUser mergedPrompt messages
  else messages

/-- What a new session has before it makes its context. -/
structure ColdPrompt where
  prompt : String
  messages : List Message
  tokens : List LlamaToken
  dropped : Nat

/-- The messages as the template is to see them. -/
def templateMessages (bundle : ModelBundle Ctx) (messages : List Message) : List Message :=
  match bundle.mtmdCtx with
  | some mtmd =>
    if (mediaParts messages).isEmpty then messages else withMediaMarkers messages mtmd.marker
  | none => messages

/-- The truncation of a new session's conversation, given what all of it comes to. -/
def truncateCold (fuel : Nat) (bundle : ModelBundle Ctx) (settings : Settings) (tpl : ChatTemplate)
    (ctxSize : UInt32) (messages : List Message) (tools : ToolsAndPrompt) (enableThinking : Bool)
    (prompt : String) (tokens : List LlamaToken) : Option (Except ExecError ColdPrompt) :=
  match ColdStart.apply fuel (countTokens bundle.model tpl) settings ctxSize.toNat messages with
  | none => none
  | some (.error e) => some (.error e)
  | some (.ok outcome) =>
    let dropped := messages.length - outcome.messages.length
    if 0 < outcome.dropped then
      some ((chatTokens bundle.model tpl outcome.messages tools (some enableThinking)).map
        fun tokens => ⟨prompt, outcome.messages, tokens, dropped⟩)
    else some (.ok ⟨prompt, outcome.messages, tokens, dropped⟩)

/-- The prompt of `Session::new`, and its truncation. -/
def coldPrompt (fuel : Nat) (bundle : ModelBundle Ctx) (settings : Settings) (tpl : ChatTemplate)
    (ctxSize : UInt32) (messages : List Message) (tools : ToolsAndPrompt) (enableThinking : Bool) :
    Option (Except ExecError ColdPrompt) :=
  match tpl.apply (templateMessages bundle messages) tools (some enableThinking) with
  | .error e => some (.error (.other e))
  | .ok prompt =>
    match tokenizeChatPrompt bundle.model prompt with
    | .error e => some (.error e)
    | .ok tokens =>
      if hasMicrophone messages then some (.ok ⟨prompt, messages, tokens, 0⟩)
      else truncateCold fuel bundle settings tpl ctxSize messages tools enableThinking prompt tokens

/-! ## Snapshots -/

/-- `KvSnapshot`. -/
structure KvSnapshot where
  tokensCovered : Nat
  bytes : List UInt8
  kvMeta : KvMeta

/-- `KvLoadSpec`, with what reading the file at its path comes to. -/
inductive KvLoadSpec
  | strict (blob : Except String (List UInt8))
  | lenient (blob : Except String (List UInt8))

namespace KvLoadSpec

def blob : KvLoadSpec → Except String (List UInt8)
  | strict blob => blob
  | lenient blob => blob

def isStrict : KvLoadSpec → Bool
  | strict _ => true
  | lenient _ => false

end KvLoadSpec

/-- `serde_json::to_vec` on the body of a message; `none` where it has no serialization. -/
class BodyJson where
  toVec : MessageBody → Option (List UInt8)

/-- What one message adds to the digest of a transcript. -/
def messageBytes [BodyJson] (m : Message) : List UInt8 :=
  asBytes m.role ++ 0 :: ((BodyJson.toVec m.body).getD [] ++
    0 :: ((m.name.map asBytes).getD [] ++ [0xff]))

def transcriptBytes [BodyJson] (messages : List Message) : List UInt8 :=
  messages.flatMap messageBytes

/-- `transcript_sha256`. -/
def transcriptSha256 [BodyJson] (messages : List Message) : Digest :=
  sha256 (transcriptBytes messages)

/-- `Session::build_kv_meta`, at a time. -/
def buildKvMeta (bundle : ModelBundle Ctx) (createdAtUs : Int64) : KvMeta where
  modelUuid := bundle.modelMeta.modelUuid
  nCtx := bundle.modelMeta.nCtx
  nLayer := bundle.modelMeta.nLayer
  tokenizerDigest := bundle.modelMeta.tokenizerDigest
  templateFingerprint := bundle.modelMeta.templateFingerprint
  createdAtUs := createdAtUs
  kvTokenCount := 0
  transcriptSha256 := Vector.replicate 32 0

/-- How many tokens a context says it holds. -/
def tokensCovered (ctx : Ctx) : Nat := (LlamaContext.kvCacheSeqPosMax ctx + 1).toNat

section Keepwarm

variable [BodyJson] [HeaderJson]

/-- The metadata of a session that is saved. -/
def saveMeta (s : Session Ctx) (st : DecodeState Ctx) (createdAtUs : Int64) : KvMeta :=
  { buildKvMeta s.bundle createdAtUs with
    kvTokenCount := UInt64.ofNat st.curPos.toNat
    transcriptSha256 := transcriptSha256 s.messages }

/-- `Session::save_cache`: the snapshot, whose bytes are what is written if it goes to a file. -/
def saveCache (s : Session Ctx) (createdAtUs : Int64) : Except ExecError KvSnapshot :=
  if s.strict then .error (.featureUnsupported "strict session KV cache")
  else
    match s.state with
    | none => .error (.invalidArg "session already consumed")
    | some st =>
      if st.microphone.isSome then .error (.featureUnsupported "uncommitted microphone KV cache")
      else if LlamaContext.getStateSize st.ctx = 0 then .error (.other "no state available")
      else
        let buf := LlamaContext.copyStateData st.ctx
        if buf.length = 0 then .error (.other "failed to copy state")
        else
          match buildBlob (saveMeta s st createdAtUs) buf with
          | none => .error (.other "serialize header")
          | some blob => .ok ⟨tokensCovered st.ctx, blob, saveMeta s st createdAtUs⟩

/-- Where a saved transcript ends in a conversation: before the last message, or before an assistant
message in front of it. -/
def splitPoint (messages : List Message) (saved : Digest) : Option Nat :=
  [messages.length - 1, messages.length - 2].find? fun k =>
    k != 0 &&
      !(k == messages.length - 2 && messages[k]?.map (·.role) != some "assistant") &&
        transcriptSha256 (messages.take k) == saved

/-- A snapshot of another model. -/
def identityMismatch (bundle : ModelBundle Ctx) (kvMeta : KvMeta) : Bool :=
  kvMeta.modelUuid != bundle.modelMeta.modelUuid || kvMeta.nCtx != bundle.modelMeta.nCtx ||
    kvMeta.nLayer != bundle.modelMeta.nLayer ||
      kvMeta.tokenizerDigest != bundle.modelMeta.tokenizerDigest ||
        kvMeta.templateFingerprint != bundle.modelMeta.templateFingerprint

/-- What a snapshot may be resumed with: how many tokens it holds, its payload, and the delta. -/
structure Resume where
  restoredN : Nat
  payload : List UInt8
  deltaTokens : List LlamaToken

/-- A restore that is not to be: a reason to start cold, or an error. -/
inductive NoRestore
  | miss (reason : String)
  | fail (e : ExecError)

/-- Whether a snapshot that could be read is one to resume this conversation with. -/
def resumeAt (bundle : ModelBundle Ctx) (tpl : ChatTemplate) (ctxSize : UInt32)
    (messages : List Message) (hdr : KvHeader) (payload : List UInt8) :
    Except NoRestore Resume :=
  if identityMismatch bundle hdr.kvMeta then .error (.miss "model identity mismatch")
  else if hdr.kvMeta.kvTokenCount = 0 then
    .error (.miss "pre-keepwarm blob (no token count)")
  else if messages.length < 2 then .error (.miss "transcript too short for resume")
  else
    match splitPoint messages hdr.kvMeta.transcriptSha256 with
    | none => .error (.miss "transcript divergence")
    | some k =>
      let deltaMsgs := toRender (messages.drop k)
      if deltaMsgs.isEmpty then .error (.miss "empty delta after restore")
      else
        match chatTokens bundle.model tpl deltaMsgs none none with
        | .error e => .error (.fail e)
        | .ok deltaTokens =>
          let restoredN := hdr.kvMeta.kvTokenCount.toNat
          if deltaTokens.isEmpty then .error (.miss "delta rendered to zero tokens")
          else if ctxSize.toNat ≤ restoredN + deltaTokens.length + 64 then
            .error (.miss ("restored state (" ++ toString restoredN ++ " tokens) + delta (" ++
              toString deltaTokens.length ++ ") won't fit ctx " ++ toString ctxSize))
          else .ok ⟨restoredN, payload, deltaTokens⟩

/-- `Session::try_restore`, up to where it makes a context.  Reading the snapshot may panic. -/
def resumePoint (bundle : ModelBundle Ctx) (tpl : ChatTemplate) (ctxSize : UInt32)
    (messages : List Message) (spec : KvLoadSpec) : Option (Except NoRestore Resume) :=
  match spec.blob with
  | .error e => some (.error (.miss ("kv blob unreadable: " ++ e)))
  | .ok blob =>
    match parseBlob blob with
    | none => none
    | some (.error e) => some (.error (.miss ("kv blob corrupt: " ++ e)))
    | some (.ok (hdr, payload)) => some (resumeAt bundle tpl ctxSize messages hdr payload)

/-- A miss, as the caller is told of it. -/
def missed (spec : KvLoadSpec) (reason : String) :
    Option (Except ExecError (Option (Session Ctx))) :=
  if spec.isStrict then some (.error (.kvIncompatible reason)) else some (.ok none)

/-- `Session::try_restore`. -/
def tryRestore [HardwareProfile] (fuel : Nat) (bundle : ModelBundle Ctx) (settings : Settings)
    (tpl : ChatTemplate) (messages : List Message) (enabledToolNames : Option (List String))
    (enableThinking : Bool) (spec : KvLoadSpec) :
    Option (Except ExecError (Option (Session Ctx))) :=
  let ctxSize := createdCtxSize bundle settings
  match resumePoint bundle tpl ctxSize messages spec with
  | none => none
  | some (.error (.miss reason)) => missed spec reason
  | some (.error (.fail e)) => some (.error e)
  | some (.ok resume) =>
    match bundle.model.newContext ctxSize (batchSize settings) with
    | .error e => some (.error e)
    | .ok fresh =>
      let ctx := LlamaContext.setStateData fresh resume.payload
      if tokensCovered ctx < resume.restoredN then
        missed spec ("restored KV covers " ++ toString (tokensCovered ctx) ++
          " tokens, header claims " ++ toString resume.restoredN)
      else
        (prefill fuel settings ⟨ctx, resume.restoredN, none⟩ resume.deltaTokens).map fun
          | .error e => .error e
          | .ok st => .ok (some
            { bundle, settings, chatTemplate := tpl, state := some st, messages,
              initialMessagesDropped := 0, ctxSize, enabledToolNames, enableThinking,
              strict := false })

/-! ## A new session -/

/-- `Session::new`, once the prompt has been made. -/
def openSession [HardwareProfile] (fuel : Nat) (bundle : ModelBundle Ctx) (settings : Settings)
    (tpl : ChatTemplate) (cold : ColdPrompt) (hasMedia : Bool) (tools : ToolsAndPrompt)
    (enableThinking : Bool) : Option (Except ExecError (Session Ctx)) :=
  let ctxSize := createdCtxSize bundle settings
  let session (st : DecodeState Ctx) (dropped : Nat) : Session Ctx :=
    { bundle, settings, chatTemplate := tpl, state := some st, messages := cold.messages,
      initialMessagesDropped := dropped, ctxSize,
      enabledToolNames := tools.map fun (tools, _) => tools.map (·.function.name),
      enableThinking, strict := false }
  match bundle.model.newContext ctxSize (batchSize settings) with
  | .error e => some (.error e)
  | .ok ctx =>
    if !hasMedia then
      (prefill fuel settings ⟨ctx, 0, none⟩ cold.tokens).map fun r =>
        r.map fun st => session st cold.dropped
    else
      match bundle.mtmdCtx with
      | none => some (.error (.featureUnsupported "media input"))
      | some mtmd =>
        match mtmd.tokenize cold.prompt cold.messages true with
        | .error e => some (.error e)
        | .ok prompt =>
          some ((prefillMedia bundle settings ⟨ctx, 0, none⟩ prompt).map fun st => session st 0)

/-- `Session::new`, with the prompt merged from the settings and the persona. -/
def Session.new [HardwareProfile] (fuel : Nat) (bundle : ModelBundle Ctx) (settings : Settings)
    (tpl : ChatTemplate) (messages : List Message) (mergedPrompt : String)
    (cache : Option KvLoadSpec) (tools : ToolsAndPrompt) (enableThinking : Bool) :
    Option (Except ExecError (Session Ctx)) :=
  let hasMedia := !(mediaParts messages).isEmpty
  if hasMicrophone messages && !bundle.capabilities.microphone then
    some (.error (.featureUnsupported "microphone input"))
  else
    let messages := injectPrompt tpl mergedPrompt messages
    let restored : Option (Except ExecError (Option (Session Ctx))) := match cache with
      | some spec =>
        if hasMedia then some (.ok none)
        else tryRestore fuel bundle settings tpl messages
          (tools.map fun (tools, _) => tools.map (·.function.name)) enableThinking spec
      | none => some (.ok none)
    match restored with
    | none => none
    | some (.error e) => some (.error e)
    | some (.ok (some session)) => some (.ok session)
    | some (.ok none) =>
      match coldPrompt fuel bundle settings tpl (createdCtxSize bundle settings) messages tools
          enableThinking with
      | none => none
      | some (.error e) => some (.error e)
      | some (.ok cold) => openSession fuel bundle settings tpl cold hasMedia tools enableThinking

end Keepwarm

end

/-! ## A context that behaves as documented -/

/-- A context that is its tokens, with a limit to them. -/
structure PlainContext where
  nCtx : UInt32
  cells : List LlamaToken

namespace PlainContext

/-- The tokens in a state. -/
def readState : List UInt8 → List LlamaToken
  | b0 :: b1 :: b2 :: b3 :: rest =>
    (UInt32.ofNat ((u32FromLeBytes [b0, b1, b2, b3]).getD 0)).toInt32 :: readState rest
  | _ => []

def writeState (cells : List LlamaToken) : List UInt8 :=
  cells.flatMap fun token => u32ToLeBytes token.toUInt32

theorem readState_writeState (cells : List LlamaToken) : readState (writeState cells) = cells := by
  induction cells with
  | nil => rfl
  | cons token cells ih =>
    have hread := u32FromLeBytes_toLeBytes token.toUInt32
    rw [u32ToLeBytes] at hread
    rw [writeState, flatMap_cons, ← writeState, u32ToLeBytes, cons_append,
      cons_append, cons_append, cons_append, nil_append, readState, ih, hread]
    simp

instance : LlamaContext PlainContext where
  nCtx := PlainContext.nCtx
  decode ctx batch :=
    if batch.isEmpty ∨ ctx.nCtx.toNat < ctx.cells.length + batch.length then
      .error (.other "decode failed")
    else .ok { ctx with cells := ctx.cells ++ batch.map Prod.fst }
  clearKvCache ctx := { ctx with cells := [] }
  getStateSize ctx := 1 + 4 * ctx.cells.length
  copyStateData ctx := 0 :: writeState ctx.cells
  setStateData ctx state := { ctx with cells := readState (state.drop 1) }
  kvCacheSeqPosMax ctx := ctx.cells.length - 1
  startMtmdAudioInput ctx := .ok ctx

theorem batchOf_fst (curPos : Int) (chunk : List LlamaToken) :
    (batchOf curPos chunk).map Prod.fst = chunk := by
  rw [batchOf]
  exact ext_getElem (by simp) (by simp)

instance : LawfulContext PlainContext where
  cells := PlainContext.cells
  decode_ok := by
    intro ctx ctx' curPos chunk h
    simp only [LlamaContext.decode] at h
    split at h
    · cases h
    · obtain rfl := Except.ok.inj h
      rw [batchOf_fst]
  clear _ := rfl
  restore _ ctx' := readState_writeState ctx'.cells

/-- A model with a token for every character. -/
def model : LlamaModel PlainContext where
  size := 0
  strToToken text _ := .ok (text.toList.map fun c => Int32.ofNat c.toNat)
  newContext nCtx _ := .ok ⟨nCtx, []⟩

/-- A model that was trained on a context of this size. -/
def bundle (nCtx : UInt32) : ModelBundle PlainContext where
  model := model
  modelMeta := ⟨"plain", nCtx, 1, Vector.replicate 32 1, Vector.replicate 32 2⟩
  contextKvBytesPerToken := 4
  capabilities := ⟨false, false, false, false⟩
  mtmdCtx := none

/-- A template that says what the tools are, then what everyone has said, and closes the thinking of
the reply before it begins if there is to be none. -/
def template : ChatTemplate where
  render inputs := .ok (String.join ((inputs.tools.getD []).map fun _ => "tool;") ++
    String.join (inputs.messages.map fun m => m.content ++ ";") ++
      match inputs.enableThinking with
      | some false => "</think>"
      | _ => "")
  bosToken := none
  eosToken := none
  useDefaultToolTemplate := false

end PlainContext

end Llama
end Gen2
