import Gen2.Backend.Llama.Session
import Gen2.Lib.Scatter

/-!
# The embedder

`backend/llama/embedder.rs`: prompts are tokenized, packed greedily into groups that fit a context
made for the call, and each group is decoded in one pass, or prompt by prompt where that fails.

* **llama.cpp** is not part of the repository.  A `Host` is what it makes contexts with and decodes
  with, and it may fail wherever it likes; `Host.Faithful` is what it is documented to do where it
  does not: a decode within the limits of a context gives each sequence its own embedding.
* **Arithmetic** on `f32` is that of any `Floats32`.
* `decoded` is every batch given to `decode`, with the number of sequences asked of it.
-/

namespace Gen2
namespace Llama

open Lib

/-! ## The families -/

/-- `LlamaPoolingType`. -/
inductive LlamaPoolingType
  | mean
  | last
  deriving DecidableEq

/-- `EmbedderKind`. -/
inductive EmbedderKind
  | gemma
  | qwen3
  deriving DecidableEq

namespace EmbedderKind

def poolingType : EmbedderKind → LlamaPoolingType
  | .gemma => .mean
  | .qwen3 => .last

def inputSuffix : EmbedderKind → String
  | .gemma => ""
  | .qwen3 => "<|endoftext|>"

def targetDim : EmbedderKind → Option Nat
  | .gemma => none
  | .qwen3 => some 768

end EmbedderKind

/-! ## Batches -/

/-- A token of a `llama_batch`. -/
structure BatchToken where
  token : LlamaToken
  pos : Nat
  seqId : Nat
  logits : Bool
  deriving DecidableEq

/-- `LlamaBatch`. -/
structure LlamaBatch where
  allocated : Nat
  tokens : List BatchToken
  deriving DecidableEq

namespace LlamaBatch

def new (nTokens : Nat) : LlamaBatch := ⟨nTokens, []⟩

def nTokens (b : LlamaBatch) : Nat := b.tokens.length

def clear (b : LlamaBatch) : LlamaBatch := { b with tokens := [] }

/-- `BatchAddError::InsufficientSpace`. -/
def insufficientSpace (b : LlamaBatch) : String := s!"Insufficient Space of {b.allocated}"

def add (b : LlamaBatch) (token : LlamaToken) (pos seqId : Nat) (logits : Bool) :
    Except String Unit × LlamaBatch :=
  if b.allocated < b.nTokens + 1 then (.error b.insufficientSpace, b)
  else (.ok (), { b with tokens := b.tokens ++ [⟨token, pos, seqId, logits⟩] })

/-- The loop of `add_sequence`, from a position on. -/
def addFrom (seqId : Nat) (logitsAll : Bool) (lastIndex : Nat) :
    Nat → List LlamaToken → LlamaBatch → Except String Unit × LlamaBatch
  | _, [], b => (.ok (), b)
  | i, token :: tokens, b =>
    match b.add token i seqId (logitsAll || i == lastIndex) with
    | (.error e, b) => (.error e, b)
    | (.ok (), b) => addFrom seqId logitsAll lastIndex (i + 1) tokens b

def addSequence (b : LlamaBatch) (tokens : List LlamaToken) (seqId : Nat) (logitsAll : Bool) :
    Except String Unit × LlamaBatch :=
  if b.allocated < b.nTokens + tokens.length then (.error b.insufficientSpace, b)
  else addFrom seqId logitsAll (tokens.length - 1) 0 tokens b

/-- The tokens of one sequence. -/
def sequence (b : LlamaBatch) (seqId : Nat) : List LlamaToken :=
  (b.tokens.filter (·.seqId == seqId)).map (·.token)

end LlamaBatch

/-! ## The host -/

/-- The `f32` operations of `normalize_vec`. -/
structure Floats32 (F : Type) where
  zero : F
  mulAdd : F → F → F → F
  sqrt : F → F
  div : F → F → F

/-- `LlamaContextParams`, as the embedder sets them. -/
structure LlamaContextParams where
  nCtx : Nat
  nBatch : Nat
  nUbatch : Nat
  nSeqMax : Nat
  nThreadsBatch : Nat
  embeddings : Bool
  poolingType : LlamaPoolingType
  deriving DecidableEq

/-- What a context has room for: `n_ctx` is divided evenly across `n_seq_max` sequences, and one
`decode` takes no more tokens than there are in a micro-batch. -/
structure LlamaContextParams.Within (params : LlamaContextParams) (b : LlamaBatch) : Prop where
  nSeqMax : ∀ t ∈ b.tokens, t.seqId < params.nSeqMax
  nTokens : b.nTokens ≤ min params.nCtx (min params.nBatch params.nUbatch)
  each : ∀ i, (b.sequence i).length ≤ params.nCtx / params.nSeqMax

/-- The embedding a model has for a sequence. -/
abbrev Own (F : Type) := LlamaPoolingType → List LlamaToken → List F

/-- Contexts of llama.cpp, over the `f32`s `F`: what the embedder uses of them. -/
structure Host (F : Type) where
  Ctx : Type
  params : Ctx → LlamaContextParams
  availableParallelism : Except String Nat
  newContext : LlamaContextParams → Option Ctx
  clearKvCache : Ctx → Ctx
  /-- `decode`, and whether it succeeded. -/
  decode : Ctx → LlamaBatch → Ctx × Bool
  embeddingsSeqIth : Ctx → Nat → Except String (List F)

/-- What llama.cpp is documented to do, `own` being the embedding that a model has for a sequence:
**a decode within the limits gives each sequence its own**, whatever else is in the batch. -/
structure Host.Faithful {F : Type} (host : Host F) (own : Own F) : Prop where
  params_new : ∀ {params ctx}, host.newContext params = some ctx → host.params ctx = params
  params_clear : ∀ ctx, host.params (host.clearKvCache ctx) = host.params ctx
  params_decode : ∀ ctx b, host.params (host.decode ctx b).1 = host.params ctx
  own_of_decode : ∀ ctx b ctx', host.decode (host.clearKvCache ctx) b = (ctx', true) →
    (host.params ctx).Within b → ∀ i v, host.embeddingsSeqIth ctx' i = .ok v →
      v = own (host.params ctx).poolingType (b.sequence i)

/-! ## Decoding -/

variable {F : Type} (ops : Floats32 F) {host : Host F}

def normalizeVec (input : List F) : List F :=
  let magnitude := ops.sqrt (input.foldl (fun acc val => ops.mulAdd val val acc) ops.zero)
  input.map fun val => ops.div val magnitude

def mrlTruncate (emb : List F) (dim : Nat) : List F :=
  let dim := min dim emb.length
  normalizeVec ops (emb.take dim)

/-- What one call of `embed` has at hand, and the batches it has decoded. -/
structure Pass (host : Host F) where
  ctx : host.Ctx
  batch : LlamaBatch
  output : List (List F)
  decoded : List (LlamaBatch × Nat)

/-- A batch has been decoded. -/
def Pass.note (p : Pass host) (sBatch : Nat) (ctx : host.Ctx) : Pass host :=
  { p with ctx, decoded := p.decoded ++ [(p.batch, sBatch)] }

def batchDecode (sBatch : Nat) (normalise : Bool) (p : Pass host) :
    Except String (List (List F)) × Pass host :=
  match host.decode (host.clearKvCache p.ctx) p.batch with
  | (ctx, false) => (.error "llama_decode() failed", p.note sBatch ctx)
  | (ctx, true) =>
    match (List.range sBatch).mapM (host.embeddingsSeqIth ctx) with
    | .error _ => (.error "Failed to get embeddings", p.note sBatch ctx)
    | .ok embeddings =>
      (.ok (embeddings.map fun embedding =>
        if normalise then normalizeVec ops embedding else embedding),
        { p.note sBatch ctx with batch := p.batch.clear })

/-- A prompt of a group: the slot it came from, and its tokens. -/
abbrev Prompt := Nat × List LlamaToken

/-- The loop that adds a group to the batch, from a slot on. -/
def addGroup : Nat → List Prompt → LlamaBatch → Except String Unit × LlamaBatch
  | _, [], b => (.ok (), b)
  | slot, (_, tokens) :: group, b =>
    match b.addSequence tokens slot false with
    | (.error e, b) => (.error e, b)
    | (.ok (), b) => addGroup (slot + 1) group b

/-- The packed pass of `decode_group`. -/
def decodePacked (group : List Prompt) (normalize : Bool) (p : Pass host) :
    Except String (List (List F)) × Pass host :=
  match addGroup 0 group p.batch.clear with
  | (.error e, batch) => (.error e, { p with batch })
  | (.ok (), batch) => batchDecode ops group.length normalize { p with batch }

/-- The pass of `decode_group` that takes one prompt at a time. -/
def decodeSingly (normalize : Bool) :
    List Prompt → Pass host → Except String (List (List F)) × Pass host
  | [], p => (.ok [], p)
  | (_, tokens) :: group, p =>
    match p.batch.clear.addSequence tokens 0 false with
    | (.error e, batch) => (.error e, { p with batch })
    | (.ok (), batch) =>
      match batchDecode ops 1 normalize { p with batch } with
      | (.error e, p) => (.error e, p)
      | (.ok single, p) =>
        match decodeSingly normalize group p with
        | (.error e, p) => (.error e, p)
        | (.ok oneAtATime, p) => (.ok (single.head?.getD [] :: oneAtATime), p)

/-- What is kept of an embedding. -/
def EmbedderKind.fit (kind : EmbedderKind) (embedding : List F) : List F :=
  match kind.targetDim with
  | some dim => if dim < embedding.length then mrlTruncate ops embedding dim else embedding
  | none => embedding

def decodeGroup (kind : EmbedderKind) (group : List Prompt) (normalize : Bool) (p : Pass host) :
    Except String Unit × Pass host :=
  let embeddings : Except String (List (List F)) × Pass host :=
    match decodePacked ops group normalize p with
    | (.ok embeddings, p) =>
      if embeddings.length = group.length then (.ok embeddings, p)
      else decodeSingly ops normalize group p
    | (.error _, p) => decodeSingly ops normalize group p
  match embeddings with
  | (.error e, p) => (.error e, p)
  | (.ok embeddings, p) =>
    (.ok (), { p with
      output := scatter (group.map Prod.fst) (embeddings.map (kind.fit ops)) p.output })

/-! ## Embedding -/

/-- `LlamaEmbedder`; of its model, the tokenizer and `n_ctx_train`. -/
structure LlamaEmbedder where
  strToToken : String → AddBos → Except String (List LlamaToken)
  nCtxTrain : UInt32
  kind : EmbedderKind

def maxEmbedCtx : Nat := 2048
def maxSeqs : Nat := 8
def tokenBudget : Nat := 2048

namespace LlamaEmbedder

variable (e : LlamaEmbedder)

/-- The tokens of a prompt, with the suffix of the family. -/
def tokensOf (prompt : String) : Except String (List LlamaToken) :=
  let suffix := e.kind.inputSuffix
  e.strToToken (if suffix.isEmpty then prompt else prompt ++ suffix) .always

/-- `tokens_lines_list`. -/
def tokensLinesList (prompts : List String) : Except String (List (List LlamaToken)) :=
  match prompts.mapM e.tokensOf with
  | .error _ => .error "failed to tokenize prompts"
  | .ok lists => .ok lists

def perSeqMax : Nat := min (min e.nCtxTrain.toNat maxEmbedCtx) tokenBudget

def longest (lists : List (List LlamaToken)) : Nat :=
  max (((lists.map fun tokens => min tokens.length e.perSeqMax).max?).getD 1) 1

def seqSlots (lists : List (List LlamaToken)) : Nat := min maxSeqs (max lists.length 1)

def ctxSize (lists : List (List LlamaToken)) : Nat := seqSlots lists * e.longest lists

/-- `ctx_params`. -/
def ctxParams (lists : List (List LlamaToken)) (nThreads : Nat) : LlamaContextParams where
  nCtx := e.ctxSize lists
  nBatch := e.ctxSize lists
  nUbatch := e.ctxSize lists
  nSeqMax := seqSlots lists
  nThreadsBatch := nThreads
  embeddings := true
  poolingType := e.kind.poolingType

/-- The loop that packs and decodes, with the group that is open and its tokens. -/
def loop (normalize : Bool) (seqSlots groupBudget : Nat) :
    List (List LlamaToken × Nat) → List Prompt → Nat → Pass host → Except String Unit × Pass host
  | [], group, _, p =>
    if group.isEmpty then (.ok (), p) else decodeGroup ops e.kind group normalize p
  | (tokens, origIdx) :: lists, group, groupTokens, p =>
    if tokens.isEmpty then loop normalize seqSlots groupBudget lists group groupTokens p
    else
      let truncated := tokens.take (min tokens.length e.perSeqMax)
      let wouldOverflow := decide (groupBudget < groupTokens + truncated.length)
      if !group.isEmpty && (wouldOverflow || decide (seqSlots ≤ group.length)) then
        match decodeGroup ops e.kind group normalize p with
        | (.error error, p) => (.error error, p)
        | (.ok (), p) =>
          loop normalize seqSlots groupBudget lists [(origIdx, truncated)] truncated.length p
      else
        loop normalize seqSlots groupBudget lists (group ++ [(origIdx, truncated)])
          (groupTokens + truncated.length) p

/-- `embed`, and the batches it decodes. -/
def embed (host : Host F) (prompts : List String) (normalize : Bool) :
    Except String (List (List F)) × List (LlamaBatch × Nat) :=
  match e.tokensLinesList prompts with
  | .error error => (.error error, [])
  | .ok lists =>
    match host.availableParallelism with
    | .error error => (.error error, [])
    | .ok nThreads =>
      if e.ctxSize lists = 0 then (.error "context size must be non-zero", [])
      else
        match host.newContext (e.ctxParams lists nThreads) with
        | none => (.error "unable to create the llama_context", [])
        | some ctx =>
          let p : Pass host :=
            ⟨ctx, .new (e.ctxSize lists), List.replicate prompts.length [], []⟩
          match e.loop ops normalize (seqSlots lists) (e.ctxSize lists) lists.zipIdx [] 0 p with
          | (.error error, p) => (.error error, p.decoded)
          | (.ok (), p) => (.ok p.output, p.decoded)

end LlamaEmbedder

end Llama
end Gen2
