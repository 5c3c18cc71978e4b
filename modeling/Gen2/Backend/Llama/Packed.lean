import Gen2.Backend.Llama.Embedder
import Gen2.Lib.Packing
import Gen2.Lib.Results
import Mathlib.Algebra.Order.BigOperators.Group.List

/-!
# Packed embedding

A call of `embed` decodes groups of prompts, and what it returns is what the prompts embedded one at
a time return.

* `decodeGroup_writes` is for one group: packed or prompt by prompt, whatever an earlier pass has
  left in the batch, each vector goes to the slot of its own prompt.
* `loop_eq_decodeGroups`: the loop decodes the groups of the greedy packing, one after another.
* `embed_calls` is for a call, and `embed_plain` for one in which nothing fails.
* `packed_iff`: the slots are those of the prompts alone and every group is within the limits,
  always; the last token of a suffix is decoded precisely if no prompt is cut before it.
-/

namespace Gen2
namespace Llama

open Lib List

variable {F : Type} (ops : Floats32 F) {host : Host F} {own : Own F}
  {lists : List (List LlamaToken)} {prompts : List String} {normalize : Bool}

/-! ## What a group is in a batch -/

/-- A sequence, as it stands in a batch. -/
def placed (seqId : Nat) (tokens : List LlamaToken) : List BatchToken :=
  tokens.mapIdx fun i token => ⟨token, i, seqId, i == tokens.length - 1⟩

/-- Sequences one after another, from a slot on. -/
def entries : Nat → List (List LlamaToken) → List BatchToken
  | _, [] => []
  | slot, tokens :: seqs => placed slot tokens ++ entries (slot + 1) seqs

theorem seqId_of_mem_placed {seqId : Nat} {tokens : List LlamaToken} {t : BatchToken}
    (h : t ∈ placed seqId tokens) : t.seqId = seqId := by
  obtain ⟨i, hi, rfl⟩ := mem_mapIdx.1 h
  rfl

theorem length_entries (slot : Nat) (seqs : List (List LlamaToken)) :
    (entries slot seqs).length = (seqs.map length).sum := by
  induction seqs generalizing slot with
  | nil => rfl
  | cons tokens seqs ih =>
    rw [entries, length_append, ih, map_cons, sum_cons, placed, length_mapIdx]

theorem seqId_of_mem_entries {slot : Nat} {seqs : List (List LlamaToken)} {t : BatchToken}
    (h : t ∈ entries slot seqs) : slot ≤ t.seqId ∧ t.seqId < slot + seqs.length := by
  induction seqs generalizing slot with
  | nil => exact absurd h not_mem_nil
  | cons tokens seqs ih =>
    rw [length_cons]
    rcases mem_append.1 h with h | h
    · have := seqId_of_mem_placed h
      omega
    · have := ih h
      omega

/-- **The sequences of a batch are those put in it**, and any other is empty. -/
theorem sequence_entries (allocated slot : Nat) (seqs : List (List LlamaToken)) (i : Nat) :
    (LlamaBatch.mk allocated (entries slot seqs)).sequence (slot + i) = seqs[i]?.getD [] := by
  unfold LlamaBatch.sequence
  induction seqs generalizing slot i with
  | nil => rfl
  | cons tokens seqs ih =>
    dsimp only [entries] at ih ⊢
    rw [filter_append, map_append]
    cases i with
    | zero =>
      have hall : (placed slot tokens).filter (·.seqId == slot + 0) = placed slot tokens :=
        filter_eq_self.2 fun t ht => beq_iff_eq.2 (seqId_of_mem_placed ht)
      have hnone : (entries (slot + 1) seqs).filter (·.seqId == slot + 0) = [] :=
        filter_eq_nil_iff.2 fun t ht h =>
          absurd (beq_iff_eq.1 h) (by have := seqId_of_mem_entries ht; omega)
      rw [hall, hnone, map_nil, append_nil]
      exact ext_getElem (by simp [placed]) fun i _ _ => by simp [placed]
    | succ i =>
      have hnone : (placed slot tokens).filter (·.seqId == slot + (i + 1)) = [] :=
        filter_eq_nil_iff.2 fun t ht h =>
          absurd (beq_iff_eq.1 h) (by rw [seqId_of_mem_placed ht]; omega)
      have hnext := ih (slot + 1) i
      rw [show slot + 1 + i = slot + (i + 1) by omega] at hnext
      rw [hnone, hnext]
      rfl

namespace LlamaBatch

theorem addFrom_eq {seqId last : Nat} {logitsAll : Bool} {i : Nat} {tokens : List LlamaToken}
    {b : LlamaBatch} (h : b.nTokens + tokens.length ≤ b.allocated) :
    addFrom seqId logitsAll last i tokens b = (.ok (), { b with
      tokens := b.tokens ++
        tokens.mapIdx fun j token => ⟨token, i + j, seqId, logitsAll || i + j == last⟩ }) := by
  induction tokens generalizing i b with
  | nil => simp [addFrom]
  | cons token tokens ih =>
    rw [length_cons] at h
    rw [addFrom, add, if_neg (by omega)]
    dsimp only
    rw [ih (by simp only [nTokens, length_append, length_singleton] at h ⊢; omega)]
    simp [mapIdx_cons, Nat.add_assoc, Nat.add_comm 1]

theorem addSequence_eq {b : LlamaBatch} {tokens : List LlamaToken} {seqId : Nat}
    (h : b.nTokens + tokens.length ≤ b.allocated) :
    b.addSequence tokens seqId false =
      (.ok (), { b with tokens := b.tokens ++ placed seqId tokens }) := by
  rw [addSequence, if_neg (by omega), addFrom_eq h]
  simp [placed]

end LlamaBatch

theorem addGroup_eq {slot : Nat} {group : List Prompt} {b : LlamaBatch}
    (h : b.nTokens + ((group.map Prod.snd).map length).sum ≤ b.allocated) :
    addGroup slot group b =
      (.ok (), { b with tokens := b.tokens ++ entries slot (group.map Prod.snd) }) := by
  induction group generalizing slot b with
  | nil => simp [addGroup, entries]
  | cons prompt group ih =>
    rw [map_cons, map_cons, sum_cons] at h
    rw [addGroup, LlamaBatch.addSequence_eq (by omega)]
    dsimp only
    rw [ih]
    · simp [entries]
    · simp only [LlamaBatch.nTokens, length_append, placed, length_mapIdx] at h ⊢
      omega

/-! ## What a pass decodes -/

/-- A group that a context has room for. -/
structure Roomy (params : LlamaContextParams) (group : List Prompt) : Prop where
  nSeqMax : group.length ≤ params.nSeqMax
  nTokens : ((group.map Prod.snd).map List.length).sum ≤
    min params.nCtx (min params.nBatch params.nUbatch)
  each : ∀ x ∈ group, x.2.length ≤ params.nCtx / params.nSeqMax

/-- A batch that was decoded is that of a group. -/
structure Carries (d : LlamaBatch × Nat) (group : List Prompt) : Prop where
  tokens : d.1.tokens = entries 0 (group.map Prod.snd)
  sBatch : d.2 = group.length

theorem Carries.sequence {d : LlamaBatch × Nat} {group : List Prompt} (h : Carries d group)
    (i : Nat) : d.1.sequence i = (group.map Prod.snd)[i]?.getD [] := by
  have hsequence := sequence_entries d.1.allocated 0 (group.map Prod.snd) i
  rw [Nat.zero_add, ← h.tokens] at hsequence
  exact hsequence

variable {params : LlamaContextParams} {group : List Prompt} {p p' p'' : Pass host}

theorem Roomy.within (h : Roomy params group) {d : LlamaBatch × Nat} (hd : Carries d group) :
    params.Within d.1 where
  nSeqMax t ht := by
    rw [hd.tokens] at ht
    have hlt := (seqId_of_mem_entries ht).2
    have := h.nSeqMax
    rw [length_map] at hlt
    omega
  nTokens := by
    rw [LlamaBatch.nTokens, hd.tokens, length_entries]
    exact h.nTokens
  each i := by
    rw [hd.sequence]
    cases hi : (group.map Prod.snd)[i]? with
    | none => exact Nat.zero_le _
    | some tokens =>
      obtain ⟨x, hx, rfl⟩ := mem_map.1 (mem_of_getElem? hi)
      exact h.each x hx

theorem Roomy.singleton (h : Roomy params group) {x : Prompt} (hx : x ∈ group) :
    Roomy params [x] where
  nSeqMax := (length_pos_of_mem hx).trans_le h.nSeqMax
  nTokens := by
    have hle := single_le_sum (fun _ _ => Nat.zero_le _) x.2.length
      (mem_map_of_mem (f := length) (mem_map_of_mem (f := Prod.snd) hx))
    have := h.nTokens
    simp only [map_cons, map_nil, sum_singleton] at hle ⊢
    omega
  each _ hy := by
    cases mem_singleton.1 hy
    exact h.each x hx

/-- A pass in the context made for the call, with the batch made for it. -/
structure Ready (params : LlamaContextParams) (p : Pass host) : Prop where
  inContext : host.params p.ctx = params
  allocated : p.batch.allocated = params.nCtx

/-- From one pass to another: what is decoded between them are groups of the given prompts that
there is room for; and all of the prompts, if it is `done`. -/
structure Decodes (params : LlamaContextParams) (prompts : List Prompt) (done : Prop)
    (p p' : Pass host) : Prop where
  ready : Ready params p'
  groups : ∀ d ∈ p'.decoded, d ∈ p.decoded ∨
    ∃ group, (∀ x ∈ group, x ∈ prompts) ∧ Roomy params group ∧ Carries d group
  kept : ∀ d ∈ p.decoded, d ∈ p'.decoded
  all : done → ∀ x ∈ prompts, ∃ d ∈ p'.decoded, ∃ i < d.2, d.1.sequence i = x.2

theorem Decodes.trans {prompts prompts' : List Prompt} {done done' done'' : Prop}
    (h : Decodes params prompts done p p') (h' : Decodes params prompts' done' p' p'')
    (hdone : done'' → done ∧ done') : Decodes params (prompts ++ prompts') done'' p p'' where
  ready := h'.ready
  groups d hd := by
    rcases h'.groups d hd with hd | ⟨group, hmem, hgroup⟩
    · refine (h.groups d hd).imp_right ?_
      rintro ⟨group, hmem, hgroup⟩
      exact ⟨group, fun x hx => mem_append_left _ (hmem x hx), hgroup⟩
    · exact .inr ⟨group, fun x hx => mem_append_right _ (hmem x hx), hgroup⟩
  kept d hd := h'.kept d (h.kept d hd)
  all h'' x hx := by
    rcases mem_append.1 hx with hx | hx
    · obtain ⟨d, hd, hsequence⟩ := h.all (hdone h'').1 x hx
      exact ⟨d, h'.kept d hd, hsequence⟩
    · exact h'.all (hdone h'').2 x hx

theorem Decodes.refl (h : Ready params p) {done : Prop} : Decodes params [] done p p :=
  ⟨h, fun _ => .inl, fun _ => id, fun _ _ hx => absurd hx not_mem_nil⟩

/-- What is left over is decoded as far as it comes. -/
theorem Decodes.mono {prompts prompts' : List Prompt} {done done' : Prop}
    (h : Decodes params prompts done p p') (hsub : ∀ x ∈ prompts, x ∈ prompts')
    (hdone : done' → done ∧ ∀ x ∈ prompts', x ∈ prompts) :
    Decodes params prompts' done' p p' where
  ready := h.ready
  groups d hd := (h.groups d hd).imp_right fun ⟨group, hmem, hgroup⟩ =>
    ⟨group, fun x hx => hsub x (hmem x hx), hgroup⟩
  kept := h.kept
  all h' x hx := h.all (hdone h').1 x ((hdone h').2 x hx)

/-! ## What decoding gives -/

/-- The embedding of a prompt, before it is cut to the dimension of the family. -/
def ownEmbedding (own : Own F) (params : LlamaContextParams)
    (normalize : Bool) (tokens : List LlamaToken) : List F :=
  let embedding := own params.poolingType tokens
  if normalize then normalizeVec ops embedding else embedding

@[simp] theorem output_batchDecode (sBatch : Nat) (normalise : Bool) (p : Pass host) :
    (batchDecode ops sBatch normalise p).2.output = p.output := by
  unfold batchDecode
  split
  · rfl
  · split <;> rfl

theorem batchDecode_decodes (hf : host.Faithful own) (normalise : Bool) (hp : Ready params p)
    (hroomy : Roomy params group) (hbatch : p.batch.tokens = entries 0 (group.map Prod.snd)) :
    Decodes params group True p (batchDecode ops group.length normalise p).2 := by
  have hcarries : Carries (p.batch, group.length) group := ⟨hbatch, rfl⟩
  have hdecoded : (batchDecode ops group.length normalise p).2.decoded =
      p.decoded ++ [(p.batch, group.length)] := by
    unfold batchDecode
    split
    · rfl
    · split <;> rfl
  have hready : Ready params (batchDecode ops group.length normalise p).2 := by
    have hparams := hf.params_decode (host.clearKvCache p.ctx) p.batch
    rw [hf.params_clear, hp.inContext] at hparams
    unfold batchDecode
    split
    · next heq => exact ⟨by rw [heq] at hparams; exact hparams, hp.allocated⟩
    · next heq =>
      split <;> exact ⟨by rw [heq] at hparams; exact hparams, hp.allocated⟩
  refine ⟨hready, fun d hd => ?_, fun d hd => ?_, fun _ x hx => ?_⟩
  · rw [hdecoded] at hd
    rcases mem_append.1 hd with hd | hd
    · exact .inl hd
    · cases mem_singleton.1 hd
      exact .inr ⟨group, fun _ => id, hroomy, hcarries⟩
  · rw [hdecoded]
    exact mem_append_left _ hd
  obtain ⟨i, hi⟩ := mem_iff_getElem?.1 hx
  refine ⟨_, by rw [hdecoded]; exact mem_append_right _ mem_cons_self, i,
    (List.getElem?_eq_some_iff.1 hi).1, ?_⟩
  rw [hcarries.sequence, getElem?_map, hi]
  rfl

/-- **What comes out of a batch are its prompts' own embeddings**, in their order. -/
theorem batchDecode_ok (hf : host.Faithful own) {normalise : Bool} (hp : Ready params p)
    (hroomy : Roomy params group) (hbatch : p.batch.tokens = entries 0 (group.map Prod.snd))
    {out : List (List F)} (hok : batchDecode ops group.length normalise p = (.ok out, p')) :
    out = group.map fun x => ownEmbedding ops own params normalise x.2 := by
  have hcarries : Carries (p.batch, group.length) group := ⟨hbatch, rfl⟩
  unfold batchDecode at hok
  split at hok
  · cases hok
  next ctx hdecode =>
  split at hok
  · cases hok
  next embeddings hembeddings =>
  cases hok
  have hread := mapM_eq_ok.1 hembeddings
  have hlength : group.length = embeddings.length := by simpa using hread.length_eq
  refine List.ext_getElem (by simp [hlength]) fun i hi _ => ?_
  rw [List.length_map] at hi
  have hlt : i < group.length := by omega
  obtain ⟨v, hv, hith⟩ := forall₂_getElem? hread (List.getElem?_range hlt)
  have hown := hf.own_of_decode _ _ _ hdecode
    (by rw [hp.inContext]; exact hroomy.within hcarries) i v hith
  rw [hp.inContext, hcarries.sequence, List.getElem?_map,
    List.getElem?_eq_getElem hlt] at hown
  rw [List.getElem_map, List.getElem_map, (List.getElem?_eq_some_iff.1 hv).2, hown]
  rfl

/-- Whatever an earlier pass has left in the batch, a group that there is room for is what is in it
when it is decoded. -/
theorem decodePacked_eq (hp : Ready params p) (hroomy : Roomy params group) (normalize : Bool) :
    decodePacked ops group normalize p = batchDecode ops group.length normalize
      { p with batch := ⟨params.nCtx, entries 0 (group.map Prod.snd)⟩ } := by
  have hroom : p.batch.clear.nTokens + ((group.map Prod.snd).map length).sum ≤
      p.batch.clear.allocated := by
    have := hroomy.nTokens
    have := hp.allocated
    simp only [LlamaBatch.clear, LlamaBatch.nTokens, length_nil]
    omega
  rw [decodePacked, addGroup_eq hroom, ← hp.allocated]
  rfl

theorem Ready.withBatch (hp : Ready params p) (tokens : List BatchToken) :
    Ready params { p with batch := ⟨params.nCtx, tokens⟩ } :=
  ⟨hp.inContext, rfl⟩

/-- What is known after a pass that gives embeddings: those of its prompts, if it gives any. -/
structure Embeds (own : Own F) (params : LlamaContextParams)
    (normalize : Bool) (prompts : List Prompt) (p : Pass host)
    (r : Except String (List (List F)) × Pass host) : Prop where
  decodes : Decodes params prompts (∃ out, r.1 = .ok out) p r.2
  output : r.2.output = p.output
  own : ∀ out, r.1 = .ok out → out = prompts.map fun x => ownEmbedding ops own params normalize x.2

theorem decodePacked_embeds (hf : host.Faithful own) (hp : Ready params p)
    (hroomy : Roomy params group) (normalize : Bool) :
    Embeds ops own params normalize group p (decodePacked ops group normalize p) := by
  have hready := hp.withBatch (entries 0 (group.map Prod.snd))
  have hdecodes := batchDecode_decodes ops hf normalize hready hroomy rfl
  rw [decodePacked_eq ops hp hroomy]
  refine ⟨⟨hdecodes.ready, hdecodes.groups, hdecodes.kept, fun _ => hdecodes.all trivial⟩,
    output_batchDecode ops _ _ _, fun out hout => ?_⟩
  exact batchDecode_ok ops hf hready hroomy rfl (Prod.ext hout rfl)

/-- A prompt by itself is a group of one. -/
theorem decodeSingly_cons (normalize : Bool) (x : Prompt) (group : List Prompt) (p : Pass host) :
    decodeSingly ops normalize (x :: group) p =
      match decodePacked ops [x] normalize p with
      | (.error e, p) => (.error e, p)
      | (.ok single, p) =>
        match decodeSingly ops normalize group p with
        | (.error e, p) => (.error e, p)
        | (.ok oneAtATime, p) => (.ok (single.head?.getD [] :: oneAtATime), p) := by
  rw [decodeSingly, decodePacked]
  simp only [addGroup]
  cases p.batch.clear.addSequence x.2 0 false with
  | mk result batch => cases result <;> rfl

theorem decodeSingly_embeds (hf : host.Faithful own) (normalize : Bool) :
    ∀ {group : List Prompt} {p : Pass host}, Ready params p → (∀ x ∈ group, Roomy params [x]) →
      Embeds ops own params normalize group p (decodeSingly ops normalize group p)
  | [], _, hp, _ => ⟨.refl hp, rfl, fun _ h => (Except.ok.inj h).symm⟩
  | x :: group, p, hp, hroomy => by
    have hx := decodePacked_embeds ops hf hp (hroomy x mem_cons_self) normalize
    rw [decodeSingly_cons]
    generalize decodePacked ops [x] normalize p = packed at hx ⊢
    obtain ⟨e | single, p'⟩ := packed
    · refine ⟨hx.decodes.mono (fun y hy => ?_) (fun ⟨_, h⟩ => nomatch h), hx.output, nofun⟩
      exact mem_singleton.1 hy ▸ mem_cons_self
    have hrest := decodeSingly_embeds hf normalize hx.decodes.ready
      fun y hy => hroomy y (.tail x hy)
    dsimp only at hrest ⊢
    generalize decodeSingly ops normalize group p' = rest at hrest ⊢
    obtain ⟨e | out, p''⟩ := rest
    · exact ⟨hx.decodes.trans hrest.decodes fun ⟨_, h⟩ => (nomatch h),
        hrest.output.trans hx.output, nofun⟩
    refine ⟨hx.decodes.trans hrest.decodes fun _ => ⟨⟨_, rfl⟩, _, rfl⟩,
      hrest.output.trans hx.output, fun _ h => ?_⟩
    cases h
    rw [hx.own _ rfl, hrest.own _ rfl]
    rfl

/-- The vector of a prompt. -/
def vector (own : Own F) (kind : EmbedderKind)
    (normalize : Bool) (tokens : List LlamaToken) : List F :=
  let embedding := own kind.poolingType tokens
  kind.fit ops (if normalize then normalizeVec ops embedding else embedding)

/-- What is known after a pass that writes: the vector of each prompt is in its slot. -/
structure Writes (own : Own F) (params : LlamaContextParams)
    (kind : EmbedderKind) (normalize : Bool) (prompts : List Prompt) (p : Pass host)
    (r : Except String Unit × Pass host) : Prop where
  decodes : Decodes params prompts (r.1 = .ok ()) p r.2
  output : r.1 = .ok () → r.2.output =
    scatter (prompts.map Prod.fst) (prompts.map fun x => vector ops own kind normalize x.2) p.output

/-- **One group**: packed or prompt by prompt, each vector goes to the slot of its own prompt. -/
theorem decodeGroup_writes (hf : host.Faithful own) {kind : EmbedderKind}
    (hkind : params.poolingType = kind.poolingType) (hp : Ready params p)
    (hroomy : Roomy params group) (normalize : Bool) :
    Writes ops own params kind normalize group p (decodeGroup ops kind group normalize p) := by
  have hpacked := decodePacked_embeds ops hf hp hroomy normalize
  have hsingly := fun {p' : Pass host} (h : Ready params p') =>
    decodeSingly_embeds ops hf normalize h fun x hx => hroomy.singleton hx
  -- what the packed pass has decoded stays decoded when the prompts are taken one at a time
  have hagain : ∀ p', Decodes params group (∃ out, (decodePacked ops group normalize p).1 = .ok out)
      p p' → p'.output = p.output →
      Embeds ops own params normalize group p (decodeSingly ops normalize group p') := by
    intro p' hdecodes houtput
    have hdone := hsingly hdecodes.ready
    refine ⟨⟨hdone.decodes.ready, fun d hd => ?_, fun d hd => ?_, hdone.decodes.all⟩,
      hdone.output.trans houtput, hdone.own⟩
    · exact (hdone.decodes.groups d hd).elim (hdecodes.groups d) .inr
    · exact hdone.decodes.kept d (hdecodes.kept d hd)
  have hends : ∀ r : Except String (List (List F)) × Pass host,
      Embeds ops own params normalize group p r →
      Writes ops own params kind normalize group p (match r with
        | (.error e, p) => (.error e, p)
        | (.ok embeddings, p) => (.ok (), { p with
          output := scatter (group.map Prod.fst) (embeddings.map (kind.fit ops)) p.output })) := by
    rintro ⟨e | embeddings, p'⟩ h
    · exact ⟨⟨h.decodes.ready, h.decodes.groups, h.decodes.kept, nofun⟩, nofun⟩
    refine ⟨⟨⟨h.decodes.ready.1, h.decodes.ready.2⟩, h.decodes.groups, h.decodes.kept,
      fun _ => h.decodes.all ⟨_, rfl⟩⟩, fun _ => ?_⟩
    have hout := h.output
    dsimp only at hout ⊢
    rw [h.own _ rfl, hout, map_map]
    simp only [Function.comp_def, ownEmbedding, vector, hkind]
  refine hends _ ?_
  have houtput := hpacked.output
  have hdecodes := hpacked.decodes
  rcases hr : decodePacked ops group normalize p with ⟨e | embeddings, p'⟩
  · rw [hr] at houtput hdecodes
    exact hagain p' (by rw [hr]; exact hdecodes) houtput
  dsimp only
  split
  · exact hr ▸ hpacked
  · rw [hr] at houtput hdecodes
    exact hagain p' (by rw [hr]; exact hdecodes) houtput

/-! ## The loop -/

/-- Groups decoded one after another, up to the first that fails. -/
def decodeGroups (kind : EmbedderKind) (normalize : Bool) :
    List (List Prompt) → Pass host → Except String Unit × Pass host
  | [], p => (.ok (), p)
  | group :: groups, p =>
    match decodeGroup ops kind group normalize p with
    | (.error e, p) => (.error e, p)
    | (.ok (), p) => decodeGroups kind normalize groups p

theorem decodeGroups_writes (hf : host.Faithful own) {kind : EmbedderKind}
    (hkind : params.poolingType = kind.poolingType) (normalize : Bool) :
    ∀ {groups : List (List Prompt)} {p : Pass host}, Ready params p →
      (∀ group ∈ groups, Roomy params group) →
      Writes ops own params kind normalize groups.flatten p
        (decodeGroups ops kind normalize groups p)
  | [], _, hp, _ => ⟨.refl hp, fun _ => rfl⟩
  | group :: groups, p, hp, hroomy => by
    have hgroup := decodeGroup_writes ops hf hkind hp (hroomy group mem_cons_self) normalize
    rw [decodeGroups, flatten_cons]
    generalize decodeGroup ops kind group normalize p = r at hgroup ⊢
    obtain ⟨e | ⟨⟩, p'⟩ := r
    · exact ⟨hgroup.decodes.mono (fun _ => mem_append_left _) nofun, nofun⟩
    have hrest := decodeGroups_writes hf hkind normalize hgroup.decodes.ready
      fun g hg => hroomy g (.tail group hg)
    refine ⟨hgroup.decodes.trans hrest.decodes fun h => ⟨rfl, h⟩, fun h => ?_⟩
    rw [hrest.output h, hgroup.output rfl, map_append, map_append,
      scatter_append (by rw [length_map, length_map])]

/-- The prompts with tokens, cut to what the model takes. -/
def prepared (perSeqMax : Nat) (lists : List (List LlamaToken × Nat)) : List Prompt :=
  (lists.filter fun x => !x.1.isEmpty).map fun x =>
    (x.2, x.1.take (min x.1.length perSeqMax))

theorem mem_prepared {x : Prompt} (n : Nat) :
    x ∈ prepared n lists.zipIdx ↔ ∃ tokens, lists[x.1]? = some tokens ∧
      tokens.isEmpty = false ∧ x.2 = tokens.take (min tokens.length n) := by
  constructor
  · intro hx
    obtain ⟨⟨tokens, i⟩, hx', rfl⟩ := mem_map.1 hx
    obtain ⟨hmem, hempty⟩ := mem_filter.1 hx'
    exact ⟨tokens, mem_zipIdx_iff_getElem?.1 hmem, by simpa using hempty, rfl⟩
  · obtain ⟨i, cut⟩ := x
    rintro ⟨tokens, htokens, hempty, rfl⟩
    refine mem_map.2 ⟨(tokens, i), mem_filter.2 ⟨?_, by rw [hempty]; rfl⟩, rfl⟩
    exact (mem_zipIdx_iff_getElem? : (tokens, i) ∈ lists.zipIdx ↔ _).2 htokens

/-- There is room in the open group. -/
def roomFor (seqSlots groupBudget : Nat) (group : List Prompt) (x : Prompt) : Bool :=
  !(decide (groupBudget < ((group.map Prod.snd).map List.length).sum + x.2.length) ||
    decide (seqSlots ≤ group.length))

/-- **The loop decodes the groups of the greedy packing**, one after another. -/
theorem loop_eq_decodeGroups (e : LlamaEmbedder) (normalize : Bool) (seqSlots groupBudget : Nat)
    (lists : List (List LlamaToken × Nat)) (group : List Prompt) (p : Pass host) :
    e.loop ops normalize seqSlots groupBudget lists group
        ((group.map Prod.snd).map length).sum p =
      decodeGroups ops e.kind normalize
        (packs (roomFor seqSlots groupBudget) group (prepared e.perSeqMax lists)) p := by
  induction lists generalizing group p with
  | nil =>
    rw [LlamaEmbedder.loop, prepared, filter_nil, map_nil, packs]
    split
    · rfl
    · simp only [decodeGroups]
      rcases decodeGroup ops e.kind group normalize p with ⟨e | ⟨⟩, p'⟩ <;> rfl
  | cons x lists ih =>
    obtain ⟨tokens, origIdx⟩ := x
    cases hempty : tokens.isEmpty with
    | true =>
      rw [LlamaEmbedder.loop, if_pos hempty, ih]
      simp [prepared, hempty]
    | false =>
      have hprepared : prepared e.perSeqMax ((tokens, origIdx) :: lists) =
          (origIdx, tokens.take (min tokens.length e.perSeqMax)) :: prepared e.perSeqMax lists := by
        simp [prepared, hempty]
      rw [LlamaEmbedder.loop, hempty, if_neg Bool.false_ne_true, hprepared, packs, roomFor,
        Bool.not_not]
      dsimp only
      split
      · rw [decodeGroups]
        rcases decodeGroup ops e.kind group normalize p with ⟨e' | ⟨⟩, p'⟩
        · rfl
        · exact ih [_] p'
      · rw [← ih]
        simp

/-! ## The limits -/

namespace LlamaEmbedder

variable (e : LlamaEmbedder)

theorem one_le_seqSlots (lists : List (List LlamaToken)) : 1 ≤ seqSlots lists := by
  unfold seqSlots maxSeqs
  omega

theorem ctxSize_pos (lists : List (List LlamaToken)) : 0 < e.ctxSize lists :=
  Nat.mul_pos (one_le_seqSlots lists) (Nat.le_max_right _ _)

theorem ctxSize_div (lists : List (List LlamaToken)) :
    e.ctxSize lists / seqSlots lists = e.longest lists :=
  Nat.mul_div_cancel_left _ (one_le_seqSlots lists)

theorem min_length_le_longest {tokens : List LlamaToken} (h : tokens ∈ lists) :
    min tokens.length e.perSeqMax ≤ e.longest lists := by
  have hmem := mem_map_of_mem (f := fun tokens => min tokens.length e.perSeqMax) h
  cases hmax : (lists.map fun tokens => min tokens.length e.perSeqMax).max? with
  | none => rw [max?_eq_none_iff.1 hmax] at hmem; exact absurd hmem not_mem_nil
  | some n =>
    rw [longest, hmax]
    exact ((max?_eq_some_iff.1 hmax).2 _ hmem).trans (Nat.le_max_left _ _)

theorem roomy_packs {nThreads : Nat} :
    ∀ group ∈ packs (roomFor (seqSlots lists) (e.ctxSize lists)) []
      (prepared e.perSeqMax lists.zipIdx), Roomy (e.ctxParams lists nThreads) group := by
  have hlength : ∀ x ∈ prepared e.perSeqMax lists.zipIdx, x.2.length ≤ e.longest lists := by
    intro x hx
    obtain ⟨tokens, htokens, -, hcut⟩ := (mem_prepared e.perSeqMax).1 hx
    have := e.min_length_le_longest (mem_of_getElem? htokens)
    rw [hcut, length_take]
    omega
  have hdiv := e.ctxSize_div lists
  have hslots := one_le_seqSlots lists
  refine forall_packs (fun x hx => ?_) (fun g x hg hx hroom => ?_) (absurd rfl)
  · have hle : e.longest lists ≤ e.ctxSize lists := Nat.le_mul_of_pos_left _ hslots
    have := hlength x hx
    refine ⟨hslots, ?_, fun y hy => ?_⟩
    · simp only [ctxParams, map_cons, map_nil, sum_singleton]
      omega
    · cases mem_singleton.1 hy
      exact hdiv ▸ this
  · simp only [roomFor, Bool.not_eq_true', Bool.or_eq_false_iff, decide_eq_false_iff_not] at hroom
    refine ⟨?_, ?_, fun y hy => ?_⟩
    · simp only [ctxParams, length_append, length_singleton]
      omega
    · simp only [ctxParams, map_append, map_cons, map_nil, sum_append,
        sum_singleton]
      omega
    · rcases mem_append.1 hy with hy | hy
      · exact hg.each y hy
      · cases mem_singleton.1 hy
        exact hdiv ▸ hlength x hx

end LlamaEmbedder

/-! ## The slots -/

theorem map_fst_prepared_nodup (perSeqMax : Nat) (lists : List (List LlamaToken)) :
    ((prepared perSeqMax lists.zipIdx).map Prod.fst).Nodup := by
  rw [prepared, map_map]
  have hindices : (lists.zipIdx.map Prod.snd).Nodup := by
    rw [zipIdx_map_snd]
    exact nodup_range'
  exact hindices.sublist (filter_sublist.map Prod.snd)

/-- **Every prompt is in its own slot**, and a prompt without tokens leaves its slot empty. -/
theorem scatter_prepared (f : List LlamaToken → List F) (perSeqMax : Nat)
    (lists : List (List LlamaToken)) :
    scatter ((prepared perSeqMax lists.zipIdx).map Prod.fst)
        ((prepared perSeqMax lists.zipIdx).map fun x => f x.2) (replicate lists.length []) =
      lists.map fun tokens =>
        if tokens.isEmpty then [] else f (tokens.take (min tokens.length perSeqMax)) := by
  refine ext_getElem? fun i => ?_
  rw [getElem?_map]
  by_cases hi : i ∈ (prepared perSeqMax lists.zipIdx).map Prod.fst
  · obtain ⟨s, hs⟩ := mem_iff_getElem?.1 hi
    rw [getElem?_scatter (map_fst_prepared_nodup perSeqMax lists) (by simp) (fun j hj => ?_) hs,
      getElem?_map]
    · rw [getElem?_map, Option.map_eq_some_iff] at hs
      obtain ⟨x, hx, rfl⟩ := hs
      obtain ⟨tokens, htokens, hempty, hcut⟩ :=
        (mem_prepared perSeqMax).1 (mem_of_getElem? hx)
      rw [hx, htokens, Option.map_some, Option.map_some, hempty, hcut]
      rfl
    · obtain ⟨x, hx, rfl⟩ := mem_map.1 hj
      obtain ⟨tokens, htokens, -⟩ := (mem_prepared perSeqMax).1 hx
      rw [length_replicate]
      exact (List.getElem?_eq_some_iff.1 htokens).1
  · rw [getElem?_scatter_of_notMem hi]
    cases htokens : lists[i]? with
    | none =>
      rw [getElem?_eq_none (by simpa using getElem?_eq_none_iff.1 htokens)]
      rfl
    | some tokens =>
      rw [List.getElem?_replicate_of_lt (List.getElem?_eq_some_iff.1 htokens).1, Option.map_some]
      cases hempty : tokens.isEmpty with
      | true => rfl
      | false =>
        have hmem := (mem_prepared perSeqMax (x := (i, _))).2 ⟨tokens, htokens, hempty, rfl⟩
        exact absurd (mem_map_of_mem (f := Prod.fst) hmem) hi

namespace LlamaEmbedder

variable (e : LlamaEmbedder)

/-- The group that a batch is of is within the limits of the call. -/
structure WithinLimits (seqSlots ctxSize : Nat) (d : LlamaBatch × Nat) : Prop where
  sequences : d.2 ≤ seqSlots
  seqId : ∀ t ∈ d.1.tokens, t.seqId < d.2
  tokens : d.1.nTokens ≤ ctxSize
  each : ∀ i < d.2, (d.1.sequence i).length ≤ ctxSize / seqSlots

theorem withinLimits {nThreads : Nat} {d : LlamaBatch × Nat}
    (hroomy : Roomy (e.ctxParams lists nThreads) group) (hd : Carries d group) :
    WithinLimits (seqSlots lists) (e.ctxSize lists) d where
  sequences := hd.sBatch ▸ hroomy.nSeqMax
  seqId t ht := by
    rw [hd.tokens] at ht
    have hlt := (seqId_of_mem_entries ht).2
    rw [length_map, ← hd.sBatch, Nat.zero_add] at hlt
    exact hlt
  tokens := (hroomy.within hd).nTokens.trans (Nat.min_le_left _ _)
  each i _ := (hroomy.within hd).each i

/-- What a call leaves in the slot of a prompt. -/
def slot (own : Own F) (normalize : Bool)
    (tokens : List LlamaToken) : List F :=
  if tokens.isEmpty then []
  else vector ops own e.kind normalize (tokens.take (min tokens.length e.perSeqMax))

/-- The pass that `embed` begins with. -/
def start (host : Host F) (ctx : host.Ctx) (lists : List (List LlamaToken)) : Pass host :=
  ⟨ctx, .new (e.ctxSize lists), List.replicate lists.length [], []⟩

theorem length_tokensLinesList
    (h : e.tokensLinesList prompts = .ok lists) : lists.length = prompts.length := by
  unfold tokensLinesList at h
  split at h
  · cases h
  next heq =>
  cases h
  exact (mapM_eq_ok.1 heq).length_eq.symm

theorem tokensOf_of_getElem? (h : e.tokensLinesList prompts = .ok lists) {i : Nat} {prompt : String}
    (hi : prompts[i]? = some prompt) :
    ∃ tokens, lists[i]? = some tokens ∧ e.tokensOf prompt = .ok tokens := by
  unfold tokensLinesList at h
  split at h
  · cases h
  next heq =>
  cases h
  exact forall₂_getElem? (mapM_eq_ok.1 heq) hi

/-- What is known of a call: what it decodes, and what it returns if it succeeds. -/
structure Calls (own : Own F) (normalize : Bool)
    (lists : List (List LlamaToken))
    (r : Except String (List (List F)) × List (LlamaBatch × Nat)) : Prop where
  limits : ∀ d ∈ r.2, WithinLimits (seqSlots lists) (e.ctxSize lists) d
  groups : ∀ d ∈ r.2, ∃ group, (∀ x ∈ group, x ∈ prepared e.perSeqMax lists.zipIdx) ∧
    Carries d group
  slots : ∀ out, r.1 = .ok out → out = lists.map (e.slot ops own normalize)
  all : (∃ out, r.1 = .ok out) → ∀ x ∈ prepared e.perSeqMax lists.zipIdx,
    ∃ d ∈ r.2, ∃ i < d.2, d.1.sequence i = x.2

theorem calls_error (own : Own F) (normalize : Bool)
    (lists : List (List LlamaToken)) (error : String) :
    e.Calls ops own normalize lists (.error error, []) :=
  ⟨fun _ hd => absurd hd not_mem_nil, fun _ hd => absurd hd not_mem_nil, nofun,
    fun ⟨_, h⟩ => nomatch h⟩

theorem calls_of_writes {nThreads : Nat} {ctx : host.Ctx} : ∀ r : Except String Unit × Pass host,
      Writes ops own (e.ctxParams lists nThreads) e.kind normalize
        (prepared e.perSeqMax lists.zipIdx) (e.start host ctx lists) r →
      e.Calls ops own normalize lists (match r with
        | (.error error, p) => (.error error, p.decoded)
        | (.ok (), p) => (.ok p.output, p.decoded)) := by
  intro r h
  have hgroups : ∀ d ∈ r.2.decoded, WithinLimits (seqSlots lists) (e.ctxSize lists) d ∧
      ∃ group, (∀ x ∈ group, x ∈ prepared e.perSeqMax lists.zipIdx) ∧ Carries d group := by
    intro d hd
    rcases h.decodes.groups d hd with hd | ⟨group, hmem, hroomy, hcarries⟩
    · exact absurd hd not_mem_nil
    · exact ⟨e.withinLimits hroomy hcarries, group, hmem, hcarries⟩
  obtain ⟨error | ⟨⟩, p⟩ := r
  · exact ⟨fun d hd => (hgroups d hd).1, fun d hd => (hgroups d hd).2, nofun,
      fun ⟨_, h⟩ => nomatch h⟩
  refine ⟨fun d hd => (hgroups d hd).1, fun d hd => (hgroups d hd).2, fun out hout => ?_,
    fun _ => h.decodes.all rfl⟩
  cases hout
  exact (h.output rfl).trans
    (scatter_prepared (vector ops own e.kind normalize) e.perSeqMax lists)

/-- What a call does once it has a context. -/
theorem embed_eq (hlists : e.tokensLinesList prompts = .ok lists) {nThreads : Nat}
    (hthreads : host.availableParallelism = .ok nThreads) {ctx : host.Ctx}
    (hctx : host.newContext (e.ctxParams lists nThreads) = some ctx) (normalize : Bool) :
    e.embed ops host prompts normalize =
      match decodeGroups ops e.kind normalize
        (packs (roomFor (seqSlots lists) (e.ctxSize lists)) []
          (prepared e.perSeqMax lists.zipIdx)) (e.start host ctx lists) with
      | (.error error, p) => (.error error, p.decoded)
      | (.ok (), p) => (.ok p.output, p.decoded) := by
  rw [← loop_eq_decodeGroups, embed, hlists]
  rw [hthreads]
  dsimp only
  rw [if_neg (e.ctxSize_pos lists).ne', hctx, ← e.length_tokensLinesList hlists]
  rfl

/-- **One call**: its groups are within the limits, and its slots in the order of the prompts. -/
theorem embed_calls (hf : host.Faithful own)
    (hlists : e.tokensLinesList prompts = .ok lists)
    (normalize : Bool) :
    e.Calls ops own normalize lists (e.embed ops host prompts normalize) := by
  cases hthreads : host.availableParallelism with
  | error error =>
    rw [embed, hlists]
    rw [hthreads]
    exact e.calls_error ops own normalize lists error
  | ok nThreads =>
    cases hctx : host.newContext (e.ctxParams lists nThreads) with
    | none =>
      rw [embed, hlists]
      rw [hthreads]
      dsimp only
      rw [if_neg (e.ctxSize_pos lists).ne', hctx]
      exact e.calls_error ops own normalize lists _
    | some ctx =>
      have hready : Ready (e.ctxParams lists nThreads) (e.start host ctx lists) :=
        ⟨hf.params_new hctx, rfl⟩
      have hwrites := decodeGroups_writes ops hf rfl normalize hready e.roomy_packs
      rw [flatten_packs, nil_append] at hwrites
      rw [e.embed_eq ops hlists hthreads hctx]
      exact e.calls_of_writes ops _ hwrites

theorem embed_of_error {error : String}
    (h : e.tokensLinesList prompts = .error error) (host : Host F) (normalize : Bool) :
    e.embed ops host prompts normalize = (.error error, []) := by
  rw [embed, h]

end LlamaEmbedder

/-! ## A host on which nothing fails -/

/-- A host that decodes whatever it is given, to the sequences' own embeddings. -/
def plainHost (own : Own F) : Host F where
  Ctx := LlamaContextParams × LlamaBatch
  params := Prod.fst
  availableParallelism := .ok 1
  newContext params := some (params, .new 0)
  clearKvCache := id
  decode ctx b := ((ctx.1, b), true)
  embeddingsSeqIth ctx i := .ok (own ctx.1.poolingType (ctx.2.sequence i))

theorem plainHost_faithful (own : Own F) :
    (plainHost own).Faithful own where
  params_new h := by
    cases h
    rfl
  params_clear _ := rfl
  params_decode _ _ := rfl
  own_of_decode ctx b ctx' hdecode _ i v hv := by
    cases hdecode
    exact (Except.ok.inj hv).symm

theorem decodeGroup_plain {p : Pass (plainHost own)} (hp : Ready params p)
    (hroomy : Roomy params group) (kind : EmbedderKind) (normalize : Bool) :
    (decodeGroup ops kind group normalize p).1 = .ok () := by
  have hpacked := (decodePacked_embeds ops (plainHost_faithful own) hp hroomy normalize).own
  have hok : ∃ out, (decodePacked ops group normalize p).1 = .ok out := by
    rw [decodePacked_eq ops hp hroomy, batchDecode]
    split
    · next hdecode => exact nomatch (congrArg Prod.snd hdecode : true = false)
    next ctx hdecode =>
    have hread : (range group.length).mapM ((plainHost own).embeddingsSeqIth ctx) =
        .ok ((range group.length).map fun i => own ctx.1.poolingType (ctx.2.sequence i)) :=
      mapM_eq_ok.2 (forall₂_map_right_iff.2 (forall₂_same.2 fun _ _ => rfl))
    split
    · next heq =>
      rw [hread] at heq
      cases heq
    · exact ⟨_, rfl⟩
  obtain ⟨out, hout⟩ := hok
  have hlength := congrArg length (hpacked out hout)
  rw [length_map] at hlength
  rw [decodeGroup, show decodePacked ops group normalize p =
    (.ok out, (decodePacked ops group normalize p).2) from Prod.ext hout rfl]
  dsimp only
  rw [if_pos hlength]

theorem decodeGroups_plain (kind : EmbedderKind) (hkind : params.poolingType = kind.poolingType)
    (normalize : Bool) : ∀ {groups : List (List Prompt)} {p : Pass (plainHost own)},
      Ready params p → (∀ group ∈ groups, Roomy params group) →
      (decodeGroups ops kind normalize groups p).1 = .ok ()
  | [], _, _, _ => rfl
  | group :: groups, p, hp, hroomy => by
    have hgroup := hroomy group mem_cons_self
    have hready := (decodeGroup_writes ops (plainHost_faithful own) hkind hp hgroup
      normalize).decodes.ready
    rw [decodeGroups, show decodeGroup ops kind group normalize p =
      (.ok (), (decodeGroup ops kind group normalize p).2) from
        Prod.ext (decodeGroup_plain ops hp hgroup kind normalize) rfl]
    exact decodeGroups_plain kind hkind normalize hready fun g hg => hroomy g (.tail group hg)

namespace LlamaEmbedder

variable (e : LlamaEmbedder)

theorem embed_plain (own : Own F)
    (hlists : e.tokensLinesList prompts = .ok lists)
    (normalize : Bool) : (e.embed ops (plainHost own) prompts normalize).1 =
      .ok (lists.map (e.slot ops own normalize)) := by
  have hcalls := (e.embed_calls ops (plainHost_faithful own) hlists normalize).slots
  suffices hok : ∃ out, (e.embed ops (plainHost own) prompts normalize).1 = .ok out by
    obtain ⟨out, hout⟩ := hok
    rw [hout, hcalls out hout]
  have hready : Ready (e.ctxParams lists 1)
      (e.start (plainHost own) (e.ctxParams lists 1, .new 0) lists) := ⟨rfl, rfl⟩
  have hok := decodeGroups_plain ops e.kind rfl normalize hready e.roomy_packs
  rw [e.embed_eq ops hlists rfl rfl]
  generalize decodeGroups ops e.kind normalize _ _ = r at hok ⊢
  obtain ⟨error | ⟨⟩, p⟩ := r
  · cases hok
  · exact ⟨_, rfl⟩

/-! ## Packed, and one at a time -/

/-- What embedding a prompt alone returns, wherever it may fail before. -/
structure EmbedsAlone (own : Own F) (normalize : Bool)
    (prompt : String) (v : List F) : Prop where
  succeeds : ∃ host : Host F, host.Faithful own ∧
    (e.embed ops host [prompt] normalize).1 = .ok [v]
  only : ∀ host : Host F, host.Faithful own → ∀ out,
    (e.embed ops host [prompt] normalize).1 = .ok out → out = [v]

/-- The suffix of the family comes out at the end of each prompt's tokens. -/
structure SuffixEnds (suffixTokens : List LlamaToken) (prompts : List String) : Prop where
  ne_nil : suffixTokens ≠ []
  isSuffix : ∀ prompt ∈ prompts, ∀ tokens, e.tokensOf prompt = .ok tokens → suffixTokens <:+ tokens

/-- **Packing changes nothing**, on any host that embeds each sequence as its own: the slots are
what the prompts alone return, every group is within the limits, and the last token of a suffix is
the last one decoded. -/
structure Packed (own : Own F)
    (suffixTokens : List LlamaToken) (prompts : List String) (normalize : Bool) : Prop where
  alone : ∀ host : Host F, host.Faithful own → ∀ out,
    (e.embed ops host prompts normalize).1 = .ok out → out.length = prompts.length ∧
      ∀ (i : Nat) (prompt : String), prompts[i]? = some prompt → ∃ v, out[i]? = some v ∧
        (e.tokensOf prompt = .ok [] → v = []) ∧ e.EmbedsAlone ops own normalize prompt v
  limits : ∀ host : Host F, host.Faithful own → ∀ lists, e.tokensLinesList prompts = .ok lists →
    ∀ d ∈ (e.embed ops host prompts normalize).2,
      WithinLimits (seqSlots lists) (e.ctxSize lists) d
  suffix : e.kind.inputSuffix ≠ "" → e.SuffixEnds suffixTokens prompts →
    ∀ host : Host F, host.Faithful own → ∀ d ∈ (e.embed ops host prompts normalize).2,
      ∀ i < d.2, (d.1.sequence i).getLast? = suffixTokens.getLast?

/-- No prompt of a family with a suffix is cut, but where the cut happens to leave the suffix's last
token at the end. -/
def Uncut (suffixTokens : List LlamaToken) (prompts : List String) : Prop :=
  e.kind.inputSuffix ≠ "" → e.SuffixEnds suffixTokens prompts →
    ∀ lists, e.tokensLinesList prompts = .ok lists → ∀ tokens ∈ lists,
      tokens.length ≤ e.perSeqMax ∨
        0 < e.perSeqMax ∧ tokens[e.perSeqMax - 1]? = suffixTokens.getLast?

variable {tokens : List LlamaToken}

theorem tokensLinesList_singleton {prompt : String} (h : e.tokensOf prompt = .ok tokens) :
    e.tokensLinesList [prompt] = .ok [tokens] := by
  rw [tokensLinesList, mapM_eq_ok.2 (.cons h .nil)]

theorem embedsAlone (own : Own F) (normalize : Bool) {prompt : String}
    (h : e.tokensOf prompt = .ok tokens) :
    e.EmbedsAlone ops own normalize prompt (e.slot ops own normalize tokens) where
  succeeds := ⟨plainHost own, plainHost_faithful own,
    e.embed_plain ops own (e.tokensLinesList_singleton h) normalize⟩
  only _ hf := (e.embed_calls ops hf (e.tokensLinesList_singleton h) normalize).slots

theorem slots_alone (hf : host.Faithful own) {out : List (List F)}
    (hout : (e.embed ops host prompts normalize).1 = .ok out) :
    out.length = prompts.length ∧ ∀ (i : Nat) (prompt : String), prompts[i]? = some prompt →
      ∃ v, out[i]? = some v ∧ (e.tokensOf prompt = .ok [] → v = []) ∧
        e.EmbedsAlone ops own normalize prompt v := by
  cases hlists : e.tokensLinesList prompts with
  | error error =>
    rw [e.embed_of_error ops hlists] at hout
    cases hout
  | ok lists =>
    rw [(e.embed_calls ops hf hlists normalize).slots out hout]
    refine ⟨by rw [length_map, e.length_tokensLinesList hlists], fun i prompt hi => ?_⟩
    obtain ⟨tokens, htokens, htokensOf⟩ := e.tokensOf_of_getElem? hlists hi
    refine ⟨_, by rw [getElem?_map, htokens]; rfl, fun hnil => ?_,
      e.embedsAlone ops own normalize htokensOf⟩
    cases htokensOf.symm.trans hnil
    rfl

theorem limits_kept (hf : host.Faithful own)
    (hlists : e.tokensLinesList prompts = .ok lists)
    (normalize : Bool) : ∀ d ∈ (e.embed ops host prompts normalize).2,
      WithinLimits (seqSlots lists) (e.ctxSize lists) d :=
  (e.embed_calls ops hf hlists normalize).limits

variable {suffixTokens : List LlamaToken}

theorem SuffixEnds.of_mem {e : LlamaEmbedder} (h : e.SuffixEnds suffixTokens prompts)
    (hlists : e.tokensLinesList prompts = .ok lists) (hmem : tokens ∈ lists) :
    suffixTokens <:+ tokens := by
  obtain ⟨i, hi⟩ := List.mem_iff_getElem?.1 hmem
  have hlt := (List.getElem?_eq_some_iff.1 hi).1
  rw [e.length_tokensLinesList hlists] at hlt
  obtain ⟨tokens', htokens', htokensOf⟩ :=
    e.tokensOf_of_getElem? hlists (List.getElem?_eq_getElem hlt)
  cases hi.symm.trans htokens'
  exact h.isSuffix _ (List.getElem_mem hlt) _ htokensOf

/-- Where the cut leaves the end of the suffix. -/
theorem getLast?_take_iff (hne : suffixTokens ≠ []) (hsuffix : suffixTokens <:+ tokens) (n : Nat) :
    (tokens.take (min tokens.length n)).getLast? = suffixTokens.getLast? ↔
      tokens.length ≤ n ∨ 0 < n ∧ tokens[n - 1]? = suffixTokens.getLast? := by
  obtain ⟨head, rfl⟩ := hsuffix
  by_cases hle : (head ++ suffixTokens).length ≤ n
  · rw [Nat.min_eq_left hle, take_length, getLast?_append_of_ne_nil _ hne]
    exact ⟨fun _ => .inl hle, fun _ => rfl⟩
  rw [Nat.min_eq_right (Nat.le_of_not_le hle), getLast?_take]
  cases n with
  | zero =>
    rw [if_pos rfl, eq_comm, getLast?_eq_none_iff]
    exact ⟨fun h => absurd h hne, fun h => absurd (h.resolve_left hle).1 (Nat.lt_irrefl 0)⟩
  | succ n =>
    rw [if_neg (Nat.succ_ne_zero n), Nat.add_sub_cancel,
      getElem?_eq_getElem (by omega : n < (head ++ suffixTokens).length)]
    exact ⟨fun h => .inr ⟨Nat.succ_pos n, h⟩, fun h => (h.resolve_left hle).2⟩

theorem suffix_of_uncut (h : e.Uncut suffixTokens prompts) (hsuffix : e.kind.inputSuffix ≠ "")
    (hends : e.SuffixEnds suffixTokens prompts) (hf : host.Faithful own) (normalize : Bool) :
    ∀ d ∈ (e.embed ops host prompts normalize).2, ∀ i < d.2,
      (d.1.sequence i).getLast? = suffixTokens.getLast? := by
  intro d hd i hi
  cases hlists : e.tokensLinesList prompts with
  | error error =>
    rw [e.embed_of_error ops hlists] at hd
    exact absurd hd not_mem_nil
  | ok lists =>
    obtain ⟨group, hmem, hcarries⟩ := (e.embed_calls ops hf hlists normalize).groups d hd
    rw [hcarries.sBatch] at hi
    obtain ⟨tokens, htokens, -, hcut⟩ := (mem_prepared _).1 (hmem _ (getElem_mem hi))
    rw [hcarries.sequence, getElem?_map, getElem?_eq_getElem hi, Option.map_some,
      Option.getD_some, hcut]
    have hmem := mem_of_getElem? htokens
    exact (getLast?_take_iff hends.ne_nil (hends.of_mem hlists hmem) _).2
      (h hsuffix hends lists hlists tokens hmem)

/-- Where nothing fails every prompt is decoded, so none may be cut before the suffix's end. -/
theorem Packed.uncut {e : LlamaEmbedder} {ops : Floats32 F}
    (h : e.Packed ops own suffixTokens prompts normalize) : e.Uncut suffixTokens prompts := by
  intro hsuffix hends lists hlists tokens hmem
  have hf := plainHost_faithful own
  obtain ⟨i, hi⟩ := mem_iff_getElem?.1 hmem
  have hisSuffix := hends.of_mem hlists hmem
  have hempty : tokens.isEmpty = false :=
    isEmpty_eq_false_iff.2 fun hnil =>
      hends.ne_nil (suffix_nil.1 (hnil ▸ hisSuffix))
  obtain ⟨d, hd, j, hj, hsequence⟩ := (e.embed_calls ops hf hlists normalize).all
    ⟨_, e.embed_plain ops own hlists normalize⟩ (i, _)
    ((mem_prepared _).2 ⟨tokens, hi, hempty, rfl⟩)
  have hlast := h.suffix hsuffix hends _ hf d hd j hj
  rw [hsequence] at hlast
  exact (getLast?_take_iff hends.ne_nil hisSuffix _).1 hlast

/-- **Packing changes nothing precisely if no suffix is cut off.** -/
theorem packed_iff (own : Own F)
    (suffixTokens : List LlamaToken) (prompts : List String) (normalize : Bool) :
    e.Packed ops own suffixTokens prompts normalize ↔ e.Uncut suffixTokens prompts := by
  refine ⟨Packed.uncut, fun h => ?_⟩
  exact ⟨fun _ hf _ => e.slots_alone ops hf, fun _ hf _ hlists => e.limits_kept ops hf hlists _,
    fun hsuffix hends _ hf => e.suffix_of_uncut ops h hsuffix hends hf _⟩

/-- A tokenizer that makes a token of each character. -/
def characters : LlamaEmbedder where
  strToToken text _ := .ok (text.toList.map fun c => Int32.ofNat c.toNat)
  nCtxTrain := 32768
  kind := .qwen3

theorem tokensOf_characters (text : List Char) : characters.tokensOf (String.ofList text) =
    .ok ((text ++ "<|endoftext|>".toList).map fun c => Int32.ofNat c.toNat) := by
  have hsuffix : characters.kind.inputSuffix.isEmpty = false := by decide
  rw [tokensOf, hsuffix, if_neg Bool.false_ne_true]
  exact congrArg Except.ok (by rw [String.toList_append, String.toList_ofList]; rfl)

/-- A prompt of at least as many tokens as the model takes loses all of its suffix. -/
theorem not_uncut_characters {n : Nat} (hn : 2048 ≤ n) : ¬ characters.Uncut
    ("<|endoftext|>".toList.map fun c => Int32.ofNat c.toNat)
    [String.ofList (replicate n 'a')] := by
  intro huncut
  have htokens := tokensOf_characters (replicate n 'a')
  rw [map_append, map_replicate] at htokens
  have hends : characters.SuffixEnds ("<|endoftext|>".toList.map fun c => Int32.ofNat c.toNat)
      [String.ofList (replicate n 'a')] := by
    refine ⟨by decide, fun prompt hprompt tokens hok => ?_⟩
    cases mem_singleton.1 hprompt
    cases htokens.symm.trans hok
    exact suffix_append _ _
  have hmax : characters.perSeqMax = 2048 := by decide
  have hcut := huncut (by decide) hends _ (characters.tokensLinesList_singleton htokens) _
    mem_cons_self
  rcases hcut with hle | ⟨-, hlast⟩
  · rw [length_append, length_replicate] at hle
    have : 0 < ("<|endoftext|>".toList.map fun c => Int32.ofNat c.toNat).length := by decide
    omega
  · rw [getElem?_append_left (by rw [length_replicate]; omega),
      getElem?_replicate_of_lt (by omega)] at hlast
    exact absurd hlast (by decide)

theorem suffix_cut_off : ¬ characters.Packed (⟨0, fun _ _ _ => 0, id, fun _ _ => 0⟩ : Floats32 Nat)
    (fun _ tokens => [tokens.length])
    ("<|endoftext|>".toList.map fun c => Int32.ofNat c.toNat)
    [String.ofList (List.replicate 2048 'a')] true :=
  fun h => not_uncut_characters (Nat.le_refl 2048) h.uncut

end LlamaEmbedder

end Llama
end Gen2
