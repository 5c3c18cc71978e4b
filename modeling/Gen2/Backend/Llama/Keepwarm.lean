import Gen2.Backend.Llama.Rebuild
import Mathlib.Data.List.Forall2
import Mathlib.Data.UInt

/-!
# Resuming from a snapshot

`Session::save_cache` writes down what a context holds, beside a digest of the transcript;
`Session::try_restore` resumes on it where the digest is that of the new conversation up to its last
message, or up to an assistant message before that.

* **The digest** is of roles, bodies and names.  It tells two transcripts apart only as far as these
  do (`Agrees`, `transcriptBytes_inj`), and SHA-256 does: a result that rests on it says which two
  texts collide if it does not.
* **The assistant's message** before the last one is taken to be the reply in the context, whatever
  it says.  `restore_resumes_saved` says when the conversation resumed is the one that was saved.
* **The delta** is rendered without the thinking flag, which an append passes.
  `restore_matches_append` says when the two leave the same context.
-/

namespace Gen2
namespace Llama

open Lib SessionRt Kv List LlamaContext

/-! ## What the digest tells apart -/

/-- The bytes of a name, none for no name. -/
def nameBytes (m : Message) : List UInt8 := (m.name.map asBytes).getD []

theorem ff_not_mem_nameBytes (m : Message) : (0xff : UInt8) ∉ nameBytes m := by
  rw [nameBytes]
  cases m.name with
  | none => exact not_mem_nil
  | some name => exact ff_not_mem_asBytes name

section

variable [BodyJson]

/-- The serialization of a body, empty where there is none. -/
def bodyBytes (m : Message) : List UInt8 := (BodyJson.toVec m.body).getD []

/-- Two messages that agree in what the digest leaves out: the call that is answered, whether there
is a name, where the role and the body end, and a body whose serialization says less than it does.
-/
structure Agrees (a b : Message) : Prop where
  toolCallId : a.toolCallId = b.toolCallId
  named : a.name.isSome = b.name.isSome
  role : (asBytes a.role).length = (asBytes b.role).length
  bodyLength : (bodyBytes a).length = (bodyBytes b).length
  body : bodyBytes a = bodyBytes b → a.body = b.body

theorem Agrees.refl (m : Message) : Agrees m m := ⟨rfl, rfl, rfl, rfl, fun _ => rfl⟩

/-- **A message that agrees with another in what the digest leaves out is told apart by the
rest.** -/
theorem messageBytes_inj {a b : Message} {after after' : List UInt8} (hagrees : Agrees a b)
    (h : messageBytes a ++ after = messageBytes b ++ after') : a = b ∧ after = after' := by
  simp only [messageBytes, append_assoc, cons_append, nil_append] at h
  obtain ⟨hrole, h⟩ := append_inj h hagrees.role
  obtain ⟨hbody, h⟩ := append_inj (cons.inj h).2 hagrees.bodyLength
  obtain ⟨hname, hafter⟩ := append_end_inj (ff_not_mem_nameBytes a) (ff_not_mem_nameBytes b)
    (cons.inj h).2
  have hsame := hagrees.body hbody
  have hid := hagrees.toolCallId
  have hnamed := hagrees.named
  have hrole := asBytes_inj hrole
  obtain ⟨role, body, name, toolCallId⟩ := a
  obtain ⟨role', body', name', toolCallId'⟩ := b
  have hname : name = name' := by
    cases name with
    | none => cases name' with
      | none => rfl
      | some name' => simp at hnamed
    | some name => cases name' with
      | none => simp at hnamed
      | some name' => exact congrArg some (asBytes_inj hname)
  exact ⟨by rw [Message.mk.injEq]; exact ⟨hrole, hsame, hname, hid⟩, hafter⟩

/-- **So is a transcript.** -/
theorem transcriptBytes_inj {xs ys : List Message} (hagrees : List.Forall₂ Agrees xs ys)
    (h : transcriptBytes xs = transcriptBytes ys) : xs = ys := by
  induction hagrees with
  | nil => rfl
  | cons hab _ ih =>
    obtain ⟨rfl, hrest⟩ := messageBytes_inj hab h
    rw [ih hrest]

theorem messageBytes_ne_nil (m : Message) : messageBytes m ≠ [] := by
  simp [messageBytes]

/-- A transcript that goes on has more bytes. -/
theorem transcriptBytes_ne_append (xs : List Message) {ys : List Message} (hne : ys ≠ []) :
    transcriptBytes xs ≠ transcriptBytes (xs ++ ys) := by
  intro h
  rw [transcriptBytes, transcriptBytes, flatMap_append, self_eq_append_right,
    flatMap_eq_nil_iff] at h
  obtain ⟨m, ys, rfl⟩ := exists_cons_of_ne_nil hne
  exact messageBytes_ne_nil m (h m mem_cons_self)

variable {before messages : List Message}

/-- Two beginnings of one conversation that have the same bytes are the same. -/
theorem append_eq_of_bytes {after newMessages : List Message}
    (h : before ++ after = messages ++ newMessages)
    (hbytes : transcriptBytes before = transcriptBytes messages) :
    before = messages ∧ after = newMessages := by
  rcases append_eq_append_iff.1 h with ⟨rest, rfl, rfl⟩ | ⟨rest, rfl, rfl⟩
  · cases rest with
    | nil => simp
    | cons m rest =>
      exact absurd hbytes (transcriptBytes_ne_append before (cons_ne_nil m rest))
  · cases rest with
    | nil => simp
    | cons m rest =>
      exact absurd hbytes.symm (transcriptBytes_ne_append messages (cons_ne_nil m rest))

/-! ## Where a saved transcript ends -/

/-- A conversation as a restore takes it apart: what was saved, an assistant message that is passed
over, and the last message, which is not the assistant's. -/
structure SplitAt (messages : List Message) (saved : Digest) (before : List Message)
    (skipped : Option Message) (last : Message) : Prop where
  eq : messages = before ++ (skipped.toList ++ [last])
  split : splitPoint messages saved = some before.length
  digest : transcriptSha256 before = saved
  assistant : ∀ m ∈ skipped, m.role = "assistant"
  delta : last.role ≠ "assistant"

omit [BodyJson] in
/-- What the last message leaves is what a restore looks for. -/
theorem toRender_append_last {skipped : Option Message} {last : Message}
    (hskipped : ∀ m ∈ skipped, m.role = "assistant") (hlast : last.role ≠ "assistant") :
    toRender (skipped.toList ++ [last]) = [last] := by
  cases skipped with
  | none => simp [toRender, hlast]
  | some m => simp [toRender, hlast, hskipped m rfl]

/-- **Where a restore may split a conversation.** -/
theorem splitPoint_some {saved : Digest} {k : Nat} (h : splitPoint messages saved = some k)
    (hdelta : toRender (messages.drop k) ≠ []) :
    ∃ before skipped last, k = before.length ∧ SplitAt messages saved before skipped last := by
  have hmem := mem_of_find?_eq_some h
  have htest := find?_some h
  simp only [Bool.and_eq_true, bne_iff_ne, ne_eq, beq_iff_eq] at htest
  obtain ⟨⟨hpos, hassistant⟩, hdigest⟩ := htest
  rcases eq_nil_or_concat' messages with rfl | ⟨init, last, rfl⟩
  · simp at hmem
    exact absurd hmem hpos
  have hlen : (init ++ [last]).length = init.length + 1 := length_append
  rw [mem_cons, mem_singleton, hlen] at hmem
  by_cases hlast : k = init.length
  · subst hlast
    rw [take_left] at hdigest
    rw [drop_left] at hdelta
    exact ⟨init, none, last, rfl, rfl, h, hdigest, by simp, by simpa [toRender] using hdelta⟩
  · -- the split is one message earlier, and that message is the assistant's
    rcases eq_nil_or_concat' init with rfl | ⟨before, m, rfl⟩
    · simp at hmem hlast
      exact absurd hmem hlast
    have hk : k = before.length := by
      rw [length_append, length_singleton] at hmem hlast
      omega
    subst hk
    rw [append_assoc] at h hdigest hassistant hdelta ⊢
    rw [take_left] at hdigest
    rw [drop_left] at hdelta
    have hrole : m.role = "assistant" := by
      simpa using hassistant
    refine ⟨before, some m, last, rfl, rfl, h, hdigest, ?_, ?_⟩
    · rintro m' hm'
      obtain rfl := Option.some.inj hm'
      exact hrole
    · simpa [toRender, hrole] using hdelta

theorem splitPoint_last (last : Message) {saved : Digest} (hne : before ≠ [])
    (hdigest : transcriptSha256 before = saved) :
    splitPoint (before ++ [last]) saved = some before.length := by
  have hpos := length_pos_iff_ne_nil.2 hne
  have hlen : (before ++ [last]).length - 1 = before.length := by simp
  have hne' : (before.length == (before ++ [last]).length - 2) = false := by
    rw [beq_eq_false_iff_ne, length_append, length_singleton]
    omega
  rw [splitPoint, hlen, find?_cons_of_pos]
  rw [hne', take_left, hdigest]
  simp [hne]

/-! ## Saving and restoring -/

variable {Ctx : Type} [SerdeJson]

/-- Where a snapshot is resumed. -/
theorem resumeAt_ok {bundle : ModelBundle Ctx} {tpl : ChatTemplate} {ctxSize : UInt32}
    {hdr : KvHeader} {payload : List UInt8} {resume : Resume}
    (h : resumeAt bundle tpl ctxSize messages hdr payload = .ok resume) :
    ∃ before skipped last, SplitAt messages hdr.kvMeta.transcriptSha256 before skipped last ∧
      chatTokens bundle.model tpl [last] none none = .ok resume.deltaTokens ∧
        resume.deltaTokens ≠ [] ∧ resume.restoredN = hdr.kvMeta.kvTokenCount.toNat ∧
          resume.payload = payload := by
  rw [resumeAt] at h
  split at h
  · cases h
  split at h
  · cases h
  split at h
  · cases h
  split at h
  · cases h
  next k hsplit =>
    dsimp only at h
    split at h
    · cases h
    next hdelta =>
      split at h
      · cases h
      next deltaTokens htokens =>
        split at h
        · cases h
        next hne =>
          split at h
          · cases h
          obtain rfl := Except.ok.inj h
          obtain ⟨before, skipped, last, rfl, hat⟩ :=
            splitPoint_some hsplit (by simpa using hdelta)
          rw [hat.eq, drop_left, toRender_append_last hat.assistant hat.delta]
            at htokens
          exact ⟨before, skipped, last, hat, htokens, by simpa using hne, rfl, rfl⟩

variable [LlamaContext Ctx] [HeaderJson]

/-- `serde_json` reads back what it writes for this header, and that is not 4 GiB long. -/
def ReadsBack (header : KvHeader) : Prop :=
  ∃ headerJson, HeaderJson.toVec header = some headerJson ∧
    HeaderJson.fromSlice headerJson = .ok header ∧ headerJson.length < 2 ^ 32

/-- The header of a snapshot of a session. -/
def saveHeader (s : Session Ctx) (st : DecodeState Ctx) (createdAtUs : Int64) : KvHeader :=
  headerOf (saveMeta s st createdAtUs) (LlamaContext.copyStateData st.ctx)

variable {s : Session Ctx} {st : DecodeState Ctx} {createdAtUs : Int64}

omit [SerdeJson] in
/-- A session that is not strict, with something in its context, is saved. -/
theorem saveCache_of_state {headerJson : List UInt8} (hstrict : s.strict = false)
    (hst : s.state = some st) (hmicrophone : st.microphone = none)
    (hsize : getStateSize st.ctx ≠ 0) (hcopy : copyStateData st.ctx ≠ [])
    (hwrite : HeaderJson.toVec (saveHeader s st createdAtUs) = some headerJson) :
    ∃ snapshot, saveCache s createdAtUs = .ok snapshot := by
  have hbuild : buildBlob (saveMeta s st createdAtUs) (copyStateData st.ctx) =
      some (frame headerJson (copyStateData st.ctx)) := by
    rw [buildBlob, show headerOf _ _ = saveHeader s st createdAtUs from rfl, hwrite,
      Option.map_some]
  have hlength : (copyStateData st.ctx).length ≠ 0 := by simpa using hcopy
  refine ⟨⟨tokensCovered st.ctx, frame headerJson (copyStateData st.ctx),
    saveMeta s st createdAtUs⟩, ?_⟩
  rw [saveCache, if_neg (by simp [hstrict]), hst]
  dsimp only
  rw [if_neg (by simp [hmicrophone]), if_neg hsize, if_neg hlength, hbuild]

omit [SerdeJson] in
/-- **What a snapshot reads back as.** -/
theorem saveCache_parse {snapshot : KvSnapshot} (hst : s.state = some st)
    (hsave : saveCache s createdAtUs = .ok snapshot)
    (hread : ReadsBack (saveHeader s st createdAtUs)) :
    parseBlob snapshot.bytes =
      some (.ok (saveHeader s st createdAtUs, copyStateData st.ctx)) := by
  obtain ⟨headerJson, hwrite, hfrom, hlt⟩ := hread
  have hbuild : buildBlob (saveMeta s st createdAtUs) (copyStateData st.ctx) =
      some (frame headerJson (copyStateData st.ctx)) := by
    rw [buildBlob, show headerOf _ _ = saveHeader s st createdAtUs from rfl, hwrite,
      Option.map_some]
  rw [saveCache, hst] at hsave
  dsimp only at hsave
  rw [hbuild] at hsave
  dsimp only at hsave
  split at hsave
  · cases hsave
  split at hsave
  · cases hsave
  split at hsave
  · cases hsave
  · split at hsave
    · cases hsave
    · obtain rfl := Except.ok.inj hsave
      exact parseBlob_eq_ok.2 ⟨headerJson, rfl, hlt, hfrom, rfl, rfl⟩

/-- **What a restore that succeeds has done.** -/
theorem tryRestore_ok [HardwareProfile] {fuel : Nat} {bundle : ModelBundle Ctx}
    {settings : Settings} {tpl : ChatTemplate} {enabledToolNames : Option (List String)}
    {enableThinking : Bool} {spec : KvLoadSpec} {blob payload : List UInt8} {hdr : KvHeader}
    {r : Session Ctx} (hspec : spec.blob = .ok blob)
    (hparse : parseBlob blob = some (.ok (hdr, payload)))
    (h : tryRestore fuel bundle settings tpl messages enabledToolNames enableThinking spec =
      some (.ok (some r))) :
    r.messages = messages ∧
      ∃ before skipped last fresh delta st,
        SplitAt messages hdr.kvMeta.transcriptSha256 before skipped last ∧
          chatTokens bundle.model tpl [last] none none = .ok delta ∧ delta ≠ [] ∧
            prefill fuel settings ⟨setStateData fresh payload,
              hdr.kvMeta.kvTokenCount.toNat, none⟩ delta = some (.ok st) ∧ r.state = some st := by
  have hmissed : ∀ {reason}, missed spec reason ≠ some (.ok (some r)) := by
    intro reason hmiss
    rw [missed] at hmiss
    split at hmiss <;> simp at hmiss
  rw [tryRestore, resumePoint, hspec] at h
  dsimp only at h
  rw [hparse] at h
  dsimp only at h
  split at h
  · cases h
  · exact absurd h hmissed
  · simp at h
  next resume hresume =>
    obtain ⟨before, skipped, last, hat, htokens, hne, hcount, hpayload⟩ :=
      resumeAt_ok (Option.some.inj hresume)
    split at h
    · simp at h
    next fresh hfresh =>
      split at h
      · exact absurd h hmissed
      obtain ⟨result, hprefill, heq⟩ := Option.map_eq_some_iff.1 h
      cases result with
      | error e => simp at heq
      | ok st =>
        obtain rfl := Option.some.inj (Except.ok.inj heq)
        rw [hcount, hpayload] at hprefill
        exact ⟨rfl, before, skipped, last, fresh, resume.deltaTokens, st, hat, htokens, hne,
          hprefill, rfl⟩

/-- A delta as a restore renders it: without the thinking flag. -/
def Session.renderUnflagged (s : Session Ctx) (messages : List Message) :
    Except ExecError (List LlamaToken) :=
  chatTokens s.bundle.model s.chatTemplate messages none none

omit [SerdeJson] [LlamaContext Ctx] [HeaderJson] in
/-- A snapshot is one of the model it was made with. -/
theorem identityMismatch_save (s : Session Ctx) (st : DecodeState Ctx) (createdAtUs : Int64) :
    identityMismatch s.bundle (saveMeta s st createdAtUs) = false := by
  simp [identityMismatch, saveMeta, buildKvMeta]

/-- **When a saved session is resumed**: for a conversation whose transcript has the digest of the
saved one, and one message more. -/
theorem tryRestore_saved [HardwareProfile] {st' : DecodeState Ctx} {snapshot : KvSnapshot}
    {fuel : Nat} {last : Message} {delta : List LlamaToken} {fresh : Ctx}
    (enabledToolNames : Option (List String)) (enableThinking : Bool) (spec : KvLoadSpec)
    (hst : s.state = some st) (hsave : saveCache s createdAtUs = .ok snapshot)
    (hread : ReadsBack (saveHeader s st createdAtUs)) (hspec : spec.blob = .ok snapshot.bytes)
    (hbefore : before ≠ []) (hdigest : transcriptSha256 before = transcriptSha256 s.messages)
    (hlast : last.role ≠ "assistant") (htokens : s.renderUnflagged [last] = .ok delta)
    (hdelta : delta ≠ []) (hcount : UInt64.ofNat st.curPos.toNat ≠ 0)
    (hsize : (UInt64.ofNat st.curPos.toNat).toNat + delta.length + 64 <
      (createdCtxSize s.bundle s.settings).toNat)
    (hfresh : s.bundle.model.newContext (createdCtxSize s.bundle s.settings)
      (batchSize s.settings) = .ok fresh)
    (hcovered : (UInt64.ofNat st.curPos.toNat).toNat ≤
      tokensCovered (setStateData fresh (copyStateData st.ctx)))
    (hprefill : prefill fuel s.settings
      ⟨setStateData fresh (copyStateData st.ctx),
        (UInt64.ofNat st.curPos.toNat).toNat, none⟩ delta = some (.ok st')) :
    ∃ r, tryRestore fuel s.bundle s.settings s.chatTemplate (before ++ [last]) enabledToolNames
      enableThinking spec = some (.ok (some r)) ∧ r.state = some st' := by
  have hsplit := splitPoint_last last hbefore hdigest
  have hlong : ¬ (before ++ [last]).length < 2 := by
    have := length_pos_iff_ne_nil.2 hbefore
    rw [length_append, length_singleton]
    omega
  have hrender : toRender [last] = [last] := by
    simp [toRender, hlast]
  have hresume : resumeAt s.bundle s.chatTemplate (createdCtxSize s.bundle s.settings)
      (before ++ [last]) (saveHeader s st createdAtUs) (copyStateData st.ctx) =
        .ok ⟨(UInt64.ofNat st.curPos.toNat).toNat, copyStateData st.ctx, delta⟩ := by
    have hmeta : (saveHeader s st createdAtUs).kvMeta = saveMeta s st createdAtUs := rfl
    have hcounted : (saveMeta s st createdAtUs).kvTokenCount = UInt64.ofNat st.curPos.toNat := rfl
    have hsaved : (saveMeta s st createdAtUs).transcriptSha256 = transcriptSha256 s.messages := rfl
    rw [resumeAt, hmeta, identityMismatch_save, if_neg (by decide), hcounted, if_neg hcount,
      if_neg hlong, hsaved, hsplit]
    dsimp only
    rw [drop_left, hrender, if_neg (by simp), ← Session.renderUnflagged, htokens]
    dsimp only
    rw [if_neg (by simpa using hdelta), if_neg (Nat.not_le.2 hsize)]
  rw [tryRestore, resumePoint, hspec]
  dsimp only
  rw [saveCache_parse hst hsave hread]
  dsimp only
  rw [hresume]
  dsimp only
  rw [hfresh]
  dsimp only
  rw [if_neg (Nat.not_lt.2 hcovered), hprefill]
  exact ⟨_, rfl, rfl⟩

/-! ## What is resumed -/

/-- A session that is saved, with the reply that has been sampled since the last message of its
transcript, if there is one. -/
structure Saved (Ctx : Type) where
  session : Session Ctx
  reply : Option Message

/-- What the context of a saved session stands for. -/
def Saved.contents (saved : Saved Ctx) : List Message :=
  saved.session.messages ++ saved.reply.toList

/-- The saved transcript agrees with what is resumed in what the digest leaves out, and the message
that is passed over is the reply. -/
structure Resumes (saved : Saved Ctx) (before : List Message) (skipped : Option Message) :
    Prop where
  agrees : List.Forall₂ Agrees saved.session.messages before
  reply : saved.reply = skipped

omit [SerdeJson] [LlamaContext Ctx] [HeaderJson] in
/-- Up to a collision, a transcript that digests the same is resumed as it was saved precisely if it
agrees with it in the rest. -/
theorem contents_eq_iff {saved : Saved Ctx} {skipped : Option Message}
    (hdigest : transcriptSha256 before = transcriptSha256 saved.session.messages)
    (hcollision : ¬ Collision (transcriptBytes before) (transcriptBytes saved.session.messages)) :
    saved.contents = before ++ skipped.toList ↔ Resumes saved before skipped := by
  have hbytes : transcriptBytes before = transcriptBytes saved.session.messages :=
    by_contra fun hne => hcollision ⟨hne, hdigest⟩
  have hsame : saved.session.messages = before → Resumes saved before saved.reply := by
    rintro rfl
    exact ⟨forall₂_same.2 fun m _ => Agrees.refl m, rfl⟩
  constructor
  · intro h
    rw [Saved.contents] at h
    cases hreply : saved.reply with
    | none =>
      cases skipped with
      | none =>
        rw [hreply, Option.toList_none, append_nil, append_nil] at h
        exact hreply ▸ hsame h
      | some m =>
        rw [hreply, Option.toList_none, append_nil] at h
        rw [h] at hbytes
        exact absurd hbytes (transcriptBytes_ne_append before (cons_ne_nil m []))
    | some reply =>
      cases skipped with
      | none =>
        rw [hreply, Option.toList_none, append_nil] at h
        rw [← h] at hbytes
        exact absurd hbytes.symm
          (transcriptBytes_ne_append saved.session.messages (cons_ne_nil reply []))
      | some m =>
        rw [hreply] at h
        obtain ⟨hmessages, hlast⟩ := append_inj' h rfl
        rw [← (cons.inj hlast).1, ← hreply]
        exact hsame hmessages
  · rintro ⟨hagrees, hreply⟩
    rw [Saved.contents, transcriptBytes_inj hagrees hbytes.symm, hreply]

/-- A session that goes on from what a context held when it was saved, with the tokens of one
message behind it. -/
def GoesOn (fuel : Nat) (bundle : ModelBundle Ctx) (settings : Settings) (tpl : ChatTemplate)
    (st : DecodeState Ctx) (last : Message) (r : Session Ctx) : Prop :=
  ∃ fresh delta st', chatTokens bundle.model tpl [last] none none = .ok delta ∧
    prefill fuel settings ⟨LlamaContext.setStateData fresh (LlamaContext.copyStateData st.ctx),
      (UInt64.ofNat st.curPos.toNat).toNat, none⟩ delta = some (.ok st') ∧ r.state = some st'

/-- **What a restore resumes.**  The conversation is taken apart before its last message, and before
an assistant message in front of that where the transcript does not end with one.  Unless the
digests collide, what the context stands for is the conversation without the last message if and
only if the saved transcript agrees with it in what the digest leaves out, and the message passed
over is the reply. -/
theorem restore_resumes_saved [HardwareProfile] (saved : Saved Ctx) {st : DecodeState Ctx}
    {createdAtUs : Int64} {snapshot : KvSnapshot} {fuel : Nat} {bundle : ModelBundle Ctx}
    {settings : Settings} {tpl : ChatTemplate} {messages : List Message}
    {enabledToolNames : Option (List String)} {enableThinking : Bool} {spec : KvLoadSpec}
    {r : Session Ctx} (hst : saved.session.state = some st)
    (hsave : saveCache saved.session createdAtUs = .ok snapshot)
    (hread : ReadsBack (saveHeader saved.session st createdAtUs))
    (hspec : spec.blob = .ok snapshot.bytes)
    (hrestore : tryRestore fuel bundle settings tpl messages enabledToolNames enableThinking spec =
      some (.ok (some r))) :
    ∃ before skipped last,
      SplitAt messages (transcriptSha256 saved.session.messages) before skipped last ∧
        GoesOn fuel bundle settings tpl st last r ∧
          (Collision (transcriptBytes before) (transcriptBytes saved.session.messages) ∨
            (saved.contents = before ++ skipped.toList ↔ Resumes saved before skipped)) := by
  obtain ⟨-, before, skipped, last, fresh, delta, st', hat, htokens, -, hprefill, hstate⟩ :=
    tryRestore_ok hspec (saveCache_parse hst hsave hread) hrestore
  refine ⟨before, skipped, last, hat, ⟨fresh, delta, st', htokens, hprefill, hstate⟩, ?_⟩
  by_cases hcollision :
      Collision (transcriptBytes before) (transcriptBytes saved.session.messages)
  · exact .inl hcollision
  · exact .inr (contents_eq_iff hat.digest hcollision)

/-! ## Restoring is appending -/

/-- **Restoring equals staying live.**  A session is saved, and restored for its transcript with new
messages behind it; the same messages are appended to the live session, where they do not overflow.
Unless the digests collide, the transcripts are the same, and the contexts are if and only if the
new messages render to the same tokens with the thinking flag as without. -/
theorem restore_matches_append [HardwareProfile] [LawfulContext Ctx] {s s' r : Session Ctx}
    {st : DecodeState Ctx} {createdAtUs : Int64} {snapshot : KvSnapshot} {fuel fuel' n : Nat}
    {newMessages : List Message} {spec : KvLoadSpec} (hst : s.state = some st)
    (hsave : saveCache s createdAtUs = .ok snapshot)
    (hread : ReadsBack (saveHeader s st createdAtUs))
    (hspec : spec.blob = .ok snapshot.bytes)
    (hrestore : tryRestore fuel s.bundle s.settings s.chatTemplate (s.messages ++ newMessages)
      s.enabledToolNames s.enableThinking spec = some (.ok (some r)))
    (happend : appendMessages fuel' s newMessages = some (.ok n, s')) (hnew : newMessages ≠ [])
    (hvideo : s.bundle.capabilities.video = false) (hfits : ¬ Overflows s newMessages) :
    ∃ before skipped last,
      SplitAt (s.messages ++ newMessages) (transcriptSha256 s.messages) before skipped last ∧
        (Collision (transcriptBytes before) (transcriptBytes s.messages) ∨
          ((r.kv = s'.kv ∧ r.messages = s'.messages) ↔
            s.render (toRender newMessages) = s.renderUnflagged (toRender newMessages))) := by
  obtain ⟨hmessages, before, skipped, last, fresh, delta, stᵣ, hat, htokens, hne, hprefill, hstᵣ⟩ :=
    tryRestore_ok hspec (saveCache_parse hst hsave hread) hrestore
  refine ⟨before, skipped, last, hat, ?_⟩
  by_cases hcollision : Collision (transcriptBytes before) (transcriptBytes s.messages)
  · exact .inl hcollision
  refine .inr ?_
  have hbytes : transcriptBytes before = transcriptBytes s.messages :=
    by_contra fun hne => hcollision ⟨hne, hat.digest⟩
  obtain ⟨-, rfl⟩ := append_eq_of_bytes hat.eq.symm hbytes
  rw [toRender_append_last hat.assistant hat.delta]
  have hkv := prefill_cells hprefill
  rw [LawfulContext.restore] at hkv
  obtain ⟨hmessages', live, hlive, hkv'⟩ := appended_kv hst hnew hvideo hfits happend
  rw [deltaTokens, toRender_append_last hat.assistant hat.delta, if_neg (by simp)] at hlive
  rw [hmessages, hmessages', hkv', Session.kv, hstᵣ, Option.map_some, hkv, hlive,
    Session.renderUnflagged, htokens]
  simp [eq_comm]

end

/-! ## A chat that is saved -/

/-- What `serde_json` writes for the bodies of the examples: plain text, and calls without
arguments. -/
abbrev BodyJson.plain : BodyJson where
  toVec body := match body with
    | .content (.singleText text) =>
      some (asBytes ("\x7b\"content\":" ++ SerdeJson.quote text ++ "\x7d"))
    | .content (.structuredAssistant content reasoning) =>
      some (asBytes ("\x7b\"content\":\x7b\"content\":" ++ SerdeJson.quote content ++
        ",\"reasoning\":" ++ (reasoning.map SerdeJson.quote).getD "null" ++ "\x7d\x7d"))
    | .content (.multipleChunks _) => none
    | .tool calls => some (asBytes ("\x7b\"tool_calls\":[" ++
        ",".intercalate (calls.map (SerdeJson.toolCallText fun _ => "\x7b\x7d")) ++ "]\x7d"))

/-- A host with room for everything. -/
abbrev HardwareProfile.ample : HardwareProfile := ⟨2 ^ 40, 32768⟩

/-- The state of a chat in a context of 128 cells. -/
def chatState (cells : List LlamaToken) : DecodeState PlainContext :=
  ⟨⟨128, cells⟩, cells.length, none⟩

/-- A chat in such a context. -/
def chat (messages : List Message) (cells : List LlamaToken) (enableThinking : Bool) :
    Session PlainContext where
  bundle := PlainContext.bundle 4096
  settings := ⟨⟨none⟩, ⟨some 128, none⟩⟩
  chatTemplate := PlainContext.template
  state := some (chatState cells)
  messages := messages
  initialMessagesDropped := 0
  ctxSize := 128
  enabledToolNames := none
  enableThinking := enableThinking
  strict := false

/-- The header a chat is saved with, whether there is thinking or not. -/
def chatHeader [BodyJson] (messages : List Message) (cells : List LlamaToken) : KvHeader :=
  saveHeader (chat messages cells true) (chatState cells) 0

/-- `serde_json` as it treats the header of a chat. -/
abbrev chatHeaderJson (messages : List Message) (cells : List LlamaToken) : HeaderJson :=
  let _ := BodyJson.plain
  .only (chatHeader messages cells)

/-- The last question of a chat is one token for each of its letters, and one for its end. -/
def go : Message := .user "go"

theorem go_tokens : @chatTokens _ SerdeJson.plain (PlainContext.bundle 4096).model
    PlainContext.template [go] none none = .ok [103, 111, 59] := rfl

/-- The chat after that question. -/
def chatStateAfter (cells : List LlamaToken) : DecodeState PlainContext :=
  ⟨⟨128, cells ++ [103, 111, 59]⟩, cells.length + 3, none⟩

/-- The question is prefilled in one batch. -/
theorem prefill_go {cells : List LlamaToken} (hroom : cells.length ≤ 32) :
    prefill 2 ⟨⟨none⟩, ⟨some 128, none⟩⟩ (chatState cells) [103, 111, 59] =
      some (.ok (chatStateAfter cells)) := by
  have hdecode : decode (⟨128, cells⟩ : PlainContext)
      (batchOf cells.length [103, 111, 59]) = .ok ⟨128, cells ++ [103, 111, 59]⟩ := by
    have hfits : ¬ (batchOf cells.length [103, 111, 59] = [] ∨
        128 < cells.length + (batchOf cells.length [103, 111, 59]).length) := by
      simp [batchOf]
      omega
    simp only [decode, List.isEmpty_iff]
    exact (if_neg hfits).trans rfl
  have hfirst : prefillStep (batchSize ⟨⟨none⟩, ⟨some 128, none⟩⟩).toNat
      (chatState cells, [103, 111, 59]) = .inl (chatStateAfter cells, []) := by
    rw [prefillStep, if_neg (by simp)]
    have hchunk : decode (chatState cells).ctx
        (batchOf (chatState cells).curPos
          (List.take (min 3 (batchSize ⟨⟨none⟩, ⟨some 128, none⟩⟩).toNat) [103, 111, 59])) =
            .ok ⟨128, cells ++ [103, 111, 59]⟩ := hdecode
    dsimp only [List.length_cons, List.length_nil]
    rw [hchunk]
    rfl
  rw [prefill, loop_next hfirst]
  exact loop_done rfl 0

/-- The chat is resumed for a conversation. -/
def resumeChat [SerdeJson] [BodyJson] [HeaderJson] [HardwareProfile] (snapshot : KvSnapshot)
    (messages : List Message) (enableThinking : Bool) :
    Option (Except ExecError (Option (Session PlainContext))) :=
  tryRestore 2 (PlainContext.bundle 4096) ⟨⟨none⟩, ⟨some 128, none⟩⟩ PlainContext.template messages
    none enableThinking (.lenient (.ok snapshot.bytes))

/-- **A chat is saved, and resumed for any conversation whose transcript has the same digest.** -/
theorem chat_resumes (messages : List Message) {before : List Message} (cells : List LlamaToken)
    (enableThinking : Bool) (hcells : cells ≠ []) (hroom : cells.length ≤ 32)
    (hbefore : before ≠ []) :
    letI := SerdeJson.plain
    letI := BodyJson.plain
    letI := chatHeaderJson messages cells
    letI := HardwareProfile.ample
    ReadsBack (chatHeader messages cells) →
    transcriptSha256 before = transcriptSha256 messages →
      ∃ snapshot r, saveCache (chat messages cells enableThinking) 0 = .ok snapshot ∧
        resumeChat snapshot (before ++ [go]) enableThinking = some (.ok (some r)) ∧
          r.state = some (chatStateAfter cells) := by
  let _ := SerdeJson.plain
  let _ := BodyJson.plain
  let _ := chatHeaderJson messages cells
  let _ := HardwareProfile.ample
  intro hread hdigest
  have hpos := length_pos_iff_ne_nil.2 hcells
  have hcount : (UInt64.ofNat (chatState cells).curPos.toNat).toNat = cells.length := by
    rw [chatState, Int.toNat_natCast, UInt64.toNat_ofNat', Nat.mod_eq_of_lt (by omega)]
  have hsave : ∃ snapshot, saveCache (chat messages cells enableThinking) 0 = .ok snapshot := by
    have hstateSize : getStateSize (chatState cells).ctx ≠ 0 :=
      Nat.ne_of_gt (Nat.lt_of_lt_of_le Nat.one_pos (Nat.le_add_right ..))
    exact saveCache_of_state (s := chat messages cells enableThinking) rfl rfl rfl hstateSize
      (cons_ne_nil _ _) rfl
  obtain ⟨snapshot, hsave⟩ := hsave
  have hrestored : setStateData (⟨128, []⟩ : PlainContext)
      (copyStateData (chatState cells).ctx) = ⟨128, cells⟩ :=
    congrArg (PlainContext.mk 128) (PlainContext.readState_writeState cells)
  have hne : UInt64.ofNat (chatState cells).curPos.toNat ≠ 0 := by
    intro hzero
    rw [hzero] at hcount
    exact absurd hcount.symm (Nat.ne_of_gt hpos)
  have hsize : (UInt64.ofNat (chatState cells).curPos.toNat).toNat + [103, 111, 59].length + 64 <
      (createdCtxSize (PlainContext.bundle 4096) ⟨⟨none⟩, ⟨some 128, none⟩⟩).toNat := by
    rw [hcount]
    show cells.length + 3 + 64 < 128
    omega
  have hcovered : (UInt64.ofNat (chatState cells).curPos.toNat).toNat ≤
      tokensCovered (setStateData (⟨128, []⟩ : PlainContext)
        (copyStateData (chatState cells).ctx)) := by
    rw [hcount, hrestored, tokensCovered]
    show cells.length ≤ ((cells.length : Int) - 1 + 1).toNat
    omega
  have hprefill : prefill 2 ⟨⟨none⟩, ⟨some 128, none⟩⟩
      ⟨setStateData (⟨128, []⟩ : PlainContext)
        (copyStateData (chatState cells).ctx),
        (UInt64.ofNat (chatState cells).curPos.toNat).toNat, none⟩ [103, 111, 59] =
          some (.ok (chatStateAfter cells)) := by
    rw [hrestored, hcount]
    exact prefill_go hroom
  obtain ⟨r, hr, hstate⟩ := tryRestore_saved (s := chat messages cells enableThinking) none
    enableThinking (.lenient (.ok snapshot.bytes)) rfl hsave hread rfl hbefore hdigest (by decide)
    go_tokens (by decide) hne hsize rfl hcovered hprefill
  exact ⟨snapshot, r, hsave, hr, hstate⟩

/-- Its header is read back. -/
theorem chat_readsBack (messages : List Message) (cells : List LlamaToken)
    (hlength :
      letI := BodyJson.plain
      (headerText (chatHeader messages cells)).length < 2 ^ 32) :
    letI := BodyJson.plain
    letI := chatHeaderJson messages cells
    ReadsBack (chatHeader messages cells) :=
  ⟨_, rfl, if_pos rfl, hlength⟩

/-- A question and its reply. -/
def hiOk : List Message := [.user "hi", .assistantStructured "ok" none]

/-- What a context holds of them. -/
def hiOkCells : List LlamaToken := [104, 105, 59, 111, 107, 59]

theorem hiOk_readsBack :
    letI := BodyJson.plain
    letI := chatHeaderJson hiOk hiOkCells
    ReadsBack (chatHeader hiOk hiOkCells) :=
  chat_readsBack hiOk hiOkCells (by decide +kernel)

/-- A reply that is in the transcript is resumed with it. -/
theorem hiOk_is_resumed :
    letI := SerdeJson.plain
    letI := BodyJson.plain
    letI := chatHeaderJson hiOk hiOkCells
    letI := HardwareProfile.ample
    let saved : Saved PlainContext := ⟨chat hiOk hiOkCells true, none⟩
    ∃ snapshot r, saveCache saved.session 0 = .ok snapshot ∧
      resumeChat snapshot (hiOk ++ [go]) true = some (.ok (some r)) ∧
        ∃ before skipped last,
          SplitAt (hiOk ++ [go]) (transcriptSha256 hiOk) before skipped last ∧
            GoesOn 2 saved.session.bundle saved.session.settings saved.session.chatTemplate
              (chatState hiOkCells) last r ∧
              (Collision (transcriptBytes before) (transcriptBytes hiOk) ∨
                (saved.contents = before ++ skipped.toList ↔ Resumes saved before skipped)) := by
  let _ := SerdeJson.plain
  let _ := BodyJson.plain
  let _ := chatHeaderJson hiOk hiOkCells
  let _ := HardwareProfile.ample
  intro saved
  have hread := hiOk_readsBack
  obtain ⟨snapshot, r, hsave, hr, -⟩ := chat_resumes hiOk hiOkCells true (List.cons_ne_nil _ _)
    (by decide) (List.cons_ne_nil _ _) hread rfl
  exact ⟨snapshot, r, hsave, hr, restore_resumes_saved saved rfl hsave hread rfl hr⟩

/-- A question, and the result of the call with this id. -/
def answered (toolCallId : String) : List Message := [.user "hi", .toolResultFor toolCallId "r"]

/-- What a context holds of them, whatever the id. -/
def answeredCells : List LlamaToken := [104, 105, 59, 114, 59]

/-- The result of another call is resumed as the one that was saved. -/
theorem tool_call_id_is_not_compared :
    letI := SerdeJson.plain
    letI := BodyJson.plain
    letI := chatHeaderJson (answered "a") answeredCells
    letI := HardwareProfile.ample
    let saved : Saved PlainContext := ⟨chat (answered "a") answeredCells true, none⟩
    ∃ snapshot r, saveCache saved.session 0 = .ok snapshot ∧
      resumeChat snapshot (answered "b" ++ [go]) true = some (.ok (some r)) ∧
        ∃ before skipped last,
          SplitAt (answered "b" ++ [go]) (transcriptSha256 (answered "a")) before skipped last ∧
            saved.contents ≠ before ++ skipped.toList := by
  let _ := SerdeJson.plain
  let _ := BodyJson.plain
  let _ := chatHeaderJson (answered "a") answeredCells
  let _ := HardwareProfile.ample
  have hdigest : transcriptSha256 (answered "b") = transcriptSha256 (answered "a") :=
    congrArg sha256 (show transcriptBytes (answered "b") = transcriptBytes (answered "a") from rfl)
  have hread := chat_readsBack (answered "a") answeredCells (by decide +kernel)
  obtain ⟨snapshot, r, hsave, hr, -⟩ := chat_resumes (answered "a") answeredCells true
    (List.cons_ne_nil _ _) (by decide) (List.cons_ne_nil _ _) hread hdigest
  have hsplit := splitPoint_last go (List.cons_ne_nil _ _) hdigest
  refine ⟨snapshot, r, hsave, hr, answered "b", none, go,
    ⟨rfl, hsplit, hdigest, by simp, by decide⟩, ?_⟩
  simp [Saved.contents, chat, answered, Message.toolResultFor]

/-- Where thinking is on, the question is the same tokens with the flag as without. -/
theorem hiOk_matches_append :
    letI := SerdeJson.plain
    letI := BodyJson.plain
    letI := chatHeaderJson hiOk hiOkCells
    letI := HardwareProfile.ample
    let s := chat hiOk hiOkCells true
    ∃ snapshot r s', saveCache s 0 = .ok snapshot ∧
      resumeChat snapshot (hiOk ++ [go]) true = some (.ok (some r)) ∧
        appendMessages 2 s [go] = some (.ok 0, s') ∧
          ∃ before skipped last,
            SplitAt (hiOk ++ [go]) (transcriptSha256 hiOk) before skipped last ∧
              (Collision (transcriptBytes before) (transcriptBytes hiOk) ∨
                ((r.kv = s'.kv ∧ r.messages = s'.messages) ↔
                  s.render (toRender [go]) = s.renderUnflagged (toRender [go]))) := by
  let _ := SerdeJson.plain
  let _ := BodyJson.plain
  let _ := chatHeaderJson hiOk hiOkCells
  let _ := HardwareProfile.ample
  intro s
  have hread := hiOk_readsBack
  obtain ⟨snapshot, r, hsave, hr, -⟩ := chat_resumes hiOk hiOkCells true (List.cons_ne_nil _ _)
    (by decide) (List.cons_ne_nil _ _) hread rfl
  have happend : (@appendMessages _ _ SerdeJson.plain 2 (chat hiOk hiOkCells true) [go]).map
      Prod.fst = some (.ok 0) := rfl
  obtain ⟨⟨n, s'⟩, hrun, rfl⟩ := Option.map_eq_some_iff.1 happend
  have hfits : ¬ @Overflows _ SerdeJson.plain (chat hiOk hiOkCells true) [go] :=
    of_decide_eq_false rfl
  exact ⟨snapshot, r, s', hsave, hr, hrun,
    restore_matches_append rfl hsave hread rfl hr hrun (List.cons_ne_nil _ _) rfl hfits⟩

/-- Where it is off, an append closes the thinking of the next reply, and a restore does not. -/
theorem thinking_flag_is_lost :
    letI := SerdeJson.plain
    letI := BodyJson.plain
    letI := chatHeaderJson hiOk hiOkCells
    letI := HardwareProfile.ample
    let s := chat hiOk hiOkCells false
    ∃ snapshot r s', saveCache s 0 = .ok snapshot ∧
      resumeChat snapshot (hiOk ++ [go]) false = some (.ok (some r)) ∧
        appendMessages 2 s [go] = some (.ok 0, s') ∧ ¬ Overflows s [go] ∧ r.kv ≠ s'.kv := by
  let _ := SerdeJson.plain
  let _ := BodyJson.plain
  let _ := chatHeaderJson hiOk hiOkCells
  let _ := HardwareProfile.ample
  intro s
  have hread := hiOk_readsBack
  obtain ⟨snapshot, r, hsave, hr, hstate⟩ := chat_resumes hiOk hiOkCells false
    (List.cons_ne_nil _ _) (by decide) (List.cons_ne_nil _ _) hread rfl
  have happend : (@appendMessages _ _ SerdeJson.plain 2 (chat hiOk hiOkCells false) [go]).map
      (fun run => (run.1, run.2.kv.map List.length)) = some (.ok 0, some 17) := rfl
  obtain ⟨⟨n, s'⟩, hrun, heq⟩ := Option.map_eq_some_iff.1 happend
  obtain ⟨rfl, hkv⟩ := Prod.mk.inj heq
  have hfits : ¬ @Overflows _ SerdeJson.plain (chat hiOk hiOkCells false) [go] :=
    of_decide_eq_false rfl
  refine ⟨snapshot, r, s', hsave, hr, hrun, hfits, fun hsame => ?_⟩
  have hlength : r.kv.map List.length = some 9 := by
    rw [Session.kv, hstate]
    rfl
  rw [hsame, hkv] at hlength
  exact absurd hlength (by decide)

end Llama
end Gen2
