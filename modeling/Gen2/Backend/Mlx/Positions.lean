import Gen2.Backend.Mlx.Puller
import Gen2.Lib.Run

/-!
# Where the conversation stands in the cache

A session of `backend/mlx/session.rs` from its prefill on: pulls, the steps of their pullers, and
appended messages, in any order.

* `step` is one call of a session.  `Session.said` is the prompt, what was appended and what was
  handed over, in order: what the cache should hold.
* `InPlace` says that the cache holds just that, each token at its own position, and that `cur_pos`
  and `cache_len`, where the next forward pass starts, are the number of tokens it holds.
* `ArPuller.Keeps` says of a step that it feeds what it hands over: it is the pipeline with budget
  for another token, or the step ends the stream.
* `stepOnce_inPlace_iff` is the rule for one step, and `inPlace_iff_keeps` the one for whole runs.
-/

namespace Gen2
namespace Mlx

open Lib Grammar List DecodeState

variable {F σ : Type} (m : Loaded F σ)

/-! ## Sessions -/

/-- `Session::append_messages`, with the tokens of the delta, or the prefill of a new session. -/
def DecodeState.prefill (st : DecodeState F) (delta : List Nat) : DecodeState F :=
  { cells := st.feed m delta
    curPos := st.curPos + delta.length
    cacheLen := st.cacheLen + delta.length
    pendingLogits := some (st.answer m delta)
    lastToken := delta.getLast?.getD st.lastToken }

/-- The delta, with the turn before it closed. -/
def DecodeState.closeTurn (st : DecodeState F) (delta : List Nat) : List Nat :=
  match m.eot with
  | none => delta
  | some eot => if st.lastToken = eot then delta else eot :: delta

/-- A session: the slot of its decode state, empty while a puller has it, and the conversation up to
the puller's first token. -/
structure Session (F σ : Type) where
  slot : Option (DecodeState F)
  puller : Option (PullSpec F σ × ArPuller F σ)
  before : List Nat

/-- What happens to a session.  `append` has the tokens that the new messages are rendered to. -/
inductive SessionCall (F σ : Type)
  | pull (sp : PullSpec F σ)
  | next (i : Moment)
  | drop
  | append (delta : List Nat)

namespace Session

/-- `Session::new_with_prefix`, with the tokens of the prompt. -/
def new (prompt : List Nat) : Session F σ :=
  ⟨some (DecodeState.prefill m ⟨[], 0, 0, none, 0⟩ prompt), none, prompt⟩

variable (s : Session F σ)

/-- What the pullers of the session handed over, with the prompt and the appended messages in their
places. -/
def said : List Nat :=
  match s.puller with
  | none => s.before
  | some (_, p) => s.before ++ p.handed

/-- The decode state, wherever it is. -/
def decodeState : Option (DecodeState F) :=
  match s.puller with
  | none => s.slot
  | some (_, p) => some p.state

/-- One call; what finds the session in use, or no puller, is refused. -/
def step (call : SessionCall F σ) : Session F σ :=
  match call, s.puller, s.slot with
  | .pull sp, none, some st => { s with slot := none, puller := some (sp, .start sp st) }
  | .next i, some (sp, p), _ => { s with puller := some (sp, p.stepOnce m sp i) }
  | .drop, some (_, p), _ => ⟨some p.state, none, s.said⟩
  | .append delta, none, some st =>
    match st.closeTurn m delta with
    | [] => s
    | t :: ts =>
      { s with slot := some (st.prefill m (t :: ts)), before := s.before ++ t :: ts }
  | _, _, _ => s

end Session

/-! ## The conversation in the cache -/

/-- The rows in use: of a step buffer those below `cur_pos`. -/
def DecodeState.held (st : DecodeState F) : List Cell :=
  if m.fast then st.cells.take st.curPos else st.cells

/-- The cache holds the conversation, each token at its own position, and the next forward pass
starts after it. -/
structure InPlace (said : List Nat) (st : DecodeState F) : Prop where
  held : st.held m = place 0 said
  curPos : st.curPos = (st.held m).length
  cacheLen : st.cacheLen = (st.held m).length

/-- `InPlace`, of a session. -/
def Session.InPlace (s : Session F σ) : Prop :=
  ∀ st, s.decodeState = some st → Mlx.InPlace m s.said st

namespace ArPuller

variable (sp : PullSpec F σ) (p : ArPuller F σ) (i : Moment)

/-- A step of the pipeline that owes `y` has budget to feed it, or ends with it. -/
def KeepsPipelined (y : Nat) : Prop := sp.wantNext p.produced = true ∨ p.ends m sp y = true

/-- A step of the serial path: the token sampled off the pending logits ends the stream; or a token
is fed that was fed before, and either the stream ends, on the fast path, or the same token comes
again. -/
def KeepsSerial : Prop :=
  match p.state.pendingLogits with
  | some logits => p.ends m sp (p.sampleWithGrammar m sp logits).1 = true
  | none =>
    match p.drafts sp i with
    | [] =>
      if p.ends m sp (p.sampleWithGrammar m sp (p.state.answer m [p.state.lastToken])).1 then
        m.fast = true
      else (p.sampleWithGrammar m sp (p.state.answer m [p.state.lastToken])).1 = p.state.lastToken
    | d :: ds =>
      p.verified m sp (d :: ds) =
          p.state.lastToken :: (d :: ds).take (p.acceptedOf m sp (d :: ds)) ∧
        walksOut m sp p.handed (p.verified m sp (d :: ds)) = true

/-- The step feeds what it hands over. -/
def Keeps : Prop :=
  if p.ended.isSome || i.stopped || i.paused || sp.limitReached p.produced then True
  else if p.fastPipelineEligible m sp then
    match p.fastPipe, p.state.pendingLogits with
    | some y, _ => p.KeepsPipelined m sp y
    | none, some logits => p.KeepsPipelined m sp (sp.argmax logits)
    | none, none => p.KeepsSerial m sp i
  else p.KeepsSerial m sp i

end ArPuller

/-- `ArPuller.Keeps`, of a call; a call that is not a step of the puller keeps anyway. -/
def Session.Keeps (s : Session F σ) (call : SessionCall F σ) : Prop :=
  match call, s.puller with
  | .next i, some (sp, p) => p.Keeps m sp i
  | _, _ => True

/-- No forward pass panics. -/
def SessionCall.Calm : SessionCall F σ → Prop
  | .next i => i.panics = none
  | _ => True

/-! ## What is held after a step -/

section

variable {m}

variable {said : List Nat} {st : DecodeState F}

theorem InPlace.length (h : InPlace m said st) : st.curPos = said.length := by
  rw [h.curPos, h.held, length_place]

theorem InPlace.cacheLen_eq (h : InPlace m said st) :
    st.cacheLen = st.curPos := by rw [h.cacheLen, h.curPos]

/-- The rows below `cur_pos` of either kind of cache. -/
theorem InPlace.below (h : InPlace m said st) (hfast : m.fast = true) :
    (padTo st.curPos st.cells).take st.curPos = place 0 said := by
  have hheld := h.held
  simp only [DecodeState.held, hfast, if_true] at hheld
  have hle : st.curPos ≤ st.cells.length := by
    have hlen := h.curPos
    simp only [DecodeState.held, hfast, if_true, length_take] at hlen
    omega
  rw [padTo_of_le hle, hheld]

/-- Only what is in use matters. -/
theorem InPlace.congr (h : InPlace m said st) (st' : DecodeState F) (hcells : st'.cells = st.cells)
    (hcur : st'.curPos = st.curPos) (hlen : st'.cacheLen = st.cacheLen) : InPlace m said st' := by
  have hheld : st'.held m = st.held m := by simp [DecodeState.held, hcells, hcur]
  obtain ⟨h₁, h₂, h₃⟩ := h
  rw [← hheld] at h₁ h₂ h₃
  exact ⟨h₁, hcur ▸ h₂, hlen ▸ h₃⟩

/-- Tokens are fed and the offsets advanced past them. -/
theorem InPlace.held_feed (h : InPlace m said st) (st' : DecodeState F) {fed : List Nat}
    (hcells : st'.cells = st.feed m fed) (hcur : st'.curPos = st.curPos + fed.length) :
    st'.held m = place 0 (said ++ fed) := by
  rw [place_append, Nat.zero_add, ← h.length]
  cases hfast : m.fast with
  | false =>
    have hheld := h.held
    simp only [DecodeState.held, hfast] at hheld
    simp only [DecodeState.held, hfast, hcells, DecodeState.feed, write_false]
    exact congrArg (· ++ _) hheld
  | true =>
    simp only [DecodeState.held, hfast, hcells, DecodeState.feed, hcur, if_true, take_write_true,
      h.below hfast]

/-- Of a step buffer, what is fed without advancing the offsets is not in use. -/
theorem InPlace.held_feed_back (h : InPlace m said st) (hfast : m.fast = true) (st' : DecodeState F)
    {fed : List Nat} (hcells : st'.cells = st.feed m fed) (hcur : st'.curPos = st.curPos) :
    st'.held m = place 0 said := by
  rw [← h.below hfast]
  simp only [DecodeState.held, hfast, hcells, DecodeState.feed, hcur, if_true, write_true,
    append_assoc]
  exact take_left' (length_take_padTo _ _)

/-- The rows of the accepted drafts are kept, and those of the rejected ones are not. -/
theorem InPlace.held_batch {sp : PullSpec F σ} {p : ArPuller F σ} (h : InPlace m said p.state)
    {drafts : List Nat} (st' : DecodeState F) (hcells : st'.cells = p.batchCells m sp drafts)
    (hcur : st'.curPos = p.state.curPos + (p.acceptedOf m sp drafts + 1))
    (hle : p.acceptedOf m sp drafts ≤ drafts.length) :
    st'.held m =
      place 0 (said ++ p.state.lastToken :: drafts.take (p.acceptedOf m sp drafts)) := by
  generalize hacc : p.acceptedOf m sp drafts = acc at hcur hle ⊢
  unfold ArPuller.batchCells at hcells
  rw [hacc] at hcells
  split at hcells
  · next hrejected =>
    have hfed : (p.state.lastToken :: drafts).take (acc + 1) =
        p.state.lastToken :: drafts.take acc := rfl
    rw [place_append, Nat.zero_add, ← h.length, ← hfed, ← take_place]
    cases hfast : m.fast with
    | false =>
      have hheld := h.held
      simp only [DecodeState.held, hfast] at hheld
      have hlen : p.state.cells.length = p.state.cacheLen := by
        have := h.cacheLen
        simp only [DecodeState.held, hfast] at this
        exact this.symm
      have hmore : p.state.cacheLen + (acc + 1) <
          (p.state.cells ++ place p.state.curPos (p.state.lastToken :: drafts)).length := by
        simp only [length_append, length_place, length_cons]
        omega
      simp only [DecodeState.held, hfast, hcells, DecodeState.feed, write_false, truncate,
        if_pos hmore]
      rw [← hlen, take_append, Nat.add_sub_cancel_left,
        take_of_length_le (Nat.le_add_right p.state.cells.length (acc + 1))]
      exact congrArg (· ++ _) hheld
    | true =>
      have hmore : p.state.cacheLen + (acc + 1) <
          (write true p.state.cells p.state.curPos (p.state.lastToken :: drafts)).length := by
        rw [h.cacheLen_eq, write_true, length_append, length_append, length_take_padTo,
          length_place, length_cons]
        omega
      have hshort : p.state.curPos + (acc + 1) ≤
          p.state.curPos + (p.state.lastToken :: drafts).length := by
        simp only [length_cons]
        omega
      simp only [DecodeState.held, hfast, hcells, DecodeState.feed, if_true, truncate,
        if_pos hmore, hcur]
      rw [h.cacheLen_eq, take_take, Nat.min_self, ← Nat.min_eq_left hshort,
        ← take_take, take_write_true, h.below hfast, take_append,
        take_of_length_le (by rw [length_place, ← h.length]; omega), length_place, ← h.length,
        Nat.add_sub_cancel_left]
  · next hall =>
    have hacc' : acc = drafts.length := by omega
    rw [hacc', take_length]
    exact h.held_feed st' hcells (by rw [hcur, hacc', length_cons])

/-- The state after a step, when it is known what the cache holds of it. -/
theorem inPlace_iff_of_held {fed handed : List Nat} {st' : DecodeState F}
    (hheld : st'.held m = place 0 (said ++ fed)) (hcur : st'.curPos = (said ++ fed).length)
    (hlen : st'.cacheLen = (said ++ fed).length) :
    InPlace m (said ++ handed) st' ↔ fed = handed := by
  constructor
  · intro h
    exact append_cancel_left (place_injective (hheld.symm.trans h.held))
  · rintro rfl
    exact ⟨hheld, by rw [hheld, hcur, length_place], by rw [hheld, hlen, length_place]⟩

/-- An offset past what is held is wrong. -/
theorem not_inPlace_of_length (h : (st.held m).length ≠ st.curPos) :
    ¬ InPlace m said st := fun hp => h hp.curPos.symm
/-! ## The offsets, in every state -/

theorem length_write_true (cells : List Cell) (pos : Nat) (tokens : List Nat) :
    (write true cells pos tokens).length = max cells.length (pos + tokens.length) := by
  rw [write_true, length_append, length_append, length_take_padTo, length_place,
    length_drop]
  omega

variable (m) in
/-- What holds of a decode state whether the conversation is in place or not: the offsets agree, and
of a step buffer at most one row is past them, none where logits are pending. -/
structure DecodeState.Tidy (st : DecodeState F) : Prop where
  sync : st.cacheLen = st.curPos
  short : m.fast = true → st.cells.length ≤ st.curPos + 1
  primed : m.fast = true → st.pendingLogits.isSome = true → st.cells.length ≤ st.curPos

variable (m) in
/-- `DecodeState.Tidy`, of a puller; the pipeline has no logits pending. -/
structure ArPuller.Tidy (p : ArPuller F σ) : Prop where
  state : p.state.Tidy m
  piped : p.fastPipe.isSome = true → p.state.pendingLogits = none

/-- The state once pending logits are used up. -/
theorem DecodeState.Tidy.of_none (hsync : st.cacheLen = st.curPos)
    (hshort : m.fast = true → st.cells.length ≤ st.curPos + 1) (hnone : st.pendingLogits = none) :
    st.Tidy m := ⟨hsync, hshort, by simp [hnone]⟩

/-- A prefill leaves no row past the offsets. -/
theorem DecodeState.Tidy.prefill (h : st.Tidy m) {delta : List Nat}
    (hdelta : delta ≠ [] ∨ st.cells = []) : (st.prefill m delta).Tidy m := by
  have hcells : m.fast = true →
      (st.prefill m delta).cells.length ≤ (st.prefill m delta).curPos := by
    intro hfast
    have hshort := h.short hfast
    have hlen : delta.length ≠ 0 ∨ st.cells.length = 0 := by
      rcases hdelta with hne | hnil
      · exact .inl (by simpa using hne)
      · exact .inr (by simp [hnil])
    simp only [DecodeState.prefill, DecodeState.feed, hfast, length_write_true]
    omega
  exact ⟨by simp [DecodeState.prefill, h.sync], fun hfast => Nat.le_succ_of_le (hcells hfast),
    fun hfast _ => hcells hfast⟩

namespace ArPuller

variable {sp : PullSpec F σ} {p : ArPuller F σ} {i : Moment}

theorem Tidy.emit (h : p.Tidy m) (hnone : p.state.pendingLogits = none) (token : Nat) :
    (p.emit m sp token).Tidy m := by
  cases hends : p.ends m sp token with
  | true =>
    obtain ⟨hstate, -, hpipe⟩ := emit_of_ends hends
    exact ⟨hstate ▸ h.state, by rw [hstate, hpipe]; exact h.piped⟩
  | false =>
    rw [emit_of_not_ends hends]
    exact ⟨.of_none (congrArg (· + 1) h.state.sync)
      (fun hfast => Nat.le_succ_of_le (h.state.short hfast)) hnone, fun _ => hnone⟩

theorem Tidy.settle (h : p.Tidy m) (logits : Logits F) : (p.settle m sp logits).Tidy m := by
  unfold ArPuller.settle
  refine Tidy.emit ⟨?_, fun _ => ?_⟩ ?_ _
  · exact .of_none h.state.sync h.state.short rfl
  · rfl
  · rfl

/-- One token fed. -/
theorem length_feed_one {st : DecodeState F} (h : st.Tidy m) (hfast : m.fast = true) (token : Nat) :
    (st.feed m [token]).length ≤ st.curPos + 1 := by
  have hshort := h.short hfast
  simp only [feed, hfast, length_write_true, length_singleton]
  omega

theorem Tidy.stepSingle (h : p.Tidy m) (hnone : p.state.pendingLogits = none)
    (hcalm : i.panics = none) : (p.stepSingle m sp i).Tidy m := by
  unfold ArPuller.stepSingle
  rw [hcalm]
  refine Tidy.settle ⟨?_, fun _ => ?_⟩ _
  · exact .of_none h.state.sync (fun hfast => length_feed_one h.state hfast _) hnone
  · exact hnone

theorem Tidy.finish (h : p.Tidy m) (cause : Cause) (report : Report) :
    (p.finish cause report).Tidy m := ⟨h.state, h.piped⟩

theorem acceptedOf_le (drafts : List Nat) : p.acceptedOf m sp drafts ≤ drafts.length := by
  unfold acceptedOf
  fun_induction accepted drafts (p.sampled m sp drafts) with
  | case1 =>
    simp only [length_cons]
    omega
  | case2 => exact Nat.zero_le _
  | case3 => exact Nat.zero_le _

theorem Tidy.commitBatch (h : p.Tidy m) (hnone : p.state.pendingLogits = none)
    (drafts : List Nat) : (p.commitBatch m sp drafts).Tidy m := by
  have hle : p.acceptedOf m sp drafts ≤ drafts.length := acceptedOf_le drafts
  refine ⟨.of_none (congrArg (· + _) h.state.sync) (fun hfast => ?_) hnone, fun _ => hnone⟩
  have hshort := h.state.short hfast
  have hsync := h.state.sync
  simp only [ArPuller.commitBatch, batchCells, feed, hfast, truncate]
  split
  · split
    · rw [length_take]
      omega
    · omega
  · rw [length_write_true, length_cons]
    omega

theorem Tidy.stepSpeculative (h : p.Tidy m) (hnone : p.state.pendingLogits = none)
    (hcalm : i.panics = none) (drafts : List Nat) : (p.stepSpeculative m sp drafts i).Tidy m := by
  have hwalk : (walk m sp (p.verified m sp drafts) (p.commitBatch m sp drafts)).Tidy m := by
    have hbatch : (p.commitBatch m sp drafts).Tidy m := h.commitBatch hnone drafts
    exact ⟨by simpa using hbatch.state, by simpa using hbatch.piped⟩
  unfold ArPuller.stepSpeculative
  rw [hcalm]
  dsimp only
  split
  · exact hwalk.finish _ _
  · exact hwalk

theorem Tidy.stepSerial (h : p.Tidy m) (hcalm : i.panics = none) :
    (p.stepSerial m sp i).Tidy m := by
  unfold ArPuller.stepSerial
  split
  · exact h.settle _
  · next hnone =>
    split
    · exact h.stepSingle hnone hcalm
    · exact h.stepSpeculative hnone hcalm _

theorem Tidy.stepPipelined (h : p.Tidy m) (hnone : p.state.pendingLogits = none)
    (hcalm : i.panics = none) (y : Nat) : (p.stepPipelined m sp y i).Tidy m := by
  have hfed : m.fast = true → (p.state.feed m [y]).length ≤ p.state.curPos + 1 :=
    fun hfast => length_feed_one h.state hfast y
  unfold ArPuller.stepPipelined
  rw [hcalm]
  split
  · dsimp only
    unfold emitPipelined
    split
    · exact ⟨.of_none h.state.sync hfed hnone, fun _ => hnone⟩
    split
    · exact ⟨.of_none h.state.sync hfed hnone, fun _ => hnone⟩
    · exact ⟨.of_none (congrArg (· + 1) h.state.sync)
        (fun hfast => Nat.le_succ_of_le (hfed hfast)) hnone, fun _ => hnone⟩
  · unfold emitPipelined
    split
    · exact ⟨.of_none h.state.sync h.state.short hnone, fun _ => hnone⟩
    split
    · exact ⟨.of_none h.state.sync h.state.short hnone, fun _ => hnone⟩
    · exact ⟨.of_none h.state.sync h.state.short hnone, fun _ => hnone⟩

theorem Tidy.stepOnce (h : p.Tidy m) (hcalm : i.panics = none) : (p.stepOnce m sp i).Tidy m := by
  unfold ArPuller.stepOnce
  split
  · exact h
  split
  · exact h.finish _ _
  split
  · exact h
  split
  · exact h.finish _ _
  split
  · unfold ArPuller.stepFastPipeline
    split
    · next hy => exact h.stepPipelined (h.piped (by simp [hy])) hcalm _
    · split
      · exact h.stepSerial hcalm
      · refine Tidy.stepPipelined ⟨?_, fun _ => rfl⟩ rfl hcalm _
        exact .of_none h.state.sync h.state.short rfl
  · exact h.stepSerial hcalm

end ArPuller

/-! ## What a step leaves in place -/

namespace ArPuller

variable {sp : PullSpec F σ} {p : ArPuller F σ} {i : Moment} {before : List Nat}

/-- What ends with the token leaves all as it was. -/
theorem emit_inPlace_of_ends {token : Nat} (hends : p.ends m sp token = true) :
    Mlx.InPlace m (before ++ (p.emit m sp token).handed) (p.emit m sp token).state ↔
      Mlx.InPlace m (before ++ p.handed) p.state := by
  obtain ⟨hstate, hhanded, -⟩ := emit_of_ends hends
  rw [hstate, hhanded]

/-- What does not end hands the token over and advances the offsets. -/
theorem emit_inPlace_of_not_ends {token : Nat} (hends : p.ends m sp token = false) :
    Mlx.InPlace m (before ++ (p.emit m sp token).handed) (p.emit m sp token).state ↔
      Mlx.InPlace m (before ++ p.handed ++ [token]) p.state.advance := by
  rw [emit_of_not_ends hends, handed_pushToken, state_pushToken, append_assoc]

/-- A token sampled off pending logits is committed without being fed. -/
theorem settle_inPlace_iff (hp : p.Tidy m) {logits : Logits F}
    (hpending : p.state.pendingLogits = some logits)
    (h : Mlx.InPlace m (before ++ p.handed) p.state) :
    Mlx.InPlace m (before ++ (p.settle m sp logits).handed) (p.settle m sp logits).state ↔
      p.ends m sp (p.sampleWithGrammar m sp logits).1 = true := by
  unfold settle
  generalize (p.sampleWithGrammar m sp logits).1 = t
  cases hends : p.ends m sp t with
  | true =>
    have hends' : (p.sampleOff m sp logits).ends m sp t = true := hends
    rw [emit_inPlace_of_ends hends']
    exact iff_of_true (h.congr (p.sampleOff m sp logits).state rfl rfl rfl) rfl
  | false =>
    have hends' : (p.sampleOff m sp logits).ends m sp t = false := hends
    rw [emit_inPlace_of_not_ends hends']
    refine iff_of_false (not_inPlace_of_length ?_) Bool.false_ne_true
    have hcur := h.curPos
    cases hfast : m.fast with
    | false =>
      simp only [held, hfast] at hcur
      simp [held, hfast, hcur, advance, sampleOff]
    | true =>
      have hprimed := hp.state.primed hfast (by simp [hpending])
      simp only [held, hfast, if_true, advance, sampleOff, length_take]
      omega

/-- A token is fed, and the one sampled after it ends the stream. -/
theorem fedLast_inPlace_iff (h : Mlx.InPlace m (before ++ p.handed) p.state) (logits : Logits F) :
    Mlx.InPlace m (before ++ p.handed) ((p.fedLast m).sampleOff m sp logits).state ↔
      m.fast = true := by
  constructor
  · intro hplace
    by_contra hslow
    have hfast : m.fast = false := by simpa using hslow
    have hcells : (p.state.feed m [p.state.lastToken]).length = p.state.curPos := by
      have hcur := hplace.curPos
      simp only [held, hfast] at hcur
      exact hcur.symm
    have hcur := h.curPos
    simp only [held, hfast] at hcur
    simp only [feed, hfast, write_false, length_append, length_place,
      length_singleton, Bool.false_eq_true, if_false] at hcells hcur
    omega
  · intro hfast
    have hheld := h.held_feed_back hfast ((p.fedLast m).sampleOff m sp logits).state rfl rfl
    refine ⟨hheld, ?_, ?_⟩
    · rw [hheld, length_place, ← h.length]
      rfl
    · rw [hheld, length_place, ← h.length, ← h.cacheLen_eq]
      rfl

/-- A token is fed, and another is sampled. -/
theorem stepSingle_inPlace_iff (hcalm : i.panics = none)
    (h : Mlx.InPlace m (before ++ p.handed) p.state) :
    Mlx.InPlace m (before ++ (p.stepSingle m sp i).handed) (p.stepSingle m sp i).state ↔
      if p.ends m sp (p.sampleWithGrammar m sp (p.state.answer m [p.state.lastToken])).1 then
        m.fast = true
      else (p.sampleWithGrammar m sp (p.state.answer m [p.state.lastToken])).1 =
        p.state.lastToken := by
  unfold stepSingle
  rw [hcalm]
  dsimp only
  generalize p.state.answer m [p.state.lastToken] = logits
  unfold settle
  have hsample : (p.fedLast m).sampleWithGrammar m sp logits = p.sampleWithGrammar m sp logits :=
    rfl
  rw [hsample]
  generalize (p.sampleWithGrammar m sp logits).1 = t
  cases hends : p.ends m sp t with
  | true =>
    have hends' : ((p.fedLast m).sampleOff m sp logits).ends m sp t = true := hends
    rw [emit_inPlace_of_ends hends', if_pos rfl]
    exact fedLast_inPlace_iff h logits
  | false =>
    have hends' : ((p.fedLast m).sampleOff m sp logits).ends m sp t = false := hends
    rw [emit_inPlace_of_not_ends hends', if_neg Bool.false_ne_true]
    have hheld := h.held_feed ((p.fedLast m).sampleOff m sp logits).state.advance rfl rfl
    rw [show ((p.fedLast m).sampleOff m sp logits).handed = p.handed from rfl,
      inPlace_iff_of_held hheld
        (by rw [length_append, ← h.length]; rfl)
        (by rw [length_append, ← h.length, ← h.cacheLen_eq]; rfl)]
    simp [eq_comm]

/-- The offsets are committed for the batch, and it is walked over. -/
theorem stepSpeculative_inPlace_iff (hcalm : i.panics = none) (hended : p.ended = none)
    (h : Mlx.InPlace m (before ++ p.handed) p.state) (drafts : List Nat) :
    Mlx.InPlace m (before ++ (p.stepSpeculative m sp drafts i).handed)
        (p.stepSpeculative m sp drafts i).state ↔
      p.verified m sp drafts = p.state.lastToken :: drafts.take (p.acceptedOf m sp drafts) ∧
        walksOut m sp p.handed (p.verified m sp drafts) = true := by
  have hle : p.acceptedOf m sp drafts ≤ drafts.length := acceptedOf_le drafts
  have hsame : (p.stepSpeculative m sp drafts i).handed =
        (walk m sp (p.verified m sp drafts) (p.commitBatch m sp drafts)).handed ∧
      (p.stepSpeculative m sp drafts i).state = (p.commitBatch m sp drafts).state := by
    unfold stepSpeculative
    rw [hcalm]
    dsimp only
    split <;> simp
  obtain ⟨front, hfront, hwalk⟩ :=
    exists_handed_walk m sp (p.verified m sp drafts) (p.commitBatch m sp drafts)
  have hall := handed_walk_iff m sp (p.verified m sp drafts) (p := p.commitBatch m sp drafts) hended
  have hheld := h.held_batch (p.commitBatch m sp drafts).state rfl rfl hle
  have hfed : (p.state.lastToken :: drafts.take (p.acceptedOf m sp drafts)).length =
      p.acceptedOf m sp drafts + 1 := by
    simp [Nat.min_eq_left hle]
  have hverified : (p.verified m sp drafts).length = p.acceptedOf m sp drafts + 1 := by
    simp [verified, Nat.min_eq_left hle]
  rw [hsame.1, hsame.2, hwalk]
  have hhanded : (p.commitBatch m sp drafts).handed = p.handed := rfl
  rw [hhanded] at hwalk hall ⊢
  rw [← append_assoc, inPlace_iff_of_held hheld
    (by rw [length_append, hfed, ← h.length]; rfl)
    (by rw [length_append, hfed, ← h.length, ← h.cacheLen_eq]; rfl), ← hall, hwalk]
  constructor
  · rintro rfl
    have heq := hfront.eq_of_length (by rw [hfed, hverified])
    exact ⟨heq.symm, by rw [heq]⟩
  · rintro ⟨hverified', hfront'⟩
    rw [append_cancel_left hfront', hverified']

theorem stepSerial_inPlace_iff (hp : p.Tidy m) (hcalm : i.panics = none) (hended : p.ended = none)
    (h : Mlx.InPlace m (before ++ p.handed) p.state) :
    Mlx.InPlace m (before ++ (p.stepSerial m sp i).handed) (p.stepSerial m sp i).state ↔
      p.KeepsSerial m sp i := by
  unfold stepSerial KeepsSerial
  cases hpending : p.state.pendingLogits with
  | some logits => exact settle_inPlace_iff hp hpending h
  | none =>
    cases hdrafts : p.drafts sp i with
    | nil => exact stepSingle_inPlace_iff hcalm h
    | cons d ds => exact stepSpeculative_inPlace_iff hcalm hended h (d :: ds)

/-- The pipeline feeds the token that it hands over, if there is budget for another. -/
theorem stepPipelined_inPlace_iff (hfast : m.fast = true) (hcalm : i.panics = none)
    (h : Mlx.InPlace m (before ++ p.handed) p.state) (y : Nat) :
    Mlx.InPlace m (before ++ (p.stepPipelined m sp y i).handed) (p.stepPipelined m sp y i).state ↔
      p.KeepsPipelined m sp y := by
  unfold stepPipelined KeepsPipelined emitPipelined ends
  rw [hcalm]
  cases sp.wantNext p.produced with
  | true =>
    refine iff_of_true ?_ (.inl rfl)
    have hback : Mlx.InPlace m (before ++ p.handed)
        { rollBack true (p.buildNext m sp y).1 with lastToken := y } := by
      have hheld := h.held_feed_back hfast
        { rollBack true (p.buildNext m sp y).1 with lastToken := y } rfl rfl
      exact ⟨hheld, by rw [hheld, length_place, ← h.length]; rfl,
        by rw [hheld, length_place, ← h.length, ← h.cacheLen_eq]; rfl⟩
    have hon : Mlx.InPlace m (before ++ p.handed ++ [y])
        { (p.buildNext m sp y).1 with lastToken := y } := by
      have hheld := h.held_feed { (p.buildNext m sp y).1 with lastToken := y } rfl rfl
      exact (inPlace_iff_of_held hheld (by rw [length_append, ← h.length]; rfl)
        (by rw [length_append, ← h.length, ← h.cacheLen_eq]; rfl)).2 rfl
    simp only [if_true]
    split
    · exact hback
    split
    · exact hback
    · rw [handed_pushToken, ← append_assoc]
      exact hon
  | false =>
    have hsame : Mlx.InPlace m (before ++ p.handed) { p.state with lastToken := y } :=
      h.congr _ rfl rfl rfl
    simp only [Bool.false_eq_true, if_false, false_or, Bool.or_eq_true]
    split
    · next hstops => exact iff_of_true hsame (.inl hstops)
    split
    · next hloops => exact iff_of_true hsame (.inr hloops)
    · next hstops hloops =>
      refine iff_of_false (fun hplace => ?_) (by simp [hstops, hloops])
      have hlen : p.state.curPos = (before ++ (p.handed ++ [y])).length := hplace.length
      have hlen' := h.length
      simp only [length_append, length_singleton] at hlen hlen'
      omega

/-- **One step**: the conversation stays in place precisely if the step feeds what it hands over. -/
theorem stepOnce_inPlace_iff (hp : p.Tidy m) (hcalm : i.panics = none)
    (h : Mlx.InPlace m (before ++ p.handed) p.state) :
    Mlx.InPlace m (before ++ (p.stepOnce m sp i).handed) (p.stepOnce m sp i).state ↔
      p.Keeps m sp i := by
  unfold stepOnce Keeps
  cases hended : p.ended with
  | some e => simpa using h
  | none =>
    cases i.stopped with
    | true => simpa using h
    | false =>
      cases i.paused with
      | true => simpa using h
      | false =>
        cases sp.limitReached p.produced with
        | true => simpa using h
        | false =>
          simp only [Option.isSome_none, Bool.or_self, Bool.false_eq_true, if_false]
          split
          · next heligible =>
            have hfast : m.fast = true := by
              simp only [fastPipelineEligible, Bool.and_eq_true] at heligible
              exact heligible.1.1.1.1
            unfold stepFastPipeline
            cases hpipe : p.fastPipe with
            | some y => exact stepPipelined_inPlace_iff hfast hcalm h y
            | none =>
              cases hpending : p.state.pendingLogits with
              | none => exact stepSerial_inPlace_iff hp hcalm hended h
              | some logits =>
                have hsame : Mlx.InPlace m (before ++ p.handed)
                    { p.state with pendingLogits := none } := h.congr _ rfl rfl rfl
                exact stepPipelined_inPlace_iff (p := { p with
                  state := { p.state with pendingLogits := none }
                  fastPipe := some (sp.argmax logits) }) hfast hcalm hsame (sp.argmax logits)
          · exact stepSerial_inPlace_iff hp hcalm hended h

end ArPuller

end

/-! ## Whole runs -/

/-- `DecodeState.Tidy`, of a session. -/
def Session.Tidy (s : Session F σ) : Prop :=
  (∀ st, s.slot = some st → st.Tidy m) ∧ ∀ q, s.puller = some q → q.2.Tidy m

variable {m}

open Session

theorem tidy_new (prompt : List Nat) : (new m prompt : Session F σ).Tidy m := by
  constructor
  · intro st hst
    obtain rfl := Option.some.inj hst
    exact DecodeState.Tidy.prefill ⟨rfl, fun _ => by simp, fun _ _ => by simp⟩ (.inr rfl)
  · intro q hq
    cases hq

theorem Session.Tidy.step {s : Session F σ} (h : s.Tidy m) {call : SessionCall F σ}
    (hcalm : call.Calm) : (s.step m call).Tidy m := by
  unfold Session.step
  split
  · next sp st hpuller hslot =>
    refine ⟨fun _ hst => (nomatch hst), fun q hq => ?_⟩
    obtain rfl := Option.some.inj hq
    exact ⟨h.1 st hslot, fun hpipe => (nomatch hpipe)⟩
  · next i sp p hpuller =>
    refine ⟨h.1, fun q hq => ?_⟩
    obtain rfl := Option.some.inj hq
    exact (h.2 _ hpuller).stepOnce hcalm
  · next sp p hpuller =>
    refine ⟨fun st hst => ?_, fun q hq => (nomatch hq)⟩
    obtain rfl := Option.some.inj hst
    exact (h.2 _ hpuller).state
  · next delta st hpuller hslot =>
    split
    · exact h
    · next t ts _ =>
      refine ⟨fun st' hst => ?_, h.2⟩
      obtain rfl := Option.some.inj hst
      exact (h.1 st hslot).prefill (.inl (by simp))
  · exact h

/-- A session starts with its prompt in place. -/
theorem inPlace_new (prompt : List Nat) : (new m prompt : Session F σ).InPlace m := by
  have hempty : Mlx.InPlace m [] (⟨[], 0, 0, none, 0⟩ : DecodeState F) :=
    ⟨by simp [held], by simp [held], by simp [held]⟩
  intro st hst
  obtain rfl := Option.some.inj hst
  have hheld := hempty.held_feed (prefill m ⟨[], 0, 0, none, 0⟩ prompt) rfl rfl
  exact (inPlace_iff_of_held hheld
    (by simp [prefill]) (by simp [prefill])).2 rfl

/-- What is appended goes where it belongs. -/
theorem InPlace.prefill {said : List Nat} {st : DecodeState F} (h : InPlace m said st)
    (delta : List Nat) : InPlace m (said ++ delta) (st.prefill m delta) := by
  have hheld := h.held_feed (st.prefill m delta) rfl rfl
  exact (inPlace_iff_of_held hheld (by rw [length_append, ← h.length]; rfl)
    (by rw [length_append, ← h.length, ← h.cacheLen_eq]; rfl)).2 rfl

/-- One call of a session. -/
theorem step_inPlace_iff {s : Session F σ} (ht : s.Tidy m) (h : s.InPlace m)
    {call : SessionCall F σ} (hcalm : call.Calm) :
    (s.step m call).InPlace m ↔ s.Keeps m call := by
  unfold step
  split
  · next sp st hpuller hslot =>
    refine iff_of_true ?_ (by simp [Session.Keeps])
    intro st' hst'
    obtain rfl := Option.some.inj hst'
    simpa [said, hpuller, ArPuller.start] using
      h st (by simp [decodeState, hpuller, hslot])
  · next i sp p hpuller =>
    have hplace : Mlx.InPlace m (s.before ++ p.handed) p.state := by
      simpa [said, hpuller] using h p.state (by simp [decodeState, hpuller])
    simp only [Session.Keeps, hpuller]
    rw [← ArPuller.stepOnce_inPlace_iff (ht.2 _ hpuller) hcalm hplace]
    simp [Session.InPlace, decodeState, said]
  · next sp p hpuller =>
    refine iff_of_true ?_ (by simp [Session.Keeps])
    intro st' hst'
    obtain rfl := Option.some.inj hst'
    simpa [said, hpuller] using h p.state (by simp [decodeState, hpuller])
  · next delta st hpuller hslot =>
    refine iff_of_true ?_ (by simp [Session.Keeps])
    split
    · exact h
    · next t ts _ =>
      intro st' hst'
      have hst : st.prefill m (t :: ts) = st' := by
        simpa [decodeState, hpuller] using hst'
      have hplace : Mlx.InPlace m s.before st := by
        simpa [said, hpuller] using h st (by simp [decodeState, hpuller, hslot])
      rw [← hst]
      simpa [said, hpuller] using hplace.prefill (t :: ts)
  · next hnext _ _ _ =>
    refine iff_of_true h ?_
    unfold Session.Keeps
    split
    · next i sp p hpuller _ _ _ => exact (hnext i sp p rfl hpuller).elim
    · trivial

/-- **The conversation is in place all along a run precisely if every step of a puller feeds what it
hands over.** -/
theorem inPlace_iff_keeps (m : Loaded F σ) (prompt : List Nat) (calls : List (SessionCall F σ))
    (hcalm : ∀ call ∈ calls, call.Calm) :
    Always (fun call s => some (Session.step m s call)) (Session.InPlace m) calls
        (Session.new m prompt) ↔
      EveryStep (fun call s => some (Session.step m s call)) (Session.Keeps m) calls
        (Session.new m prompt) := by
  refine always_iff_everyStep (A := fun _ call => call.Calm) (I := Session.Tidy m) ?_ ?_
    (tidy_new prompt) (inPlace_new prompt) ?_
  · exact fun s call ht hcall => ⟨_, rfl, ht.step hcall⟩
  · intro s call s' ht h hcall hs'
    obtain rfl := Option.some.inj hs'
    exact step_inPlace_iff ht h hcall
  · exact ((everyStep_true calls _).and_forall hcalm).mono fun _ _ h => h.1

/-! ### Runs on a small model -/

/-- A model of the default path that says 2 whatever it is fed, and a pull that takes it step by
step. -/
def twos : Loaded Int Unit where
  fast := false
  logits := fun _ => [.fin 0, .fin 0, .fin 1]
  stopIds := [0]
  eot := none
  engine := ⟨fun _ => .error (), fun _ _ => .error (), fun _ => false, fun _ => false⟩

/-- The index of the first finite logit that is positive. -/
def firstPositive (logits : Logits Int) : Nat :=
  logits.findIdx fun logit =>
    match logit with
    | .fin x => decide (0 < x)
    | _ => false

/-- A pull without drafts, a limit or detectors. -/
def plainPull : PullSpec Int Unit where
  maxTokens := none
  fixedSteps := none
  draftsOff := true
  pipeline := false
  greedyArgmax := true
  aux := false
  sample := fun _ _ => firstPositive
  argmax := firstPositive
  completes := fun _ => false
  loops := fun _ => false
  grammar := none

/-- A step that nothing interferes with. -/
def quietMoment : Moment := ⟨false, false, [], none⟩

/-- The same turn on the fast path, with the pipeline, is in place all along. -/
theorem pipelinedTurn_inPlace :
    Always (fun call s => some (Session.step { twos with fast := true } s call))
      (Session.InPlace { twos with fast := true })
      [.pull { plainPull with pipeline := true }, .next quietMoment, .drop, .append [1]]
      (Session.new { twos with fast := true } [1, 1]) := by
  refine (inPlace_iff_keeps { twos with fast := true } [1, 1]
    [.pull { plainPull with pipeline := true }, .next quietMoment, .drop, .append [1]] ?_).2 ?_
  · simp [SessionCall.Calm, quietMoment]
  · exact .cons trivial rfl (.cons (.inl rfl) rfl (.cons trivial rfl (.cons trivial rfl trivial)))

/-- A prompt is prefilled, one token is pulled, and a message appended. -/
def oneTokenTurn : List (SessionCall Int Unit) :=
  [.pull plainPull, .next quietMoment, .drop, .append [1]]

/-- After that turn the cache lacks the token that was pulled, and the message was fed one position
too late. -/
theorem oneTokenTurn_not_inPlace :
    ¬ Always (fun call s => some (Session.step twos s call)) (Session.InPlace twos) oneTokenTurn
      (Session.new twos [1, 1]) := by
  intro h
  obtain ⟨s, hrun, hplace⟩ := h.final
  obtain rfl := Option.some.inj hrun
  exact absurd (hplace _ rfl).held (by decide)

end Mlx
end Gen2
