import Gen2.Backend.Grammar
import Gen2.Lib.Run

/-!
# The llama puller with a draft model

`TokenPuller` of `backend/llama/puller.rs` for a pull of text without a grammar at temperature 0,
with the DFlash2 draft switched on or off.  The model is a function from the tokens in the context
to the token it likes best, and a draft is any list of tokens.  The context of the draft model is
left out.

* `TargetContext.decode` and `TargetContext.seqRm` are what llama.cpp does to the tokens in a
  context.
* `TokenPuller.verifyDflashBlock` decodes a block of drafts and queues those that are verified;
  `TokenPuller.nextToken` is the next token of either path, `TokenPuller.next` one round of the
  iterator, and `TokenPuller.dropped` what a dropped puller leaves to the session.
* `Ahead` says what the pull with drafts holds beyond the tokens that it has handed over, and
  `Ahead.dropped` that it leaves nothing of that to the session.
* `invisible_iff_harmless`: drafting does not show, at any moment of a pull, precisely where every
  round that comes to a token comes to a harmless one.
-/

namespace Gen2
namespace Llama
namespace DFlash

open Lib Grammar List

/-! ## The target context -/

/-- The tokens in a context, and those that each row of logits of the last batch comes after. -/
structure TargetContext where
  cells : List Nat
  rows : Int → Option (List Nat)

namespace TargetContext

variable (ctx : TargetContext)

/-- `decode`, of a batch at consecutive positions that asks for all its logits.  llama.cpp refuses
one that does not go on where the context ends, or does not fit. -/
def decode (nCtx : Nat) (pos : Int) (batch : List Nat) : Option TargetContext :=
  if pos = ctx.cells.length ∧ ctx.cells.length + batch.length ≤ nCtx then
    some
      { cells := ctx.cells ++ batch
        rows := fun i =>
          if 0 ≤ i ∧ i < batch.length then some (ctx.cells ++ batch.take (i.toNat + 1)) else none }
  else none

/-- `kv_cache_seq_rm`, from a position on. -/
def seqRm (p0 : Int) : TargetContext := { ctx with cells := ctx.cells.take p0.toNat }

end TargetContext

/-! ## A pull -/

/-- `DraftModel`, with what loading it checks. -/
structure DraftModel where
  maxTokens : Nat
  blockSize : Nat
  fits : maxTokens < blockSize

/-- What a pull is given: `greedy` is the token that the model likes best after these tokens, and
`readable` says that 32 bytes hold the text of a token. -/
structure Setup where
  greedy : List Nat → Nat
  nCtx : Nat
  draft : DraftModel
  isEogToken : Nat → Bool
  extraEnd : Option Nat
  readable : Nat → Bool
  completes : List Nat → Bool
  maxTokens : Option Nat

/-- What a round meets: the flags of the session, and the tokens that the draft model proposes. -/
structure Moment where
  stopped : Bool
  paused : Bool
  proposes : List Nat

/-- `DecodeState`. -/
structure DecodeState where
  ctx : TargetContext
  curPos : Int
  logitsI : Int

/-- `DFlashDecode`. -/
structure DFlashDecode where
  enabled : Bool
  queued : List Nat
  anchor : Option Nat
  failed : Bool

/-- `TokenPuller`, and the tokens that went through its filter. -/
structure TokenPuller where
  state : DecodeState
  dflash : DFlashDecode
  produced : Nat
  handed : List Nat
  ended : Option Ending

variable (s : Setup)

/-- `TokenPuller::is_text_end`. -/
def Setup.isTextEnd (token : Nat) : Bool := s.extraEnd == some token || s.isEogToken token

namespace TokenPuller

/-- `new_from_session` and `enable_dflash2`. -/
def start (st : DecodeState) (enabled : Bool) : TokenPuller :=
  ⟨st, ⟨enabled, [], none, false⟩, 0, [], none⟩

variable (p : TokenPuller)

/-- The stream ends. -/
def finish (cause : Cause) (report : Report) : TokenPuller :=
  { p with ended := some ⟨cause, report⟩ }

/-- The draft's contexts are not to be used again. -/
def fail : TokenPuller := { p with dflash := { p.dflash with failed := true } }

/-- `TokenPuller::sample_one`; `none` where there are no logits. -/
def sampleOne : Option Nat := (p.state.ctx.rows p.state.logitsI).map s.greedy

/-- `TokenPuller::decode_single`, of a model that has a draft. -/
def decodeSingle (token : Nat) : Except TokenPuller TokenPuller :=
  match p.state.ctx.decode s.nCtx p.state.curPos [token] with
  | none => .error p.fail
  | some ctx => .ok { p with state := ⟨ctx, p.state.curPos + 1, 0⟩ }

/-! ### A block of drafts -/

/-- The drafts that are tried. -/
def proposed (proposes : List Nat) : List Nat :=
  match s.maxTokens with
  | none => proposes.take s.draft.maxTokens
  | some limit => (proposes.take s.draft.maxTokens).take (limit - p.produced)

/-- The loop that verifies a block: the puller after it, and how many drafts are accepted. -/
def accept : List Nat → TokenPuller → Nat → Option (TokenPuller × Nat)
  | [], p, accepted => some (p, accepted)
  | token :: proposed, p, accepted =>
    match p.sampleOne s with
    | none => none
    | some verified =>
      if verified ≠ token ∨ s.isEogToken verified = true then some (p, accepted)
      else
        accept proposed
          { p with
            state := { p.state with logitsI := p.state.logitsI + 1 }
            dflash := { p.dflash with queued := p.dflash.queued ++ [verified] } }
          (accepted + 1)

/-- What is kept of a block. -/
def keep (pos : Int) (proposed accepted : Nat) : TokenPuller :=
  { p with
    state := { p.state with
      ctx := if accepted < proposed then p.state.ctx.seqRm (pos + accepted + 1) else p.state.ctx
      curPos := pos + accepted + 1 } }

/-- `TokenPuller::verify_dflash_block`. -/
def verifyDflashBlock (proposes : List Nat) (anchor : Nat) : Except TokenPuller TokenPuller :=
  if (s.nCtx : Int) < p.state.curPos + s.draft.blockSize then p.decodeSingle s anchor
  else
    match p.state.ctx.decode s.nCtx p.state.curPos (anchor :: p.proposed s proposes) with
    | none => .error p
    | some ctx =>
      match accept s (p.proposed s proposes)
        { p with state := { p.state with ctx, logitsI := 0 } } 0 with
      | none => .error p
      | some (q, accepted) =>
        .ok (q.keep p.state.curPos (p.proposed s proposes).length accepted)

/-! ### The next token -/

/-- The pull with drafts, once there is no anchor. -/
def dequeue : Except TokenPuller (Nat × TokenPuller) :=
  match p.dflash.queued with
  | token :: queued => .ok (token, { p with dflash := { p.dflash with queued } })
  | [] =>
    if (s.nCtx : Int) ≤ p.state.curPos then .error p
    else
      match p.sampleOne s with
      | none => .error p
      | some token =>
        if s.isEogToken token then .ok (token, p)
        else .ok (token, { p with dflash := { p.dflash with anchor := some token } })

/-- `TokenPuller::next_token`. -/
def nextToken (proposes : List Nat) : Except TokenPuller (Nat × TokenPuller) :=
  if p.dflash.enabled then
    match p.dflash.anchor with
    | none => p.dequeue s
    | some anchor =>
      match { p with dflash := { p.dflash with anchor := none } }.verifyDflashBlock s proposes
        anchor with
      | .error q => .error q.fail
      | .ok q => q.dequeue s
  else
    match p.sampleOne s with
    | none => .error p
    | some token =>
      if s.isTextEnd token then .ok (token, p)
      else (p.decodeSingle s token).map fun q => (token, q)

/-- `OutputFilter::push_token`, for a token that counts. -/
def pushToken (token : Nat) : TokenPuller :=
  { p with
    produced := p.produced + 1
    handed := p.handed ++ [token]
    ended := if s.completes (p.handed ++ [token]) then some ⟨.stopPattern, .eos⟩ else p.ended }

/-- What follows the next token. -/
def settle (token : Nat) : TokenPuller :=
  if s.isTextEnd token then p.finish .endToken .eos
  else if s.readable token then p.pushToken s token
  else p.finish .failure .error

/-- A round comes to a token. -/
def samples (i : Moment) : Bool :=
  p.ended.isNone && !i.stopped && !i.paused && !s.maxTokens.any (· ≤ p.produced)

/-- `TokenPuller::next`, one round of its loop. -/
def next (i : Moment) : TokenPuller :=
  if p.ended.isSome then p
  else if i.stopped then p.finish .stopRequested .stopped
  else if i.paused then p
  else if s.maxTokens.any (· ≤ p.produced) then p.finish .limit .eos
  else
    match p.nextToken s i.proposes with
    | .error q => q.finish .failure .error
    | .ok (token, q) => q.settle s token

/-! ### Dropping -/

/-- `settle_dflash`, after the anchor: what was queued and not handed over is taken back. -/
def takeBack : TokenPuller :=
  if p.dflash.queued = [] then p
  else
    { p with
      state :=
        { ctx := p.state.ctx.seqRm (p.state.curPos - p.dflash.queued.length)
          curPos := p.state.curPos - p.dflash.queued.length
          logitsI := p.state.logitsI - p.dflash.queued.length }
      dflash := { p.dflash with queued := [] } }

/-- `TokenPuller::settle_dflash`; `none` is an error. -/
def settleDflash : Option TokenPuller :=
  if p.dflash.failed then none
  else if p.dflash.enabled then
    match p.dflash.anchor with
    | none => some p.takeBack
    | some anchor =>
      match { p with dflash := { p.dflash with anchor := none } }.decodeSingle s anchor with
      | .error _ => none
      | .ok q => some q.takeBack
  else some p

/-- `Drop`: the decode state that goes back to the session. -/
def dropped : Option DecodeState := (p.settleDflash s).map (·.state)

end TokenPuller

/-! ## What is verified -/

/-- The context holds these tokens, and the position and the logits are those of the last one. -/
structure DecodeState.At (st : DecodeState) (tokens : List Nat) : Prop where
  cells : st.ctx.cells = tokens
  pos : st.curPos = tokens.length
  row : st.ctx.rows st.logitsI = some tokens

/-- From one row on, the rows of logits are those of a text and of what follows it. -/
def RowsOf (rows : Int → Option (List Nat)) : Int → List Nat → List Nat → Prop
  | i, text, [] => rows i = some text
  | i, text, token :: tokens => rows i = some text ∧ RowsOf rows (i + 1) (text ++ [token]) tokens

/-- The model says these tokens after the text, and none of them ends it. -/
def Says : List Nat → List Nat → Prop
  | _, [] => True
  | text, token :: tokens =>
    s.greedy text = token ∧ s.isEogToken token = false ∧ Says (text ++ [token]) tokens

variable {rows : Int → Option (List Nat)} {text : List Nat}

theorem RowsOf.row {i : Int} {tokens : List Nat} (h : RowsOf rows i text tokens) :
    rows i = some text := by
  cases tokens with
  | nil => exact h
  | cons token tokens => exact h.1

theorem RowsOf.take {i : Int} {tokens : List Nat} (h : RowsOf rows i text tokens) (n : Nat) :
    RowsOf rows i text (tokens.take n) := by
  induction tokens generalizing i text n with
  | nil => simpa using h
  | cons token tokens ih =>
    cases n with
    | zero => exact h.1
    | succ n => exact ⟨h.1, ih h.2 n⟩

variable {s} {p : TokenPuller}

/-- A batch that goes on where the context ends, and fits. -/
theorem TargetContext.decode_of_fits {ctx : TargetContext} {nCtx : Nat} {pos : Int}
    (batch : List Nat) (hpos : pos = ctx.cells.length)
    (hfits : ctx.cells.length + batch.length ≤ nCtx) :
    ∃ ctx', ctx.decode nCtx pos batch = some ctx' ∧ ctx'.cells = ctx.cells ++ batch ∧
      ∀ front token rest, batch = front ++ token :: rest →
        ctx'.rows front.length = some (ctx.cells ++ front ++ [token]) := by
  refine ⟨_, if_pos ⟨hpos, hfits⟩, rfl, fun front token rest hbatch => ?_⟩
  have hlt : front.length < batch.length := by simp [hbatch]
  dsimp only
  rw [if_pos ⟨Int.natCast_nonneg _, Int.ofNat_lt.2 hlt⟩, Int.toNat_natCast, hbatch,
    append_cons front token rest, take_left' (by simp), append_assoc]

/-- The rows of a block are those of the anchor and the drafts after it. -/
theorem rowsOf_block {cells drafts : List Nat} {anchor : Nat}
    (h : ∀ front token rest, anchor :: drafts = front ++ token :: rest →
      rows front.length = some (cells ++ front ++ [token])) :
    RowsOf rows 0 (cells ++ [anchor]) drafts := by
  have hrest : ∀ rest front last, anchor :: drafts = front ++ last :: rest →
      RowsOf rows front.length (cells ++ front ++ [last]) rest := by
    intro rest
    induction rest with
    | nil => exact fun front last hsplit => h front last [] hsplit
    | cons token rest ih =>
      intro front last hsplit
      refine ⟨h front last (token :: rest) hsplit, ?_⟩
      have hnext := ih (front ++ [last]) token (by simpa using hsplit)
      simpa [append_assoc] using hnext
  simpa using hrest drafts [] anchor rfl

namespace TokenPuller

/-- **The loop that verifies a block** queues the drafts that the model says, up to the first that
it does not or that ends the text. -/
theorem accept_spec (p : TokenPuller) {drafts text : List Nat} (accepted : Nat)
    (h : RowsOf p.state.ctx.rows p.state.logitsI text drafts) :
    ∃ n ≤ drafts.length, Says s text (drafts.take n) ∧
      accept s drafts p accepted = some
        ({ p with
            state := { p.state with logitsI := p.state.logitsI + n }
            dflash := { p.dflash with queued := p.dflash.queued ++ drafts.take n } },
          accepted + n) := by
  induction drafts generalizing p text accepted with
  | nil => exact ⟨0, Nat.le_refl 0, trivial, by simp [accept]⟩
  | cons token drafts ih =>
    have hsample : p.sampleOne s = some (s.greedy text) := by simp [sampleOne, h.1]
    simp only [accept, hsample]
    split
    · exact ⟨0, Nat.zero_le _, trivial, by simp⟩
    · next hgood =>
      obtain ⟨htoken, heog⟩ : s.greedy text = token ∧ s.isEogToken (s.greedy text) = false := by
        simpa using hgood
      obtain ⟨n, hn, hsays, haccept⟩ := ih
        { p with
          state := { p.state with logitsI := p.state.logitsI + 1 }
          dflash := { p.dflash with queued := p.dflash.queued ++ [s.greedy text] } }
        (accepted + 1) h.2
      refine ⟨n + 1, Nat.succ_le_succ hn, ⟨htoken, htoken ▸ heog, hsays⟩, ?_⟩
      rw [haccept]
      simp [htoken, Int.add_assoc, Int.add_comm 1, Nat.add_assoc, Nat.add_comm 1]

end TokenPuller

/-! ## What the pull with drafts holds -/

/-- Of a text that was handed over, besides what is verified and queued after it, or short of the
anchor. -/
structure Ahead (s : Setup) (text : List Nat) (p : TokenPuller) : Prop where
  enabled : p.dflash.enabled = true
  sound : p.dflash.failed = false
  holds : match p.dflash.anchor with
    | none => p.state.ctx.cells = text ++ p.dflash.queued ∧
        p.state.curPos = (text ++ p.dflash.queued).length ∧
        Says s text p.dflash.queued ∧
        RowsOf p.state.ctx.rows (p.state.logitsI - p.dflash.queued.length) text p.dflash.queued
    | some anchor => p.dflash.queued = [] ∧ text = p.state.ctx.cells ++ [anchor] ∧
        p.state.curPos = p.state.ctx.cells.length

/-- The pull without drafts holds the text itself. -/
structure Plain (text : List Nat) (p : TokenPuller) : Prop where
  disabled : p.dflash.enabled = false
  sound : p.dflash.failed = false
  holds : p.state.At text

namespace TokenPuller

/-- A single token is decoded where it is to go. -/
theorem decodeSingle_ok (token : Nat) (hpos : p.state.curPos = p.state.ctx.cells.length)
    (hroom : p.state.ctx.cells.length < s.nCtx) :
    ∃ st, p.decodeSingle s token = .ok { p with state := st } ∧
      st.At (p.state.ctx.cells ++ [token]) := by
  obtain ⟨ctx, hdecode, hcells, hrows⟩ := TargetContext.decode_of_fits [token] hpos hroom
  refine ⟨⟨ctx, p.state.curPos + 1, 0⟩, by rw [decodeSingle, hdecode], hcells, by simp [hpos], ?_⟩
  simpa using hrows [] token [] rfl

/-- The block is decoded behind the anchor, and what is not accepted of it is taken back. -/
theorem verifyDflashBlock_ok {anchor : Nat} {text : List Nat} (hqueued : p.dflash.queued = [])
    (htext : text = p.state.ctx.cells ++ [anchor])
    (hpos : p.state.curPos = p.state.ctx.cells.length) (hroom : text.length < s.nCtx)
    (proposes : List Nat) :
    ∃ st queued, p.verifyDflashBlock s proposes anchor =
        .ok { p with state := st, dflash := { p.dflash with queued } } ∧
      st.ctx.cells = text ++ queued ∧ st.curPos = (text ++ queued).length ∧ Says s text queued ∧
      RowsOf st.ctx.rows (st.logitsI - queued.length) text queued := by
  subst htext
  rw [length_append, length_singleton] at hroom
  unfold verifyDflashBlock
  split
  · -- the context has no room for a block
    obtain ⟨st, hsingle, hat⟩ := decodeSingle_ok (s := s) anchor hpos (by omega)
    refine ⟨st, [], ?_, by simpa using hat.cells, by simpa using hat.pos, trivial, ?_⟩
    · rw [hsingle, ← hqueued]
    · simpa [RowsOf] using hat.row
  · next hblock =>
    have hshort : (p.proposed s proposes).length ≤ s.draft.maxTokens := by
      unfold proposed
      split
      · exact length_take_le _ _
      · exact Nat.le_trans (length_take_le' _ _) (length_take_le _ _)
    have hfits := s.draft.fits
    generalize p.proposed s proposes = drafts at hshort ⊢
    obtain ⟨ctx, hdecode, hcells, hrows⟩ :=
      TargetContext.decode_of_fits (anchor :: drafts) hpos
        (show p.state.ctx.cells.length + (anchor :: drafts).length ≤ s.nCtx by
          rw [length_cons]
          omega)
    have hblockRows := rowsOf_block hrows
    obtain ⟨n, hn, hsays, haccept⟩ :=
      accept_spec (s := s) { p with state := { p.state with ctx, logitsI := 0 } } 0 hblockRows
    simp only [hdecode, haccept]
    have hkeep : (p.state.curPos + ↑(0 + n) + 1).toNat = p.state.ctx.cells.length + (n + 1) := by
      omega
    have hkept : (ctx.cells.take (p.state.ctx.cells.length + (n + 1))) =
        p.state.ctx.cells ++ [anchor] ++ drafts.take n := by
      rw [hcells, take_length_add_append, take_succ_cons]
      simp
    refine ⟨_, drafts.take n, by rw [hqueued]; rfl, ?_, ?_, hsays, ?_⟩
    · dsimp only
      split
      · rw [TargetContext.seqRm, hkeep, hkept]
      · next hall =>
        have hwhole : n = drafts.length := by omega
        rw [hcells, hwhole, take_length]
        simp
    · simp [hpos, length_take, Nat.min_eq_left hn]
      omega
    · have hrest := hblockRows.take n
      dsimp only
      split <;> simpa [TargetContext.seqRm, length_take, Nat.min_eq_left hn] using hrest

/-- Neither what was handed over nor the end is touched. -/
structure SameReply (p q : TokenPuller) : Prop where
  produced : q.produced = p.produced
  handed : q.handed = p.handed
  ended : q.ended = p.ended

end TokenPuller

open TokenPuller

/-- The token that comes off the queue, or is sampled, is the one that the model says. -/
theorem Ahead.dequeue (h : Ahead s text p) (hanchor : p.dflash.anchor = none)
    (hroom : text.length < s.nCtx) :
    ∃ q, p.dequeue s = .ok (s.greedy text, q) ∧ p.SameReply q ∧
      Ahead s (if s.isEogToken (s.greedy text) then text else text ++ [s.greedy text]) q := by
  have hholds := h.holds
  rw [hanchor] at hholds
  obtain ⟨hcells, hpos, hsays, hrows⟩ := hholds
  unfold TokenPuller.dequeue
  cases hqueued : p.dflash.queued with
  | cons token queued =>
    rw [hqueued] at hcells hpos hsays hrows
    obtain ⟨rfl, heog, hsays⟩ := hsays
    refine ⟨_, rfl, ⟨rfl, rfl, rfl⟩, ?_⟩
    rw [heog]
    refine ⟨h.enabled, h.sound, ?_⟩
    simp only [hanchor]
    refine ⟨by simpa using hcells, by simpa using hpos, hsays, ?_⟩
    have hrest := hrows.2
    rw [length_cons, show p.state.logitsI - ((queued.length + 1 : Nat) : Int) + 1 =
      p.state.logitsI - queued.length by omega] at hrest
    exact hrest
  | nil =>
    rw [hqueued] at hcells hpos hrows
    rw [append_nil] at hcells hpos
    have hrow : p.state.ctx.rows p.state.logitsI = some text := by simpa using hrows.row
    have hsample : p.sampleOne s = some (s.greedy text) := by simp [sampleOne, hrow]
    dsimp only
    rw [if_neg (by omega), hsample]
    dsimp only
    split
    · exact ⟨p, rfl, ⟨rfl, rfl, rfl⟩, h⟩
    · refine ⟨_, rfl, ⟨rfl, rfl, rfl⟩, h.enabled, h.sound, hqueued, ?_, ?_⟩
      · rw [hcells]
      · rw [hcells, hpos]

/-- **The pull with drafts says what the model says**, and holds that besides what is queued. -/
theorem Ahead.nextToken (h : Ahead s text p) (hroom : text.length < s.nCtx) (proposes : List Nat) :
    ∃ q, p.nextToken s proposes = .ok (s.greedy text, q) ∧ p.SameReply q ∧
      Ahead s (if s.isEogToken (s.greedy text) then text else text ++ [s.greedy text]) q := by
  unfold TokenPuller.nextToken
  rw [if_pos h.enabled]
  cases hanchor : p.dflash.anchor with
  | none => exact h.dequeue hanchor hroom
  | some anchor =>
    have hholds := h.holds
    rw [hanchor] at hholds
    obtain ⟨hqueued, htext, hpos⟩ := hholds
    obtain ⟨st, queued, hverify, hcells, hpos', hsays, hrows⟩ :=
      verifyDflashBlock_ok (s := s)
        (p := { p with dflash := { p.dflash with anchor := none } }) hqueued htext hpos hroom
        proposes
    simp only [hverify]
    have hahead : Ahead s text
        { p with state := st, dflash := { p.dflash with anchor := none, queued } } :=
      ⟨h.enabled, h.sound, hcells, hpos', hsays, hrows⟩
    obtain ⟨q, hdequeue, hsame, hq⟩ := hahead.dequeue rfl hroom
    exact ⟨q, hdequeue, ⟨hsame.produced, hsame.handed, hsame.ended⟩, hq⟩

/-- So does the pull without drafts, which holds just that. -/
theorem Plain.nextToken (h : Plain text p) (hroom : text.length < s.nCtx) (proposes : List Nat) :
    ∃ q, p.nextToken s proposes = .ok (s.greedy text, q) ∧ p.SameReply q ∧
      Plain (if s.isTextEnd (s.greedy text) then text else text ++ [s.greedy text]) q := by
  have hsample : p.sampleOne s = some (s.greedy text) := by
    simp [sampleOne, h.holds.row]
  unfold TokenPuller.nextToken
  rw [if_neg (by simp [h.disabled]), hsample]
  dsimp only
  split
  · exact ⟨p, rfl, ⟨rfl, rfl, rfl⟩, h⟩
  obtain ⟨st, hsingle, hat⟩ := decodeSingle_ok (s := s) (s.greedy text)
    (by rw [h.holds.cells]; exact h.holds.pos) (by rw [h.holds.cells]; exact hroom)
  rw [h.holds.cells] at hat
  refine ⟨{ p with state := st }, ?_, ⟨rfl, rfl, rfl⟩, h.disabled, h.sound, hat⟩
  rw [hsingle]
  rfl

/-- **What a dropped puller leaves** is the text, and nothing that was verified ahead. -/
theorem Ahead.dropped (h : Ahead s text p) (hroom : text.length ≤ s.nCtx) :
    ∃ st, p.dropped s = some st ∧ st.At text := by
  have hholds := h.holds
  unfold TokenPuller.dropped TokenPuller.settleDflash
  rw [if_neg (by simp [h.sound]), if_pos h.enabled]
  cases hanchor : p.dflash.anchor with
  | none =>
    rw [hanchor] at hholds
    obtain ⟨hcells, hpos, -, hrows⟩ := hholds
    refine ⟨_, rfl, ?_⟩
    unfold takeBack
    split
    · next hnil =>
      rw [hnil] at hcells hpos hrows
      exact ⟨by simpa using hcells, by simpa using hpos, by simpa using hrows.row⟩
    · refine ⟨?_, by simp [hpos], hrows.row⟩
      have hlen : (p.state.curPos - p.dflash.queued.length).toNat = text.length := by
        rw [hpos, length_append]
        omega
      simp [TargetContext.seqRm, hlen, hcells]
  | some anchor =>
    rw [hanchor] at hholds
    obtain ⟨hqueued, rfl, hpos⟩ := hholds
    obtain ⟨st, hsingle, hat⟩ := decodeSingle_ok (s := s) anchor
      (p := { p with dflash := { p.dflash with anchor := none } }) hpos
      (Nat.lt_of_succ_le (by simpa using hroom))
    refine ⟨st, ?_, hat⟩
    dsimp only
    rw [hsingle]
    simp [takeBack, hqueued]

/-- Such a puller leaves no other text. -/
theorem Ahead.dropped_iff (h : Ahead s text p) (hroom : text.length ≤ s.nCtx) (text' : List Nat) :
    (∃ st, p.dropped s = some st ∧ st.At text') ↔ text = text' := by
  obtain ⟨st, hdropped, hat⟩ := h.dropped hroom
  constructor
  · rintro ⟨st', hdropped', hat'⟩
    obtain rfl := Option.some.inj (hdropped.symm.trans hdropped')
    exact hat.cells.symm.trans hat'.cells
  · rintro rfl
    exact ⟨st, hdropped, hat⟩

/-! ## The two pulls side by side -/

/-- The same pull without drafts and with them. -/
structure Pair where
  plain : TokenPuller
  drafted : TokenPuller

namespace Pair

/-- Both pulls start off a decode state. -/
def start (st : DecodeState) : Pair := ⟨.start st false, .start st true⟩

/-- A round of both. -/
def next (s : Setup) (i : Moment) (w : Pair) : Pair := ⟨w.plain.next s i, w.drafted.next s i⟩

/-- **Drafting does not show**: the two have handed over the same tokens and ended in the same way,
and the one with drafts, dropped now, leaves the prompt followed by these tokens, with the position
and the logits those of the last. -/
def Invisible (s : Setup) (prompt : List Nat) (w : Pair) : Prop :=
  w.drafted.handed = w.plain.handed ∧ w.drafted.ended = w.plain.ended ∧
    ∃ st, w.drafted.dropped s = some st ∧ st.At (prompt ++ w.drafted.handed)

end Pair

/-- The token is an end-of-generation token if it ends the text, and can be read if it does not. -/
def Setup.harmless (s : Setup) (token : Nat) : Bool :=
  if s.isTextEnd token then s.isEogToken token else s.readable token

/-- If the round comes to a token, that is harmless. -/
def Pair.Harmless (s : Setup) (prompt : List Nat) (w : Pair) (i : Moment) : Prop :=
  w.plain.samples s i = true → s.harmless (s.greedy (prompt ++ w.plain.handed)) = true

/-- The context has room for another token. -/
def Pair.Roomy (s : Setup) (prompt : List Nat) (w : Pair) : Prop :=
  (prompt ++ w.plain.handed).length < s.nCtx

instance (prompt : List Nat) (w : Pair) (i : Moment) : Decidable (w.Harmless s prompt i) :=
  inferInstanceAs (Decidable (_ → _))

instance (prompt : List Nat) (w : Pair) : Decidable (w.Roomy s prompt) :=
  inferInstanceAs (Decidable (_ < _))

/-- The two say the same, and as long as they go on each holds what it is to hold. -/
structure InStep (s : Setup) (prompt : List Nat) (w : Pair) : Prop where
  same : w.plain.SameReply w.drafted
  holds : w.plain.ended = none →
    Plain (prompt ++ w.plain.handed) w.plain ∧ Ahead s (prompt ++ w.plain.handed) w.drafted

namespace TokenPuller

theorem next_of_samples {i : Moment} {token : Nat} {q : TokenPuller} (h : p.samples s i = true)
    (hq : p.nextToken s i.proposes = .ok (token, q)) : p.next s i = q.settle s token := by
  simp only [samples, Bool.and_eq_true, Bool.not_eq_true'] at h
  obtain ⟨⟨⟨hended, hstopped⟩, hpaused⟩, hlimit⟩ := h
  unfold next
  rw [if_neg (by simpa using hended), if_neg (by simp [hstopped]), if_neg (by simp [hpaused]),
    if_neg (by simp [hlimit]), hq]

/-- Where neither comes to a token, both end or both go on. -/
theorem next_of_idle {i : Moment} {q : TokenPuller} (h : p.samples s i = false)
    (hsame : p.SameReply q) :
    ∃ ended, p.next s i = { p with ended } ∧ q.next s i = { q with ended } ∧
      (p.ended = none ∨ p.ended = ended) := by
  obtain ⟨state, dflash, produced, handed, ended⟩ := q
  obtain ⟨rfl, rfl, rfl⟩ := hsame
  unfold next
  by_cases hended : p.ended.isSome = true
  · exact ⟨p.ended, if_pos hended, if_pos hended, .inr rfl⟩
  have hnone : p.ended = none := by simpa using hended
  rw [if_neg hended, if_neg hended]
  by_cases hstopped : i.stopped = true
  · exact ⟨_, if_pos hstopped, if_pos hstopped, .inl hnone⟩
  rw [if_neg hstopped, if_neg hstopped]
  by_cases hpaused : i.paused = true
  · exact ⟨p.ended, if_pos hpaused, if_pos hpaused, .inr rfl⟩
  rw [if_neg hpaused, if_neg hpaused]
  by_cases hlimit : s.maxTokens.any (· ≤ p.produced) = true
  · exact ⟨_, if_pos hlimit, if_pos hlimit, .inl hnone⟩
  simp [samples, hnone, hstopped, hpaused, hlimit] at h

end TokenPuller

variable {prompt : List Nat}

/-- Both pulls go on with the token that the model says. -/
theorem InStep.next_of_samples {w : Pair} (h : InStep s prompt w) (hroom : w.Roomy s prompt)
    {i : Moment} (hsamples : w.plain.samples s i = true) :
    ∃ p q, w.next s i = ⟨p.settle s (s.greedy (prompt ++ w.plain.handed)),
        q.settle s (s.greedy (prompt ++ w.plain.handed))⟩ ∧
      w.plain.SameReply p ∧ w.plain.SameReply q ∧
      (s.isTextEnd (s.greedy (prompt ++ w.plain.handed)) = false →
        Plain (prompt ++ (w.plain.handed ++ [s.greedy (prompt ++ w.plain.handed)])) p) ∧
      Ahead s (if s.isEogToken (s.greedy (prompt ++ w.plain.handed)) then prompt ++ w.plain.handed
        else prompt ++ (w.plain.handed ++ [s.greedy (prompt ++ w.plain.handed)])) q := by
  have hnone : w.plain.ended = none := by
    simp only [TokenPuller.samples, Bool.and_eq_true] at hsamples
    simpa using hsamples.1.1.1
  obtain ⟨hplain, hahead⟩ := h.holds hnone
  obtain ⟨p, hp, hsamep, hp'⟩ := hplain.nextToken hroom i.proposes
  obtain ⟨q, hq, hsameq, hq'⟩ := hahead.nextToken hroom i.proposes
  have hsamples' : w.drafted.samples s i = true := by
    unfold TokenPuller.samples at hsamples ⊢
    rw [h.same.ended, h.same.produced]
    exact hsamples
  refine ⟨p, q, ?_, hsamep, ⟨?_, ?_, ?_⟩, fun hend => ?_, ?_⟩
  · rw [Pair.next, TokenPuller.next_of_samples hsamples hp,
      TokenPuller.next_of_samples hsamples' hq]
  · exact hsameq.produced.trans h.same.produced
  · exact hsameq.handed.trans h.same.handed
  · exact hsameq.ended.trans h.same.ended
  · rw [hend] at hp'
    simpa using hp'
  · simpa using hq'

/-- Both pulls end: drafting does not show if the one with drafts holds no more than was handed
over. -/
theorem inStep_finish (prompt : List Nat) {p q : TokenPuller} (hsame : p.SameReply q)
    (hahead : Ahead s text q) (hroom : text.length ≤ s.nCtx) (cause : Cause) (report : Report) :
    InStep s prompt ⟨p.finish cause report, q.finish cause report⟩ ∧
      (Pair.Invisible s prompt ⟨p.finish cause report, q.finish cause report⟩ ↔
        text = prompt ++ p.handed) := by
  have hafter : Ahead s text (q.finish cause report) :=
    ⟨hahead.enabled, hahead.sound, hahead.holds⟩
  refine ⟨⟨⟨hsame.produced, hsame.handed, rfl⟩, nofun⟩, fun hinv => ?_, fun htext => ?_⟩
  · exact ((hafter.dropped_iff hroom _).1 hinv.2.2).trans (congrArg (prompt ++ ·) hsame.handed)
  · refine ⟨hsame.handed, rfl, (hafter.dropped_iff hroom _).2 ?_⟩
    exact htext.trans (congrArg (prompt ++ ·) hsame.handed.symm)

/-- Both hand over the token. -/
theorem inStep_pushToken {token : Nat} {p q : TokenPuller} (hsame : p.SameReply q)
    (hplain : Plain (prompt ++ (p.handed ++ [token])) p)
    (hahead : Ahead s (prompt ++ (p.handed ++ [token])) q)
    (hroom : (prompt ++ (p.handed ++ [token])).length ≤ s.nCtx) :
    InStep s prompt ⟨p.pushToken s token, q.pushToken s token⟩ ∧
      Pair.Invisible s prompt ⟨p.pushToken s token, q.pushToken s token⟩ := by
  have hnow : (p.pushToken s token).SameReply (q.pushToken s token) := by
    simp only [pushToken, hsame.produced, hsame.handed, hsame.ended]
    exact ⟨rfl, rfl, rfl⟩
  have hafter : Ahead s (prompt ++ (p.handed ++ [token])) (q.pushToken s token) :=
    ⟨hahead.enabled, hahead.sound, hahead.holds⟩
  refine ⟨⟨hnow, fun _ => ⟨⟨hplain.disabled, hplain.sound, hplain.holds⟩, hafter⟩⟩,
    hnow.handed, hnow.ended, (hafter.dropped_iff hroom _).2 ?_⟩
  exact congrArg (prompt ++ ·) hnow.handed.symm

/-- **One round.**  The pulls stay in step; and if drafting did not show before, it does not after
precisely if the round is harmless. -/
theorem InStep.next {w : Pair} (h : InStep s prompt w) (hroom : w.Roomy s prompt) (i : Moment) :
    InStep s prompt (w.next s i) ∧
      (w.Invisible s prompt → ((w.next s i).Invisible s prompt ↔ w.Harmless s prompt i)) := by
  cases hsamples : w.plain.samples s i with
  | false =>
    have hharmless : w.Harmless s prompt i := fun hs => by simp [hsamples] at hs
    obtain ⟨ended, hp, hq, hlive⟩ := next_of_idle hsamples h.same
    have hnext : w.next s i = ⟨{ w.plain with ended }, { w.drafted with ended }⟩ := by
      rw [Pair.next, hp, hq]
    rw [hnext]
    have hnow : ended = none → w.plain.ended = none := fun he => hlive.elim id (·.trans he)
    refine ⟨⟨⟨h.same.produced, h.same.handed, rfl⟩, fun he => ?_⟩, fun hinvisible => ?_⟩
    · obtain ⟨hplain, hahead⟩ := h.holds (hnow he)
      exact ⟨⟨hplain.disabled, hplain.sound, hplain.holds⟩,
        hahead.enabled, hahead.sound, hahead.holds⟩
    refine iff_of_true ⟨h.same.handed, rfl, ?_⟩ hharmless
    rcases hlive with hnone | rfl
    · obtain ⟨-, hahead⟩ := h.holds hnone
      have hafter : Ahead s (prompt ++ w.plain.handed) { w.drafted with ended } :=
        ⟨hahead.enabled, hahead.sound, hahead.holds⟩
      exact (hafter.dropped_iff (Nat.le_of_lt hroom) _).2 (by rw [h.same.handed])
    · rw [← h.same.ended]
      exact hinvisible.2.2
  | true =>
    obtain ⟨p, q, hnext, hp, hq, hplain, hahead⟩ := h.next_of_samples hroom hsamples
    have hiff : w.Harmless s prompt i ↔
        s.harmless (s.greedy (prompt ++ w.plain.handed)) = true := by
      simp [Pair.Harmless, hsamples]
    have hroom' : (prompt ++ (w.plain.handed ++ [s.greedy (prompt ++ w.plain.handed)])).length ≤
        s.nCtx := by
      rw [← append_assoc, length_append, length_singleton]
      exact hroom
    have hsame : p.SameReply q := ⟨hq.produced.trans hp.produced.symm,
      hq.handed.trans hp.handed.symm, hq.ended.trans hp.ended.symm⟩
    rw [hnext, hiff]
    unfold Pair.Roomy at hroom
    rw [← hp.handed] at hplain hahead hroom hroom' ⊢
    generalize s.greedy (prompt ++ p.handed) = token at hplain hahead hroom' ⊢
    have hgrown : prompt ++ (p.handed ++ [token]) ≠ prompt ++ p.handed :=
      fun heq => by simpa using congrArg length heq
    unfold settle Setup.harmless
    cases hend : s.isTextEnd token with
    | true =>
      simp only [if_true]
      cases heog : s.isEogToken token with
      | true =>
        rw [heog] at hahead
        obtain ⟨hstep, hinv⟩ :=
          inStep_finish prompt hsame hahead (Nat.le_of_lt hroom) .endToken .eos
        exact ⟨hstep, fun _ => iff_of_true (hinv.2 rfl) rfl⟩
      | false =>
        -- an anchor now, or verified before: once the puller is dropped the context holds it
        rw [heog] at hahead
        obtain ⟨hstep, hinv⟩ :=
          inStep_finish prompt hsame hahead hroom' .endToken .eos
        exact ⟨hstep, fun _ => iff_of_false (fun h => hgrown (hinv.1 h)) Bool.false_ne_true⟩
    | false =>
      have heog : s.isEogToken token = false := by
        simp only [Setup.isTextEnd, Bool.or_eq_false_iff] at hend
        exact hend.2
      rw [heog] at hahead
      simp only [Bool.false_eq_true, if_false]
      cases hread : s.readable token with
      | true =>
        simp only [if_true]
        obtain ⟨hstep, hinv⟩ := inStep_pushToken hsame (hplain hend) hahead hroom'
        exact ⟨hstep, fun _ => iff_of_true hinv trivial⟩
      | false =>
        simp only [Bool.false_eq_true, if_false]
        obtain ⟨hstep, hinv⟩ :=
          inStep_finish prompt hsame hahead hroom' .failure .error
        exact ⟨hstep, fun _ => iff_of_false (fun h => hgrown (hinv.1 h)) id⟩

/-- The two start in step, and the one with drafts holds the prompt. -/
theorem inStep_start {st : DecodeState} (h : st.At prompt) :
    InStep s prompt (Pair.start st) where
  same := ⟨rfl, rfl, rfl⟩
  holds _ := by
    simp only [Pair.start, start, append_nil]
    exact ⟨⟨rfl, rfl, h⟩, rfl, rfl, by simpa using h.cells, by simpa using h.pos, trivial,
      by simpa [RowsOf] using h.row⟩

theorem invisible_start {st : DecodeState} (h : st.At prompt) :
    (Pair.start st).Invisible s prompt :=
  ⟨rfl, rfl, st, rfl, by simpa [Pair.start, start] using h⟩

/-- **Drafting does not show precisely where no round comes to a token that ends the text and is no
end-of-generation token, or that cannot be read.**  A round hands over the same token with drafts as
without, whatever is proposed. -/
theorem invisible_iff_harmless (s : Setup) {prompt : List Nat} {st : DecodeState}
    (hst : st.At prompt) (moments : List Moment)
    (hroom : EveryStep (fun i w => some (Pair.next s i w)) (fun w _ => w.Roomy s prompt) moments
      (Pair.start st)) :
    Always (fun i w => some (Pair.next s i w)) (Pair.Invisible s prompt) moments (Pair.start st) ↔
      EveryStep (fun i w => some (Pair.next s i w)) (Pair.Harmless s prompt) moments
        (Pair.start st) := by
  refine always_iff_everyStep (A := fun w _ => w.Roomy s prompt) (I := InStep s prompt)
    (fun w i h hr => ⟨_, rfl, (h.next hr i).1⟩) (fun w i w' h hw hr hnext => ?_)
    (inStep_start hst) (invisible_start hst) hroom
  obtain rfl := Option.some.inj hnext
  exact (h.next hr i).2 hw

/-! ### A small model -/

/-- A model that says 2, 2, 3 and the end token 0 after a prompt of one token. -/
def fourTokens : Setup where
  greedy text := if text.length ≤ 2 then 2 else if text.length = 3 then 3 else 0
  nCtx := 16
  draft := ⟨3, 4, by decide⟩
  isEogToken token := token == 0
  extraEnd := none
  readable _ := true
  completes _ := false
  maxTokens := none

/-- The context after that prompt. -/
def prompted : DecodeState := ⟨⟨[1], fun _ => some [1]⟩, 1, 0⟩

/-- A round that nothing interferes with, with a draft of which two tokens are right. -/
def drafts : Moment := ⟨false, false, [2, 3, 3]⟩

/-- All four tokens, and the drafts of the first do not show. -/
theorem fourTokens_invisible :
    Always (fun i w => some (Pair.next fourTokens i w)) (Pair.Invisible fourTokens [1])
      [drafts, drafts, drafts, drafts] (Pair.start prompted) := by
  refine (invisible_iff_harmless fourTokens
    (show prompted.At [1] from ⟨rfl, rfl, rfl⟩) _ ?_).2 ?_
  · exact .cons (by decide) rfl (.cons (by decide) rfl (.cons (by decide) rfl
      (.cons (by decide) rfl trivial)))
  · exact .cons (by decide) rfl (.cons (by decide) rfl (.cons (by decide) rfl
      (.cons (by decide) rfl trivial)))

/-- **The end of the text is left in the context** if it is no end-of-generation token: here a 3 is,
which ends the text of the third round and was verified with the drafts of the second. -/
theorem textEnd_stays :
    ¬ Always (fun i w => some (Pair.next { fourTokens with extraEnd := some 3 } i w))
      (Pair.Invisible { fourTokens with extraEnd := some 3 } [1]) [drafts, drafts, drafts]
      (Pair.start prompted) := by
  intro h
  obtain ⟨w, hrun, -, -, st, hdropped, hat⟩ := h.final
  obtain rfl := Option.some.inj hrun
  have hcells := congrArg (Option.map (·.ctx.cells)) hdropped
  rw [Option.map_some, hat.cells] at hcells
  exact absurd hcells (by decide)

end DFlash
end Llama
end Gen2
