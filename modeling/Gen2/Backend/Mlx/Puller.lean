import Gen2.Backend.Grammar

/-!
# The autoregressive puller

`ArPuller` of `backend/mlx/puller.rs`, with the decode state of `backend/mlx/session.rs` that it
works on.  The model, the sampler, the draft predictor and the detectors are parameters: a model is
any function of the key/value cache, a draft any list of tokens.  Cache eviction is left out.

* `write` and `seen` are the two kinds of key/value cache: one that appends what it is fed, and the
  step buffer of the fast path, which writes at the position it is given.
* `ArPuller.stepFastPipeline` is the pipelined decode, `ArPuller.stepSpeculative` a batch of drafts,
  `ArPuller.stepSingle` the single-token decode.
* `ArPuller.stepOnce` is one step, whichever of them it takes.
-/

namespace Gen2
namespace Mlx

open Grammar List

/-! ## The key/value cache -/

/-- A row of the cache: the token whose key and value it holds and the position that was encoded
into them.  A row of a step buffer that was never written is `none`. -/
abbrev Cell := Option (Nat × Nat)

/-- The rows of tokens fed from a position on. -/
def place (pos : Nat) (tokens : List Nat) : List Cell :=
  tokens.mapIdx fun i token => some (token, pos + i)

/-- Bring a buffer to a length, with rows of zeros. -/
def padTo (n : Nat) (cells : List Cell) : List Cell :=
  cells ++ List.replicate (n - cells.length) none

/-- The cache after a forward pass: `concatenate_axis`, or on the fast path `step_buffer_update`. -/
def write (fast : Bool) (cells : List Cell) (pos : Nat) (tokens : List Nat) : List Cell :=
  if fast then
    (padTo pos cells).take pos ++ place pos tokens ++ cells.drop (pos + tokens.length)
  else cells ++ place pos tokens

/-- The rows that the last of the tokens fed at a position attends to. -/
def seen (fast : Bool) (cells : List Cell) (pos : Nat) (tokens : List Nat) : List Cell :=
  if fast then (write fast cells pos tokens).take (pos + tokens.length)
  else write fast cells pos tokens

/-- Cut the cache down to its first rows. -/
def truncate (keep : Nat) (cells : List Cell) : List Cell :=
  if keep < cells.length then cells.take keep else cells

@[simp] theorem place_nil (pos : Nat) : place pos [] = [] := rfl

theorem place_append (pos : Nat) (xs ys : List Nat) :
    place pos (xs ++ ys) = place pos xs ++ place (pos + xs.length) ys := by
  simp [place, mapIdx_append, Nat.add_comm, Nat.add_left_comm]

@[simp] theorem length_place (pos : Nat) (xs : List Nat) : (place pos xs).length = xs.length := by
  simp [place]

theorem take_place (pos n : Nat) (xs : List Nat) :
    (place pos xs).take n = place pos (xs.take n) := by
  rcases Nat.le_total n xs.length with hle | hle
  · have hsplit : place pos xs = place pos (xs.take n) ++ place (pos + n) (xs.drop n) := by
      conv_lhs => rw [← take_append_drop n xs, place_append]
      simp [Nat.min_eq_left hle]
    rw [hsplit, take_left' (by simp [Nat.min_eq_left hle])]
  · rw [take_of_length_le hle, take_of_length_le (by simpa using hle)]

theorem place_injective {pos : Nat} {xs ys : List Nat} (h : place pos xs = place pos ys) :
    xs = ys := by
  refine ext_getElem? fun i => ?_
  have hget := congrArg (·[i]?) h
  simp only [place, getElem?_mapIdx] at hget
  cases hx : xs[i]? with
  | none =>
    cases hy : ys[i]? with
    | none => rfl
    | some y => simp [hx, hy] at hget
  | some x =>
    cases hy : ys[i]? with
    | none => simp [hx, hy] at hget
    | some y =>
      rw [hx, hy] at hget
      simpa using hget

@[simp] theorem length_padTo (n : Nat) (cells : List Cell) :
    (padTo n cells).length = max n cells.length := by
  simp [padTo]
  omega

@[simp] theorem length_take_padTo (n : Nat) (cells : List Cell) :
    ((padTo n cells).take n).length = n := by
  rw [length_take, length_padTo, Nat.min_eq_left (Nat.le_max_left _ _)]

theorem padTo_of_le {n : Nat} {cells : List Cell} (h : n ≤ cells.length) :
    padTo n cells = cells := by
  simp [padTo, Nat.sub_eq_zero_of_le h]

@[simp] theorem write_false (cells : List Cell) (pos : Nat) (tokens : List Nat) :
    write false cells pos tokens = cells ++ place pos tokens := by simp [write]

theorem write_true (cells : List Cell) (pos : Nat) (tokens : List Nat) :
    write true cells pos tokens =
      (padTo pos cells).take pos ++ place pos tokens ++ cells.drop (pos + tokens.length) := by
  simp [write]

/-- The rows of a step buffer up to the last token fed. -/
theorem take_write_true (cells : List Cell) (pos : Nat) (tokens : List Nat) :
    (write true cells pos tokens).take (pos + tokens.length) =
      (padTo pos cells).take pos ++ place pos tokens := by
  rw [write_true, take_left' (by rw [length_append, length_take_padTo, length_place])]

/-- To feed tokens in two portions is to feed them at once. -/
theorem write_write (fast : Bool) (cells : List Cell) (pos : Nat) (xs ys : List Nat) :
    write fast (write fast cells pos xs) (pos + xs.length) ys =
      write fast cells pos (xs ++ ys) := by
  cases fast with
  | false => simp [place_append]
  | true =>
    have hlen : pos + xs.length ≤ (write true cells pos xs).length := by
      rw [write_true, length_append, length_append, length_take_padTo, length_place]
      exact Nat.le_add_right _ _
    have hdrop : (write true cells pos xs).drop (pos + xs.length + ys.length) =
        cells.drop (pos + (xs ++ ys).length) := by
      rw [write_true, ← drop_drop,
        drop_left' (by rw [length_append, length_take_padTo, length_place]),
        drop_drop, length_append, Nat.add_assoc]
    rw [write_true (write true cells pos xs), padTo_of_le hlen, take_write_true, hdrop,
      write_true cells, place_append]
    simp only [append_assoc]

/-- The last token attends to the same rows in either case. -/
theorem seen_write (fast : Bool) (cells : List Cell) (pos : Nat) (xs ys : List Nat) :
    seen fast (write fast cells pos xs) (pos + xs.length) ys = seen fast cells pos (xs ++ ys) := by
  simp only [seen, write_write, length_append, Nat.add_assoc]

/-! ## What a pull is given -/

/-- What a puller reads of `ModelBundle`. -/
structure Loaded (F σ : Type) where
  /-- `Model::is_fast`. -/
  fast : Bool
  /-- The logits of the last token, from the rows it attends to. -/
  logits : List Cell → Logits F
  /-- `Tokenizer::stop_ids`. -/
  stopIds : List Nat
  /-- The token of `<turn|>` or `<end_of_turn>`. -/
  eot : Option Nat
  /-- The grammar engine. -/
  engine : Grammar.Matcher σ

/-- `GenSpec`, the environment and what both of them configure: the sampler as a function of the
tokens it observed, the place in the batch and the logits, the stop patterns and the loop detectors
as predicates of the tokens they were given. -/
structure PullSpec (F σ : Type) where
  maxTokens : Option Nat
  /-- `PIO_MLX_FIXED_STEPS`. -/
  fixedSteps : Option Nat
  /-- `PIO_MLX_SPEC=0`. -/
  draftsOff : Bool
  /-- `PIO_MLX_PIPELINE=1`. -/
  pipeline : Bool
  /-- `Sampler::is_greedy_argmax`. -/
  greedyArgmax : Bool
  /-- The predictor wants hidden states. -/
  aux : Bool
  sample : List Nat → Nat → Logits F → Nat
  /-- The argmax of the pipeline. -/
  argmax : Logits F → Nat
  completes : List Nat → Bool
  loops : List Nat → Bool
  /-- The matcher, if a grammar is asked for and could be built. -/
  grammar : Option (GrammarMatcher σ)

/-- What a step meets: the flags of the session, the drafts its predictor comes up with, and a
forward pass that panics, with what it leaves in the cache. -/
structure Moment where
  stopped : Bool
  paused : Bool
  drafts : List Nat
  panics : Option (List Cell)

/-- `DEFAULT_DRAFT_LEN`. -/
def defaultDraftLen : Nat := 4

namespace PullSpec

variable {F σ : Type} (sp : PullSpec F σ)

/-- `ArPuller::effective_max_tokens`. -/
def effectiveMaxTokens : Option Nat :=
  match sp.maxTokens, sp.fixedSteps with
  | some m, some n => some (min m n)
  | some m, none => some m
  | none, n => n

/-- `ArPuller::fixed_steps_active`, after so many tokens. -/
def fixedStepsActive (produced : Nat) : Bool := sp.fixedSteps.any (produced < ·)

/-- The budget is used up after so many tokens. -/
def limitReached (produced : Nat) : Bool := sp.effectiveMaxTokens.any (· ≤ produced)

/-- There is budget for a token after the next one. -/
def wantNext (produced : Nat) : Bool := sp.effectiveMaxTokens.all (produced + 1 < ·)

/-- `draft_cap`. -/
def draftCap (produced : Nat) : Nat :=
  match sp.effectiveMaxTokens with
  | none => defaultDraftLen
  | some m => min (m - produced - 1) defaultDraftLen

end PullSpec

/-! ## The puller -/

/-- `DecodeState`. -/
structure DecodeState (F : Type) where
  cells : List Cell
  curPos : Nat
  cacheLen : Nat
  pendingLogits : Option (Logits F)
  lastToken : Nat

/-- `ArPuller`.  `fastPipe` is the token the pipeline still owes, `handed` what went through the
output filter. -/
structure ArPuller (F σ : Type) where
  state : DecodeState F
  grammar : Option (GrammarMatcher σ)
  observed : List Nat
  produced : Nat
  fastPipe : Option Nat
  handed : List Nat
  ended : Option Ending

variable {F σ : Type} (m : Loaded F σ) (sp : PullSpec F σ)

namespace DecodeState

/-- The offsets go past one more token. -/
def advance (st : DecodeState F) : DecodeState F :=
  { st with curPos := st.curPos + 1, cacheLen := st.cacheLen + 1 }

/-- The cache after these tokens are fed. -/
def feed (st : DecodeState F) (tokens : List Nat) : List Cell :=
  write m.fast st.cells st.curPos tokens

/-- The logits of the last of the tokens fed. -/
def answer (st : DecodeState F) (tokens : List Nat) : Logits F :=
  m.logits (seen m.fast st.cells st.curPos tokens)

end DecodeState

/-- How many drafts the tokens sampled agree with, from the first on. -/
def accepted : List Nat → List Nat → Nat
  | d :: ds, s :: ss => if s = d then accepted ds ss + 1 else 0
  | _, _ => 0

namespace ArPuller

/-- `ArPuller::new`. -/
def start (st : DecodeState F) : ArPuller F σ :=
  ⟨st, sp.grammar, [], 0, none, [], none⟩

variable (p : ArPuller F σ)

/-- The stream ends. -/
def finish (cause : Cause) (report : Report) : ArPuller F σ :=
  { p with ended := some ⟨cause, report⟩ }

/-- The forward pass panicked. -/
def fail (cells : List Cell) : ArPuller F σ :=
  { p with state := { p.state with cells }, ended := some ⟨.failure, .error⟩ }

/-- `OutputFilter::push_token`. -/
def pushToken (token : Nat) : ArPuller F σ :=
  { p with
    handed := p.handed ++ [token]
    ended := if sp.completes (p.handed ++ [token]) then some ⟨.stopPattern, .eos⟩ else p.ended }

/-- The token ends the stream. -/
def stops (token : Nat) : Bool :=
  !sp.fixedStepsActive p.produced && m.stopIds.contains token

/-- The detectors find a loop once they have observed the token. -/
def loopsWith (token : Nat) : Bool :=
  !sp.fixedStepsActive p.produced && sp.loops (p.observed ++ [token])

/-- The single-token decode ends with this token, and neither commits it nor hands it over. -/
def ends (token : Nat) : Bool := p.stops m sp token || p.loopsWith sp token

/-- `ArPuller::fast_pipeline_eligible`. -/
def fastPipelineEligible : Bool :=
  m.fast && sp.greedyArgmax && p.grammar.isNone && !sp.aux && sp.pipeline

/-- `Sampler::sample_with_grammar`: the token, and the matcher after it. -/
def sampleWithGrammar (logits : Logits F) : Nat × Option (GrammarMatcher σ) :=
  match p.grammar with
  | none => (sp.sample p.observed 0 logits, none)
  | some g =>
    match g.applyMask m.engine logits with
    | .error g' => (sp.sample p.observed 0 logits, some g')
    | .ok masked =>
      match g.observe m.engine (sp.sample p.observed 0 masked) with
      | .error g' => (sp.sample p.observed 0 masked, some g')
      | .ok g' => (sp.sample p.observed 0 masked, some g')

/-! ### The single-token decode -/

/-- The part of `step_once` after the token is sampled. -/
def emit (token : Nat) : ArPuller F σ :=
  if p.stops m sp token then p.finish .endToken .eos
  else if p.loopsWith sp token then
    { p with observed := p.observed ++ [token] }.finish .loopDetected .eos
  else
    { p with
      state := p.state.advance
      observed := p.observed ++ [token]
      produced := p.produced + 1 }.pushToken sp token

/-- The puller with a token sampled off the logits. -/
def sampleOff (logits : Logits F) : ArPuller F σ :=
  { p with
    state := { p.state with
      pendingLogits := none, lastToken := (p.sampleWithGrammar m sp logits).1 }
    grammar := (p.sampleWithGrammar m sp logits).2 }

/-- Sample off a row of logits and emit. -/
def settle (logits : Logits F) : ArPuller F σ :=
  (p.sampleOff m sp logits).emit m sp (p.sampleWithGrammar m sp logits).1

/-- The puller with the last token fed. -/
def fedLast : ArPuller F σ :=
  { p with state := { p.state with cells := p.state.feed m [p.state.lastToken] } }

/-- The last token is fed, and the next one sampled. -/
def stepSingle (i : Moment) : ArPuller F σ :=
  match i.panics with
  | some cells => p.fail cells
  | none => (p.fedLast m).settle m sp (p.state.answer m [p.state.lastToken])

/-! ### A batch of drafts -/

/-- The drafts that are tried. -/
def drafts (i : Moment) : List Nat :=
  if p.grammar.isSome || sp.fixedSteps.isSome || sp.draftsOff then []
  else i.drafts.take (sp.draftCap p.produced)

/-- The token sampled at each place of a batch. -/
def sampled (drafts : List Nat) : List Nat :=
  (List.range (drafts.length + 1)).map fun k =>
    sp.sample p.observed k (p.state.answer m (p.state.lastToken :: drafts.take k))

/-- How many of the drafts are accepted. -/
def acceptedOf (drafts : List Nat) : Nat := accepted drafts (p.sampled m sp drafts)

/-- `bonus`: the token sampled after the drafts that are accepted. -/
def bonus (drafts : List Nat) : Nat :=
  (p.sampled m sp drafts).getD (p.acceptedOf m sp drafts) 0

/-- The tokens that a batch decodes. -/
def verified (drafts : List Nat) : List Nat :=
  drafts.take (p.acceptedOf m sp drafts) ++ [p.bonus m sp drafts]

/-- The cache after a batch: what is fed, cut down where a draft is rejected. -/
def batchCells (drafts : List Nat) : List Cell :=
  if p.acceptedOf m sp drafts < drafts.length then
    truncate (p.state.cacheLen + (p.acceptedOf m sp drafts + 1))
      (p.state.feed m (p.state.lastToken :: drafts))
  else p.state.feed m (p.state.lastToken :: drafts)

/-- The puller with the whole batch committed. -/
def commitBatch (drafts : List Nat) : ArPuller F σ :=
  { p with
    state := { p.state with
      cells := p.batchCells m sp drafts
      curPos := p.state.curPos + (p.acceptedOf m sp drafts + 1)
      cacheLen := p.state.cacheLen + (p.acceptedOf m sp drafts + 1)
      lastToken := p.bonus m sp drafts }
    observed := p.observed ++ p.verified m sp drafts
    produced := p.produced + (p.acceptedOf m sp drafts + 1) }

/-- The walk over a batch. -/
def walk : List Nat → ArPuller F σ → ArPuller F σ
  | [], p => p
  | token :: tokens, p =>
    if m.stopIds.contains token then p.finish .endToken .eos
    else if (p.pushToken sp token).ended.isSome then p.pushToken sp token
    else walk tokens (p.pushToken sp token)

/-- The speculative part of `step_once`. -/
def stepSpeculative (drafts : List Nat) (i : Moment) : ArPuller F σ :=
  match i.panics with
  | some cells => p.fail cells
  | none =>
    if (walk m sp (p.verified m sp drafts) (p.commitBatch m sp drafts)).ended.isNone &&
        sp.loops (p.observed ++ p.verified m sp drafts) then
      (walk m sp (p.verified m sp drafts) (p.commitBatch m sp drafts)).finish .loopDetected .eos
    else walk m sp (p.verified m sp drafts) (p.commitBatch m sp drafts)

/-- `step_once` below the pipeline. -/
def stepSerial (i : Moment) : ArPuller F σ :=
  match p.state.pendingLogits with
  | some logits => p.settle m sp logits
  | none =>
    match p.drafts sp i with
    | [] => p.stepSingle m sp i
    | d :: ds => p.stepSpeculative m sp (d :: ds) i

/-! ### The pipelined decode -/

/-- `ArPuller::fast_build_next`, where it does not panic: the token is fed and the one after it
computed. -/
def buildNext (y : Nat) : DecodeState F × Nat :=
  ({ p.state with cells := p.state.feed m [y] }.advance, sp.argmax (p.state.answer m [y]))

/-- The offsets before the token was fed. -/
def rollBack (built : Bool) (st : DecodeState F) : DecodeState F :=
  if built then { st with curPos := st.curPos - 1, cacheLen := st.cacheLen - 1 } else st

/-- The part of `step_once_fast_pipeline` after the token is known: `st` and `next` are as
`fast_build_next` leaves them, if it ran. -/
def emitPipelined (y : Nat) (built : Bool) (st : DecodeState F) (next : Nat) : ArPuller F σ :=
  if p.stops m sp y then
    { p with state := { rollBack built st with lastToken := y } }.finish .endToken .eos
  else if p.loopsWith sp y then
    { p with
      state := { rollBack built st with lastToken := y }
      observed := p.observed ++ [y] }.finish .loopDetected .eos
  else
    { p with
      state := { st with lastToken := y }
      observed := p.observed ++ [y]
      produced := p.produced + 1
      fastPipe := some next }.pushToken sp y

/-- `ArPuller::step_once_fast_pipeline`, with the token that it owes. -/
def stepPipelined (y : Nat) (i : Moment) : ArPuller F σ :=
  if sp.wantNext p.produced then
    match i.panics with
    | some cells => p.fail cells
    | none => p.emitPipelined m sp y true (p.buildNext m sp y).1 (p.buildNext m sp y).2
  else p.emitPipelined m sp y false p.state y

/-- `ArPuller::step_once_fast_pipeline`: without a token and without pending logits it leaves the
step to the serial path. -/
def stepFastPipeline (i : Moment) : ArPuller F σ :=
  match p.fastPipe with
  | some y => p.stepPipelined m sp y i
  | none =>
    match p.state.pendingLogits with
    | none => p.stepSerial m sp i
    | some logits =>
      { p with
        state := { p.state with pendingLogits := none }
        fastPipe := some (sp.argmax logits) }.stepPipelined m sp (sp.argmax logits) i

/-- `ArPuller::step_once`. -/
def stepOnce (i : Moment) : ArPuller F σ :=
  if p.ended.isSome then p
  else if i.stopped then p.finish .stopRequested .stopped
  else if i.paused then p
  else if sp.limitReached p.produced then p.finish .limit .eos
  else if p.fastPipelineEligible m sp then p.stepFastPipeline m sp i
  else p.stepSerial m sp i

/-! ## What the parts of a step change -/

variable {m sp p}

theorem emit_of_ends {token : Nat} (h : p.ends m sp token = true) :
    (p.emit m sp token).state = p.state ∧ (p.emit m sp token).handed = p.handed ∧
      (p.emit m sp token).fastPipe = p.fastPipe := by
  unfold emit
  split
  · exact ⟨rfl, rfl, rfl⟩
  · next hstops =>
    have hloops : p.loopsWith sp token = true := by simpa [ends, hstops] using h
    rw [if_pos hloops]
    exact ⟨rfl, rfl, rfl⟩

theorem emit_of_not_ends {token : Nat} (h : p.ends m sp token = false) :
    p.emit m sp token = { p with
      state := p.state.advance
      observed := p.observed ++ [token]
      produced := p.produced + 1 }.pushToken sp token := by
  obtain ⟨hstops, hloops⟩ := Bool.or_eq_false_iff.1 h
  simp [emit, hstops, hloops]

@[simp] theorem state_pushToken (token : Nat) : (p.pushToken sp token).state = p.state := rfl

@[simp] theorem handed_pushToken (token : Nat) :
    (p.pushToken sp token).handed = p.handed ++ [token] := rfl

@[simp] theorem fastPipe_pushToken (token : Nat) :
    (p.pushToken sp token).fastPipe = p.fastPipe := rfl

@[simp] theorem state_finish (cause : Cause) (report : Report) :
    (p.finish cause report).state = p.state := rfl

@[simp] theorem handed_finish (cause : Cause) (report : Report) :
    (p.finish cause report).handed = p.handed := rfl

@[simp] theorem fastPipe_finish (cause : Cause) (report : Report) :
    (p.finish cause report).fastPipe = p.fastPipe := rfl

variable (m sp) in
/-- The walk over a batch hands all of it over: no stop id is among the tokens, and no stop pattern
is complete before the last one. -/
def walksOut (handed : List Nat) : List Nat → Bool
  | [] => true
  | token :: tokens => !m.stopIds.contains token &&
      (tokens.isEmpty || !sp.completes (handed ++ [token]) && walksOut (handed ++ [token]) tokens)

@[simp] theorem state_walk (tokens : List Nat) (p : ArPuller F σ) :
    (walk m sp tokens p).state = p.state := by
  fun_induction walk m sp tokens p with
  | case1 p => rfl
  | case2 token tokens p hstop => rfl
  | case3 token tokens p hstop hended => rfl
  | case4 token tokens p hstop hended ih => exact ih

@[simp] theorem fastPipe_walk (tokens : List Nat) (p : ArPuller F σ) :
    (walk m sp tokens p).fastPipe = p.fastPipe := by
  fun_induction walk m sp tokens p with
  | case1 p => rfl
  | case2 token tokens p hstop => rfl
  | case3 token tokens p hstop hended => rfl
  | case4 token tokens p hstop hended ih => exact ih

/-- The walk hands over a beginning of the batch. -/
theorem exists_handed_walk (m : Loaded F σ) (sp : PullSpec F σ) (tokens : List Nat)
    (p : ArPuller F σ) :
    ∃ front, front <+: tokens ∧ (walk m sp tokens p).handed = p.handed ++ front := by
  fun_induction walk m sp tokens p with
  | case1 p => exact ⟨[], nil_prefix, by simp⟩
  | case2 token tokens p hstop => exact ⟨[], nil_prefix, by simp⟩
  | case3 token tokens p hstop hended => exact ⟨[token], by simp, rfl⟩
  | case4 token tokens p hstop hended ih =>
    obtain ⟨front, hfront, hhanded⟩ := ih
    exact ⟨token :: front, cons_prefix_cons.2 ⟨rfl, hfront⟩, by simp [hhanded]⟩

/-- It hands over all of it precisely if nothing in it ends the stream before its last token. -/
theorem handed_walk_iff (m : Loaded F σ) (sp : PullSpec F σ) (tokens : List Nat)
    {p : ArPuller F σ} (hended : p.ended = none) :
    (walk m sp tokens p).handed = p.handed ++ tokens ↔ walksOut m sp p.handed tokens = true := by
  induction tokens generalizing p with
  | nil => simp [walk, walksOut]
  | cons token tokens ih =>
    rw [walk, walksOut]
    by_cases hstop : token ∈ m.stopIds
    · simp [hstop]
    by_cases hcomplete : sp.completes (p.handed ++ [token]) = true
    · have hnow : (p.pushToken sp token).ended.isSome = true := by simp [pushToken, hcomplete]
      cases tokens with
      | nil => simp [hstop, hnow]
      | cons token' tokens => simp [hstop, hnow, hcomplete]
    · have hgoes : (p.pushToken sp token).ended = none := by simp [pushToken, hcomplete, hended]
      have hih := ih hgoes
      rw [handed_pushToken, append_assoc, singleton_append] at hih
      cases tokens with
      | nil => simp [hstop, hgoes, walk]
      | cons token' tokens => simp [hstop, hgoes, hcomplete, hih]

end ArPuller

end Mlx
end Gen2
