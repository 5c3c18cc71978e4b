import Gen2.Generation.Events
import Gen2.Lib.Patterns
import Gen2.Lib.Scan
import Mathlib.Data.List.Basic

/-!
# Reply parts

`generation/reply_parts.rs`: an assistant reply arrives in chunks, and is split into what the user
sees and what the model reasons, at markers that may straddle any two chunks.  The splitting is
written down twice: `push` only collects, `pushEmit` also hands on what it collects.

* `ReplyStateMachine` and its operations are the code.
* `ChannelMarkers.scanner` is one decision of either loop, as a `Lib.Scanner`: hold back, take a
  marker, or take a character.  That a decision stands whatever comes later is `Scanner.stable`.
* `Holds` relates the machine to a scan; `push_holds` and `pushEmit_holds` say that either loop is
  that scan, and what has been emitted is what is in the buffers.
* `reply_parts_agree` is the outcome: the same parts through both, and however the text is cut.

The lengths the source compares are of texts one of which begins with the other, so counting
characters in place of bytes changes nothing.
-/

namespace Gen2
namespace Generation

open Lib List

/-! ## Markers -/

/-- `ChannelMarkers`. -/
structure ChannelMarkers where
  «open» : List Text
  close : List Text

/-- `ChannelState`. -/
inductive ChannelState
  | visible
  | inReasoning
  deriving DecidableEq

/-- `match_any`: the length of the longest pattern the text begins with.  Empty ones do not count.
-/
def matchAny (s : Text) (patterns : List Text) : Option Nat :=
  patterns.foldl (fun best p =>
    if p.isEmpty then best
    else if p.isPrefixOf s then some (best.elim p.length (max · p.length))
    else best) none

/-- `could_start_any`. -/
def couldStartAny (s : Text) (patterns : List Text) : Bool :=
  !s.isEmpty && patterns.any fun p => s.isPrefixOf p && decide (s.length < p.length)

/-- `longer_pattern_could_extend`. -/
def longerPatternCouldExtend (s : Text) (matchedLen : Nat) (patterns : List Text) : Bool :=
  patterns.any fun p => decide (matchedLen < p.length) &&
    p.take matchedLen == s.take matchedLen && s.isPrefixOf p

/-- The rest of `has_special_token_shape`, from the second byte on. -/
def specialTokenShape : List UInt8 → Bool
  | [] => false
  | b :: rest =>
    if b == 0x7c && rest.head? == some 0x3e then true
    else if b == 0x3e || [0x20, 0x09, 0x0a, 0x0c, 0x0d].contains b then false
    else specialTokenShape rest

/-- `has_special_token_shape`: `<|`, or `|>` within 32 bytes and before a `>` or a space. -/
def hasSpecialTokenShape (s : Text) : Bool :=
  match utf8 s with
  | 0x3c :: rest => rest.head? == some 0x7c || specialTokenShape (rest.take 33)
  | _ => false

/-! ## The machine -/

/-- `StreamEmission`. -/
inductive StreamEmission
  | content (text : Text)
  | reasoning (text : Text)

/-- `ReplyParts`.  The tool calls are filled in elsewhere. -/
structure ReplyParts where
  content : Text
  reasoning : Option Text
  toolCalls : List ToolCall

/-- `ReplyStateMachine`. -/
structure ReplyStateMachine where
  markers : ChannelMarkers
  state : ChannelState
  reasoning : Text
  content : Text
  /-- What has been held back, because it may become a marker. -/
  pending : Text
  leakedSpecials : Nat
  explicitThinkingTokens : Option Nat
  explicitContentTokens : Option Nat

/-- `u32::saturating_add(1)`. -/
def saturatingSucc (n : Nat) : Nat := min (n + 1) 0xffffffff

namespace ReplyStateMachine

def new (markers : ChannelMarkers) : ReplyStateMachine :=
  ⟨markers, .visible, [], [], [], 0, none, none⟩

/-- The patterns that end the channel the machine is in. -/
def patterns (m : ReplyStateMachine) : List Text :=
  match m.state with
  | .visible => m.markers.open
  | .inReasoning => m.markers.close

/-- Count a special token that is not a marker. -/
def leak (m : ReplyStateMachine) (buf : Text) : ReplyStateMachine :=
  if hasSpecialTokenShape buf then { m with leakedSpecials := saturatingSucc m.leakedSpecials } else m

end ReplyStateMachine

/-- The other channel. -/
def ChannelState.flip : ChannelState → ChannelState
  | .visible => .inReasoning
  | .inReasoning => .visible

variable {s : Text} {n : Nat}

theorem matchAny_foldl {patterns : List Text} {best : Option Nat}
    (h : patterns.foldl (fun best p =>
      if p.isEmpty then best
      else if p.isPrefixOf s then some (best.elim p.length (max · p.length))
      else best) best = some n) :
    (best = some n ∨ ∃ p ∈ patterns, p ≠ [] ∧ p <+: s ∧ p.length = n) ∧
      (∀ k, best = some k → k ≤ n) ∧ ∀ p ∈ patterns, p ≠ [] → p <+: s → p.length ≤ n := by
  induction patterns generalizing best with
  | nil =>
    refine ⟨.inl h, fun k hk => ?_, fun p hp => nomatch hp⟩
    rw [hk] at h
    exact Nat.le_of_eq (Option.some.inj h)
  | cons p ps ih =>
    rw [foldl_cons] at h
    by_cases hempty : p.isEmpty = true
    · rw [if_pos hempty] at h
      obtain ⟨hfrom, hbest, hall⟩ := ih h
      refine ⟨hfrom.imp_right fun ⟨q, hq, h⟩ => ⟨q, mem_cons_of_mem _ hq, h⟩, hbest,
        fun q hq hne hpre => ?_⟩
      rcases mem_cons.1 hq with rfl | hq
      · exact absurd (isEmpty_iff.1 hempty) hne
      · exact hall q hq hne hpre
    · rw [if_neg hempty] at h
      have hne : p ≠ [] := fun h => hempty (isEmpty_iff.2 h)
      by_cases hpre : p.isPrefixOf s = true
      · rw [if_pos hpre] at h
        obtain ⟨hfrom, hbest, hall⟩ := ih h
        have hp : p.length ≤ n := by
          refine Nat.le_trans ?_ (hbest _ rfl)
          cases best <;> simp
        refine ⟨?_, fun k hk => ?_, fun q hq hqne hqpre => ?_⟩
        · rcases hfrom with hmax | ⟨q, hq, h⟩
          · cases best with
            | none =>
              exact .inr ⟨p, mem_cons_self, hne, isPrefixOf_iff_prefix.1 hpre,
                Option.some.inj hmax⟩
            | some k =>
              have hmax : max k p.length = n := Option.some.inj hmax
              rcases Nat.le_total k p.length with hle | hle
              · rw [Nat.max_eq_right hle] at hmax
                exact .inr ⟨p, mem_cons_self, hne, isPrefixOf_iff_prefix.1 hpre, hmax⟩
              · rw [Nat.max_eq_left hle] at hmax
                exact .inl (congrArg some hmax)
          · exact .inr ⟨q, mem_cons_of_mem _ hq, h⟩
        · refine Nat.le_trans ?_ (hbest _ rfl)
          rw [hk]
          exact Nat.le_max_left ..
        · rcases mem_cons.1 hq with rfl | hq
          · exact hp
          · exact hall q hq hqne hqpre
      · rw [if_neg hpre] at h
        obtain ⟨hfrom, hbest, hall⟩ := ih h
        refine ⟨hfrom.imp_right fun ⟨q, hq, h⟩ => ⟨q, mem_cons_of_mem _ hq, h⟩, hbest,
          fun q hq hqne hqpre => ?_⟩
        rcases mem_cons.1 hq with rfl | hq
        · exact absurd ( isPrefixOf_iff_prefix.2 hqpre) hpre
        · exact hall q hq hqne hqpre

/-- A match is of a pattern, and no shorter than any other. -/
theorem matchAny_spec {patterns : List Text} (h : matchAny s patterns = some n) :
    0 < n ∧ n ≤ s.length ∧ ∀ p ∈ patterns, p ≠ [] → p <+: s → p.length ≤ n := by
  obtain ⟨hfrom, -, hall⟩ := matchAny_foldl h
  rcases hfrom with hnone | ⟨p, -, hne, hpre, hlen⟩
  · cases hnone
  · exact ⟨hlen ▸ length_pos_iff.2 hne, hlen ▸ hpre.length_le, hall⟩

theorem matchAny_drop_lt {patterns : List Text} (h : matchAny s patterns = some n) :
    (s.drop n).length < s.length := by
  obtain ⟨hpos, hle, -⟩ := matchAny_spec h
  rw [length_drop]
  omega

namespace ReplyStateMachine

/-- The loop of `push`, over what is left of the buffer. -/
def pushLoop (m : ReplyStateMachine) (buf : Text) : ReplyStateMachine :=
  match buf with
  | [] => m
  | c :: rest =>
    match m.state with
    | .visible =>
      match _h : matchAny (c :: rest) m.markers.open with
      | some mlen =>
        if longerPatternCouldExtend (c :: rest) mlen m.markers.open then
          { m with pending := c :: rest }
        else pushLoop { m with state := .inReasoning } ((c :: rest).drop mlen)
      | none =>
        if couldStartAny (c :: rest) m.markers.open then { m with pending := c :: rest }
        else pushLoop (leak { m with content := m.content ++ [c] } (c :: rest)) rest
    | .inReasoning =>
      match _h : matchAny (c :: rest) m.markers.close with
      | some mlen =>
        if longerPatternCouldExtend (c :: rest) mlen m.markers.close then
          { m with pending := c :: rest }
        else pushLoop { m with state := .visible } ((c :: rest).drop mlen)
      | none =>
        if couldStartAny (c :: rest) m.markers.close then { m with pending := c :: rest }
        else pushLoop { m with reasoning := m.reasoning ++ [c] } rest
termination_by buf.length
decreasing_by
  all_goals first | exact Nat.lt_succ_self _ | exact matchAny_drop_lt _h

/-- `push`. -/
def push (m : ReplyStateMachine) (chunk : Text) : ReplyStateMachine :=
  pushLoop { m with pending := [] } (m.pending ++ chunk)

/-- What has been read of a channel since it was entered, as an emission, if it is anything. -/
def run (channel : ChannelState) (text : Text) : List StreamEmission :=
  if text.isEmpty then []
  else match channel with
    | .visible => [.content text]
    | .inReasoning => [.reasoning text]

/-- `mirror_into_buffers`. -/
def mirrorIntoBuffers (m : ReplyStateMachine) (emissions : List StreamEmission) :
    ReplyStateMachine :=
  emissions.foldl (fun m e =>
    match e with
    | .content text => { m with content := m.content ++ text }
    | .reasoning text => { m with reasoning := m.reasoning ++ text }) m

/-- The loop of `push_emit`, over what is left of the buffer; `text` is what has been read of the
current channel (`buf[run_start..i]`). -/
def pushEmitLoop (m : ReplyStateMachine) (text : Text) (emissions : List StreamEmission)
    (buf : Text) : List StreamEmission × ReplyStateMachine :=
  match buf with
  | [] =>
    let emissions := emissions ++ run m.state text
    (emissions, m.mirrorIntoBuffers emissions)
  | c :: rest =>
    match _h : matchAny (c :: rest) m.patterns with
    | some mlen =>
      let emissions := emissions ++ run m.state text
      if longerPatternCouldExtend (c :: rest) mlen m.patterns then
        (emissions, { m with pending := c :: rest }.mirrorIntoBuffers emissions)
      else pushEmitLoop { m with state := m.state.flip } [] emissions ((c :: rest).drop mlen)
    | none =>
      if couldStartAny (c :: rest) m.patterns then
        let emissions := emissions ++ run m.state text
        (emissions, { m with pending := c :: rest }.mirrorIntoBuffers emissions)
      else
        let m := if m.state = .visible then leak m (c :: rest) else m
        pushEmitLoop m (text ++ [c]) emissions rest
termination_by buf.length
decreasing_by
  all_goals first | exact Nat.lt_succ_self _ | exact matchAny_drop_lt _h

/-- `push_emit` takes every call for one token, and counts it for the channel it arrives in. -/
def countToken (m : ReplyStateMachine) : ReplyStateMachine :=
  match m.state with
  | .visible =>
    { m with
      explicitContentTokens := some (saturatingSucc (m.explicitContentTokens.getD 0))
      explicitThinkingTokens := some (m.explicitThinkingTokens.getD 0) }
  | .inReasoning =>
    { m with
      explicitThinkingTokens := some (saturatingSucc (m.explicitThinkingTokens.getD 0))
      explicitContentTokens := some (m.explicitContentTokens.getD 0) }

/-- `push_emit`. -/
def pushEmit (m : ReplyStateMachine) (chunk : Text) : List StreamEmission × ReplyStateMachine :=
  pushEmitLoop { m.countToken with pending := [] } [] [] (m.pending ++ chunk)

/-- `flush_pending`. -/
def flushPending (m : ReplyStateMachine) : List StreamEmission × ReplyStateMachine :=
  let emissions := run m.state m.pending
  (emissions, { m with pending := [] }.mirrorIntoBuffers emissions)

/-- `finish`. -/
def finish (m : ReplyStateMachine) : ReplyParts :=
  let (content, reasoning) := match m.state with
    | .visible => (m.content ++ m.pending, m.reasoning)
    | .inReasoning => (m.content, m.reasoning ++ m.pending)
  ⟨content, if reasoning.isEmpty then none else some reasoning, []⟩

/-- `summary`: thinking tokens, content tokens, special tokens. -/
def summary (m : ReplyStateMachine) : Nat × Nat × Nat :=
  (m.explicitThinkingTokens.getD (((utf8 m.reasoning).length / 4) % 2 ^ 32),
    m.explicitContentTokens.getD (((utf8 m.content).length / 4) % 2 ^ 32), m.leakedSpecials)

end ReplyStateMachine

/-! ## One decision -/

/-- The patterns that end a channel. -/
def ChannelMarkers.patterns (markers : ChannelMarkers) : ChannelState → List Text
  | .visible => markers.open
  | .inReasoning => markers.close

theorem couldStartAny_eq (h : s ≠ []) (patterns : List Text) :
    couldStartAny s patterns = couldBecome patterns s := by
  rw [couldStartAny, couldBecome, isEmpty_eq_false_iff.2 h]
  rfl

/-- Where a pattern matches, a longer one could still do so exactly where the text could become
one. -/
theorem longerPatternCouldExtend_eq {patterns : List Text} (h : matchAny s patterns = some n) :
    longerPatternCouldExtend s n patterns = couldBecome patterns s := by
  obtain ⟨hpos, hle, hmax⟩ := matchAny_spec h
  rw [Bool.eq_iff_iff, couldBecome_iff]
  simp only [longerPatternCouldExtend, any_eq_true, Bool.and_eq_true, decide_eq_true_eq,
    beq_iff_eq, isPrefixOf_iff_prefix]
  constructor
  · rintro ⟨p, hp, ⟨hlt, -⟩, hpre⟩
    refine ⟨p, hp, hpre, Nat.lt_of_not_le fun hlen => ?_⟩
    -- the whole of such a pattern would have matched
    have heq := hpre.eq_of_length_le hlen
    have hne : p ≠ [] := length_pos_iff.1 (Nat.lt_of_le_of_lt (Nat.zero_le _) hlt)
    exact absurd (hmax p hp hne (heq ▸ prefix_refl s)) (Nat.not_le.2 hlt)
  · rintro ⟨p, hp, hpre, hlt⟩
    refine ⟨p, hp, ⟨Nat.lt_of_le_of_lt hle hlt, ?_⟩, hpre⟩
    rw [prefix_iff_eq_take.1 hpre, take_take, Nat.min_eq_left hle]

/-- A text that can become no other pattern matches what it matches, whatever comes later. -/
theorem matchAny_append {patterns : List Text} (h : couldBecome patterns s = false) (t : Text) :
    matchAny (s ++ t) patterns = matchAny s patterns := by
  rw [matchAny, matchAny]
  refine foldl_ext _ _ _ fun best p hp => ?_
  have hiff : p.isPrefixOf (s ++ t) = p.isPrefixOf s := by
    rw [Bool.eq_iff_iff, isPrefixOf_iff_prefix, isPrefixOf_iff_prefix,
      prefix_append_iff h hp]
  rw [hiff]

/-- One decision of either loop: to hold back, to take a marker, or to take a character. -/
def ChannelMarkers.next (markers : ChannelMarkers) (q : ChannelState) :
    Text → Option (List (ChannelState × Char) × Nat × ChannelState)
  | [] => none
  | c :: rest =>
    if couldBecome (markers.patterns q) (c :: rest) then none
    else match matchAny (c :: rest) (markers.patterns q) with
      | some mlen => some ([], mlen, q.flip)
      | none => some ([(q, c)], 1, q)

def ChannelMarkers.scanner (markers : ChannelMarkers) :
    Scanner Char (ChannelState × Char) ChannelState where
  next := markers.next
  progress {q s out n q'} h := by
    cases s with
    | nil => cases h
    | cons c rest =>
      rw [ChannelMarkers.next] at h
      split at h
      · cases h
      split at h
      · rename_i mlen hmatch
        cases h
        obtain ⟨hpos, hle, -⟩ := matchAny_spec hmatch
        exact ⟨hpos, hle⟩
      · cases h
        exact ⟨Nat.zero_lt_one, Nat.succ_le_succ (Nat.zero_le _)⟩
  stable {q s r} t h := by
    cases s with
    | nil => cases h
    | cons c rest =>
      rw [ChannelMarkers.next] at h
      rw [List.cons_append, ChannelMarkers.next, ← List.cons_append]
      split at h
      · cases h
      · rename_i hhold
        have hhold : couldBecome (markers.patterns q) (c :: rest) = false := by simpa using hhold
        rw [couldBecome_append hhold, matchAny_append hhold]
        exact h

variable {markers : ChannelMarkers} {q : ChannelState}

theorem scan_hold {c : Char} {rest : Text}
    (h : couldBecome (markers.patterns q) (c :: rest) = true) :
    markers.scanner.scan q (c :: rest) = ([], q, c :: rest) :=
  markers.scanner.scan_none (if_pos h)

theorem scan_marker {c : Char} {rest : Text}
    (h : couldBecome (markers.patterns q) (c :: rest) = false)
    (hmatch : matchAny (c :: rest) (markers.patterns q) = some n) :
    markers.scanner.scan q (c :: rest) = markers.scanner.scan q.flip ((c :: rest).drop n) := by
  have hnext : markers.scanner.next q (c :: rest) = some ([], n, q.flip) := by
    refine (if_neg (by simp [h])).trans ?_
    rw [hmatch]
  exact markers.scanner.scan_some hnext

theorem scan_char {c : Char} {rest : Text}
    (h : couldBecome (markers.patterns q) (c :: rest) = false)
    (hmatch : matchAny (c :: rest) (markers.patterns q) = none) :
    markers.scanner.scan q (c :: rest) =
      ((q, c) :: (markers.scanner.scan q rest).1, (markers.scanner.scan q rest).2) := by
  have hnext : markers.scanner.next q (c :: rest) = some ([(q, c)], 1, q) := by
    refine (if_neg (by simp [h])).trans ?_
    rw [hmatch]
  exact markers.scanner.scan_some hnext

/-! ## Both loops are that scan -/

/-- What a scan has put out of one channel. -/
def channelText (channel : ChannelState) (out : List (ChannelState × Char)) : Text :=
  (out.filter (·.1 = channel)).map (·.2)

@[simp] theorem channelText_append (channel : ChannelState) (out out' : List (ChannelState × Char)) :
    channelText channel (out ++ out') = channelText channel out ++ channelText channel out' := by
  simp [channelText]

theorem channelText_concat (channel q : ChannelState) (out : List (ChannelState × Char))
    (c : Char) :
    channelText channel (out ++ [(q, c)]) =
      channelText channel out ++ if q = channel then [c] else [] := by
  by_cases h : q = channel <;> simp [channelText, h]

/-- What has been emitted of one channel. -/
def emittedText (channel : ChannelState) (emissions : List StreamEmission) : Text :=
  emissions.flatMap fun
    | .content text => if channel = .visible then text else []
    | .reasoning text => if channel = .inReasoning then text else []

@[simp] theorem emittedText_append (channel : ChannelState) (es es' : List StreamEmission) :
    emittedText channel (es ++ es') = emittedText channel es ++ emittedText channel es' := by
  simp [emittedText]

/-- What an emission puts out, character by character. -/
def StreamEmission.tagged : StreamEmission → List (ChannelState × Char)
  | .content text => text.map (.visible, ·)
  | .reasoning text => text.map (.inReasoning, ·)

/-- What has been emitted, in order. -/
def tagged (emissions : List StreamEmission) : List (ChannelState × Char) :=
  emissions.flatMap StreamEmission.tagged

@[simp] theorem tagged_append (es es' : List StreamEmission) :
    tagged (es ++ es') = tagged es ++ tagged es' := by
  simp [tagged]

/-- What has been emitted of a channel is what has been emitted, less the other. -/
theorem emittedText_eq (channel : ChannelState) (es : List StreamEmission) :
    emittedText channel es = channelText channel (tagged es) := by
  induction es with
  | nil => rfl
  | cons e es ih =>
    have hcons : tagged (e :: es) = e.tagged ++ tagged es := rfl
    have hfilter : ∀ q (text : Text), channelText channel (text.map (q, ·)) =
        if channel = q then text else [] := by
      intro q text
      rcases channel <;> rcases q <;> simp [channelText, filter_map, Function.comp_def]
    rw [hcons, channelText_append, ← ih, emittedText, flatMap_cons]
    refine congrArg (· ++ _) ?_
    rcases e with text | text
    · exact (hfilter .visible text).symm
    · exact (hfilter .inReasoning text).symm

namespace ReplyStateMachine

/-- The machine holds what a scan has put out, and is where the scan is. -/
structure Holds (m : ReplyStateMachine) (markers : ChannelMarkers)
    (r : List (ChannelState × Char) × ChannelState × Text) : Prop where
  markers : m.markers = markers
  content : m.content = channelText .visible r.1
  reasoning : m.reasoning = channelText .inReasoning r.1
  state : m.state = r.2.1
  pending : m.pending = r.2.2

theorem holds_new (markers : ChannelMarkers) : Holds (new markers) markers ([], .visible, []) :=
  ⟨rfl, rfl, rfl, rfl, rfl⟩

variable {m : ReplyStateMachine} {markers : ChannelMarkers}
  {r : List (ChannelState × Char) × ChannelState × Text}

theorem leak_holds (h : Holds m markers r) (buf : Text) : Holds (leak m buf) markers r := by
  rw [leak]
  split
  · exact ⟨h.markers, h.content, h.reasoning, h.state, h.pending⟩
  · exact h

/-- What is left of the parts depends on nothing else. -/
theorem Holds.finish {m' : ReplyStateMachine} (h : Holds m markers r) (h' : Holds m' markers r) :
    m.finish = m'.finish := by
  rw [ReplyStateMachine.finish, ReplyStateMachine.finish, h.state, h'.state, h.content, h'.content,
    h.reasoning, h'.reasoning, h.pending, h'.pending]

variable {out : List (ChannelState × Char)}

/-- The loop of `push`, one decision at a time. -/
theorem pushLoop_holds (markers : ChannelMarkers) {q : ChannelState} (buf : Text)
    (h : Holds m markers (out, q, [])) :
    Holds (pushLoop m buf) markers
      (out ++ (markers.scanner.scan q buf).1, (markers.scanner.scan q buf).2) := by
  induction hlen : buf.length using Nat.strongRecOn generalizing m out q buf with
  | _ k ih =>
  cases buf with
  | nil =>
    rw [pushLoop, markers.scanner.scan_none (markers.scanner.next_nil q), append_nil]
    exact h
  | cons c rest =>
    -- what to do with a text that is held back, with a marker, and with a character
    have hhold : couldBecome (markers.patterns q) (c :: rest) = true →
        Holds { m with pending := c :: rest } markers
          (out ++ (markers.scanner.scan q (c :: rest)).1, (markers.scanner.scan q (c :: rest)).2) :=
      fun hbecome => by
        rw [scan_hold hbecome, append_nil]
        exact ⟨h.markers, h.content, h.reasoning, h.state, rfl⟩
    have hmarker : ∀ n, couldBecome (markers.patterns q) (c :: rest) = false →
        matchAny (c :: rest) (markers.patterns q) = some n →
        Holds (pushLoop { m with state := q.flip } ((c :: rest).drop n)) markers
          (out ++ (markers.scanner.scan q (c :: rest)).1, (markers.scanner.scan q (c :: rest)).2) :=
      fun n hbecome hmatch => by
        rw [scan_marker hbecome hmatch]
        exact ih _ (hlen ▸ matchAny_drop_lt hmatch) _
          ⟨h.markers, h.content, h.reasoning, rfl, h.pending⟩ rfl
    have hchar : ∀ m', couldBecome (markers.patterns q) (c :: rest) = false →
        matchAny (c :: rest) (markers.patterns q) = none →
        Holds m' markers (out ++ [(q, c)], q, []) → Holds (pushLoop m' rest) markers
          (out ++ (markers.scanner.scan q (c :: rest)).1, (markers.scanner.scan q (c :: rest)).2) :=
      fun m' hbecome hmatch hm' => by
        have hrest := ih rest.length (hlen ▸ Nat.lt_succ_self _) rest hm' rfl
        rw [append_assoc] at hrest
        rw [scan_char hbecome hmatch]
        exact hrest
    obtain ⟨hmarkers, hcontent, hreasoning, hstate, hpending⟩ := h
    subst hmarkers
    subst hstate
    rw [pushLoop]
    split
    · rename_i hvisible
      rw [hvisible] at hhold hmarker hchar ⊢
      split
      · rename_i n hmatch
        have hlonger := longerPatternCouldExtend_eq hmatch
        split
        · rename_i hlong
          exact hhold (hlonger.symm.trans hlong)
        · rename_i hlong
          exact hmarker n (hlonger.symm.trans (by simpa using hlong)) hmatch
      · rename_i hmatch
        have hstart := couldStartAny_eq (cons_ne_nil c rest) m.markers.open
        split
        · rename_i hcould
          exact hhold (hstart.symm.trans hcould)
        rename_i hcould
        have hm : Holds { m with state := .visible, content := m.content ++ [c] } m.markers
            (out ++ [(.visible, c)], .visible, []) := by
          refine ⟨rfl, ?_, ?_, rfl, hpending⟩
          · rw [channelText_concat, if_pos rfl, ← hcontent]
          · rw [channelText_concat, if_neg (by decide), append_nil, ← hreasoning]
        exact hchar _ (hstart.symm.trans (by simpa using hcould)) hmatch (leak_holds hm _)
    · rename_i hreasons
      rw [hreasons] at hhold hmarker hchar ⊢
      split
      · rename_i n hmatch
        have hlonger := longerPatternCouldExtend_eq hmatch
        split
        · rename_i hlong
          exact hhold (hlonger.symm.trans hlong)
        · rename_i hlong
          exact hmarker n (hlonger.symm.trans (by simpa using hlong)) hmatch
      · rename_i hmatch
        have hstart := couldStartAny_eq (cons_ne_nil c rest) m.markers.close
        split
        · rename_i hcould
          exact hhold (hstart.symm.trans hcould)
        rename_i hcould
        refine hchar _ (hstart.symm.trans (by simpa using hcould)) hmatch
          ⟨rfl, ?_, ?_, rfl, hpending⟩
        · rw [channelText_concat, if_neg (by decide), append_nil, ← hcontent]
        · rw [channelText_concat, if_pos rfl, ← hreasoning]

theorem push_holds (h : Holds m markers r) (chunk : Text) :
    Holds (m.push chunk) markers (markers.scanner.feed r chunk) := by
  have hempty : Holds { m with pending := [] } markers (r.1, r.2.1, []) :=
    ⟨h.markers, h.content, h.reasoning, h.state, rfl⟩
  have hloop := pushLoop_holds markers (m.pending ++ chunk) hempty
  rw [h.pending] at hloop
  rw [push, h.pending]
  exact hloop

/-! ### The emitting loop -/

@[simp] theorem tagged_run (q : ChannelState) (text : Text) :
    tagged (run q text) = text.map (q, ·) := by
  by_cases hempty : text = []
  · simp [run, hempty, tagged]
  · cases q <;> simp [run, hempty, tagged, StreamEmission.tagged]

theorem emittedText_run (channel q : ChannelState) (text : Text) :
    emittedText channel (run q text) = if q = channel then text else [] := by
  by_cases hempty : text = []
  · simp [run, hempty, emittedText]
  · cases q <;> cases channel <;> simp [run, hempty, emittedText]

theorem mirrorIntoBuffers_eq (m : ReplyStateMachine) (es : List StreamEmission) :
    m.mirrorIntoBuffers es =
      { m with
        content := m.content ++ emittedText .visible es
        reasoning := m.reasoning ++ emittedText .inReasoning es } := by
  induction es generalizing m with
  | nil => simp [mirrorIntoBuffers, emittedText]
  | cons e es ih =>
    have hcons : m.mirrorIntoBuffers (e :: es) = (m.mirrorIntoBuffers [e]).mirrorIntoBuffers es := rfl
    rw [hcons, ih]
    cases e <;> simp [mirrorIntoBuffers, emittedText]

/-- From a machine with an empty buffer, the emitting loop has read `r`, and emitted it. -/
structure Reads (m : ReplyStateMachine) (r : List (ChannelState × Char) × ChannelState × Text)
    (result : List StreamEmission × ReplyStateMachine) : Prop where
  emitted : tagged result.1 = r.1
  markers : result.2.markers = m.markers
  content : result.2.content = m.content ++ channelText .visible r.1
  reasoning : result.2.reasoning = m.reasoning ++ channelText .inReasoning r.1
  state : result.2.state = r.2.1
  pending : result.2.pending = r.2.2

/-- The loop ends by mirroring what it has emitted. -/
theorem reads_mirror (m' : ReplyStateMachine) {es : List StreamEmission} (hes : tagged es = out)
    (hm : m'.markers = m.markers ∧ m'.content = m.content ∧ m'.reasoning = m.reasoning) :
    Reads m (out, m'.state, m'.pending) (es, m'.mirrorIntoBuffers es) := by
  obtain ⟨hmarkers, hcontent, hreasoning⟩ := hm
  rw [mirrorIntoBuffers_eq, emittedText_eq, emittedText_eq, hes, hcontent, hreasoning]
  exact ⟨hes, hmarkers, rfl, rfl, rfl, rfl⟩

theorem Reads.of_same {m' : ReplyStateMachine} {result : List StreamEmission × ReplyStateMachine}
    (h : Reads m' r result)
    (hm : m'.markers = m.markers ∧ m'.content = m.content ∧ m'.reasoning = m.reasoning) :
    Reads m r result :=
  ⟨h.emitted, h.markers.trans hm.1, hm.2.1 ▸ h.content, hm.2.2 ▸ h.reasoning, h.state, h.pending⟩

theorem leak_eq (m : ReplyStateMachine) (buf : Text) :
    ∃ k, leak m buf = { m with leakedSpecials := k } := by
  rw [leak]
  split
  · exact ⟨_, rfl⟩
  · exact ⟨m.leakedSpecials, rfl⟩

/-- The loop of `push_emit`, one decision at a time; `out` is what it has read so far. -/
theorem pushEmitLoop_reads {text : Text} {es : List StreamEmission} (buf : Text)
    (hpending : m.pending = []) (hout : tagged (es ++ run m.state text) = out) :
    Reads m (out ++ (m.markers.scanner.scan m.state buf).1, (m.markers.scanner.scan m.state buf).2)
      (pushEmitLoop m text es buf) := by
  induction hlen : buf.length using Nat.strongRecOn generalizing m text es out buf with
  | _ k ih =>
  cases buf with
  | nil =>
    rw [pushEmitLoop, m.markers.scanner.scan_none (m.markers.scanner.next_nil _), append_nil]
    have hreads := reads_mirror m (m := m) hout ⟨rfl, rfl, rfl⟩
    rw [hpending] at hreads
    exact hreads
  | cons c rest =>
    rw [pushEmitLoop]
    split
    · rename_i n hmatch
      have hlonger := longerPatternCouldExtend_eq hmatch
      dsimp only
      split
      · rename_i hlong
        rw [scan_hold (hlonger.symm.trans hlong), append_nil]
        exact reads_mirror { m with pending := c :: rest } hout ⟨rfl, rfl, rfl⟩
      rename_i hlong
      rw [scan_marker (hlonger.symm.trans (by simpa using hlong)) hmatch]
      let m' : ReplyStateMachine := { m with state := m.state.flip }
      have hpending' : m'.pending = [] := hpending
      have hflip : tagged ((es ++ run m.state text) ++ run m'.state []) = out := by
        rw [tagged_append, hout, tagged_run, map_nil, append_nil]
      have hshort : ((c :: rest).drop n).length < k := hlen ▸ matchAny_drop_lt hmatch
      have hrest := ih _ hshort ((c :: rest).drop n) hpending' hflip rfl
      exact hrest.of_same ⟨rfl, rfl, rfl⟩
    · rename_i hmatch
      have hstart := couldStartAny_eq (cons_ne_nil c rest) m.patterns
      split
      · rename_i hcould
        rw [scan_hold (hstart.symm.trans hcould), append_nil]
        exact reads_mirror { m with pending := c :: rest } hout ⟨rfl, rfl, rfl⟩
      rename_i hcould
      rw [scan_char (hstart.symm.trans (by simpa using hcould)) hmatch]
      obtain ⟨k', hk⟩ : ∃ k', (if m.state = .visible then leak m (c :: rest) else m) =
          { m with leakedSpecials := k' } := by
        split
        · exact leak_eq m (c :: rest)
        · exact ⟨m.leakedSpecials, rfl⟩
      let m' : ReplyStateMachine := { m with leakedSpecials := k' }
      have hpending' : m'.pending = [] := hpending
      have hmore : tagged (es ++ run m'.state (text ++ [c])) = out ++ [(m.state, c)] := by
        rw [← hout, tagged_append, tagged_append, tagged_run, tagged_run, map_append,
          append_assoc]
        rfl
      have hshort : rest.length < k := hlen ▸ Nat.lt_succ_self _
      have hrest := ih _ hshort rest hpending' hmore rfl
      rw [append_assoc] at hrest
      rw [hk]
      exact hrest.of_same ⟨rfl, rfl, rfl⟩

theorem countToken_holds (h : Holds m markers r) : Holds m.countToken markers r := by
  rw [countToken]
  split <;> exact ⟨h.markers, h.content, h.reasoning, h.state, h.pending⟩

theorem tagged_ne_nil_of_mem_run {q : ChannelState} {text : Text} :
    ∀ emission ∈ run q text, emission.tagged ≠ [] := by
  unfold run
  split
  · exact fun _ h => absurd h not_mem_nil
  · next h =>
    rw [List.isEmpty_iff] at h
    split
    all_goals
      intro emission hmem
      rw [mem_singleton.1 hmem]
      simpa [StreamEmission.tagged] using h

/-- Nothing empty is emitted. -/
theorem pushEmitLoop_ne_nil (m : ReplyStateMachine) (text : Text) (es : List StreamEmission)
    (buf : Text) (h : ∀ emission ∈ es, emission.tagged ≠ []) :
    ∀ emission ∈ (pushEmitLoop m text es buf).1, emission.tagged ≠ [] := by
  have hrun : ∀ (m : ReplyStateMachine) (text : Text) (es : List StreamEmission),
      (∀ emission ∈ es, emission.tagged ≠ []) →
        ∀ emission ∈ es ++ run m.state text, emission.tagged ≠ [] := by
    intro m text es h emission hmem
    rcases mem_append.1 hmem with hmem | hmem
    · exact h emission hmem
    · exact tagged_ne_nil_of_mem_run emission hmem
  fun_induction pushEmitLoop m text es buf with
  | case1 m text es => exact hrun m text es h
  | case2 m text es c rest n hmatch emissions hlong => exact hrun m text es h
  | case3 m text es c rest n hmatch emissions hlong ih => exact ih (hrun m text es h)
  | case4 m text es c rest hmatch hcould emissions => exact hrun m text es h
  | case5 m text es c rest hmatch hcould m' ih => exact ih h

/-- One call of `push_emit`, in terms of what it depends on: it emits what a scan puts out, and its
state and what it holds back are the scan's. -/
theorem pushEmit_reads (m : ReplyStateMachine) (chunk : Text) :
    Reads { m.countToken with pending := [] } (m.markers.scanner.scan m.state (m.pending ++ chunk))
      (m.pushEmit chunk) := by
  have hsame : m.countToken.state = m.state ∧ m.countToken.markers = m.markers := by
    rw [countToken]
    split <;> exact ⟨rfl, rfl⟩
  let m' : ReplyStateMachine := { m.countToken with pending := [] }
  have hpending : m'.pending = [] := rfl
  have hnone : tagged ([] ++ run m'.state []) = [] := by simp
  have hreads := pushEmitLoop_reads (m.pending ++ chunk) hpending hnone
  rw [nil_append, hsame.1, hsame.2] at hreads
  exact hreads

/-- One call of `push_emit`: the machine goes on as a scan does, and has emitted what it has added
to its buffers. -/
theorem pushEmit_holds (h : Holds m markers r) (chunk : Text) :
    Holds (m.pushEmit chunk).2 markers (markers.scanner.feed r chunk) ∧
      (markers.scanner.feed r chunk).1 = r.1 ++ tagged (m.pushEmit chunk).1 := by
  have hcounted := countToken_holds h
  have hreads := m.pushEmit_reads chunk
  rw [h.markers, h.state, h.pending] at hreads
  constructor
  · refine ⟨hreads.markers.trans hcounted.markers, ?_, ?_, hreads.state, hreads.pending⟩
    · rw [Scanner.feed, channelText_append]
      exact hreads.content.trans (congrArg (· ++ _) hcounted.content)
    · rw [Scanner.feed, channelText_append]
      exact hreads.reasoning.trans (congrArg (· ++ _) hcounted.reasoning)
  · rw [hreads.emitted]
    rfl

/-! ## Whole streams -/

/-- Chunks handed to `push_emit` one after another, and all that they emit. -/
def pushEmitAll (m : ReplyStateMachine) : List Text → List StreamEmission × ReplyStateMachine
  | [] => ([], m)
  | chunk :: chunks =>
    let (es, m) := m.pushEmit chunk
    let (es', m) := pushEmitAll m chunks
    (es ++ es', m)

theorem pushAll_holds (chunks : List Text) (h : Holds m markers r) :
    Holds (chunks.foldl push m) markers (chunks.foldl markers.scanner.feed r) := by
  induction chunks generalizing m r with
  | nil => exact h
  | cons chunk chunks ih => exact ih (push_holds h chunk)

theorem pushEmitAll_holds (chunks : List Text) (h : Holds m markers r) :
    Holds (m.pushEmitAll chunks).2 markers (chunks.foldl markers.scanner.feed r) ∧
      (chunks.foldl markers.scanner.feed r).1 = r.1 ++ tagged (m.pushEmitAll chunks).1 := by
  induction chunks generalizing m r with
  | nil => exact ⟨h, (append_nil _).symm⟩
  | cons chunk chunks ih =>
    obtain ⟨hchunk, hemitted⟩ := pushEmit_holds h chunk
    obtain ⟨hrest, hemitted'⟩ := ih hchunk
    refine ⟨hrest, ?_⟩
    rw [foldl_cons, hemitted', hemitted, append_assoc, pushEmitAll, tagged_append]

/-- Flushing emits what was held back, and changes nothing about the parts. -/
theorem flushPending_spec (m : ReplyStateMachine) :
    m.flushPending.2.finish = m.finish ∧
      m.flushPending.2.content = m.content ++ emittedText .visible m.flushPending.1 ∧
      m.flushPending.2.reasoning = m.reasoning ++ emittedText .inReasoning m.flushPending.1 := by
  rw [flushPending, mirrorIntoBuffers_eq]
  refine ⟨?_, rfl, rfl⟩
  rw [finish, finish]
  cases m.state <;> simp [emittedText_run]

/-- **The reply does not depend on how it arrives.**  The parts that `push` collects are those that
`push_emit` collects, whether the rest is flushed or not, and those of the whole text in one chunk;
and what `push_emit` and `flush_pending` emit of a channel is, at any time, what is in its buffer.
-/
theorem reply_parts_agree (markers : ChannelMarkers) (chunks : List Text) :
    let pushed := chunks.foldl push (new markers)
    let emitting := (new markers).pushEmitAll chunks
    let flushed := emitting.2.flushPending
    flushed.2.finish = pushed.finish ∧ pushed.flushPending.2.finish = pushed.finish ∧
      pushed.finish = ((new markers).push chunks.flatten).finish ∧
      (emittedText .visible emitting.1 = emitting.2.content ∧
        emittedText .inReasoning emitting.1 = emitting.2.reasoning) ∧
      emittedText .visible (emitting.1 ++ flushed.1) = flushed.2.content ∧
      emittedText .inReasoning (emitting.1 ++ flushed.1) = flushed.2.reasoning := by
  intro pushed emitting flushed
  have hpushed : Holds pushed markers _ := pushAll_holds chunks (holds_new markers)
  obtain ⟨hemitting, hemitted⟩ := pushEmitAll_holds chunks (holds_new markers)
  have hwhole := push_holds (holds_new markers) chunks.flatten
  obtain ⟨hfinish, hcontent, hreasoning⟩ := emitting.2.flushPending_spec
  have hvisible : emittedText .visible emitting.1 = emitting.2.content :=
    (emittedText_eq _ _).trans ((congrArg _ hemitted.symm).trans hemitting.content.symm)
  have hreasons : emittedText .inReasoning emitting.1 = emitting.2.reasoning :=
    (emittedText_eq _ _).trans ((congrArg _ hemitted.symm).trans hemitting.reasoning.symm)
  have hchunks : chunks.foldl markers.scanner.feed ([], .visible, []) =
      markers.scanner.feed ([], .visible, []) chunks.flatten :=
    markers.scanner.feed_chunks chunks .visible
  refine ⟨hfinish.trans (hemitting.finish hpushed), (pushed.flushPending_spec).1, ?_,
    ⟨hvisible, hreasons⟩, ?_, ?_⟩
  · rw [hchunks] at hpushed
    exact hpushed.finish hwhole
  · rw [emittedText_append, hvisible]
    exact hcontent.symm
  · rw [emittedText_append, hreasons]
    exact hreasoning.symm

end ReplyStateMachine

end Generation
end Gen2
