import Gen2.Backend.StopMatcher
import Gen2.Backend.ToolCalls
import Gen2.Engine.Types

/-!
# The output filter

`backend/common/output_filter.rs`: what a puller samples goes through the stop matcher and the
tool-call parser before anyone sees it.

* Text whose end could still become a stop pattern is held; it is emitted when it could not any
  more, or the reply has ended otherwise.
* `OutputFilter.pull` is what the pullers' `next` makes of a filter: what is pending comes first, a
  filter that is done gets nothing more, and one that is not is finalized at the end of the reply.
* Without the parser, what is emitted is the text up to the first place where a pattern stands when
  one is first there (`pull_emits`).
-/

namespace Gen2
namespace Backend

open Lib Generation List

/-- What the filter has for its consumer. -/
abbrev Event := Except ExecError TokenEvent

/-- `OutputFilter`. -/
structure OutputFilter where
  stop : StopMatcher
  held : List (UInt32 × Text)
  toolParser : Option ToolCallParser
  pending : List Event
  done : Bool

/-- A chunk of text as an event. -/
def tokenEvent (chunk : UInt32 × Text) : Event := .ok (.token ⟨chunk.1, chunk.2, none⟩)

/-- An output of the parser as events; an empty text is none. -/
def parserEvents (id : UInt32) : ParserOutput → List Event
  | .text s => if s.isEmpty then [] else [tokenEvent (id, s)]
  | .toolCall call => [.ok (.toolCall call)]

/-- The held tokens up to `emitAt`, the last of them cut at a character boundary; `cum` bytes are in
front of them. -/
def heldUpTo (emitAt : Nat) : Nat → List (UInt32 × Text) → List (UInt32 × Text)
  | _, [] => []
  | cum, (id, t) :: held =>
    if emitAt ≤ cum then []
    else
      let remain := emitAt - cum
      if strLen t ≤ remain then (id, t) :: heldUpTo emitAt (cum + strLen t) held
      else if (takeBytes remain t).isEmpty then [] else [(id, takeBytes remain t)]

namespace OutputFilter

/-- `OutputFilter::new`. -/
def new (patterns : List StopPattern) : OutputFilter where
  stop := ⟨patterns, []⟩
  held := []
  toolParser := some (.new .auto)
  pending := []
  done := false

/-- `OutputFilter::without_tool_calls`. -/
def withoutToolCalls (f : OutputFilter) : OutputFilter := { f with toolParser := none }

/-- `set_enabled_tools`. -/
def setEnabledTools (f : OutputFilter) (tools : List Text) : OutputFilter :=
  { f with toolParser := f.toolParser.map (·.withEnabledTools tools) }

section
variable [JsonText]

/-- `emit_text_chunk`; `none` if the parser panics. -/
def emitTextChunk (f : OutputFilter) (chunk : UInt32 × Text) : Option OutputFilter :=
  match f.toolParser with
  | none => some { f with pending := f.pending ++ [tokenEvent chunk] }
  | some parser => (parser.push chunk.2).map fun (outputs, parser) =>
    { f with
      toolParser := some parser
      pending := f.pending ++ outputs.flatMap (parserEvents chunk.1) }

/-- Chunks are emitted one after another. -/
def emitChunks (f : OutputFilter) (chunks : List (UInt32 × Text)) : Option OutputFilter :=
  chunks.foldlM emitTextChunk f

/-- The parser is flushed; what it still has belongs to no token. -/
def flushParser (f : OutputFilter) : Option OutputFilter :=
  match f.toolParser with
  | none => some f
  | some parser => parser.flush.map fun (outputs, parser) =>
    { f with
      toolParser := some parser
      pending := f.pending ++ outputs.flatMap (parserEvents 0) }

/-- `push_token`, on a token whose text the stop matcher has classified. -/
def pushClassified (f : OutputFilter) : StopState → Option (Bool × OutputFilter)
  | .clean =>
    (emitChunks { f with held := [] } f.held).map fun f' =>
      (true, { f' with stop := f'.stop.reset })
  | .holding _ => some (false, f)
  | .full _ _ emitAt =>
    ((emitChunks { f with held := [] } (heldUpTo emitAt 0 f.held)).bind flushParser).map fun f' =>
      (true, { f' with
        pending := f'.pending ++ [.ok .eos]
        done := true
        stop := f'.stop.reset })

/-- `push_token`. -/
def pushToken (f : OutputFilter) (token : UInt32 × Text) : Option (Bool × OutputFilter) :=
  if f.done then some (false, f)
  else if f.stop.patterns.isEmpty then (f.emitTextChunk token).map fun f' => (true, f')
  else
    let (state, stop) := f.stop.push token.2
    pushClassified { f with stop, held := f.held ++ [token] } state

/-- `flush_held`. -/
def flushHeld (f : OutputFilter) : Option OutputFilter :=
  (emitChunks { f with held := [] } f.held).map fun f' => { f' with stop := f'.stop.reset }

/-- `flush_text`. -/
def flushText (f : OutputFilter) : Option OutputFilter := f.flushHeld.bind flushParser

/-- `finalize`. -/
def finalize (f : OutputFilter) (extra : TokenEvent) : Option OutputFilter :=
  f.flushText.map fun f' => { f' with pending := f'.pending ++ [.ok extra], done := true }

/-- What a puller gets out of a filter for the tokens of a reply that ends with `extra`. -/
def pull (extra : TokenEvent) : OutputFilter → List (UInt32 × Text) → Option (List Event)
  | f, tokens =>
    let ready := f.pending
    let f := { f with pending := [] }
    if f.done then some ready
    else
      match tokens with
      | [] => (f.finalize extra).map fun f' => ready ++ f'.pending
      | token :: tokens =>
        (f.pushToken token).bind fun (_, f') =>
          (pull extra f' tokens).map fun events => ready ++ events

end

/-! ## What is emitted without the parser -/

/-- What a reply comes to, of which `s` has been sampled: the text that is emitted, and the event
that ends it. -/
inductive Ends (patterns : List StopPattern) (extra : TokenEvent) :
    Text → List Text → Text → TokenEvent → Prop
  | whole (s : Text) : Ends patterns extra s [] s extra
  | found {s t out : Text} {ts : List Text} (h : CutsAt patterns (s ++ t) out) :
    Ends patterns extra s (t :: ts) out .eos
  | next {s t out : Text} {ts : List Text} {last : TokenEvent}
    (habsent : ¬ Occurs patterns (s ++ t)) (h : Ends patterns extra (s ++ t) ts out last) :
    Ends patterns extra s (t :: ts) out last

/-- What has not been emitted is in the buffer and in the held tokens.  No pattern stands in the
text, and none can come to begin in what has been emitted. -/
structure Filtering (patterns : List StopPattern) (emitted : Text) (f : OutputFilter) : Prop where
  noParser : f.toolParser = none
  running : f.done = false
  looksFor : f.stop.patterns = patterns
  held : f.stop.buf = (f.held.map Prod.snd).flatten
  idle : patterns = [] → f.held = []
  clear : Clear (patterns.map (·.text)) emitted.length (emitted ++ f.stop.buf)
  absent : ¬ Occurs patterns (emitted ++ f.stop.buf)

/-- The held tokens up to a character of their text. -/
theorem heldUpTo_text {emitAt cum : Nat} {held : List (UInt32 × Text)} :
    ((heldUpTo emitAt cum held).map Prod.snd).flatten =
      takeBytes (emitAt - cum) (held.map Prod.snd).flatten := by
  induction held generalizing cum with
  | nil => rfl
  | cons token held ih =>
    obtain ⟨id, t⟩ := token
    rw [heldUpTo, map_cons, flatten_cons, takeBytes_append]
    by_cases hcum : emitAt ≤ cum
    · rw [if_pos hcum, Nat.sub_eq_zero_of_le hcum]
      split
      next ht =>
        have hnil : t = [] := by
          have := takeBytes_strLen_take t.length t
          rw [take_length, Nat.le_zero.1 ht, takeBytes_zero] at this
          exact this.symm
        simp [hnil, takeBytes_zero]
      · simp [takeBytes_zero]
    · rw [if_neg hcum]
      dsimp only
      split
      · rw [map_cons, flatten_cons, ih, Nat.sub_sub]
      · split
        next hempty => simpa using hempty.symm
        · simp

section
variable [JsonText] {patterns : List StopPattern} {f : OutputFilter} {emitted : Text}

theorem emitChunks_of_noParser (hparser : f.toolParser = none) (chunks : List (UInt32 × Text)) :
    f.emitChunks chunks = some { f with pending := f.pending ++ chunks.map tokenEvent } := by
  induction chunks generalizing f with
  | nil => simp [emitChunks]
  | cons chunk chunks ih =>
    have hchunk : f.emitTextChunk chunk =
        some { f with pending := f.pending ++ [tokenEvent chunk] } := by
      rw [emitTextChunk, hparser]
    rw [emitChunks, foldlM_cons, hchunk]
    simpa [emitChunks] using ih (f := { f with pending := f.pending ++ [tokenEvent chunk] }) hparser

/-- A filter that is done has what is pending, and nothing more. -/
theorem pull_done (hdone : f.done = true) (extra : TokenEvent) (tokens : List (UInt32 × Text)) :
    f.pull extra tokens = some f.pending := by
  cases tokens <;> simp [pull, hdone]

theorem pushClassified_clean (hparser : f.toolParser = none) :
    f.pushClassified .clean = some (true, { f with
      held := []
      pending := f.pending ++ f.held.map tokenEvent
      stop := f.stop.reset }) := by
  rw [pushClassified, emitChunks_of_noParser (f := { f with held := [] }) hparser]
  rfl

theorem pushClassified_full (hparser : f.toolParser = none) (start patternLen emitAt : Nat) :
    f.pushClassified (.full start patternLen emitAt) = some (true, { f with
      held := []
      pending := f.pending ++ (heldUpTo emitAt 0 f.held).map tokenEvent ++ [.ok .eos]
      done := true
      stop := f.stop.reset }) := by
  rw [pushClassified, emitChunks_of_noParser (f := { f with held := [] }) hparser,
    Option.bind_some, flushParser]
  dsimp only
  rw [hparser]
  rfl

theorem finalize_of_noParser (hparser : f.toolParser = none) (extra : TokenEvent) :
    ∃ f', f.finalize extra = some f' ∧
      f'.pending = f.pending ++ f.held.map tokenEvent ++ [.ok extra] := by
  rw [finalize, flushText, flushHeld,
    emitChunks_of_noParser (f := { f with held := [] }) hparser, Option.map_some,
    Option.bind_some, flushParser]
  dsimp only
  rw [hparser]
  exact ⟨_, rfl, rfl⟩

omit [JsonText] in
/-- A text with nothing to find in it goes on being one, if nothing is found in the buffer. -/
theorem Filtering.absent_append (h : Filtering patterns emitted f) {t : Text}
    (hbuf : ∀ j, ∀ p ∈ patterns, ¬ p.text <+: (f.stop.buf ++ t).drop j) :
    ¬ Occurs patterns (emitted ++ (f.stop.buf ++ t)) := by
  rintro ⟨p, hp, j, hpre⟩
  rcases Nat.lt_or_ge j emitted.length with hlt | hge
  · have hclear := h.clear.append (by simp) t
    rw [append_assoc] at hclear
    exact (hclear j hlt p.text (mem_map_of_mem hp)).1 hpre
  · rw [drop_append, drop_eq_nil_of_le hge, nil_append] at hpre
    exact hbuf _ p hp hpre

omit [JsonText] in
/-- If nothing in the buffer is to be held back, nothing in the text is. -/
theorem Filtering.clear_append (h : Filtering patterns emitted f) {t : Text}
    (hbuf : Clear (patterns.map (·.text)) (f.stop.buf ++ t).length (f.stop.buf ++ t)) :
    Clear (patterns.map (·.text)) (emitted ++ (f.stop.buf ++ t)).length
      (emitted ++ (f.stop.buf ++ t)) := by
  intro j hj
  rcases Nat.lt_or_ge j emitted.length with hlt | hge
  · have hclear := h.clear.append (by simp) t
    rw [append_assoc] at hclear
    exact hclear j hlt
  · rw [length_append] at hj
    rw [drop_append, drop_eq_nil_of_le hge, nil_append]
    exact hbuf _ (by omega)

omit [JsonText] in
/-- What is first in the buffer is first in the text. -/
theorem Filtering.standsFirst_append (h : Filtering patterns emitted f) {t : Text} {i : Nat}
    (hfirst : StandsFirst patterns (f.stop.buf ++ t) i) :
    StandsFirst patterns (emitted ++ f.stop.buf ++ t) (emitted.length + i) := by
  obtain ⟨⟨p, hp, hpre⟩, hmin⟩ := hfirst
  have hclear := h.clear.append (by simp) t
  rw [append_assoc] at hclear ⊢
  refine ⟨⟨p, hp, by rwa [drop_append, drop_eq_nil_of_le (by omega), nil_append,
    Nat.add_sub_cancel_left]⟩, fun j hj q hq hpre => ?_⟩
  rcases Nat.lt_or_ge j emitted.length with hlt | hge
  · exact (hclear j hlt q.text (mem_map_of_mem hq)).1 hpre
  · rw [drop_append, drop_eq_nil_of_le hge, nil_append] at hpre
    exact hmin _ (by omega) q hq hpre

/-- A filter without the parser that has what it is to have done with a token. -/
structure Pushed (patterns : List StopPattern) (emitted : Text) (f : OutputFilter) (t : Text)
    (f' : OutputFilter) (chunks : List (UInt32 × Text)) : Prop where
  pending : f'.pending = f.pending ++ chunks.map tokenEvent
  filtering : Filtering patterns (emitted ++ (chunks.map Prod.snd).flatten) f'
  text : emitted ++ (chunks.map Prod.snd).flatten ++ f'.stop.buf = emitted ++ f.stop.buf ++ t

/-- A filter without the parser that has found a pattern. -/
structure Stopped (patterns : List StopPattern) (emitted : Text) (f : OutputFilter) (t : Text)
    (f' : OutputFilter) (chunks : List (UInt32 × Text)) : Prop where
  pending : f'.pending = f.pending ++ chunks.map tokenEvent ++ [.ok .eos]
  done : f'.done = true
  text : CutsAt patterns (emitted ++ f.stop.buf ++ t) (emitted ++ (chunks.map Prod.snd).flatten)

/-- **What a token does to the filter.** -/
theorem pushToken_spec (hne : ∀ p ∈ patterns, p.text ≠ []) (h : Filtering patterns emitted f)
    (token : UInt32 × Text) :
    ∃ b f' chunks, f.pushToken token = some (b, f') ∧
      (Pushed patterns emitted f token.2 f' chunks ∨
        Stopped patterns emitted f token.2 f' chunks) := by
  have hlooks := h.looksFor
  rw [pushToken, if_neg (by simp [h.running])]
  by_cases hpatterns : patterns = []
  · -- nothing is looked for, and nothing is ever held
    subst hpatterns
    have hbuf : f.stop.buf = [] := by simp [h.held, h.idle rfl]
    have hemit : f.emitTextChunk token =
        some { f with pending := f.pending ++ [tokenEvent token] } := by
      rw [emitTextChunk, h.noParser]
    rw [if_pos (by simp [hlooks]), hemit, Option.map_some]
    refine ⟨true, _, [token], rfl, .inl ⟨rfl, ?_, ?_⟩⟩
    · exact ⟨h.noParser, h.running, hlooks, h.held, h.idle, by simp [Clear], by simp [Occurs]⟩
    · simp [hbuf]
  · rw [if_neg (by simpa [hlooks] using hpatterns)]
    have hspec := StopMatcher.push_spec (m := f.stop) (hlooks ▸ hne) token.2
    rw [hlooks] at hspec
    have hmatcher : (f.stop.push token.2).2 = { f.stop with buf := f.stop.buf ++ token.2 } := rfl
    have htext : ((f.held ++ [token]).map Prod.snd).flatten = f.stop.buf ++ token.2 := by
      simp [h.held]
    cases hpush : f.stop.push token.2 with
    | mk state stop =>
      rw [hpush] at hspec hmatcher
      dsimp only at hspec hmatcher ⊢
      subst hmatcher
      cases state with
      | clean =>
        obtain ⟨habsent, hclear⟩ := hspec
        refine ⟨true, _, f.held ++ [token], pushClassified_clean h.noParser, .inl ⟨rfl, ?_, ?_⟩⟩
        · rw [htext]
          refine ⟨h.noParser, h.running, hlooks, rfl, fun _ => rfl, ?_, ?_⟩
          · simpa [StopMatcher.reset] using h.clear_append hclear
          · simpa [StopMatcher.reset] using h.absent_append habsent
        · rw [htext]
          simp [StopMatcher.reset]
      | holding hold =>
        refine ⟨false, _, [], rfl, .inl ⟨by simp, ?_, by simp⟩⟩
        have hclear := h.clear.append (by simp) token.2
        rw [append_assoc] at hclear
        rw [map_nil, flatten_nil, append_nil]
        exact ⟨h.noParser, h.running, hlooks, htext.symm, fun hnil => absurd hnil hpatterns,
          hclear, h.absent_append hspec⟩
      | full start patternLen emitAt =>
        obtain ⟨i, hfirst, rfl, p, hleading, rfl⟩ := hspec
        have hfull := pushClassified_full
          (f := { f with
            stop := { f.stop with buf := f.stop.buf ++ token.2 }, held := f.held ++ [token] })
          h.noParser (strLen ((f.stop.buf ++ token.2).take i)) patternLen
          (strLen ((f.stop.buf ++ token.2).take i) + p.keepPrefix)
        refine ⟨true, _, _, hfull,
          .inr ⟨rfl, rfl, _, p, h.standsFirst_append hfirst, ?_, ?_⟩⟩
        · rwa [append_assoc, drop_length_add_append]
        · rw [heldUpTo_text, htext, Nat.sub_zero, takeBytes_strLen_take_add, append_assoc,
            take_length_add_append, drop_length_add_append, append_assoc]

/-- **What comes out of a filter**, for the tokens that are left of a reply. -/
theorem pull_ends (hne : ∀ p ∈ patterns, p.text ≠ []) (extra : TokenEvent)
    (tokens : List (UInt32 × Text)) (h : Filtering patterns emitted f) :
    ∃ (chunks : List (UInt32 × Text)) (last : TokenEvent),
      f.pull extra tokens = some (f.pending ++ chunks.map tokenEvent ++ [.ok last]) ∧
        Ends patterns extra (emitted ++ f.stop.buf) (tokens.map Prod.snd)
          (emitted ++ (chunks.map Prod.snd).flatten) last := by
  induction tokens generalizing f emitted with
  | nil =>
    obtain ⟨f', hfinal, hpending⟩ :=
      finalize_of_noParser (f := { f with pending := [] }) h.noParser extra
    refine ⟨f.held, extra, ?_, ?_⟩
    · rw [pull]
      dsimp only
      rw [h.running, if_neg (by simp), ← h.running, hfinal, Option.map_some, hpending]
      simp
    · rw [← h.held]
      exact .whole _
  | cons token tokens ih =>
    have hreset : Filtering patterns emitted { f with pending := [] } :=
      ⟨h.noParser, h.running, h.looksFor, h.held, h.idle, h.clear, h.absent⟩
    obtain ⟨b, f', chunks, hpush, hresult⟩ := pushToken_spec hne hreset token
    have hpull : f.pull extra (token :: tokens) =
        (f'.pull extra tokens).map fun events => f.pending ++ events := by
      rw [pull]
      dsimp only
      rw [if_neg (by simp [h.running]), hpush, Option.bind_some]
    rw [hpull]
    rcases hresult with hpushed | hstopped
    · obtain ⟨chunks', last, htail, hends⟩ := ih hpushed.filtering
      rw [htail, hpushed.pending]
      refine ⟨chunks ++ chunks', last, by simp, ?_⟩
      rw [hpushed.text] at hends
      have habsent := hpushed.filtering.absent
      rw [hpushed.text] at habsent
      rw [map_append, flatten_append, ← append_assoc]
      exact .next habsent hends
    · rw [pull_done hstopped.done, hstopped.pending]
      exact ⟨chunks, .eos, by simp, .found hstopped.text⟩

omit [JsonText] in
/-- **Where a reply is cut**: not at all if no pattern stands in it, and else where a pattern first
stands in what has been sampled by the time that one does. -/
theorem Ends.cut {extra last : TokenEvent} {s out : Text} {ts : List Text}
    (h : Ends patterns extra s ts out last) (habsent : ¬ Occurs patterns s) :
    ¬ Occurs patterns (s ++ ts.flatten) ∧ out = s ++ ts.flatten ∧ last = extra ∨
      ∃ k, (∀ j < k, ¬ Occurs patterns (s ++ (ts.take j).flatten)) ∧
        CutsAt patterns (s ++ (ts.take k).flatten) out ∧ last = .eos := by
  induction h with
  | whole s => exact .inl ⟨by simpa using habsent, by simp, rfl⟩
  | @found s t out ts hcut =>
    refine .inr ⟨1, fun j hj => ?_, by simpa using hcut, rfl⟩
    obtain rfl : j = 0 := by omega
    simpa using habsent
  | @next s t out ts last habsent' _ ih =>
    simp only [flatten_cons, ← append_assoc]
    rcases ih habsent' with hwhole | ⟨k, hbefore, hcut, hlast⟩
    · exact .inl hwhole
    · refine .inr ⟨k + 1, fun j hj => ?_, by simpa using hcut, hlast⟩
      cases j with
      | zero => simpa using habsent
      | succ j => simpa using hbefore j (by omega)

/-- **What comes out of a new filter** without the parser. -/
theorem pull_cut (hne : ∀ p ∈ patterns, p.text ≠ []) (extra : TokenEvent)
    (tokens : List (UInt32 × Text)) :
    ∃ (chunks : List (UInt32 × Text)) (last : TokenEvent),
      (new patterns).withoutToolCalls.pull extra tokens =
        some (chunks.map tokenEvent ++ [.ok last]) ∧
      let texts := tokens.map Prod.snd
      let out := (chunks.map Prod.snd).flatten
      (¬ Occurs patterns texts.flatten ∧ out = texts.flatten ∧ last = extra ∨
        ∃ k, (∀ j < k, ¬ Occurs patterns (texts.take j).flatten) ∧
          CutsAt patterns (texts.take k).flatten out ∧ last = .eos) := by
  have habsent : ¬ Occurs patterns [] := by
    rintro ⟨p, hp, i, hpre⟩
    rw [drop_nil, prefix_nil] at hpre
    exact hne p hp hpre
  have hstart : Filtering patterns [] (new patterns).withoutToolCalls :=
    ⟨rfl, rfl, rfl, rfl, fun _ => rfl, by simp [Clear], habsent⟩
  obtain ⟨chunks, last, hpull, hends⟩ := pull_ends hne extra tokens hstart
  exact ⟨chunks, last, hpull, hends.cut habsent⟩

/-- **What the filter emits.**  Without the parser, a reply comes out as tokens and one event that
ends it.  Their text is all of the reply if no pattern stands in it, and `extra` ends it; else it is
the reply up to the first place where a pattern stands by the time that one does, and the end of the
reply is the filter's. -/
theorem pull_emits (hne : ∀ p ∈ patterns, p.text ≠ [])
    (hkeep : ∀ p ∈ patterns, p.keepPrefix = 0) (extra : TokenEvent)
    (tokens : List (UInt32 × Text)) :
    ∃ (chunks : List (UInt32 × Text)) (last : TokenEvent),
      (new patterns).withoutToolCalls.pull extra tokens =
        some (chunks.map tokenEvent ++ [.ok last]) ∧
      let texts := tokens.map Prod.snd
      let out := (chunks.map Prod.snd).flatten
      (¬ Occurs patterns texts.flatten ∧ out = texts.flatten ∧ last = extra ∨
        ∃ k i, (∀ j < k, ¬ Occurs patterns (texts.take j).flatten) ∧
          StandsFirst patterns (texts.take k).flatten i ∧ out = texts.flatten.take i ∧
            last = .eos) := by
  obtain ⟨chunks, last, hpull, hwhole | ⟨k, hbefore, hcut, hlast⟩⟩ := pull_cut hne extra tokens
  · exact ⟨chunks, last, hpull, .inl hwhole⟩
  · obtain ⟨i, hfirst, hout⟩ := hcut.take hne hkeep ((tokens.map Prod.snd).drop k).flatten
    rw [← List.flatten_append, List.take_append_drop] at hout
    exact ⟨chunks, last, hpull, .inr ⟨k, i, hbefore, hfirst, hout, hlast⟩⟩

end

/-- A pattern that arrives in two tokens. -/
def splitPattern : List StopPattern := [⟨"user:".toList, 0⟩]

def splitTokens : List (UInt32 × Text) := [(1, "Paris.us".toList), (2, "er: and".toList)]

theorem pull_emits_split :
    letI := JsonText.table []
    ∃ (chunks : List (UInt32 × Text)) (last : TokenEvent),
      (new splitPattern).withoutToolCalls.pull .stopped splitTokens =
        some (chunks.map tokenEvent ++ [.ok last]) ∧
      let texts := splitTokens.map Prod.snd
      let out := (chunks.map Prod.snd).flatten
      (¬ Occurs splitPattern texts.flatten ∧ out = texts.flatten ∧ last = .stopped ∨
        ∃ k i, (∀ j < k, ¬ Occurs splitPattern (texts.take j).flatten) ∧
          StandsFirst splitPattern (texts.take k).flatten i ∧ out = texts.flatten.take i ∧
            last = .eos) :=
  let _ := JsonText.table []
  pull_emits (by simp [splitPattern]) (by simp [splitPattern]) .stopped splitTokens

end OutputFilter

end Backend
end Gen2
