import Gen2.Backend.StopCuts
import Gen2.Backend.ToolCallRuns

/-!
# A reply with nothing to find in it

`backend/common/output_filter.rs` with the tool-call parser, for a reply in which no stop pattern
stands and nothing that a call begins with: all of it comes out.

* `OutputFilter.pullRounds` is what the pullers' `next` makes of a filter, where a step may push
  several tokens, as a step of drafts does, and where the reply may end with an error.
* Reasoning is no markup: its blocks pass through the parser (`round_passes`).
* A reply that ends otherwise than by an error comes out whole (`pullRounds_passes`); an error keeps
  back what the filter holds.
-/

namespace Gen2
namespace Backend

open Lib Generation List ToolCallParser

/-! ## Plain text -/

/-- What a call begins with. -/
def callOpeners : List Text := [tagOpen, bracketTag, gemmaOpen, funcOpen, argsTag]

/-- Nothing that a call begins with stands in the text. -/
def NoMarkup (t : Text) : Prop := ∀ opener ∈ callOpeners, ¬ opener <:+: t

instance (t : Text) : Decidable (NoMarkup t) :=
  inferInstanceAs (Decidable (∀ opener ∈ callOpeners, ¬ opener <:+: t))

/-- Nothing is there to find. -/
structure Plain (patterns : List StopPattern) (t : Text) : Prop where
  absent : ¬ Occurs patterns t
  noMarkup : NoMarkup t

theorem NoMarkup.part {s t : Text} (h : NoMarkup t) (hst : s <:+: t) : NoMarkup s :=
  fun opener hmem hin => h opener hmem (hin.trans hst)

theorem Occurs.whole {patterns : List StopPattern} {s t : Text} (h : Occurs patterns s)
    (hst : s <:+: t) : Occurs patterns t := by
  obtain ⟨p, hp, i, hpre⟩ := h
  obtain ⟨front, back, hsplit⟩ := (hpre.isInfix.trans (drop_suffix i s).isInfix).trans hst
  refine ⟨p, hp, front.length, ?_⟩
  rw [← hsplit, append_assoc, drop_left]
  exact prefix_append _ _

theorem Plain.part {patterns : List StopPattern} {s t : Text} (h : Plain patterns t)
    (hst : s <:+: t) : Plain patterns s :=
  ⟨fun hoccurs => h.absent (hoccurs.whole hst), h.noMarkup.part hst⟩

theorem Plain.ne {patterns : List StopPattern} {t : Text} (h : Plain patterns t) :
    ∀ p ∈ patterns, p.text ≠ [] := by
  intro p hp hnil
  exact h.absent ⟨p, hp, 0, hnil ▸ nil_prefix⟩

/-! ## The parser -/

/-- The text that has been put out. -/
def outputText (outputs : List ParserOutput) : Text :=
  outputs.flatMap fun
    | .text t => t
    | .toolCall _ => []

theorem outputText_append (xs ys : List ParserOutput) :
    outputText (xs ++ ys) = outputText xs ++ outputText ys :=
  flatMap_append

/-- What is found in such a text is reasoning. -/
theorem thinkOpen_of_found {p : ToolCallParser} (h : NoMarkup p.buf) {start : Nat}
    {trigger : Trigger} (hfound : p.findTrigger = some (start, trigger)) :
    ∃ kind, trigger = .thinkOpen kind := by
  obtain ⟨-, hpre, -⟩ := findTrigger_room hfound
  have hin : trigger.opener <:+: p.buf := hpre.isInfix.trans (drop_suffix start p.buf).isInfix
  cases trigger with
  | thinkOpen kind => exact ⟨kind, rfl⟩
  | _ => exact absurd hin (h _ (by simp [callOpeners, Trigger.opener]))

section
variable [JsonText]

/-- **A round of plain text puts out what it takes off the buffer.** -/
theorem round_passes {p : ToolCallParser} (h : NoMarkup p.buf) :
    ∃ r, p.round = some r ∧ outputText p.outputs = p.buf.take r.consumedEnd := by
  have houtputs : ∀ {r : Resolution}, p.round = some r → r.calls = [] →
      r.consumedEnd = r.textEnd → outputText p.outputs = p.buf.take r.consumedEnd := by
    intro r hround hcalls hend
    rw [outputs, hround]
    dsimp only
    rw [hcalls, hend, map_nil, append_nil]
    cases r with
    | needMore holdFrom =>
      cases holdFrom <;> simp [Resolution.textOutput, outputText, Resolution.textEnd]
    | complete textEnd consumedEnd dialect calls =>
      cases textEnd <;> simp [Resolution.textOutput, outputText, Resolution.textEnd]
    | _ => simp [Resolution.textOutput, outputText]
  cases hthink : p.inThink with
  | some kind =>
    cases hclose : find kind.close p.buf with
    | some start =>
      have hround : p.round = some (.leaveThink (start + kind.close.length)) := by
        rw [ToolCallParser.round, hthink]
        dsimp only
        rw [hclose]
      exact ⟨_, hround, houtputs hround rfl rfl⟩
    | none =>
      have hround : p.round = some (.needMore (safeReleaseEnd p.buf [kind.close])) := by
        rw [ToolCallParser.round, hthink]
        dsimp only
        rw [hclose]
      exact ⟨_, hround, houtputs hround rfl rfl⟩
  | none =>
    cases hfound : p.findTrigger with
    | none =>
      have hround := round_of_none hthink hfound
      exact ⟨_, hround, houtputs hround rfl rfl⟩
    | some found =>
      obtain ⟨start, trigger⟩ := found
      obtain ⟨kind, rfl⟩ := thinkOpen_of_found h hfound
      have hround := round_of_found hthink hfound
      exact ⟨_, hround, houtputs hround rfl rfl⟩

theorem Drains.passes {p : ToolCallParser} {c : Course} (hdrains : Drains p c)
    (h : NoMarkup p.buf) :
    ∃ p', c.final = some p' ∧ outputText c.outputs ++ p'.buf = p.buf := by
  induction hdrains with
  | @panics p hpanics =>
    obtain ⟨r, hround, -⟩ := round_passes h
    rw [hround] at hpanics
    cases hpanics
  | @waits p r hround hwaits =>
    obtain ⟨r', hround', htext⟩ := round_passes h
    obtain rfl := Option.some.inj (hround.symm.trans hround')
    refine ⟨p.after r, rfl, ?_⟩
    rw [Course.outputs, flatMap_singleton, htext]
    exact take_append_drop _ _
  | @next p r c hround hwaits hrest ih =>
    obtain ⟨r', hround', htext⟩ := round_passes h
    obtain rfl := Option.some.inj (hround.symm.trans hround')
    obtain ⟨p', hfinal, hmore⟩ := ih (h.part (drop_suffix _ _).isInfix)
    refine ⟨p', hfinal, ?_⟩
    rw [Course.outputs, flatMap_cons, outputText_append, htext, append_assoc]
    rw [Course.outputs] at hmore
    rw [hmore]
    exact take_append_drop _ _

theorem push_passes {p : ToolCallParser} {t : Text} (h : NoMarkup (p.buf ++ t)) :
    ∃ outputs p', p.push t = some (outputs, p') ∧ outputText outputs ++ p'.buf = p.buf ++ t := by
  rw [push, pushCourse]
  split
  next hempty =>
    refine ⟨[], p, rfl, ?_⟩
    rw [isEmpty_iff.1 hempty, append_nil]
    rfl
  · obtain ⟨p', hfinal, htext⟩ := (drainInto_drains { p with buf := p.buf ++ t }).passes h
    refine ⟨_, p', ?_, htext⟩
    rw [hfinal]
    rfl

theorem flush_passes {p : ToolCallParser} (h : NoMarkup p.buf) :
    ∃ outputs p', p.flush = some (outputs, p') ∧ outputText outputs = p.buf ∧ p'.buf = [] := by
  by_cases hbuf : p.buf = []
  · refine ⟨[], p, ?_, by rw [hbuf]; rfl, hbuf⟩
    rw [flush, if_pos (by simp [hbuf])]
  obtain ⟨p', hfinal, htext⟩ := (drainInto_drains { p with atEos := true }).passes h
  have hcourse : drainInto { p with atEos := true } =
      ⟨(drainInto { p with atEos := true }).rounds, some p'⟩ := by rw [← hfinal]
  refine ⟨_, _, flush_of_drains hbuf hcourse, ?_, rfl⟩
  rw [outputText_append]
  refine Eq.trans (congrArg _ ?_) htext
  by_cases hleft : p'.buf = []
  · simp [hleft, outputText]
  · simp [hleft, outputText]

end

/-! ## The filter -/

namespace OutputFilter

section
variable [JsonText]

/-- `push_err`. -/
def pushErr (f : OutputFilter) (err : ExecError) : OutputFilter :=
  { f with pending := f.pending ++ [.error err], done := true }

/-- How a puller ends a reply: `finalize`, or `push_err`. -/
def endWith (f : OutputFilter) : Event → Option OutputFilter
  | .ok extra => f.finalize extra
  | .error err => some (f.pushErr err)

/-- The tokens of one step of a puller. -/
def pushTokens (f : OutputFilter) (tokens : List (UInt32 × Text)) : Option OutputFilter :=
  tokens.foldlM (fun f token => (f.pushToken token).map Prod.snd) f

/-- What a puller gets out of a filter, step by step: what is pending comes first, a filter that is
done gets nothing more, and one that is not when the steps are over is told how the reply ends. -/
def pullRounds (ending : Event) :
    OutputFilter → List (List (UInt32 × Text)) → Option (List Event)
  | f, rounds =>
    let ready := f.pending
    let f := { f with pending := [] }
    if f.done then some ready
    else
      match rounds with
      | [] => (f.endWith ending).map fun f' => ready ++ f'.pending
      | tokens :: rounds =>
        (f.pushTokens tokens).bind fun f' =>
          (pullRounds ending f' rounds).map fun events => ready ++ events

end

/-- The text in the parser. -/
def parserText (f : OutputFilter) : Text :=
  match f.toolParser with
  | none => []
  | some parser => parser.buf

/-- The text that is in the filter and not pending yet. -/
def behind (f : OutputFilter) : Text := f.parserText ++ f.stop.buf

/-- Chunks have gone through the parser. -/
structure Sends (f : OutputFilter) (t : Text) (f' : OutputFilter) (new : List Event) : Prop where
  pending : f'.pending = f.pending ++ new
  text : emittedText new ++ f'.parserText = f.parserText ++ t
  stop : f'.stop = f.stop
  held : f'.held = f.held
  done : f'.done = f.done

/-- A filter that goes on: what it holds is what the stop matcher has seen. -/
structure Running (patterns : List StopPattern) (f : OutputFilter) : Prop where
  running : f.done = false
  looksFor : f.stop.patterns = patterns
  held : f.stop.buf = (f.held.map Prod.snd).flatten
  idle : patterns = [] → f.held = []

theorem emittedText_append (xs ys : List Event) :
    emittedText (xs ++ ys) = emittedText xs ++ emittedText ys :=
  flatMap_append

theorem emittedText_parserEvents (id : UInt32) (outputs : List ParserOutput) :
    emittedText (outputs.flatMap (parserEvents id)) = outputText outputs := by
  rw [emittedText, flatMap_assoc, outputText]
  refine flatMap_congr fun output _ => ?_
  cases output with
  | text t => cases t <;> simp [parserEvents, tokenEvent]
  | toolCall call => simp [parserEvents]

section
variable [JsonText] {patterns : List StopPattern} {f : OutputFilter}

theorem emitTextChunk_sends (chunk : UInt32 × Text) (h : NoMarkup (f.parserText ++ chunk.2)) :
    ∃ f' new, f.emitTextChunk chunk = some f' ∧ Sends f chunk.2 f' new := by
  rw [emitTextChunk]
  cases hparser : f.toolParser with
  | none =>
    refine ⟨_, [tokenEvent chunk], rfl, rfl, ?_, rfl, rfl, rfl⟩
    simp [parserText, hparser, emittedText, tokenEvent]
  | some parser =>
    have hbuf : f.parserText = parser.buf := by rw [parserText, hparser]
    rw [hbuf] at h
    obtain ⟨outputs, parser', hpush, htext⟩ := push_passes h
    dsimp only
    rw [hpush]
    refine ⟨_, outputs.flatMap (parserEvents chunk.1), rfl, rfl, ?_, rfl, rfl, rfl⟩
    rw [emittedText_parserEvents, hbuf, ← htext]
    rfl

theorem emitChunks_sends (chunks : List (UInt32 × Text))
    (h : NoMarkup (f.parserText ++ (chunks.map Prod.snd).flatten)) :
    ∃ f' new, f.emitChunks chunks = some f' ∧
      Sends f (chunks.map Prod.snd).flatten f' new := by
  induction chunks generalizing f with
  | nil => exact ⟨f, [], rfl, by simp, by simp [emittedText], rfl, rfl, rfl⟩
  | cons chunk chunks ih =>
    rw [map_cons, flatten_cons, ← append_assoc] at h
    obtain ⟨f₁, new, hchunk, hsends⟩ :=
      emitTextChunk_sends chunk (h.part (prefix_append _ _).isInfix)
    rw [← hsends.text, append_assoc] at h
    obtain ⟨f₂, more, hchunks, hrest⟩ := ih (h.part (suffix_append _ _).isInfix)
    refine ⟨f₂, new ++ more, ?_, ?_, ?_, hrest.stop.trans hsends.stop,
      hrest.held.trans hsends.held, hrest.done.trans hsends.done⟩
    · rw [emitChunks, foldlM_cons, hchunk]
      exact hchunks
    · rw [hrest.pending, hsends.pending, append_assoc]
    · rw [emittedText_append, append_assoc, hrest.text, ← append_assoc, hsends.text,
        map_cons, flatten_cons, append_assoc]

/-- **A token of plain text goes on through the filter.** -/
theorem pushToken_passes (token : UInt32 × Text) (h : Running patterns f)
    (hplain : Plain patterns (f.behind ++ token.2)) :
    ∃ b f' new, f.pushToken token = some (b, f') ∧ Running patterns f' ∧
      f'.pending = f.pending ++ new ∧ emittedText new ++ f'.behind = f.behind ++ token.2 := by
  have hlooks := h.looksFor
  rw [pushToken, if_neg (by simp [h.running])]
  by_cases hpatterns : patterns = []
  · have hheld := h.idle hpatterns
    have hbuf : f.stop.buf = [] := by rw [h.held, hheld]; rfl
    have hbehind : f.behind = f.parserText := by rw [behind, hbuf, append_nil]
    obtain ⟨f', new, hemit, hsends⟩ := emitTextChunk_sends token (hbehind ▸ hplain.noMarkup)
    rw [if_pos (by simp [hlooks, hpatterns]), hemit]
    refine ⟨true, f', new, rfl, ⟨hsends.done.trans h.running, ?_, ?_, fun _ => ?_⟩,
      hsends.pending, ?_⟩
    · rw [hsends.stop, hlooks]
    · rw [hsends.stop, hsends.held, h.held]
    · rw [hsends.held, hheld]
    · rw [behind, hsends.stop, hbuf, append_nil, hbehind, hsends.text]
  · rw [if_neg (by simpa [hlooks] using hpatterns)]
    have hspec := StopMatcher.push_spec (m := f.stop) (hlooks ▸ hplain.ne) token.2
    have hmatcher : (f.stop.push token.2).2 = { f.stop with buf := f.stop.buf ++ token.2 } := rfl
    have htext : ((f.held ++ [token]).map Prod.snd).flatten = f.stop.buf ++ token.2 := by
      simp [h.held]
    cases hpush : f.stop.push token.2 with
    | mk state stop =>
      rw [hpush] at hspec hmatcher
      dsimp only at hspec hmatcher ⊢
      subst hmatcher
      cases state with
      | clean =>
        obtain ⟨f', new, hemit, hsends⟩ := emitChunks_sends
          (f := { f with stop := { f.stop with buf := f.stop.buf ++ token.2 }, held := [] })
          (f.held ++ [token]) (by
            rw [htext]
            simpa [behind, parserText] using hplain.noMarkup)
        refine ⟨true, { f' with stop := f'.stop.reset }, new, ?_, ?_, hsends.pending, ?_⟩
        · rw [pushClassified, hemit]
          rfl
        · refine ⟨hsends.done.trans h.running, ?_, ?_, fun hnil => absurd hnil hpatterns⟩
          · rw [StopMatcher.reset, hsends.stop]
            exact hlooks
          · rw [hsends.held]
            rfl
        · have hsent := hsends.text
          rw [htext] at hsent
          simpa [behind, parserText, StopMatcher.reset] using hsent
      | holding hold =>
        refine ⟨false, _, [], rfl, ⟨h.running, hlooks, htext.symm,
          fun hnil => absurd hnil hpatterns⟩, by simp, ?_⟩
        simp [behind, parserText, emittedText]
      | full start patternLen emitAt =>
        -- what is found would stand in the text
        obtain ⟨i, ⟨⟨p, hp, hpre⟩, -⟩, -⟩ := hspec
        refine absurd (Occurs.whole ⟨p, hlooks ▸ hp, i, hpre⟩ ?_) hplain.absent
        rw [behind, append_assoc]
        exact (suffix_append _ _).isInfix

theorem pushTokens_passes (tokens : List (UInt32 × Text)) (h : Running patterns f)
    (hplain : Plain patterns (f.behind ++ (tokens.map Prod.snd).flatten)) :
    ∃ f' new, f.pushTokens tokens = some f' ∧ Running patterns f' ∧
      f'.pending = f.pending ++ new ∧
        emittedText new ++ f'.behind = f.behind ++ (tokens.map Prod.snd).flatten := by
  induction tokens generalizing f with
  | nil => exact ⟨f, [], rfl, h, by simp, by simp [emittedText]⟩
  | cons token tokens ih =>
    rw [map_cons, flatten_cons, ← append_assoc] at hplain
    obtain ⟨b, f₁, new, hpush, hrunning, hpending, htext⟩ :=
      pushToken_passes token h (hplain.part (prefix_append _ _).isInfix)
    rw [← htext, append_assoc] at hplain
    obtain ⟨f₂, more, hpushes, hrunning', hpending', htext'⟩ :=
      ih hrunning (hplain.part (suffix_append _ _).isInfix)
    refine ⟨f₂, new ++ more, ?_, hrunning', ?_, ?_⟩
    · rw [pushTokens, foldlM_cons, hpush]
      exact hpushes
    · rw [hpending', hpending, append_assoc]
    · rw [emittedText_append, append_assoc, htext', ← append_assoc, htext,
        map_cons, flatten_cons, append_assoc]

/-- At the end all that is left comes out. -/
theorem finalize_passes (extra : TokenEvent) (hextra : emittedText [.ok extra] = [])
    (h : Running patterns f) (hplain : Plain patterns f.behind) :
    ∃ f' new, f.finalize extra = some f' ∧ f'.pending = f.pending ++ new ∧
      emittedText new = f.behind := by
  have hmarkup : NoMarkup (f.parserText ++ (f.held.map Prod.snd).flatten) := by
    rw [← h.held]
    exact hplain.noMarkup
  obtain ⟨f₁, new, hemit, hsends⟩ := emitChunks_sends (f := { f with held := [] }) f.held hmarkup
  have hbehind : emittedText new ++ f₁.parserText = f.behind := by
    rw [hsends.text, ← h.held]
    rfl
  rw [finalize, flushText, flushHeld, hemit, Option.map_some, Option.bind_some, flushParser]
  dsimp only
  cases hparser : f₁.toolParser with
  | none =>
    refine ⟨_, new ++ [.ok extra], rfl, ?_, ?_⟩
    · dsimp only
      rw [hsends.pending, append_assoc]
    · rw [emittedText_append, hextra, append_nil, ← hbehind, parserText, hparser,
        append_nil]
  | some parser =>
    have hbuf : f₁.parserText = parser.buf := by rw [parserText, hparser]
    have hrest : NoMarkup parser.buf := by
      rw [← hbuf]
      exact (hbehind ▸ hplain.noMarkup).part (suffix_append _ _).isInfix
    obtain ⟨outputs, parser', hflush, htext, -⟩ := flush_passes hrest
    dsimp only
    rw [hflush]
    refine ⟨_, new ++ outputs.flatMap (parserEvents 0) ++ [.ok extra], rfl, ?_, ?_⟩
    · dsimp only
      rw [hsends.pending]
      simp
    · rw [emittedText_append, emittedText_append, emittedText_parserEvents, hextra, htext,
        append_nil, ← hbuf, hbehind]

/-- **All of a reply with nothing to find in it comes out**; where it ends with an error, what the
filter still holds does not. -/
theorem pullRounds_passes {ending : Event} (hending : emittedText [ending] = [])
    (rounds : List (List (UInt32 × Text))) (h : Running patterns f)
    (hplain : Plain patterns (f.behind ++ (rounds.flatten.map Prod.snd).flatten)) :
    ∃ events lost, f.pullRounds ending rounds = some events ∧
      emittedText events ++ lost =
        emittedText f.pending ++ f.behind ++ (rounds.flatten.map Prod.snd).flatten ∧
      (∀ extra, ending = .ok extra → lost = []) := by
  induction rounds generalizing f with
  | nil =>
    have hrunning : Running patterns { f with pending := [] } :=
      ⟨h.running, h.looksFor, h.held, h.idle⟩
    have hdone := h.running
    cases ending with
    | ok extra =>
      obtain ⟨f', new, hfinal, hpending, htext⟩ :=
        finalize_passes extra hending hrunning (hplain.part (prefix_append _ _).isInfix)
      refine ⟨f.pending ++ new, [], ?_, ?_, fun _ _ => rfl⟩
      · rw [pullRounds]
        dsimp only
        rw [if_neg (by simp [hdone]), endWith, hfinal, Option.map_some, hpending]
        rfl
      · rw [emittedText_append, htext]
        simp [behind, parserText]
    | error err =>
      refine ⟨f.pending ++ [.error err], f.behind, ?_, ?_, fun extra heq => nomatch heq⟩
      · rw [pullRounds]
        dsimp only
        rw [if_neg (by simp [hdone]), endWith, pushErr]
        simp
      · rw [emittedText_append, hending]
        simp
  | cons tokens rounds ih =>
    have hrunning : Running patterns { f with pending := [] } :=
      ⟨h.running, h.looksFor, h.held, h.idle⟩
    have hdone := h.running
    rw [flatten_cons, map_append, flatten_append, ← append_assoc] at hplain
    obtain ⟨f', new, hpush, hnext, hpending, htext⟩ :=
      pushTokens_passes tokens hrunning (hplain.part (prefix_append _ _).isInfix)
    have hrest : Plain patterns (f'.behind ++ (rounds.flatten.map Prod.snd).flatten) := by
      refine hplain.part ?_
      have hsame : ({ f with pending := [] } : OutputFilter).behind = f.behind := rfl
      rw [← hsame, ← htext, append_assoc]
      exact (suffix_append _ _).isInfix
    obtain ⟨events, lost, hpull, hall, hok⟩ := ih hnext hrest
    refine ⟨f.pending ++ events, lost, ?_, ?_, hok⟩
    · rw [pullRounds]
      dsimp only
      rw [if_neg (by simp [hdone]), hpush, Option.bind_some, hpull, Option.map_some]
    · have hsame : ({ f with pending := [] } : OutputFilter).behind = f.behind := rfl
      rw [emittedText_append, append_assoc, hall, hpending, nil_append, htext, hsame,
        flatten_cons, map_append, flatten_append]
      simp

end

end OutputFilter

end Backend
end Gen2
