import Gen2.Backend.ToolCallRuns
import Gen2.Lib.Markers

/-!
# Calls and reasoning

What stands between the markers of a reasoning block is to come out as text, calls and all.

* `thinkMarkers` says where the reasoning blocks of a text are, and `reasoningAfter` whether one is
  open behind what the parser has put out.  The markup of a call is no text.
* `Following`: the parser is where a reader of its texts is, and has nothing behind it that could
  yet become a marker.
* A block that is found to be no call comes out as text whole.  The parser goes past the openers in
  it, and no reader of its texts does; where there are none (`OpensNothing`), no call comes out of a
  reasoning block (`calls_outside_reasoning`).
-/

namespace Gen2
namespace Backend

open Lib List

/-- The markers of reasoning: an opener begins a block, and what closes a block of its kind ends
it. -/
def thinkMarkers : Markers Char (Option ThinkKind) where
  sought
    | none => [.xml, .bracket, .channel].map fun kind => (ThinkKind.opener kind, some kind)
    | some kind => [(kind.close, none)]
  ne q := by
    rcases q with - | - | - | - <;> decide
  apart q := by
    rcases q with - | - | - | - <;> decide +kernel
  inj q := by
    rcases q with - | - | - | - <;> decide

/-- A reader of what the parser puts out: what reasoning block is open, and what text could yet
become a marker.  A call ends a text. -/
def follow (r : List Empty × Option ThinkKind × Text) :
    ParserOutput → List Empty × Option ThinkKind × Text
  | .text text => thinkMarkers.scanner.feed r text
  | .toolCall _ => (r.1, r.2.1, [])

/-- The reasoning block that is open behind what has been put out. -/
def reasoningAfter (outputs : List ParserOutput) : Option ThinkKind :=
  (outputs.foldl follow ([], none, [])).2.1

/-! ## Following the parser -/

/-- A member of a joined list, where it comes from. -/
theorem flatMap_eq_append_cons {α β : Type} {f : α → List β} {l : List α} {before after : List β}
    {x : β} (h : l.flatMap f = before ++ x :: after) :
    ∃ done a left pre post, l = done ++ a :: left ∧ f a = pre ++ x :: post ∧
      before = done.flatMap f ++ pre := by
  induction l generalizing before with
  | nil => simp at h
  | cons a l ih =>
    rw [flatMap_cons] at h
    rcases append_eq_append_iff.1 h with ⟨more, rfl, hrest⟩ | ⟨more, ha, hrest⟩
    · obtain ⟨done, b, left, pre, post, rfl, hb, rfl⟩ := ih hrest
      exact ⟨a :: done, b, left, pre, post, rfl, hb, by simp⟩
    cases more with
    | nil =>
      have hrest : l.flatMap f = [] ++ x :: after := hrest.symm
      obtain ⟨done, b, left, pre, post, rfl, hb, hpre⟩ := ih hrest
      refine ⟨a :: done, b, left, pre, post, rfl, hb, ?_⟩
      rw [flatMap_cons, append_assoc, ← hpre, ha, append_nil, append_nil]
    | cons y more =>
      obtain ⟨rfl, -⟩ := cons.inj hrest
      exact ⟨[], a, l, before, more, rfl, ha, rfl⟩

section
variable [JsonText]

/-- The next round does not release a block with an opener in it as text that is none. -/
def ToolCallParser.OpensNothing (p : ToolCallParser) : Prop :=
  ∀ emitEnd malformed, p.round = some (.notACall emitEnd malformed) →
    Clear (thinkMarkers.texts none) emitEnd p.buf

omit [JsonText] in
/-- The parser is where its reader is. -/
structure Following (r : List Empty × Option ThinkKind × Text) (p : ToolCallParser) : Prop where
  state : r.2.1 = p.inThink
  clear : Clear (thinkMarkers.texts r.2.1) r.2.2.length (r.2.2 ++ p.buf)

variable {r : List Empty × Option ThinkKind × Text} {p : ToolCallParser}

omit [JsonText] in
/-- No text is as good as empty text. -/
theorem Following.foldl_textOutput (h : Following r p) (res : Resolution) :
    (res.textOutput p.buf).foldl follow r = thinkMarkers.scanner.feed r (p.buf.take res.textEnd) := by
  have hempty : thinkMarkers.scanner.feed r [] = r := by
    have hkeep := Markers.feed_of_clear (n := 0) (by simpa using h.clear)
    simpa using hkeep
  rw [Resolution.textOutput.eq_def]
  split
  · simpa [Resolution.textEnd] using hempty.symm
  · simpa [Resolution.textEnd] using hempty.symm
  · rfl

omit [JsonText] in
theorem foldl_calls {calls : List Generation.ToolCall} (hcalls : calls ≠ []) :
    (calls.map ParserOutput.toolCall).foldl follow r = (r.1, r.2.1, []) := by
  induction calls generalizing r with
  | nil => exact absurd rfl hcalls
  | cons call calls ih =>
    rw [map_cons, foldl_cons, follow]
    by_cases hnil : calls = []
    · rw [hnil]
      rfl
    · rw [ih hnil]

omit [JsonText] in
/-- Text in which no marker can begin. -/
theorem Following.release (h : Following r p) {n : Nat}
    (hclear : Clear (thinkMarkers.texts r.2.1) n p.buf) :
    thinkMarkers.scanner.feed r (p.buf.take n) = (r.1, r.2.1, r.2.2 ++ p.buf.take n) :=
  Markers.feed_of_clear (h.clear.concat hclear)

omit [JsonText] in
/-- A round that only releases such text. -/
theorem Following.keep (h : Following r p) {res : Resolution}
    (hclear : Clear (thinkMarkers.texts r.2.1) res.textEnd p.buf)
    (hcalls : res.calls = []) (hconsumed : res.consumedEnd = res.textEnd)
    (hthink : (p.after res).inThink = p.inThink) :
    Following ((res.textOutput p.buf ++ res.calls.map ParserOutput.toolCall).foldl follow r) (p.after res) := by
  rw [hcalls, map_nil, append_nil, h.foldl_textOutput, h.release hclear]
  refine ⟨h.state.trans hthink.symm, ?_⟩
  have hall := h.clear.concat hclear
  show Clear _ _ (r.2.2 ++ p.buf.take res.textEnd ++ p.buf.drop res.consumedEnd)
  rw [hconsumed, append_assoc, take_append_drop]
  refine hall.mono ?_
  rw [length_append, length_take]
  omega

omit [JsonText] in
/-- A round that goes up to behind a marker. -/
theorem Following.turn (h : Following r p) {res : Resolution} {start : Nat}
    {c : Text × Option ThinkKind} (hclear : Clear (thinkMarkers.texts r.2.1) start p.buf)
    (hc : c ∈ thinkMarkers.sought r.2.1) (hpre : c.1 <+: p.buf.drop start)
    (hend : res.textEnd = start + c.1.length) (hcalls : res.calls = [])
    (hthink : (p.after res).inThink = c.2) :
    Following ((res.textOutput p.buf ++ res.calls.map ParserOutput.toolCall).foldl follow r) (p.after res) := by
  rw [hcalls, map_nil, append_nil, h.foldl_textOutput, hend,
    Markers.feed_marker (h.clear.concat hclear) hc hpre]
  exact ⟨hthink.symm, fun j hj => absurd hj (Nat.not_lt_zero _)⟩

omit [JsonText] in
theorem thinkTexts_subset (p : ToolCallParser) :
    thinkMarkers.texts none ⊆ p.triggers.map Trigger.opener := by
  obtain ⟨protocol, buf, inThink, enabledTools, tally, atEos⟩ := p
  cases protocol <;> cases enabledTools <;>
    simp [Markers.texts, thinkMarkers, ToolCallParser.triggers, Trigger.opener]

/-- Where the text before a call ends, its reader is in no reasoning block. -/
theorem Following.complete (h : Following r p) {textEnd consumedEnd : Nat} {dialect : CallDialect}
    {calls : List Generation.ToolCall}
    (hround : p.round = some (.complete textEnd consumedEnd dialect calls)) :
    r.2.1 = none ∧ Clear (thinkMarkers.texts none) textEnd p.buf ∧ calls ≠ [] := by
  cases round_rounds hround with
  | @found start trigger _ hthink hfound hroom hresolve hresolves =>
    cases hresolves with
    | calls hstart _ _ hcalls =>
      exact ⟨h.state.trans hthink,
        ((clear_trigger hfound).mono hstart).subset (thinkTexts_subset p), hcalls⟩

/-- **A round keeps its reader with the parser.** -/
theorem Following.round (h : Following r p) (hopens : p.OpensNothing) {res : Resolution}
    (hround : p.round = some res) : Following (p.outputs.foldl follow r) (p.after res) := by
  have houtputs : p.outputs = res.textOutput p.buf ++ res.calls.map .toolCall := by
    rw [ToolCallParser.outputs, hround]
  rw [houtputs]
  cases round_rounds hround with
  | thinking kind hthink hclose =>
    have hstate := h.state.trans hthink
    refine h.keep ?_ rfl rfl rfl
    rw [hstate]
    exact clear_thinking hclose
  | leaves kind start hthink hclose =>
    have hstate := h.state.trans hthink
    refine h.turn (c := (kind.close, none)) ?_ ?_ (find_eq_some_iff.1 hclose).2.1 rfl rfl rfl
    · rw [hstate]
      exact clear_close hclose
    · rw [hstate]
      exact mem_singleton_self _
  | plain hthink hnone =>
    have hstate := h.state.trans hthink
    refine h.keep ?_ rfl rfl rfl
    rw [hstate]
    exact (clear_safeEnd hnone).subset (thinkTexts_subset p)
  | @found start trigger _ hthink hfound hroom hresolve hresolves =>
    have hstate := h.state.trans hthink
    have hbefore := (clear_trigger hfound).subset (thinkTexts_subset p)
    rw [← hstate] at hbefore
    cases hresolves with
    | think kind htrigger =>
      subst htrigger
      refine h.turn (c := (kind.opener, some kind)) hbefore ?_ (findTrigger_room hfound).2.1 rfl
        rfl rfl
      rw [hstate]
      cases kind <;> simp [thinkMarkers]
    | wait hstart => exact h.keep (hbefore.mono hstart) rfl rfl rfl
    | bare => exact h.keep (hstate ▸ hopens _ _ hround) rfl rfl rfl
    | noCall _ _ => exact h.keep (hstate ▸ hopens _ _ hround) rfl rfl rfl
    | calls hstart _ _ hcalls =>
      have hfeed := h.release (hbefore.mono hstart)
      rw [foldl_append, h.foldl_textOutput]
      simp only [Resolution.textEnd, Resolution.calls]
      rw [hfeed, foldl_calls hcalls]
      exact ⟨h.state, fun j hj => absurd hj (Nat.not_lt_zero _)⟩

omit [JsonText] in
theorem foldl_calls_state {calls : List ParserOutput}
    (h : ∀ o ∈ calls, ∃ call, o = .toolCall call) :
    (calls.foldl follow r).2.1 = r.2.1 := by
  induction calls generalizing r with
  | nil => rfl
  | cons o calls ih =>
    obtain ⟨call, rfl⟩ := h o mem_cons_self
    rw [foldl_cons, ih fun o ho => h o (mem_cons_of_mem _ ho)]
    rfl

omit [JsonText] in
theorem textOutput_text (res : Resolution) (buf : Text) {o : ParserOutput}
    (h : o ∈ res.textOutput buf) : ∃ text, o = .text text := by
  rw [Resolution.textOutput.eq_def] at h
  split at h
  · cases h
  · cases h
  · exact ⟨_, mem_singleton.1 h⟩

/-- A call in a round: the text before it leads into no reasoning block. -/
theorem Following.calls (h : Following r p) {pre post : List ParserOutput}
    {call : Generation.ToolCall} (houtputs : p.outputs = pre ++ .toolCall call :: post) :
    (pre.foldl follow r).2.1 = none := by
  rw [ToolCallParser.outputs] at houtputs
  cases hround : p.round with
  | none => simp [hround] at houtputs
  | some res =>
    simp only [hround] at houtputs
    have hsplit : ∃ more, pre = res.textOutput p.buf ++ more ∧
        res.calls.map ParserOutput.toolCall = more ++ .toolCall call :: post := by
      rcases append_eq_append_iff.1 houtputs with hsplit | ⟨more, htext, hrest⟩
      · exact hsplit
      cases more with
      | nil => exact ⟨[], by simpa using htext.symm, by simpa using hrest.symm⟩
      | cons o more =>
        obtain ⟨rfl, -⟩ := cons.inj hrest
        have hmem : ParserOutput.toolCall call ∈ res.textOutput p.buf := by simp [htext]
        obtain ⟨text, heq⟩ := textOutput_text res p.buf hmem
        cases heq
    obtain ⟨more, rfl, hcalls⟩ := hsplit
    have hmore : ∀ o ∈ more, ∃ call, o = .toolCall call := by
      intro o ho
      have hmem : o ∈ res.calls.map ParserOutput.toolCall := by
        rw [hcalls]
        exact mem_append_left _ ho
      obtain ⟨call, -, rfl⟩ := mem_map.1 hmem
      exact ⟨call, rfl⟩
    cases res with
    | complete textEnd consumedEnd dialect calls =>
      obtain ⟨hnone, hclear, -⟩ := h.complete hround
      have hfeed := h.release (hnone ▸ hclear)
      rw [foldl_append, foldl_calls_state hmore, h.foldl_textOutput]
      simp only [Resolution.textEnd]
      rw [hfeed]
      exact hnone
    | _ => simp [Resolution.calls] at hcalls

theorem following_keeps : Keeps (fun r q => q.outputs.foldl follow r) Following
    ToolCallParser.OpensNothing where
  round h hopens hround := h.round hopens hround
  arrive t h := ⟨h.state, by
    rw [← append_assoc]
    exact h.clear.append (by simp) t⟩
  eos h := ⟨h.state, h.clear⟩

/-- **No call comes out of a reasoning block**, where no block is released with an opener in it. -/
theorem calls_outside_reasoning (protocol : Protocol) (enabledTools : Option (List Text))
    (chunks : List Text)
    (hopens : ∀ q ∈ ((ToolCallParser.start protocol enabledTools).runCourse chunks).rounds,
      q.OpensNothing) (before after : List ParserOutput) (call : Generation.ToolCall)
    (h : ((ToolCallParser.start protocol enabledTools).runCourse chunks).outputs =
      before ++ .toolCall call :: after) : reasoningAfter before = none := by
  have hstart : Following ([], none, []) (ToolCallParser.start protocol enabledTools) := by
    refine ⟨?_, fun j hj => absurd hj (Nat.not_lt_zero _)⟩
    cases enabledTools <;> rfl
  have hholds := following_keeps.runCourse hstart hopens
  obtain ⟨done, q, left, pre, post, hrounds, hq, rfl⟩ := flatMap_eq_append_cons h
  have hfollow := hholds.before done q left hrounds
  rw [reasoningAfter, List.foldl_append, List.foldl_flatMap]
  exact hfollow.calls hq

end

/-- Empty arguments are all that is read. -/
abbrev emptyArguments : JsonText := JsonText.table [("\x7b\x7d", .object [])]

/-- A call in a reasoning block whose opener arrives in two pieces, and the same call behind it. -/
def rehearsedTwice : List Text :=
  ["<thi".toList, "nk>[TOOL_CALLS]a\x7b\x7d</think>[TOOL_CALLS]a\x7b\x7d".toList]

/-- The text before the call that is made. -/
def rehearsedText : List ParserOutput :=
  [.text "<think>".toList, .text "[TOOL_CALLS]a\x7b\x7d</think>".toList]

/-- What was found is no call. -/
def Resolution.isNotACall : Resolution → Bool
  | .notACall .. => true
  | _ => false

theorem calls_outside_reasoning_rehearsed :
    letI := emptyArguments
    reasoningAfter rehearsedText = none := by
  let _ := emptyArguments
  have hnone : ((ToolCallParser.start .auto none).runCourse rehearsedTwice).rounds.all
      (fun q => !q.round.any Resolution.isNotACall) = true := by decide +kernel
  refine calls_outside_reasoning .auto none rehearsedTwice (fun q hq emitEnd malformed hround => ?_)
    rehearsedText [] ⟨none, "a".toList, "\x7b\x7d".toList⟩ (by decide +kernel)
  have hq := List.all_eq_true.1 hnone q hq
  simp [hround, Resolution.isNotACall] at hq

/-- The block is no call, and comes out as text; behind the opener in it, the call is made all the
same. -/
theorem opener_in_a_block :
    letI := emptyArguments
    ¬ ∀ before after call,
      ((ToolCallParser.start .auto none).runCourse
        ["[TOOL_CALLS][[THINK]] [TOOL_CALLS]a\x7b\x7d".toList]).outputs =
          before ++ .toolCall call :: after → reasoningAfter before = none := by
  intro h
  have hcall := h [.text "[TOOL_CALLS][[THINK]]".toList, .text " ".toList] []
    ⟨none, "a".toList, "\x7b\x7d".toList⟩ (by decide +kernel)
  exact absurd hcall (by decide +kernel)

end Backend
end Gen2
