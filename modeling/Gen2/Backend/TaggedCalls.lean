import Gen2.Backend.ToolCallRuns
import Gen2.Backend.GemmaArguments

/-!
# Calls in tags

`backend/common/tool_calls.rs`, `resolve_tag`: a call that stands as JSON between the tags, in
whatever chunks it arrives.

* Until a closing tag is there the whole buffer is held back, and the first that arrives settles
  what comes out (`run_tagged`).
* `tagged_call_iff`: a call is put out, and nothing else, if and only if its text does not contain
  the closing tag.  The search for it does not see that it stands in a string of the arguments,
  where JSON leaves it as it is.
-/

namespace Gen2
namespace Backend

open Lib Reader List ToolCallParser

/-! ## The opening tag -/

/-- No opener stands in the beginning of a tag. -/
theorem find_opener_tag (trigger : Trigger) : ∀ k < tagOpen.length,
    find trigger.opener (tagOpen.take k) = none := by
  cases trigger with
  | thinkOpen kind => cases kind <;> decide +kernel
  | _ => decide +kernel

theorem findTrigger_opening {p : ToolCallParser} {k : Nat} (hk : k < tagOpen.length)
    (hbuf : p.buf = tagOpen.take k) : p.findTrigger = none := by
  cases hfound : p.findTrigger with
  | none => rfl
  | some found =>
    obtain ⟨j, trigger⟩ := found
    obtain ⟨-, hpre, -⟩ := findTrigger_room hfound
    rw [hbuf] at hpre
    have hne : trigger.opener ≠ [] := length_pos_iff.1 (opener_pos trigger)
    exact absurd hpre ((find_eq_none_iff hne).1 (find_opener_tag trigger k hk) j)

theorem longestHold_opening {k : Nat} (hk : k < tagOpen.length) :
    longestHold tagOpen (tagOpen.take k) (min (tagOpen.length - 1) (tagOpen.take k).length) = k := by
  revert k
  decide +kernel

/-- All of the beginning of a tag is held back. -/
theorem safeEnd_opening {p : ToolCallParser} {k : Nat} (htag : .tag ∈ p.triggers)
    (hk : k < tagOpen.length) (hbuf : p.buf = tagOpen.take k) : p.safeEnd = 0 := by
  have hheld : tagOpen ∈ p.holdLiterals := openers_held p (mem_map_of_mem htag)
  have hlen : p.buf.length = k := by
    rw [hbuf, length_take]
    omega
  have hhold := (holdLen_spec p.holdLiterals p.buf).2 tagOpen hheld
  rw [hbuf, longestHold_opening hk, ← hbuf] at hhold
  have hsafe : safeReleaseEnd p.buf p.holdLiterals = 0 := by
    rw [safeReleaseEnd, hlen]
    omega
  rw [safeEnd]
  split
  · rw [hsafe, Nat.zero_min]
  · exact hsafe

/-- A tag at the front is found. -/
theorem findTrigger_tag {p : ToolCallParser} (htag : .tag ∈ p.triggers) {s : Text}
    (hbuf : p.buf = tagOpen ++ s) : p.findTrigger = some (0, .tag) := by
  have hne : ∀ c ∈ p.triggers.map fun trigger => (trigger.opener, trigger), c.1 ≠ [] :=
    forall_mem_map.2 fun trigger _ => length_pos_iff.1 (opener_pos trigger)
  cases hfound : p.findTrigger with
  | none =>
    have hmem : (tagOpen, Trigger.tag) ∈ p.triggers.map fun trigger => (trigger.opener, trigger) :=
      mem_map_of_mem (f := fun trigger : Trigger => (trigger.opener, trigger)) htag
    exact absurd (hbuf ▸ prefix_append tagOpen s) (earliest_none hne hfound 0 hmem)
  | some found =>
    obtain ⟨start, trigger⟩ := found
    obtain ⟨hmem, hpre, -, hmin⟩ := findTrigger_room hfound
    obtain rfl : start = 0 := by
      by_contra hpos
      exact hmin 0 (Nat.pos_of_ne_zero hpos) .tag htag (hbuf ▸ prefix_append tagOpen s)
    rw [hbuf, drop_zero] at hpre
    -- no other opener begins like a tag
    obtain rfl : trigger = .tag := by
      have hcross : trigger.opener <+: tagOpen ∨ tagOpen <+: trigger.opener :=
        prefix_or_prefix_of_prefix hpre (prefix_append tagOpen s)
      cases trigger with
      | thinkOpen kind => cases kind <;> revert hcross <;> decide
      | tag => rfl
      | _ => revert hcross; decide
    rfl

/-- There is no closing tag yet. -/
def Waiting (seen : Text) : Prop :=
  (∃ k < tagOpen.length, seen = tagOpen.take k) ∨
    ∃ s, seen = tagOpen ++ s ∧ find tagClose s = none

/-- So it is, or it has come. -/
theorem waiting_or_closed {seen u : Text} (h : seen <+: tagOpen ++ u) :
    Waiting seen ∨ ∃ s i, seen = tagOpen ++ s ∧ s <+: u ∧ find tagClose s = some i := by
  rcases prefix_or_prefix_of_prefix h (prefix_append tagOpen u) with hshort | ⟨s, rfl⟩
  · by_cases hlen : seen.length < tagOpen.length
    · exact .inl (.inl ⟨seen.length, hlen, prefix_iff_eq_take.1 hshort⟩)
    · have hall : seen = tagOpen ++ [] := by
        rw [append_nil]
        exact hshort.eq_of_length_le (Nat.le_of_not_lt hlen)
      exact .inl (.inr ⟨[], hall, by decide⟩)
  · cases hfind : find tagClose s with
    | none => exact .inl (.inr ⟨s, rfl, hfind⟩)
    | some i => exact .inr ⟨s, i, rfl, (prefix_append_right_inj tagOpen).1 h, hfind⟩

section
variable [JsonText]

/-! ## What is between the tags -/

omit [JsonText] in
theorem skip_tagOpen (s : Text) :
    Reader.skip tagOpen.length (tagOpen ++ s) = .done tagOpen tagOpen.length := by
  rw [Reader.skip, if_pos (by simp), take_left]

theorem resolveTag_more {s : Text} (h : find tagClose s = none) :
    resolveTag (tagOpen ++ s) = .more := by
  rw [resolveTag, bind_apply, skip_tagOpen]
  dsimp only
  rw [drop_left, bind_apply, Reader.upTo, h]

/-- What stands between the tags is read as a call. -/
theorem resolveTag_call {s : Text} {i : Nat} (h : find tagClose s = some i)
    {call : Generation.ToolCall} (hcall : parseTagJson (trim (s.take i)) = some call) :
    resolveTag (tagOpen ++ s) =
      .done (.calls .cleanJson [call]) (tagOpen.length + (i + tagClose.length)) := by
  rw [resolveTag, bind_apply, skip_tagOpen]
  dsimp only
  rw [drop_left, bind_apply, Reader.upTo, h]
  dsimp only
  rw [hcall]
  rfl

/-- It is not. -/
theorem resolveTag_noCall {s : Text} {i : Nat} (h : find tagClose s = some i)
    (hcall : parseTagJson (trim (s.take i)) = none)
    (hfunc : funcOpen.isPrefixOf (trim (s.take i)) = false) :
    resolveTag (tagOpen ++ s) =
      .done (.noCall true) (tagOpen.length + (i + tagClose.length)) := by
  rw [resolveTag, bind_apply, skip_tagOpen]
  dsimp only
  rw [drop_left, bind_apply, Reader.upTo, h]
  dsimp only
  rw [hcall, hfunc]
  rfl

/-! ## Runs -/

section
variable {p : ToolCallParser}

theorem round_tag (hthink : p.inThink = none) (htag : .tag ∈ p.triggers) {s : Text}
    (hbuf : p.buf = tagOpen ++ s) :
    p.round = Resolution.ofLook 0 0 tagOpen.length (resolveTag (tagOpen ++ s)) := by
  rw [round_of_found hthink (findTrigger_tag htag hbuf), resolve, drop_zero, hbuf]

theorem round_waiting (hthink : p.inThink = none) (htag : .tag ∈ p.triggers)
    (h : Waiting p.buf) : p.round = some (.needMore 0) := by
  rcases h with ⟨k, hk, hbuf⟩ | ⟨s, hbuf, hnone⟩
  · rw [round_of_none hthink (findTrigger_opening hk hbuf), safeEnd_opening htag hk hbuf]
  · rw [round_tag hthink htag hbuf, resolveTag_more hnone]
    rfl

/-- Everything is held back. -/
theorem push_waiting (hthink : p.inThink = none) (htag : .tag ∈ p.triggers) {chunk : Text}
    (h : Waiting (p.buf ++ chunk)) :
    p.push chunk = some ([], { p with buf := p.buf ++ chunk }) := by
  rw [push, pushCourse]
  by_cases hempty : chunk.isEmpty = true
  · rw [if_pos hempty, isEmpty_iff.1 hempty, append_nil]
    rfl
  have hround : ToolCallParser.round { p with buf := p.buf ++ chunk } = some (.needMore 0) :=
    round_waiting hthink htag h
  rw [if_neg hempty, (drainInto_drains _).of_waits hround rfl]
  dsimp only [Course.outputs]
  rw [flatMap_singleton, outputs, hround]
  rfl

/-- **The first closing tag settles what comes out**: so far nothing has, and now the rounds are
made that begin with all that has arrived. -/
theorem run_tagged {chunks : List Text} (hthink : p.inThink = none) (htag : .tag ∈ p.triggers)
    (hwait : Waiting p.buf) {u : Text} (htext : p.buf ++ chunks.flatten = tagOpen ++ u) {i : Nat}
    (hclose : find tagClose u = some i) :
    ∃ s later c, s ++ later.flatten = u ∧ find tagClose s = some i ∧
      Drains { p with buf := tagOpen ++ s } c ∧
      p.run chunks =
        c.final.bind fun p' => (p'.run later).map fun more => c.outputs ++ more := by
  induction chunks generalizing p with
  | nil =>
    rw [flatten_nil, append_nil] at htext
    rcases hwait with ⟨k, hk, hbuf⟩ | ⟨s, hbuf, hnone⟩
    · have hlen := congrArg length (hbuf.symm.trans htext)
      rw [length_take, length_append] at hlen
      omega
    · obtain rfl := append_cancel_left (hbuf.symm.trans htext)
      rw [hnone] at hclose
      cases hclose
  | cons chunk chunks ih =>
    rw [flatten_cons, ← append_assoc] at htext
    by_cases hmore : Waiting (p.buf ++ chunk)
    · obtain ⟨s, later, c, hsplit, hfind, hdrains, hrun⟩ :=
        ih (p := { p with buf := p.buf ++ chunk }) hthink htag hmore htext
      refine ⟨s, later, c, hsplit, hfind, hdrains, ?_⟩
      rw [ToolCallParser.run, push_waiting hthink htag hmore, ← hrun]
      simp
    · have hseen : p.buf ++ chunk <+: tagOpen ++ u := htext ▸ prefix_append _ _
      obtain ⟨s, j, hbuf, ⟨rest, rfl⟩, hfind⟩ := (waiting_or_closed hseen).resolve_left hmore
      have hrest : chunks.flatten = rest := by
        rw [hbuf, append_assoc] at htext
        exact append_cancel_left (append_cancel_left htext)
      obtain rfl : j = i := Option.some.inj ((find_append hfind rest).symm.trans hclose)
      have hne : chunk.isEmpty = false := by
        rw [Bool.eq_false_iff]
        intro hempty
        rw [isEmpty_iff.1 hempty, append_nil] at hmore
        exact hmore hwait
      refine ⟨s, chunks, _, by rw [hrest], hfind, drainInto_drains _, ?_⟩
      rw [ToolCallParser.run, ToolCallParser.push, ToolCallParser.pushCourse, hne,
        if_neg Bool.false_ne_true, hbuf]
      cases hfinal : (ToolCallParser.drainInto { p with buf := tagOpen ++ s }).final <;> rfl

/-- With nothing more to come, nothing comes out. -/
theorem run_nothing {later : List Text} (hbuf : p.buf = []) (h : later.flatten = []) :
    p.run later = some [] := by
  induction later with
  | nil => rw [ToolCallParser.run, ToolCallParser.flush, hbuf]; rfl
  | cons chunk later ih =>
    rw [flatten_cons, append_eq_nil_iff] at h
    rw [ToolCallParser.run, ToolCallParser.push, ToolCallParser.pushCourse, h.1]
    rw [isEmpty_nil, if_pos rfl, Option.map_some, Option.bind_some]
    dsimp only
    rw [ih h.2]
    rfl

/-- A call, and nothing behind it. -/
theorem run_tagged_call {chunks : List Text} (hthink : p.inThink = none)
    (htag : .tag ∈ p.triggers) (hwait : Waiting p.buf) {body : Text}
    (htext : p.buf ++ chunks.flatten = tagOpen ++ (body ++ tagClose))
    (hclose : find tagClose body = none) {call : Generation.ToolCall}
    (hcall : parseTagJson (trim body) = some call) : p.run chunks = some [.toolCall call] := by
  have hfirst : find tagClose (body ++ tagClose) = some body.length := by
    have hfind := find_append_self (p := tagClose) (by decide) (by decide) hclose []
    rwa [append_nil] at hfind
  obtain ⟨s, later, c, hsplit, hfind, hdrains, hrun⟩ := run_tagged hthink htag hwait htext hfirst
  -- the closing tag is the end of the text
  obtain ⟨rfl, hlater⟩ : s = body ++ tagClose ∧ later.flatten = [] := by
    have hroom := find_le hfind
    have hpre : s <+: body ++ tagClose := hsplit ▸ prefix_append s _
    have hall : s = body ++ tagClose :=
      hpre.eq_of_length_le (by rw [length_append]; exact hroom)
    refine ⟨hall, ?_⟩
    rw [hall] at hsplit
    exact append_cancel_left (hsplit.trans (append_nil _).symm)
  have hbody : parseTagJson (trim ((body ++ tagClose).take body.length)) = some call := by
    rw [take_left, hcall]
  set q : ToolCallParser := { p with buf := tagOpen ++ (body ++ tagClose) } with hq
  have hround : q.round = some (.complete 0
      (0 + (tagOpen.length + (body.length + tagClose.length))) .cleanJson [call]) := by
    rw [round_tag (p := q) hthink htag rfl, resolveTag_call hfirst hbody]
    rfl
  obtain ⟨c', hdrains', rfl⟩ := hdrains.of_next hround rfl
  have hempty : (q.after (.complete 0 (0 + (tagOpen.length + (body.length + tagClose.length)))
      .cleanJson [call])).buf = [] := by
    show drop (0 + (tagOpen.length + (body.length + tagClose.length)))
      (tagOpen ++ (body ++ tagClose)) = []
    rw [drop_eq_nil_iff, length_append, length_append]
    omega
  set q' := q.after (.complete 0 (0 + (tagOpen.length + (body.length + tagClose.length)))
    .cleanJson [call]) with hq'
  have hround' : q'.round = some (.needMore 0) :=
    round_waiting hthink htag (.inl ⟨0, by decide, hempty⟩)
  obtain rfl := hdrains'.of_waits hround' rfl
  have houtputs : q.outputs = [.toolCall call] ∧ q'.outputs = [] := by
    rw [outputs, outputs, hround, hround']
    exact ⟨rfl, rfl⟩
  have hend : (q'.after (.needMore 0)).buf = [] := by
    show q'.buf.drop 0 = []
    rw [hempty, drop_nil]
  rw [hrun, Option.bind_some, run_nothing hend hlater, Course.outputs]
  simp [houtputs]

/-- A body that is no call comes out as text. -/
theorem run_tagged_text {chunks : List Text} (hthink : p.inThink = none)
    (htag : .tag ∈ p.triggers) (hwait : Waiting p.buf) {u : Text}
    (htext : p.buf ++ chunks.flatten = tagOpen ++ u) {i : Nat} (hclose : find tagClose u = some i)
    (hcall : parseTagJson (trim (u.take i)) = none)
    (hfunc : funcOpen.isPrefixOf (trim (u.take i)) = false) {outputs : List ParserOutput}
    (hrun : p.run chunks = some outputs) : ∃ t more, outputs = .text t :: more := by
  obtain ⟨s, later, c, rfl, hfind, hdrains, hcourse⟩ := run_tagged hthink htag hwait htext hclose
  have htake : (s ++ later.flatten).take i = s.take i := by
    have hroom := find_le hfind
    rw [take_append_of_le_length (by omega)]
  rw [htake] at hcall hfunc
  have hround : ToolCallParser.round { p with buf := tagOpen ++ s } =
      some (.notACall (0 + (tagOpen.length + (i + tagClose.length))) true) := by
    rw [round_tag (p := { p with buf := tagOpen ++ s }) hthink htag rfl,
      resolveTag_noCall hfind hcall hfunc]
    rfl
  obtain ⟨c', -, rfl⟩ := hdrains.of_next hround rfl
  rw [hcourse] at hrun
  obtain ⟨p', -, hlater⟩ := Option.bind_eq_some_iff.1 hrun
  obtain ⟨more, -, rfl⟩ := Option.map_eq_some_iff.1 hlater
  rw [Course.outputs, flatMap_cons, outputs, hround]
  exact ⟨_, _, rfl⟩

end

/-! ## A call -/

/-- What a call is written from. -/
abbrev callValue (name : String) (args : List (String × Json)) : Json :=
  .object [("name", .string name), ("arguments", .object args)]

/-- What is read as a call is one. -/
theorem parseTagJson_callValue {t : Text} {name : String} {args : List (String × Json)}
    (h : JsonText.fromStr t = some (callValue name args)) :
    parseTagJson t = some ⟨none, name.toList, JsonText.toText (.object args)⟩ := by
  rw [parseTagJson, h]
  simp [argumentsOf, Json.get, Json.asStr, findSome?, lookup_cons]

omit [JsonText] in
/-- What begins without white space does so when the white space at its end is left out. -/
theorem trim_take {t : Text} (ht : ∃ c rest, t = c :: rest ∧ isWhitespace c = false) (n : Nat) :
    ∃ m ≤ n, trim (t.take n) = t.take m := by
  obtain ⟨c, rest, rfl, hc⟩ := ht
  obtain ⟨lead, trail, hsplit, hlead, -⟩ := trim_split ((c :: rest).take n)
  obtain rfl : lead = [] := by
    cases n with
    | zero => exact (append_eq_nil_iff.1 hsplit.symm).1
    | succ n =>
      cases lead with
      | nil => rfl
      | cons d lead =>
        rw [take_succ_cons, cons_append] at hsplit
        have hd := hlead d mem_cons_self
        rw [← (cons.inj hsplit).1, hc] at hd
        cases hd
  rw [nil_append] at hsplit
  have hpre : trim ((c :: rest).take n) <+: (c :: rest).take n := ⟨trail, hsplit.symm⟩
  refine ⟨(trim ((c :: rest).take n)).length, ?_, ?_⟩
  · exact hpre.length_le.trans (length_take_le _ _)
  · exact prefix_iff_eq_take.1 (hpre.trans ( take_prefix _ _))

theorem solid_callValue (name : String) (args : List (String × Json)) :
    Solid ((callValue name args).write numberText) :=
  .of_ends (by decide) (by decide) _

/-- **A call between tags is put out, and nothing else**, if and only if its text does not contain
the closing tag. -/
theorem tagged_call_iff {protocol : Protocol} (hprotocol : protocol = .auto ∨ protocol = .tagJson)
    (enabledTools : Option (List Text)) {name : String} {args : List (String × Json)}
    (hread : JsonText.fromStr ((callValue name args).write numberText) = some (callValue name args))
    (hcut : ∀ n < ((callValue name args).write numberText).length,
      JsonText.fromStr (((callValue name args).write numberText).take n) = none)
    {chunks : List Text}
    (hchunks : chunks.flatten = tagOpen ++ ((callValue name args).write numberText ++ tagClose)) :
    (ToolCallParser.start protocol enabledTools).run chunks =
        some [.toolCall ⟨none, name.toList, JsonText.toText (.object args)⟩] ↔
      ¬ tagClose <:+: (callValue name args).write numberText := by
  set t := (callValue name args).write numberText with ht
  have hsolid : Solid t := solid_callValue name args
  have hthink : (ToolCallParser.start protocol enabledTools).inThink = none := by
    cases enabledTools <;> rfl
  have hbuf : (ToolCallParser.start protocol enabledTools).buf = [] := by
    cases enabledTools <;> rfl
  have htag : .tag ∈ (ToolCallParser.start protocol enabledTools).triggers := by
    rcases hprotocol with rfl | rfl <;> cases enabledTools <;>
      simp [ToolCallParser.start, ToolCallParser.triggers, ToolCallParser.new,
        ToolCallParser.withEnabledTools]
  have hwait : Waiting (ToolCallParser.start protocol enabledTools).buf :=
    .inl ⟨0, by decide, hbuf⟩
  have htext : (ToolCallParser.start protocol enabledTools).buf ++ chunks.flatten =
      tagOpen ++ (t ++ tagClose) := by rw [hbuf, hchunks, List.nil_append]
  cases hclose : find tagClose t with
  | none =>
    have hcall := parseTagJson_callValue hread
    rw [← hsolid.trim] at hcall
    have hrun := run_tagged_call hthink htag hwait htext hclose hcall
    refine iff_of_true hrun ?_
    rintro ⟨front, back, hmid⟩
    refine (find_eq_none_iff (by decide)).1 hclose front.length ?_
    rw [← hmid, List.append_assoc, List.drop_left]
    exact List.prefix_append _ _
  | some i =>
    have hroom := find_le hclose
    have hi : i < t.length := by
      have hpos : 0 < tagClose.length := by decide
      omega
    have hfirst : find tagClose (t ++ tagClose) = some i := find_append hclose tagClose
    obtain ⟨m, hm, htrim⟩ := trim_take hsolid.head i
    have htake : trim ((t ++ tagClose).take i) = t.take m := by
      rw [List.take_append_of_le_length (by omega), htrim]
    have hnone : parseTagJson (trim ((t ++ tagClose).take i)) = none := by
      rw [htake, parseTagJson, hcut m (by omega)]
      rfl
    have hfunc : funcOpen.isPrefixOf (trim ((t ++ tagClose).take i)) = false := by
      rw [htake]
      cases m with
      | zero => rfl
      | succ m => rfl
    refine iff_of_false (fun hrun => ?_) (fun hnot => hnot ?_)
    · obtain ⟨text, more,
      houtputs⟩ := run_tagged_text hthink htag hwait htext hfirst hnone hfunc hrun
      cases houtputs
    · obtain ⟨-, ⟨back, hback⟩, -⟩ := find_eq_some_iff.1 hclose
      refine ⟨t.take i, back, ?_⟩
      rw [List.append_assoc, hback, List.take_append_drop]

end

/-- The arguments of a call that writes about tags. -/
def aboutTags : List (String × Json) := [("x", .string "</tool_call>")]

/-- The values of the example. -/
def aboutTagsJson : List (String × Json) :=
  [("\x7b\"name\":\"f\",\"arguments\":\x7b\"x\":\"</tool_call>\"\x7d\x7d", callValue "f" aboutTags),
    ("\x7b\"x\":\"</tool_call>\"\x7d", .object aboutTags)]

/-- A call whose argument holds the closing tag is cut there, and put out as text. -/
theorem tag_in_argument :
    letI := JsonText.table aboutTagsJson
    JsonText.fromStr ((callValue "f" aboutTags).write numberText) = some (callValue "f" aboutTags) ∧
      (ToolCallParser.start .tagJson none).run
          [tagOpen ++ ((callValue "f" aboutTags).write numberText ++ tagClose)] =
        some [.text "<tool_call>\x7b\"name\":\"f\",\"arguments\":\x7b\"x\":\"</tool_call>".toList,
          .text "\"\x7d\x7d</tool_call>".toList] ∧
      (ToolCallParser.start .tagJson none).run
          [tagOpen ++ ((callValue "f" aboutTags).write numberText ++ tagClose)] ≠
        some [.toolCall ⟨none, "f".toList, JsonText.toText (.object aboutTags)⟩] := by
  let _ := JsonText.table aboutTagsJson
  have hrun : (ToolCallParser.start .tagJson none).run
      [tagOpen ++ ((callValue "f" aboutTags).write numberText ++ tagClose)] =
        some [.text "<tool_call>\x7b\"name\":\"f\",\"arguments\":\x7b\"x\":\"</tool_call>".toList,
          .text "\"\x7d\x7d</tool_call>".toList] := by decide +kernel
  refine ⟨by rfl, hrun, fun hcall => ?_⟩
  have houtputs := Option.some.inj (hrun.symm.trans hcall)
  cases houtputs

/-- The values of another call, with a quote and braces in its argument. -/
def quotedJson : List (String × Json) :=
  [("\x7b\"name\":\"f\",\"arguments\":\x7b\"x\":\"\\\"\x7d</tool\"\x7d\x7d",
    callValue "f" [("x", .string "\"\x7d</tool")]),
    ("\x7b\"x\":\"\\\"\x7d</tool\"\x7d", .object [("x", .string "\"\x7d</tool")])]

theorem tagged_quoted :
    letI := JsonText.table quotedJson
    (ToolCallParser.start .auto (some [])).run ["<tool_".toList,
        "call>\x7b\"name\":\"f\",\"arguments\":\x7b\"x\":\"\\\"\x7d</to".toList,
        "ol\"\x7d\x7d</tool_call>".toList] =
        some [.toolCall ⟨none, "f".toList,
          JsonText.toText (.object [("x", .string "\"\x7d</tool")])⟩] ↔
      ¬ tagClose <:+: (callValue "f" [("x", .string "\"\x7d</tool")]).write numberText := by
  let _ := JsonText.table quotedJson
  exact tagged_call_iff (.inl rfl) (some []) (by rfl) (by decide +kernel) (by rfl)

end Backend
end Gen2
