import Gen2.Backend.Escapes
import Gen2.Backend.FallsThrough
import Gen2.Backend.KeptCalls

/-!
# When the tool-call parser panics

`backend/common/tool_calls.rs` and `healing.rs`: a slice that begins or ends inside of a character
panics.  The offsets are those of ASCII characters, but for four.

* `balanced_brace_end` looks for a quote token at every byte outside of JSON strings.
* `quote_gemma_object_keys` copies an escape as two bytes.
* `resolve_rehearsal` takes the name from the byte behind the beginning of the character in front.
* `drain_into` logs the first 120 bytes of the buffer where markup falls through; `snippet`.

`SoundAt` says of what a round finds that none of the four is taken inside of a character, in terms
of the text.  `round_iff` is the step, and `runs_iff` is about whole runs: **the parser does not
panic if and only if all the rounds of the run are `Sound`**.
-/

namespace Gen2
namespace Backend

open Lib Lib.Reader List ToolCallParser Resolution

/-! ## The snippet -/

/-- `&t[..n]`; `none` if it panics. -/
def sliceTo (t : Text) (n : Nat) : Option Text :=
  let cut := takeBytes n t
  if strLen cut = n then some cut else none

/-- What is logged of markup that falls through. -/
def snippet (buf : Text) (emitEnd : Nat) : Option Text :=
  sliceTo buf (min (min (strLen (buf.take emitEnd)) (strLen buf)) 120)

/-- The markup up to the rest of the buffer is short, or a character ends where the snippet does. -/
def SnippetFits (buf rest : Text) : Prop :=
  ∀ markup, buf = markup ++ rest →
    strLen markup ≤ 120 ∨ ∃ front back, buf = front ++ back ∧ strLen front = 120

theorem takeBytes_prefix (n : Nat) (t : Text) : takeBytes n t <+: t := by
  induction t generalizing n with
  | nil => exact prefix_refl _
  | cons c t ih =>
    rw [takeBytes]
    split
    · exact cons_prefix_cons.2 ⟨rfl, ih _⟩
    · exact nil_prefix

/-- A slice up to a byte is one up to the end of a character. -/
theorem sliceTo_ne_none_iff {t : Text} {n : Nat} :
    sliceTo t n ≠ none ↔ ∃ front back, t = front ++ back ∧ strLen front = n := by
  rw [sliceTo]
  constructor
  · intro h
    split at h
    next heq =>
      obtain ⟨back, hback⟩ := takeBytes_prefix n t
      exact ⟨takeBytes n t, back, hback.symm, heq⟩
    · exact absurd rfl h
  · rintro ⟨front, back, rfl, rfl⟩
    have hcut : takeBytes (strLen front) (front ++ back) = front := by
      have htake := takeBytes_strLen_take front.length (front ++ back)
      rwa [take_left] at htake
    rw [hcut, if_pos rfl]
    exact Option.some_ne_none _

theorem snippet_ne_none_iff {buf rest : Text} (h : rest <:+ buf) :
    snippet buf (buf.length - rest.length) ≠ none ↔ SnippetFits buf rest := by
  obtain ⟨markup, rfl⟩ := h
  have htake : (markup ++ rest).take ((markup ++ rest).length - rest.length) = markup := by
    rw [length_append, Nat.add_sub_cancel, take_left]
  have hle : strLen markup ≤ strLen (markup ++ rest) := by
    rw [strLen_append]
    omega
  rw [snippet, htake, Nat.min_eq_left hle, sliceTo_ne_none_iff]
  constructor
  · rintro ⟨front, back, hsplit, hlen⟩ markup' heq
    obtain rfl := append_cancel_right heq
    by_cases hshort : strLen markup ≤ 120
    · exact .inl hshort
    · exact .inr ⟨front, back, hsplit, by omega⟩
  · intro hfits
    by_cases hshort : strLen markup ≤ 120
    · exact ⟨markup, rest, rfl, by omega⟩
    · obtain hle | ⟨front, back, hsplit, hlen⟩ := hfits markup rfl
      · exact absurd hle hshort
      · exact ⟨front, back, hsplit, by omega⟩

/-! ## The name of a rehearsal -/

theorem isMultibyte_of_isNameChar {c : Char} (h : isNameChar c = true) : isMultibyte c = false := by
  have hle := (toNat_of_isGemmaNameChar (c := c) (by rw [isGemmaNameChar, h, Bool.true_or])).2
  have hone : c.utf8Size = 1 := by
    rw [Char.utf8Size_eq_one_iff, UInt32.le_iff_toNat_le]
    exact Nat.le_trans hle (by decide)
  simp [isMultibyte, hone]

/-- The name at the end of a text, behind another character. -/
theorem trailingName_append {front name : Text} {c : Char} (hc : isNameChar c = false)
    (hname : ∀ d ∈ name, isNameChar d = true) : trailingName (front ++ c :: name) = name := by
  have hall : ∀ d ∈ name.reverse, isNameChar d = true := fun d hd => hname d (mem_reverse.1 hd)
  rw [trailingName, reverse_append, reverse_cons, append_assoc,
    takeWhile_append_of_pos hall, singleton_append,
    takeWhile_cons_of_neg (by simp [hc]), append_nil, reverse_reverse]

theorem trailingName_split (before : Text) : ∃ front, before = front ++ trailingName before ∧
    ∀ d ∈ trailingName before, isNameChar d = true := by
  refine ⟨(before.reverse.dropWhile isNameChar).reverse, ?_, fun d hd => ?_⟩
  · rw [trailingName, ← reverse_append, takeWhile_append_dropWhile, reverse_reverse]
  · exact mem_takeWhile_imp (mem_reverse.1 hd)

/-- **The name is cut out inside of a character** where one of several bytes stands in front. -/
theorem rehearsalName_eq_none_iff {enabledTools : Option (List Text)} {before : Text} :
    rehearsalName enabledTools before = none ↔ ∃ front c name, before = front ++ c :: name ∧
      (∀ d ∈ name, isNameChar d = true) ∧ isMultibyte c = true := by
  obtain ⟨front, hsplit, hname⟩ := trailingName_split before
  have hfront : before.take (before.length - (trailingName before).length) = front := by
    have hlen := congrArg length hsplit
    rw [length_append] at hlen
    rw [hlen, Nat.add_sub_cancel]
    have hleft : (front ++ trailingName before).take front.length = front := take_left
    rwa [← hsplit] at hleft
  have hnone : rehearsalName enabledTools before = none ↔
      front.getLast?.any isMultibyte = true := by
    rw [rehearsalName, hfront]
    constructor
    · intro h
      by_contra hnot
      rw [if_neg hnot] at h
      split at h <;> cases h
    · intro h
      rw [if_pos h]
  rw [hnone]
  constructor
  · intro h
    cases hlast : front.getLast? with
    | none => simp [hlast] at h
    | some c =>
      obtain ⟨init, rfl⟩ := getLast?_eq_some_iff.1 hlast
      rw [append_assoc, singleton_append] at hsplit
      exact ⟨init, c, _, hsplit, hname, by simpa [hlast] using h⟩
  · rintro ⟨init, c, name, rfl, hchars, hwide⟩
    have hc : isNameChar c = false := by
      by_contra hnot
      rw [isMultibyte_of_isNameChar (Bool.eq_true_of_not_eq_false hnot)] at hwide
      cases hwide
    rw [trailingName_append hc hchars, ← singleton_append, ← append_assoc] at hsplit
    obtain rfl := append_cancel_right hsplit
    simp [hwide]

section
variable [JsonText]

/-- What a round logs; `none` if it panics over it. -/
def ToolCallParser.snippets (p : ToolCallParser) : Option (List Text) :=
  match p.round with
  | some (.notACall emitEnd true) => (snippet p.buf emitEnd).map fun text => [text]
  | _ => some []

/-! ## Rounds -/

/-- What stands at a trigger makes no slice end inside of a character; `logs` says whether the line
about markup that falls through is logged. -/
structure SoundAt (logs : Bool) (q : ToolCallParser) (start : Nat) (trigger : Trigger) : Prop where
  scanned : trigger = .gemma → ∀ name b, GemmaCall (q.buf.drop start) name b → BraceSafe b
  healed : trigger = .gemma → ∀ name body tail rest,
    GemmaCall (q.buf.drop start) name (body ++ tail) →
    ObjectEnds (body ++ tail) body.length → CloserRead gemmaClose q.atEos tail rest →
      ∀ c ∈ escapedInArguments (between body), isMultibyte c = false
  named : trigger = .rehearsal → ∀ front c name, q.buf.take start = front ++ c :: name →
    (∀ d ∈ name, isNameChar d = true) → isMultibyte c = false
  logged : logs = true → ∀ rest, FallsThrough q.atEos trigger (q.buf.drop start) rest →
    SnippetFits q.buf rest

/-- A round makes no slice that ends inside of a character. -/
def ToolCallParser.Sound (logs : Bool) (q : ToolCallParser) : Prop :=
  q.inThink = none → ∀ start trigger, q.findTrigger = some (start, trigger) →
    SoundAt logs q start trigger

/-- A round does not panic. -/
def ToolCallParser.Returns (logs : Bool) (q : ToolCallParser) : Prop :=
  q.round ≠ none ∧ (logs = true → q.snippets ≠ none)

variable {callStart start openerLen : Nat}

omit [JsonText] in
theorem ofLook_eq_none_iff {look : Look Verdict} :
    ofLook callStart start openerLen look = none ↔ look = .crash := by
  cases look with
  | crash => exact ⟨fun _ => rfl, fun _ => rfl⟩
  | more => exact ⟨fun h => (nomatch h), fun h => nomatch h⟩
  | done v len => cases v <;> exact ⟨fun h => (nomatch h), fun h => nomatch h⟩

omit [JsonText] in
theorem ofLook_eq_malformed_iff {emitEnd : Nat} {look : Look Verdict} :
    ofLook callStart start openerLen look = some (.notACall emitEnd true) ↔
      ∃ len, look = .done (.noCall true) len ∧ emitEnd = start + len := by
  cases look with
  | crash => simp [ofLook]
  | more => simp [ofLook]
  | done v len =>
    cases v with
    | calls dialect calls => simp [ofLook]
    | bare => simp [ofLook]
    | noCall malformed =>
      simp only [ofLook, Option.some.injEq, notACall.injEq, Look.done.injEq,
        Verdict.noCall.injEq]
      constructor
      · rintro ⟨rfl, rfl⟩
        exact ⟨len, ⟨rfl, rfl⟩, rfl⟩
      · rintro ⟨_, ⟨rfl, rfl⟩, rfl⟩
        exact ⟨rfl, rfl⟩

variable {logs : Bool} {q : ToolCallParser}

/-- A round with a resolver returns if and only if the resolver does not crash, and the markup that
it reports fits. -/
theorem returns_of_resolver {f : Reader Char Verdict} {firm : Prop} (hreads : Reads firm f)
    (hstart : start ≤ q.buf.length)
    (hround : q.round = ofLook callStart start openerLen (f (q.buf.drop start))) :
    q.Returns logs ↔ ¬ Comes f (q.buf.drop start) none ∧ (logs = true → ∀ rest,
      Comes f (q.buf.drop start) (some (.noCall true, rest)) → SnippetFits q.buf rest) := by
  have hrest : ∀ {rest}, Comes f (q.buf.drop start) (some (.noCall true, rest)) →
      q.round = some (.notACall (q.buf.length - rest.length) true) ∧ rest <:+ q.buf := by
    intro rest hcomes
    have hdone := hreads.done_of_comes hcomes
    obtain ⟨len, hlen, rfl⟩ := hcomes
    have hle := hreads.within hlen
    refine ⟨?_, (drop_suffix _ _).trans (drop_suffix _ _)⟩
    rw [hround, hdone, ofLook_eq_malformed_iff]
    refine ⟨_, rfl, ?_⟩
    simp only [length_drop] at hle ⊢
    omega
  rw [ToolCallParser.Returns]
  refine and_congr ?_ (forall_congr' fun _ => ?_)
  · rw [Ne, hround, ofLook_eq_none_iff]
    exact Iff.rfl
  constructor
  · intro h rest hcomes
    obtain ⟨hmalformed, hsuffix⟩ := hrest hcomes
    rw [snippets, hmalformed] at h
    exact (snippet_ne_none_iff hsuffix).1 fun hnone => h (by simp [hnone])
  · intro h hnone
    rw [snippets] at hnone
    split at hnone
    next emitEnd hmalformed =>
      obtain ⟨len, hdone, rfl⟩ := ofLook_eq_malformed_iff.1 (hround.symm.trans hmalformed)
      have hcomes := comes_of_done hdone
      obtain ⟨heq, hsuffix⟩ := hrest hcomes
      obtain ⟨hend, -⟩ := notACall.inj (Option.some.inj (hmalformed.symm.trans heq))
      rw [hend, Option.map_eq_none_iff] at hnone
      exact (snippet_ne_none_iff hsuffix).2 (h _ hcomes) hnone
    · cases hnone

/-- What stands at a trigger of a format without panics of its own. -/
theorem soundAt_iff_of_calm {trigger : Trigger} (hgemma : trigger ≠ .gemma)
    (hrehearsal : trigger ≠ .rehearsal) :
    SoundAt logs q start trigger ↔ (logs = true → ∀ rest,
      FallsThrough q.atEos trigger (q.buf.drop start) rest → SnippetFits q.buf rest) :=
  ⟨fun h => h.logged, fun h =>
    ⟨fun heq => absurd heq hgemma, fun heq => absurd heq hgemma, fun heq => absurd heq hrehearsal,
      h⟩⟩

/-- **A Gemma call.** -/
theorem returns_gemma (hpre : gemmaOpen <+: q.buf.drop start) (hstart : start ≤ q.buf.length)
    (hround : q.round =
      ofLook start start gemmaOpen.length (resolveGemma q.atEos (q.buf.drop start))) :
    q.Returns logs ↔ SoundAt logs q start .gemma := by
  rw [returns_of_resolver (resolveGemma_reads q.atEos) hstart hround, resolveGemma_crashes hpre]
  constructor
  · rintro ⟨hcalm, hlogged⟩
    have hsafe : ∀ name b, GemmaCall (q.buf.drop start) name b → BraceSafe b := by
      intro name b hcall
      by_contra hnot
      exact hcalm ⟨name, b, hcall, .inl hnot⟩
    refine ⟨fun _ => hsafe, fun _ name body tail rest hcall hends hcloser => ?_,
      fun heq => (nomatch heq), fun hlogs rest hfalls => ?_⟩
    · by_contra hwide
      have hany : (escapedInArguments (between body)).any isMultibyte = true := by
        rw [any_eq_true]
        push Not at hwide
        obtain ⟨c, hc, hne⟩ := hwide
        exact ⟨c, hc, Bool.eq_true_of_not_eq_false hne⟩
      exact hcalm ⟨name, body ++ tail, hcall, .inr ⟨hsafe _ _ hcall, body, tail, rest, rfl, hends,
        hcloser, gemmaArgumentsToJson_crashes_iff.2 hany⟩⟩
    · exact hlogged hlogs rest ((resolveGemma_malformed hpre hsafe).2 ⟨rfl, hfalls⟩)
  · intro h
    refine ⟨?_, fun hlogs rest hcomes => ?_⟩
    · rintro ⟨name, b, hcall, hnot | ⟨-, body, tail, rest, rfl, hends, hcloser, hcrash⟩⟩
      · exact hnot (h.scanned rfl name b hcall)
      · obtain ⟨c, hc, hwide⟩ := any_eq_true.1 (gemmaArgumentsToJson_crashes_iff.1 hcrash)
        rw [h.healed rfl name body tail rest hcall hends hcloser c hc] at hwide
        cases hwide
    · exact h.logged hlogs rest ((resolveGemma_malformed hpre (h.scanned rfl)).1 hcomes).2

/-- **A rehearsal.** -/
theorem returns_rehearsal
    (hround : q.round = resolve q.enabledTools q.atEos (q.buf.take start) start .rehearsal
      (q.buf.drop start)) (hstart : start ≤ q.buf.length) :
    q.Returns logs ↔ SoundAt logs q start .rehearsal := by
  have hsound : SoundAt logs q start .rehearsal ↔
      rehearsalName q.enabledTools (q.buf.take start) ≠ none := by
    rw [Ne, rehearsalName_eq_none_iff]
    constructor
    · rintro h ⟨front, c, name, hsplit, hname, hwide⟩
      rw [h.named rfl front c name hsplit hname] at hwide
      cases hwide
    intro h
    refine ⟨fun heq => (nomatch heq), fun heq => (nomatch heq),
      fun _ front c name hsplit hname => ?_,
      fun _ rest hfalls => nomatch hfalls⟩
    by_contra hwide
    exact h ⟨front, c, name, hsplit, hname, Bool.eq_true_of_not_eq_false hwide⟩
  rw [hsound]
  rw [resolve] at hround
  cases hname : rehearsalName q.enabledTools (q.buf.take start) with
  | none =>
    rw [hname] at hround
    exact iff_of_false (fun h => h.1 hround) fun h => h rfl
  | some tool =>
    refine iff_of_true ?_ (Option.some_ne_none _)
    rw [hname] at hround
    cases tool with
    | none => exact ⟨by simp [hround], fun _ => by simp [snippets, hround]⟩
    | some name =>
      have hreads : Reads True (resolveArgs name) := resolveArgs_reads name
      refine (returns_of_resolver hreads hstart hround).2 ⟨resolveArgs_calm name _,
        fun _ rest hcomes => ?_⟩
      obtain ⟨len, hdone, -⟩ := hcomes
      exact absurd rfl (resolveArgs_yields_unreported name _ _ _ hdone)

/-- **A round returns** if and only if it is sound. -/
theorem returns_iff : q.Returns logs ↔ q.Sound logs := by
  cases hthink : q.inThink with
  | some kind =>
    refine iff_of_true ?_ fun hnone => by cases hnone.symm.trans hthink
    rw [ToolCallParser.Returns, snippets, ToolCallParser.round, hthink]
    dsimp only
    cases find kind.close q.buf <;> exact ⟨Option.some_ne_none _, fun _ => Option.some_ne_none _⟩
  | none =>
    cases hfound : q.findTrigger with
    | none =>
      have hround := round_of_none hthink hfound
      refine iff_of_true ⟨by simp [hround], fun _ => by simp [snippets, hround]⟩ ?_
      exact fun _ start trigger hsome => by cases hfound.symm.trans hsome
    | some found =>
      obtain ⟨start, trigger⟩ := found
      have hsound : q.Sound logs ↔ SoundAt logs q start trigger := by
        constructor
        · intro h
          exact h hthink start trigger hfound
        · intro h _ start' trigger' hfound'
          obtain ⟨rfl, rfl⟩ := Prod.mk.inj (Option.some.inj (hfound.symm.trans hfound'))
          exact h
      have hround := round_of_found hthink hfound
      obtain ⟨-, hpre, hroom, -⟩ := findTrigger_room hfound
      have hstart : start ≤ q.buf.length := by omega
      rw [hsound]
      cases trigger with
      | thinkOpen kind =>
        rw [soundAt_iff_of_calm (by simp) (by simp)]
        rw [resolve] at hround
        exact iff_of_true ⟨by simp [hround], fun _ => by simp [snippets, hround]⟩
          fun _ rest hfalls => by cases hfalls
      | tag =>
        have hreads : Reads True resolveTag := resolveTag_reads
        have hmalformed : ∀ rest, Comes resolveTag (q.buf.drop start) (some (.noCall true, rest)) ↔
            true = true ∧ FallsThrough q.atEos .tag (q.buf.drop start) rest :=
          fun rest => resolveTag_malformed hpre
        rw [soundAt_iff_of_calm (by simp) (by simp), returns_of_resolver hreads hstart hround,
          and_iff_right (resolveTag_calm _)]
        simp only [hmalformed, true_and]
      | bracket =>
        rw [soundAt_iff_of_calm (by simp) (by simp),
          returns_of_resolver (resolveBracket_reads q.atEos) hstart hround,
          and_iff_right (resolveBracket_calm _)]
        simp only [resolveBracket_malformed hpre, true_and]
      | gemma => exact returns_gemma hpre hstart hround
      | func =>
        rw [soundAt_iff_of_calm (by simp) (by simp),
          returns_of_resolver (resolveFunc_reads q.atEos) hstart hround,
          and_iff_right (resolveFunc_calm _)]
        refine iff_of_true (fun _ rest hcomes => ?_) fun _ rest hfalls => by cases hfalls
        obtain ⟨len, hdone, -⟩ := hcomes
        exact absurd rfl (resolveFunc_yields_unreported _ _ _ hdone)
      | rehearsal => exact returns_rehearsal hround hstart

/-! ## Runs -/

/-- **A run does not panic** if and only if all its rounds are sound. -/
theorem runs_iff (protocol : Protocol) (enabledTools : Option (List Text)) (logs : Bool)
    (chunks : List Text) :
    let p := ToolCallParser.start protocol enabledTools
    ((p.run chunks).isSome = true ∧
        (logs = true → ∀ q ∈ (p.runCourse chunks).rounds, q.snippets ≠ none)) ↔
      ∀ q ∈ (p.runCourse chunks).rounds, q.Sound logs := by
  intro p
  have hreturns := (runCourse_accounts p chunks).returns
  have hrun : (p.run chunks).isSome = true ↔ ∀ q ∈ (p.runCourse chunks).rounds, q.round ≠ none := by
    rw [run_eq, Option.isSome_map, ← hreturns, Option.isSome_iff_exists]
  rw [hrun]
  simp only [← returns_iff, ToolCallParser.Returns]
  constructor
  · rintro ⟨hround, hlogged⟩ q hq
    exact ⟨hround q hq, fun hlogs => hlogged hlogs q hq⟩
  · intro h
    exact ⟨fun q hq => (h q hq).1, fun hlogs q hq => (h q hq).2 hlogs⟩

end

/-- A body that is no JSON, with a character of two bytes where the snippet ends. -/
def longBody : Text := List.replicate 108 'a' ++ ['é']

/-- A bare value, a name, an escape, and a long body with a character of several bytes: each of them
is a panic. -/
theorem inputs_that_panic :
    letI := JsonText.table []
    (ToolCallParser.start .gemmaNative none).run ["<|tool_call>call:f\x7bk:é\x7d".toList] = none ∧
      (ToolCallParser.start .auto (some [])).run ["éf[ARGS]".toList] = none ∧
      (ToolCallParser.start .auto none).run
        ["<|tool_call>call:f\x7bk:\"\\é\"\x7d<tool_call|>".toList] = none ∧
      ((ToolCallParser.start .tagJson none).runCourse [tagOpen ++ longBody ++ tagClose]).rounds.any
        (fun q => q.snippets.isNone) = true := by
  decide +kernel

end Backend
end Gen2
