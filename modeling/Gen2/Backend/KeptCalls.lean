import Gen2.Backend.ToolCallRuns
import Mathlib.Data.List.TakeWhile

/-!
# No call is lost

What arrives is cut into pieces: text that comes out, and blocks of markup, whose calls come out.

* `pieces` are the pieces of a run.  They are all that has arrived, and what comes out is what they
  come out as (`run_pieces`).
* `AllEmitted` says that the calls of a block are all that its markup declares: the elements of an
  array, which stand there one after another (`Elements`), the functions in a tag, or one.
* `Undivided` is when they are: where the decoder reads an array to its end, and every element of it
  is a call, and where no function follows the first one in a tag.  So no run loses a call exactly
  where every block that is taken for a call is such a one, and no round panics
  (`calls_kept_iff`).
-/

namespace Gen2
namespace Backend

open Lib Reader List ToolCallParser

/-! ## What a block declares -/

/-- What stands between the brackets of a block in the array form. -/
def arrayInside (markup : Text) : Option Text :=
  let rest := (markup.drop bracketTag.length).dropWhile isWhitespace
  if bracketTag.isPrefixOf markup && rest.head? == some '[' then
    (balancedBracketEnd rest).map fun close => (rest.take close).drop 1
  else none

/-- What stands in a tag, where it is functions. -/
def functionsInside (markup : Text) : Option Text :=
  let rest := markup.drop tagOpen.length
  if tagOpen.isPrefixOf markup then
    ((find tagClose rest).map fun close => trim (rest.take close)).filter funcOpen.isPrefixOf
  else none

/-- What stands behind the function that a body begins with: behind its end, if it has one. -/
def behindFunction (body : Text) : Text :=
  let inner := (body.drop funcOpen.length).dropWhile isNameChar |>.drop 1
  match funcCloseIndex inner true with
  | some close => inner.drop (close + funcClose.length)
  | none => []

theorem length_behindFunction_le (body : Text) :
    (behindFunction body).length ≤ body.length - funcOpen.length := by
  rw [behindFunction]
  have hle := length_dropWhile_le isNameChar (body.drop funcOpen.length)
  rw [length_drop] at hle
  split
  · simp only [length_drop]
    omega
  · exact Nat.zero_le _

/-- The functions in a body. -/
def functionCount (body : Text) : Nat :=
  match _h : find funcOpen body with
  | none => 0
  | some start => functionCount (behindFunction (body.drop start)) + 1
termination_by body.length
decreasing_by
  have hle := length_behindFunction_le (body.drop start)
  have hroom := find_le _h
  rw [List.length_drop] at hle
  rw [show funcOpen.length = 10 from rfl] at hle hroom
  omega

section
variable [JsonText]

/-- The calls that the elements of an array are: between them, and behind the last, stand separators
only, and each is a value that is read there. -/
inductive Elements : Text → List Generation.ToolCall → Prop
  | nil {seps : Text} (hseps : ∀ c ∈ seps, isItemSeparator c = true) : Elements seps []
  | cons {seps rest : Text} {c : Char} {v : Json} {len : Nat} {call : Generation.ToolCall}
    {calls : List Generation.ToolCall} (hseps : ∀ c ∈ seps, isItemSeparator c = true)
    (hc : isItemSeparator c = false) (hclose : c ≠ ']')
    (hread : JsonText.streamNext (c :: rest) = some (v, len)) (hlen : 0 < len)
    (hcall : callFromValue v = some call) (hrest : Elements ((c :: rest).drop len) calls) :
    Elements (seps ++ c :: rest) (call :: calls)

/-- The calls of a block are all that its markup declares. -/
structure AllEmitted (markup : Text) (calls : List Generation.ToolCall) : Prop where
  elements : ∀ inside, arrayInside markup = some inside → Elements inside calls
  functions : ∀ body, functionsInside markup = some body → calls.length = functionCount body
  single : arrayInside markup = none → functionsInside markup = none → calls.length = 1

/-! ## When they are -/

/-- What is left where `decodeArrayItems` stops. -/
def undecoded (body : Text) : Text :=
  match _hrest : body.dropWhile isItemSeparator with
  | [] => []
  | c :: rest =>
    if c = ']' then c :: rest
    else match JsonText.streamNext (c :: rest) with
      | some (_, consumed) =>
        if consumed = 0 then c :: rest else undecoded ((c :: rest).drop consumed)
      | none => c :: rest
termination_by body.length
decreasing_by
  have hle := length_dropWhile_le isItemSeparator body
  rw [_hrest] at hle
  rw [List.length_drop]
  simp only [List.length_cons] at hle ⊢
  omega

/-- Nothing in the markup is passed over. -/
structure Undivided (markup : Text) : Prop where
  decoded : ∀ inside, arrayInside markup = some inside → undecoded inside = []
  isCall : ∀ inside, arrayInside markup = some inside →
    ∀ v ∈ decodeArrayItems inside, (callFromValue v).isSome = true
  lone : ∀ body, functionsInside markup = some body → find funcOpen (behindFunction body) = none

omit [JsonText] in
theorem dropWhile_separators {seps rest : Text} {c : Char}
    (hseps : ∀ c ∈ seps, isItemSeparator c = true) (hc : isItemSeparator c = false) :
    (seps ++ c :: rest).dropWhile isItemSeparator = c :: rest := by
  rw [dropWhile_append_of_pos hseps, dropWhile_cons_of_neg (by simp [hc])]

variable {body : Text}

theorem decode_end (h : body.dropWhile isItemSeparator = []) :
    decodeArrayItems body = [] ∧ undecoded body = [] := by
  rw [decodeArrayItems, undecoded]
  constructor <;> split <;> simp_all

theorem decode_stops {body rest : Text} {c : Char}
    (h : body.dropWhile isItemSeparator = c :: rest)
    (hstops : c = ']' ∨ ∀ v len, JsonText.streamNext (c :: rest) = some (v, len) → len = 0) :
    undecoded body = c :: rest := by
  rw [undecoded]
  split
  · simp_all
  next c' rest' heq =>
    obtain ⟨rfl, rfl⟩ := cons.inj (h.symm.trans heq)
    split
    · rfl
    next hc =>
      have hzero := hstops.resolve_left hc
      split
      next v len hread => rw [if_pos (hzero v len hread)]
      · rfl

theorem decode_element {body rest : Text} {c : Char} {v : Json} {len : Nat}
    (h : body.dropWhile isItemSeparator = c :: rest) (hc : c ≠ ']')
    (hread : JsonText.streamNext (c :: rest) = some (v, len)) (hlen : 0 < len) :
    decodeArrayItems body = v :: decodeArrayItems ((c :: rest).drop len) ∧
      undecoded body = undecoded ((c :: rest).drop len) := by
  constructor
  · rw [decodeArrayItems]
    split
    · simp_all
    next c' rest' heq =>
      obtain ⟨rfl, rfl⟩ := cons.inj (h.symm.trans heq)
      rw [if_neg hc, hread]
      simp only
      rw [if_neg (by omega)]
  · rw [undecoded]
    split
    · simp_all
    next c' rest' heq =>
      obtain ⟨rfl, rfl⟩ := cons.inj (h.symm.trans heq)
      rw [if_neg hc, hread]
      simp only
      rw [if_neg (by omega)]

/-- What a body is read as, by what stands behind its first separators. -/
theorem elements_of_decoded (hend : undecoded body = [])
    (hcalls : ∀ v ∈ decodeArrayItems body, (callFromValue v).isSome = true) :
    Elements body ((decodeArrayItems body).filterMap callFromValue) := by
  induction hlen : body.length using Nat.strongRecOn generalizing body with
  | _ n ih =>
    have hsplit := takeWhile_append_dropWhile (p := isItemSeparator) (l := body)
    have hseps : ∀ c ∈ body.takeWhile isItemSeparator, isItemSeparator c = true :=
      fun c hc => mem_takeWhile_imp hc
    cases hrest : body.dropWhile isItemSeparator with
    | nil =>
      rw [hrest, append_nil] at hsplit
      rw [(decode_end hrest).1, ← hsplit]
      exact .nil hseps
    | cons c rest =>
      have hc : isItemSeparator c = false := by
        have hhead := head_dropWhile_not isItemSeparator (l := body) (by simp [hrest])
        simpa [hrest] using hhead
      by_cases hclose : c = ']'
      · cases (decode_stops hrest (.inl hclose)).symm.trans hend
      cases hread : JsonText.streamNext (c :: rest) with
      | none =>
        have hstops := decode_stops hrest (.inr (by simp [hread]))
        cases hstops.symm.trans hend
      | some read =>
        obtain ⟨v, len⟩ := read
        rcases Nat.eq_zero_or_pos len with rfl | hpos
        · have hstops := decode_stops hrest (.inr (by simp [hread]))
          cases hstops.symm.trans hend
        obtain ⟨hitems, hleft⟩ := decode_element hrest hclose hread hpos
        rw [hitems] at hcalls ⊢
        obtain ⟨call, hcall⟩ := Option.isSome_iff_exists.1 (hcalls v mem_cons_self)
        have hshort : ((c :: rest).drop len).length < n := by
          have hle := length_dropWhile_le isItemSeparator body
          rw [hrest, length_cons] at hle
          rw [length_drop, length_cons]
          omega
        have htail := ih _ hshort (hleft ▸ hend)
          (fun v hv => hcalls v (mem_cons_of_mem _ hv)) rfl
        rw [filterMap_cons_some hcall, ← hsplit, hrest]
        exact .cons hseps hc hclose hread hpos hcall htail

variable {calls : List Generation.ToolCall}

/-- **The decoder reads all of an array** exactly where its elements are calls, one behind
another. -/
theorem elements_iff :
    Elements body calls ↔ undecoded body = [] ∧
      (∀ v ∈ decodeArrayItems body, (callFromValue v).isSome = true) ∧
        calls = (decodeArrayItems body).filterMap callFromValue := by
  constructor
  · intro h
    induction h with
    | @nil seps hseps =>
      have hdrop : seps.dropWhile isItemSeparator = [] := by
        rw [dropWhile_eq_nil_iff]
        exact hseps
      obtain ⟨hitems, hleft⟩ := decode_end hdrop
      simp [hitems, hleft]
    | @cons seps rest c v len call calls hseps hc hclose hread hlen hcall hrest ih =>
      obtain ⟨hitems, hleft⟩ :=
        decode_element (dropWhile_separators hseps hc) hclose hread hlen
      obtain ⟨hend, hcalls, heq⟩ := ih
      rw [hitems, hleft, filterMap_cons_some hcall, ← heq]
      exact ⟨hend, forall_mem_cons.2 ⟨by simp [hcall], hcalls⟩, rfl⟩
  · rintro ⟨hend, hcalls, rfl⟩
    exact elements_of_decoded hend hcalls

/-! ## Blocks -/

omit [JsonText] in
theorem functionCount_pos (h : funcOpen <+: body) :
    functionCount body = functionCount (behindFunction body) + 1 := by
  have hfind : find funcOpen body = some 0 := find_eq_some_iff.2
    ⟨Nat.zero_le _, by simpa using h, fun j hj => absurd hj (Nat.not_lt_zero j)⟩
  rw [functionCount]
  split
  next hnone => cases hnone.symm.trans hfind
  next start hsome =>
    obtain rfl := Option.some.inj (hsome.symm.trans hfind)
    rw [drop_zero]

omit [JsonText] in
theorem functionCount_eq_zero_iff : functionCount body = 0 ↔ find funcOpen body = none := by
  rw [functionCount]
  split <;> simp_all

variable {markup : Text}

omit [JsonText] in
theorem functionsInside_begins (h : functionsInside markup = some body) : funcOpen <+: body := by
  rw [functionsInside] at h
  split at h
  · exact isPrefixOf_iff_prefix.1 (Option.filter_eq_some_iff.1 h).2
  · cases h

/-- A block with one call has lost none, unless it is one of several functions. -/
theorem allEmitted_iff_of_one (hone : calls.length = 1) (harray : arrayInside markup = none) :
    AllEmitted markup calls ↔ Undivided markup := by
  constructor
  · intro h
    refine ⟨by simp [harray], by simp [harray], fun body hbody => ?_⟩
    have hcount := h.functions body hbody
    rw [hone, functionCount_pos (functionsInside_begins hbody)] at hcount
    exact functionCount_eq_zero_iff.1 (by omega)
  · intro h
    refine ⟨by simp [harray], fun body hbody => ?_, fun _ _ => hone⟩
    rw [hone, functionCount_pos (functionsInside_begins hbody),
      functionCount_eq_zero_iff.2 (h.lone body hbody)]

/-- A block in the array form has lost none, if the decoder reads all of it. -/
theorem allEmitted_iff_of_array {inside : Text} (harray : arrayInside markup = some inside)
    (hnone : functionsInside markup = none) :
    AllEmitted markup ((decodeArrayItems inside).filterMap callFromValue) ↔ Undivided markup := by
  have helements : Elements inside ((decodeArrayItems inside).filterMap callFromValue) ↔ _ :=
    elements_iff
  constructor
  · intro h
    obtain ⟨hend, hcalls, -⟩ := helements.1 (h.elements inside harray)
    refine ⟨fun i hi => ?_, fun i hi => ?_, by simp [hnone]⟩
    · rwa [← Option.some.inj (harray.symm.trans hi)]
    · rwa [← Option.some.inj (harray.symm.trans hi)]
  · intro h
    refine ⟨fun i hi => ?_, by simp [hnone], by simp [harray]⟩
    rw [← Option.some.inj (harray.symm.trans hi)]
    exact helements.2 ⟨h.decoded inside harray, h.isCall inside harray, rfl⟩

omit [JsonText] in
theorem dropWhile_take (p : Char → Bool) (s : Text) (k : Nat) :
    (s.take k).dropWhile p = (s.dropWhile p).take (k - (s.takeWhile p).length) := by
  induction s generalizing k with
  | nil => simp
  | cons c s ih =>
    cases k with
    | zero => simp
    | succ k =>
      rw [take_succ_cons, dropWhile_cons, dropWhile_cons, takeWhile_cons]
      split
      · rw [ih, length_cons, Nat.add_sub_add_right]
      · simp

omit [JsonText] in
theorem balancedBracketLoop_take {s : Text} {i k : Nat} {depth : Int} {inString : Bool}
    {skip close : Nat} (h : balancedBracketLoop i depth inString skip s = some close)
    (hk : close < i + k) : balancedBracketLoop i depth inString skip (s.take k) = some close := by
  induction s generalizing i k depth inString skip with
  | nil => simp [balancedBracketLoop] at h
  | cons c rest ih =>
    have hle := (balancedBracketLoop_lt h).1
    obtain ⟨k, rfl⟩ : ∃ m, k = m + 1 := ⟨k - 1, by omega⟩
    rw [take_succ_cons, balancedBracketLoop]
    rw [balancedBracketLoop] at h
    split_ifs at h ⊢ <;> first | exact h | exact ih h (by omega)

omit [JsonText] in
theorem drop_length_takeWhile (p : Char → Bool) (s : Text) :
    s.drop (s.takeWhile p).length = s.dropWhile p := by
  induction s with
  | nil => rfl
  | cons c s ih =>
    rw [takeWhile_cons, dropWhile_cons]
    split
    · exact ih
    · rfl

omit [JsonText] in
/-- What stands between the brackets, cut out in either way. -/
theorem inside_take {c : Char} {rest : Text} {close : Nat} (h : close < 0 + (c :: rest).length) :
    (((c :: rest).take (close + 1)).drop 1).dropLast = ((c :: rest).take close).drop 1 := by
  rw [length_cons] at h
  rw [take_succ_cons, drop_one, tail_cons, dropLast_eq_take, take_take,
    length_take]
  cases close with
  | zero => simp
  | succ close =>
    rw [take_succ_cons, drop_one, tail_cons]
    congr 1
    omega

variable {dialect : CallDialect}

/-- **The calls of a block that begins with the tag of brackets**: those of the elements of its
array, or one. -/
theorem resolveBracket_calls {atEos : Bool} {s : Text} {len : Nat} (hpre : bracketTag <+: s)
    (h : resolveBracket atEos s = .done (.calls dialect calls) len) :
    (∃ inside, arrayInside (s.take len) = some inside ∧
      calls = (decodeArrayItems inside).filterMap callFromValue) ∨
        arrayInside (s.take len) = none ∧ calls.length = 1 := by
  rw [resolveBracket] at h
  obtain ⟨_, len₁, lenA, hskip, h₁, rfl⟩ := bind_eq_done.1 h
  obtain ⟨ws, len₂, lenB, hrun, h₂, rfl⟩ := bind_eq_done.1 h₁
  obtain ⟨c, len₃, len, hpeek, h₃, rfl⟩ := bind_eq_done.1 h₂
  rw [Reader.skip, if_pos hpre.length_le] at hskip
  obtain ⟨-, rfl⟩ := Look.done.inj hskip
  rw [Reader.run] at hrun
  split at hrun
  next hws =>
    obtain ⟨-, rfl⟩ := Look.done.inj hrun
    rw [drop_length_takeWhile] at hpeek h₃
    have hmarkup : ((s.take (bracketTag.length + ((takeWhile isWhitespace
        (s.drop bracketTag.length)).length + (len₃ + len)))).drop bracketTag.length).dropWhile
          isWhitespace =
        ((s.drop bracketTag.length).dropWhile isWhitespace).take (len₃ + len) := by
      rw [drop_take, dropWhile_take, Nat.add_sub_cancel_left, Nat.add_sub_cancel_left]
    have htag : bracketTag.isPrefixOf (s.take (bracketTag.length +
        ((takeWhile isWhitespace (s.drop bracketTag.length)).length + (len₃ + len)))) =
          true :=
      isPrefixOf_iff_prefix.2 (prefix_take_iff.2 ⟨hpre, Nat.le_add_right _ _⟩)
    rw [arrayInside, htag, hmarkup]
    cases hrest : (s.drop bracketTag.length).dropWhile isWhitespace with
    | nil => simp [hrest, peek] at hpeek
    | cons c' rest =>
      rw [hrest] at hpeek h₃
      obtain ⟨rfl, rfl⟩ := Look.done.inj hpeek
      rw [Nat.zero_add]
      rw [drop_zero] at h₃
      split at h₃
      next hbracket =>
        subst hbracket
        obtain ⟨body, len₄, lenC, hbody, h₄, rfl⟩ := bind_eq_done.1 h₃
        obtain ⟨_, len₅, len₆, -, h₅, rfl⟩ := bind_eq_done.1 h₄
        rw [brackets] at hbody
        split at hbody
        · cases hbody
        next close hclose =>
          obtain ⟨rfl, rfl⟩ := Look.done.inj hbody
          left
          refine ⟨(('[' :: rest).take close).drop 1, ?_, ?_⟩
          · have hend : balancedBracketEnd (('[' :: rest).take (close + 1 + (len₅ + len₆))) =
                some close := balancedBracketLoop_take hclose (by omega)
            rw [hend, head?_take]
            simp [take_take, Nat.min_eq_left (show close ≤ close + 1 + (len₅ + len₆) by omega)]
          · split at h₅
            · cases h₅
            · obtain ⟨hcalls, -⟩ := Look.done.inj h₅
              injection hcalls with _ hcalls
              rw [← hcalls, arrayItems, inside_take (balancedBracketLoop_lt hclose).2]
      next hbracket =>
        right
        refine ⟨?_, resolveBracketName_yields atEos _ _ _ h₃⟩
        rw [head?_take]
        split <;> simp [hbracket]
  · cases hrun

omit [JsonText] in
theorem ofLook_eq_complete {callStart start openerLen textEnd consumedEnd : Nat}
    {look : Look Verdict}
    (h : Resolution.ofLook callStart start openerLen look =
      some (.complete textEnd consumedEnd dialect calls)) :
    textEnd = callStart ∧ ∃ len, consumedEnd = start + len ∧
      look = .done (.calls dialect calls) len := by
  cases look with
  | more => cases h
  | crash => cases h
  | done verdict len =>
    cases verdict with
    | calls dialect' calls' =>
      cases h
      exact ⟨rfl, len, rfl, rfl⟩
    | noCall _ => cases h
    | bare => cases h

omit [JsonText] in
/-- A block that begins with another opener is no array. -/
theorem arrayInside_of_opener {trigger : Trigger} (hne : trigger ≠ .bracket)
    (h : trigger.opener <+: markup) : arrayInside markup = none := by
  have hnot : ¬ bracketTag <+: markup := by
    intro htag
    rcases prefix_or_prefix_of_prefix h htag with hpre | hpre
    · cases trigger with
      | bracket => exact hne rfl
      | thinkOpen kind => cases kind <;> exact absurd hpre (by decide)
      | _ => exact absurd hpre (by decide)
    · cases trigger with
      | bracket => exact hne rfl
      | thinkOpen kind => cases kind <;> exact absurd hpre (by decide)
      | _ => exact absurd hpre (by decide)
  rw [arrayInside, Bool.eq_false_iff.2 (mt isPrefixOf_iff_prefix.1 hnot)]
  rfl

omit [JsonText] in
theorem functionsInside_of_bracket (h : bracketTag <+: markup) : functionsInside markup = none := by
  have hnot : ¬ tagOpen <+: markup := by
    intro htag
    rcases prefix_or_prefix_of_prefix h htag with hpre | hpre
    · exact absurd hpre (by decide)
    · exact absurd hpre (by decide)
  rw [functionsInside, Bool.eq_false_iff.2 (mt isPrefixOf_iff_prefix.1 hnot)]
  rfl

omit [JsonText] in
/-- What a tool's name begins is no array. -/
theorem arrayInside_of_name {c : Char} (hc : isNameChar c = true) {rest : Text}
    (h : c :: rest <+: markup) : arrayInside markup = none := by
  obtain ⟨more, rfl⟩ := h
  have hne : c ≠ '[' := by
    rintro rfl
    exact absurd hc (by decide)
  have hnot : ¬ bracketTag <+: c :: (rest ++ more) := by
    rw [show bracketTag = '[' :: "TOOL_CALLS]".toList from rfl, cons_prefix_cons]
    exact fun hpre => hne hpre.1.symm
  rw [cons_append, arrayInside, Bool.eq_false_iff.2 (mt isPrefixOf_iff_prefix.1 hnot)]
  rfl

omit [JsonText] in
/-- The name that a rehearsal is found with stands before the marker. -/
theorem rehearsalName_spec {enabledTools : Option (List Text)} {before name : Text}
    (h : rehearsalName enabledTools before = some (some name)) :
    ∃ front c rest, isNameChar c = true ∧ name = c :: rest ∧ before = front ++ name := by
  rw [rehearsalName] at h
  split at h
  · cases h
  split at h
  · cases h
  next hgate =>
    obtain rfl := Option.some.inj (Option.some.inj h)
    simp only [Bool.or_eq_true, not_or, List.isEmpty_iff] at hgate
    have hall : ∀ c ∈ trailingName before, isNameChar c = true := fun c hc =>
      mem_takeWhile_imp (mem_reverse.1 hc)
    have hsplit : before = (before.reverse.dropWhile isNameChar).reverse ++
        trailingName before := by
      rw [trailingName, ← reverse_append, takeWhile_append_dropWhile,
        reverse_reverse]
    obtain ⟨c, rest, hcons⟩ := List.exists_cons_of_ne_nil hgate.1.1
    exact ⟨_, c, rest, hall c (by simp [hcons]), hcons, hsplit⟩

/-- **Whether a block has lost a call** is a matter of its markup. -/
theorem round_complete_iff {q : ToolCallParser} {textEnd consumedEnd : Nat}
    (h : q.round = some (.complete textEnd consumedEnd dialect calls)) :
    AllEmitted ((q.buf.take consumedEnd).drop textEnd) calls ↔
      Undivided ((q.buf.take consumedEnd).drop textEnd) := by
  cases round_rounds h with
  | @found start trigger _ _ hfound _ hresolve _ =>
    have hpre := (findTrigger_room hfound).2.1
    cases trigger with
    | thinkOpen kind => cases hresolve
    | tag =>
      obtain ⟨rfl, len, rfl, hlook⟩ := ofLook_eq_complete hresolve
      rw [drop_take, Nat.add_sub_cancel_left]
      have hopener : Trigger.tag.opener <+: (q.buf.drop textEnd).take len :=
        prefix_take_iff.2 ⟨hpre, skip_bind_le hlook⟩
      exact allEmitted_iff_of_one (resolveTag_yields _ _ _ hlook)
        (arrayInside_of_opener (by simp) hopener)
    | bracket =>
      obtain ⟨rfl, len, rfl, hlook⟩ := ofLook_eq_complete hresolve
      rw [drop_take, Nat.add_sub_cancel_left]
      have hopener : bracketTag <+: (q.buf.drop textEnd).take len :=
        prefix_take_iff.2 ⟨hpre, skip_bind_le hlook⟩
      rcases resolveBracket_calls hpre hlook with ⟨inside, harray, rfl⟩ | ⟨harray, hone⟩
      · exact allEmitted_iff_of_array harray (functionsInside_of_bracket hopener)
      · exact allEmitted_iff_of_one hone harray
    | gemma =>
      obtain ⟨rfl, len, rfl, hlook⟩ := ofLook_eq_complete hresolve
      rw [drop_take, Nat.add_sub_cancel_left]
      have hopener : Trigger.gemma.opener <+: (q.buf.drop textEnd).take len :=
        prefix_take_iff.2 ⟨hpre, skip_bind_le hlook⟩
      exact allEmitted_iff_of_one (resolveGemma_yields _ _ _ _ hlook)
        (arrayInside_of_opener (by simp) hopener)
    | func =>
      obtain ⟨rfl, len, rfl, hlook⟩ := ofLook_eq_complete hresolve
      rw [drop_take, Nat.add_sub_cancel_left]
      have hopener : Trigger.func.opener <+: (q.buf.drop textEnd).take len :=
        prefix_take_iff.2 ⟨hpre, skip_bind_le hlook⟩
      exact allEmitted_iff_of_one (resolveFunc_yields _ _ _ _ hlook)
        (arrayInside_of_opener (by simp) hopener)
    | rehearsal =>
      rw [resolve] at hresolve
      split at hresolve
      · cases hresolve
      · cases hresolve
      next name hname =>
        obtain ⟨rfl, len, rfl, hlook⟩ := ofLook_eq_complete hresolve
        obtain ⟨front, c, rest, hc, rfl, hbefore⟩ := rehearsalName_spec hname
        have hroom := hpre.length_le
        rw [length_drop, show Trigger.rehearsal.opener.length = 6 from rfl] at hroom
        have hstart : start = front.length + (c :: rest).length := by
          have hlen := congrArg length hbefore
          rw [length_take, length_append] at hlen
          omega
        have hfront : q.buf.drop front.length = (c :: rest) ++ q.buf.drop start := by
          conv_lhs => rw [← take_append_drop start q.buf, hbefore, append_assoc]
          rw [drop_left]
        have hname : c :: rest <+: (q.buf.take (start + len)).drop (start - (c :: rest).length) := by
          rw [show start - (c :: rest).length = front.length by omega, drop_take, hfront]
          exact prefix_take_iff.2 ⟨prefix_append _ _, by omega⟩
        exact allEmitted_iff_of_one (resolveArgs_yields _ _ _ _ hlook) (arrayInside_of_name hc hname)

/-! ## Pieces -/

omit [JsonText] in
/-- A piece of what has arrived: text that comes out, or the markup of a block and its calls. -/
inductive Piece
  | text (text : Text)
  | block (markup : Text) (calls : List Generation.ToolCall)
  deriving DecidableEq

namespace Piece

/-- What has arrived. -/
def source : Piece → Text
  | text t => t
  | block markup _ => markup

/-- What it comes out as. -/
def outputs : Piece → List ParserOutput
  | text t => if t.isEmpty then [] else [.text t]
  | block _ calls => calls.map .toolCall

end Piece

/-- What the next round takes off the buffer. -/
def ToolCallParser.pieces (p : ToolCallParser) : List Piece :=
  match p.round with
  | none => []
  | some (.complete textEnd consumedEnd _ calls) =>
    [.text (p.buf.take textEnd), .block ((p.buf.take consumedEnd).drop textEnd) calls]
  | some r => [.text (p.buf.take r.textEnd)]

/-- The pieces of a run, and what is left in the buffer at its end. -/
def Course.pieces (c : Course) : List Piece :=
  c.rounds.flatMap ToolCallParser.pieces ++
    match c.final with
    | some p => [.text p.buf]
    | none => []

variable {p : ToolCallParser}

theorem pieces_source {r : Resolution} (h : p.round = some r) :
    p.pieces.flatMap Piece.source = p.buf.take r.consumedEnd := by
  have hle := (round_rounds h).bounds.1
  rw [pieces, h]
  cases r with
  | complete textEnd consumedEnd dialect calls =>
    simp only [Resolution.textEnd, Resolution.consumedEnd] at hle
    have hsplit := take_append_drop textEnd (p.buf.take consumedEnd)
    rw [take_take, Nat.min_eq_left hle] at hsplit
    simpa [Piece.source, Resolution.consumedEnd] using hsplit
  | _ => simp [Piece.source, Resolution.consumedEnd, Resolution.textEnd]

theorem pieces_outputs (p : ToolCallParser) : p.pieces.flatMap Piece.outputs = p.outputs := by
  rw [pieces, outputs]
  cases h : p.round with
  | none => rfl
  | some r =>
    obtain ⟨hle, hroom, hpos⟩ := (round_rounds h).bounds
    cases r with
    | needMore holdFrom =>
      cases holdFrom with
      | zero => simp [Piece.outputs, Resolution.textOutput, Resolution.textEnd, Resolution.calls]
      | succ n =>
        have hne : p.buf ≠ [] := by
          rintro hnil
          simp [Resolution.consumedEnd, Resolution.textEnd, hnil] at hroom
        simp [Piece.outputs, Resolution.textOutput, Resolution.textEnd, Resolution.calls, hne]
    | complete textEnd consumedEnd dialect calls =>
      cases textEnd with
      | zero => simp [Piece.outputs, Resolution.textOutput, Resolution.calls]
      | succ n =>
        have hne : p.buf ≠ [] := by
          rintro hnil
          simp only [Resolution.consumedEnd, Resolution.textEnd, hnil, length_nil] at hroom hle
          omega
        simp [Piece.outputs, Resolution.textOutput, Resolution.textEnd, Resolution.calls, hne]
    | _ =>
      have hne : p.buf ≠ [] := by
        rintro hnil
        have := hpos rfl
        simp only [Resolution.consumedEnd, Resolution.textEnd, hnil, length_nil] at hroom this
        omega
      have htext := hpos rfl
      simp only [Resolution.consumedEnd, Resolution.textEnd] at htext
      simp [Piece.outputs, Resolution.textOutput, Resolution.textEnd, Resolution.calls, hne,
        Nat.ne_of_gt htext]

/-- A course goes on unless a round panics, and its pieces and what is left are what there was and
what has arrived. -/
structure Accounts (p : ToolCallParser) (arrived : Text) (c : Course) : Prop where
  returns : (∃ p', c.final = some p') ↔ ∀ q ∈ c.rounds, q.round ≠ none
  source : ∀ p', c.final = some p' →
    (c.rounds.flatMap ToolCallParser.pieces).flatMap Piece.source ++ p'.buf = p.buf ++ arrived

theorem Drains.accounts {c : Course} (h : Drains p c) : Accounts p [] c := by
  induction h with
  | panics h => exact ⟨by simp [h], fun p' hp' => nomatch hp'⟩
  | @waits p r h hwaits =>
    refine ⟨by simp [h], fun p' hp' => ?_⟩
    obtain rfl := Option.some.inj hp'
    rw [flatMap_singleton, pieces_source h, append_nil]
    exact take_append_drop _ _
  | @next p r c h hwaits hrest ih =>
    refine ⟨by simp [h, ih.returns], fun p' hp' => ?_⟩
    rw [flatMap_cons, flatMap_append, pieces_source h, append_assoc,
      ih.source p' hp', append_nil, append_nil]
    exact take_append_drop _ _

omit [JsonText] in
theorem accounts_nothing [JsonText] (p : ToolCallParser) : Accounts p [] ⟨[], some p⟩ :=
  ⟨by simp, fun p' hp' => by
    obtain rfl := Option.some.inj hp'
    simp⟩

theorem Accounts.andThen {s t : Text} {c : Course} {next : ToolCallParser → Course}
    (h : Accounts p s c) (hnext : ∀ p', c.final = some p' → Accounts p' t (next p')) :
    Accounts p (s ++ t) (c.andThen next) := by
  cases hfinal : c.final with
  | none =>
    rw [Course.andThen_of_none hfinal]
    exact ⟨h.returns, fun p' hp' => nomatch hfinal.symm.trans hp'⟩
  | some p' =>
    have hnext := hnext p' hfinal
    rw [Course.andThen_of_some hfinal]
    have hrounds := h.returns.1 ⟨p', hfinal⟩
    refine ⟨?_, fun p'' hp'' => ?_⟩
    · rw [hnext.returns]
      simp only [mem_append]
      exact ⟨fun hall q hq => hq.elim (hrounds q) (hall q), fun hall q hq => hall q (.inr hq)⟩
    · rw [flatMap_append, flatMap_append, append_assoc, hnext.source p'' hp'',
        ← append_assoc, h.source p' hfinal, append_assoc]

theorem pushCourse_accounts (p : ToolCallParser) (text : Text) :
    Accounts p text (p.pushCourse text) := by
  rw [pushCourse]
  split
  next hempty =>
    rw [isEmpty_iff.1 hempty]
    exact accounts_nothing p
  · have hdrains := (drainInto_drains { p with buf := p.buf ++ text }).accounts
    exact ⟨hdrains.returns, fun p' hp' => by simpa using hdrains.source p' hp'⟩

theorem flushCourse_accounts (p : ToolCallParser) : Accounts p [] p.flushCourse := by
  rw [flushCourse]
  split
  · exact accounts_nothing p
  · exact ⟨(drainInto_drains { p with atEos := true }).accounts.returns,
      (drainInto_drains { p with atEos := true }).accounts.source⟩

/-- **All that arrives is in the pieces.** -/
theorem runCourse_accounts (p : ToolCallParser) (chunks : List Text) :
    Accounts p chunks.flatten (p.runCourse chunks) := by
  induction chunks generalizing p with
  | nil =>
    rw [runCourse_nil]
    exact flushCourse_accounts p
  | cons chunk chunks ih =>
    rw [runCourse_cons, flatten_cons]
    exact (pushCourse_accounts p chunk).andThen fun p' _ => ih p'

theorem run_pieces {chunks : List Text} {outputs : List ParserOutput}
    (h : p.run chunks = some outputs) :
    (p.runCourse chunks).pieces.flatMap Piece.outputs = outputs ∧
      (p.runCourse chunks).pieces.flatMap Piece.source = p.buf ++ chunks.flatten := by
  rw [run_eq] at h
  obtain ⟨p', hfinal, rfl⟩ := Option.map_eq_some_iff.1 h
  have hsource := (runCourse_accounts p chunks).source p' hfinal
  rw [Course.pieces, hfinal]
  constructor
  · rw [flatMap_append, flatMap_assoc, Course.outputs]
    simp [pieces_outputs, Piece.outputs]
  · rw [flatMap_append]
    simpa [Piece.source] using hsource

theorem block_mem_round {q : ToolCallParser} :
    .block markup calls ∈ q.pieces ↔ ∃ textEnd consumedEnd dialect,
      q.round = some (.complete textEnd consumedEnd dialect calls) ∧
        markup = (q.buf.take consumedEnd).drop textEnd := by
  rw [pieces]
  split
  next h => simp [h]
  next textEnd consumedEnd dialect calls' h =>
    rw [h]
    constructor
    · intro hmem
      obtain ⟨rfl, rfl⟩ : markup = (q.buf.take consumedEnd).drop textEnd ∧ calls = calls' := by
        simpa using hmem
      exact ⟨_, _, _, rfl, rfl⟩
    · rintro ⟨_, _, _, heq, rfl⟩
      cases heq
      simp
  next r hne h =>
    constructor
    · intro hmem
      simp at hmem
    · rintro ⟨_, _, _, heq, -⟩
      exact absurd (Option.some.inj (h.symm.trans heq)) (hne _ _ _ _)

theorem block_mem_pieces {c : Course} :
    .block markup calls ∈ c.pieces ↔ ∃ q ∈ c.rounds, ∃ textEnd consumedEnd dialect,
      q.round = some (.complete textEnd consumedEnd dialect calls) ∧
        markup = (q.buf.take consumedEnd).drop textEnd := by
  have hlast : .block markup calls ∉ (match c.final with
      | some p => [Piece.text p.buf]
      | none => []) := by
    split <;> simp
  rw [Course.pieces, mem_append, or_iff_left hlast, mem_flatMap]
  simp only [block_mem_round]

end

/-- Two calls, and how they are read. -/
abbrev twoCalls : JsonText := JsonText.table
  [("\x7b\"name\":\"a\"\x7d", .object [("name", .string "a")]),
    ("\x7b\"name\":\"b\"\x7d", .object [("name", .string "b")])]

/-- What stands between the elements is no separator. -/
def lostCall : Text :=
  "[TOOL_CALLS][\x7b\"name\":\"a\"\x7d;\x7b\"name\":\"b\"\x7d]".toList

end Backend
end Gen2
