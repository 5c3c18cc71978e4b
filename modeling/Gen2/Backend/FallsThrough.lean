import Gen2.Backend.BraceScan
import Gen2.Backend.Resolvers
import Gen2.Lib.Leaves

/-!
# Markup that falls through

`backend/common/tool_calls.rs`: which texts make a resolver come to no call, and which make it
panic, told by the parts of the text.

* `GemmaCall` and `BracketCall` are the heads of a call; `CloserRead` is the optional closer behind
  one.  `FallsThrough` is the markup of a call that is none.
* `resolveTag_malformed`, `resolveBracket_malformed` and `resolveGemma_malformed`: these are what
  the resolvers report as malformed.
* `resolveGemma_crashes`: the resolver of Gemma's format panics where the scan for the end of the
  object does, and where the healing does; the others do not panic (`resolveTag_calm` and others).
-/

namespace Gen2
namespace Backend

open Lib Lib.Reader List Calm Yields

/-! ## The parts of a call -/

/-- An optional closer behind a body: once it is settled whether it is there, what is left. -/
inductive CloserRead (closer : Text) (atEos : Bool) : Text → Text → Prop
  | there {ws rest : Text} (hws : ∀ c ∈ ws, isWhitespace c = true) :
    CloserRead closer atEos (ws ++ (closer ++ rest)) rest
  | absent {tail : Text} (hno : ¬ closer <+: tail.dropWhile isWhitespace)
    (hsettled : atEos = true ∨ ¬ tail.dropWhile isWhitespace <+: closer) :
    CloserRead closer atEos tail tail

/-- The text begins with the head of a Gemma call, and its object follows. -/
def GemmaCall (s name b : Text) : Prop :=
  ∃ ws₁ ws₂ ws₃ ws₄, (∀ c ∈ ws₁ ++ ws₂ ++ ws₃ ++ ws₄, isWhitespace c = true) ∧ name ≠ [] ∧
    (∀ c ∈ name, isGemmaNameChar c = true) ∧ b.head? = some '{' ∧
    s = gemmaOpen ++ (ws₁ ++ ("call".toList ++ (ws₂ ++ (':' :: (ws₃ ++ (name ++ (ws₄ ++ b)))))))

/-- What may stand between a name and the arguments: an id, and a marker. -/
def IsCallId (t : Text) : Prop :=
  t = [] ∨ ∃ id, id ≠ [] ∧ (∀ c ∈ id, isNameChar c = true) ∧ t = callIdTag ++ id

/-- The text begins with the head of a call in brackets, in the name form, and its object follows.
-/
def BracketCall (s name b : Text) : Prop :=
  ∃ ws₁ ws₂ callId marker, (∀ c ∈ ws₁ ++ ws₂, isWhitespace c = true) ∧ name ≠ [] ∧
    (∀ c ∈ name, isNameChar c = true) ∧ IsCallId callId ∧ (marker = [] ∨ marker = argsTag) ∧
    b.head? = some '{' ∧
    s = bracketTag ++ (ws₁ ++ (name ++ (callId ++ (marker ++ (ws₂ ++ b)))))

/-- What stands between the braces or brackets of a body. -/
def between (body : Text) : Text := (body.drop 1).dropLast

section
variable [JsonText]

/-- From a trigger on stands the markup of a call that falls through as text, and then the rest. -/
inductive FallsThrough (atEos : Bool) : Trigger → Text → Text → Prop
  | tag {body rest : Text}
    (hend : find tagClose (body ++ (tagClose ++ rest)) = some body.length)
    (hjson : parseTagJson (trim body) = none)
    (hfunc : funcOpen <+: trim body → parseWrappedFunc (trim body) = none) :
    FallsThrough atEos .tag (tagOpen ++ (body ++ (tagClose ++ rest))) rest
  | array {ws body tail rest : Text} (hws : ∀ c ∈ ws, isWhitespace c = true)
    (hopen : body.head? = some '[')
    (hend : balancedBracketEnd (body ++ tail) = some (body.length - 1))
    (hcalls : (decodeArrayItems (between body)).filterMap callFromValue = [])
    (hcloser : CloserRead bracketCloser atEos tail rest) :
    FallsThrough atEos .bracket (bracketTag ++ (ws ++ (body ++ tail))) rest
  | named {s name body rest : Text} (hcall : BracketCall s name (body ++ rest)) (hne : body ≠ [])
    (hend : balancedBraceEnd (body ++ rest) false = some (some (body.length - 1)))
    (hobject : parseObject body = none) : FallsThrough atEos .bracket s rest
  | gemma {s name body tail rest : Text} (hcall : GemmaCall s name (body ++ tail))
    (hend : ObjectEnds (body ++ tail) body.length)
    (hcloser : CloserRead gemmaClose atEos tail rest)
    (hheal : gemmaArgumentsToJson (between body) = some none) : FallsThrough atEos .gemma s rest

end

/-! ## Bodies and closers -/

theorem braces_crashes {gemmaQuotes : Bool} {s : Text} :
    Comes (braces gemmaQuotes) s none ↔ balancedBraceEnd s gemmaQuotes = none := by
  rw [Comes, braces]
  cases balancedBraceEnd s gemmaQuotes with
  | none => exact ⟨fun _ => rfl, fun _ => rfl⟩
  | some braceEnd => cases braceEnd <;> exact ⟨fun h => (by cases h), fun h => by cases h⟩

theorem braces_comes {gemmaQuotes : Bool} {s body rest : Text} :
    Comes (braces gemmaQuotes) s (some (body, rest)) ↔ s = body ++ rest ∧ body ≠ [] ∧
      balancedBraceEnd s gemmaQuotes = some (some (body.length - 1)) := by
  constructor
  · rintro ⟨len, h, rfl⟩
    rw [braces] at h
    split at h
    · cases h
    · cases h
    next braceEnd hend =>
      cases h
      have hlt := (balancedBraceLoop_lt hend).2
      have hlen : (s.take (braceEnd + 1)).length = braceEnd + 1 :=
        length_take_of_le (by omega)
      refine ⟨(take_append_drop _ _).symm, ?_, ?_⟩
      · exact ne_nil_of_length_pos (by omega)
      · rw [hlen, hend, Nat.add_sub_cancel]
  · rintro ⟨rfl, hne, hend⟩
    have hpos := length_pos_iff.2 hne
    refine ⟨body.length, ?_, drop_left.symm⟩
    rw [braces, hend]
    dsimp only
    rw [Nat.sub_add_cancel hpos, take_left]

theorem balancedBraceLoop_plain_ne_none {i : Nat} {depth : Int} {inString inGemmaString : Bool}
    {skip : Nat} {t : Text} :
    balancedBraceLoop false i depth inString inGemmaString skip t ≠ none := by
  induction t generalizing i depth inString inGemmaString skip with
  | nil => exact fun h => by cases h
  | cons c t ih =>
    rw [balancedBraceLoop]
    simp only [Bool.false_and, Bool.false_eq_true, if_false]
    split_ifs <;> first | exact ih | exact fun h => by cases h

/-- Without quote tokens no cut is made. -/
theorem braces_calm : Calm (braces false) :=
  fun _ h => balancedBraceLoop_plain_ne_none (braces_crashes.1 h)

theorem brackets_calm : Calm brackets := by
  intro s h
  rw [Comes, brackets] at h
  split at h <;> cases h

theorem brackets_comes {s body rest : Text} :
    Comes brackets s (some (body, rest)) ↔ s = body ++ rest ∧ body ≠ [] ∧
      balancedBracketEnd s = some (body.length - 1) := by
  constructor
  · rintro ⟨len, h, rfl⟩
    rw [brackets] at h
    split at h
    · cases h
    next close hend =>
      cases h
      have hlt := (balancedBracketLoop_lt hend).2
      have hlen : (s.take (close + 1)).length = close + 1 := length_take_of_le (by omega)
      refine ⟨(take_append_drop _ _).symm, ?_, ?_⟩
      · exact ne_nil_of_length_pos (by omega)
      · rw [hlen, hend, Nat.add_sub_cancel]
  · rintro ⟨rfl, hne, hend⟩
    have hpos := length_pos_iff.2 hne
    refine ⟨body.length, ?_, drop_left.symm⟩
    rw [brackets, hend]
    dsimp only
    rw [Nat.sub_add_cancel hpos, take_left]

section
variable {closer : Text} {atEos : Bool}

theorem optionalCloser_calm : Calm (optionalCloser closer atEos) := by
  intro s h
  rw [Comes, optionalCloser] at h
  split_ifs at h

theorem drop_wsLen (s : Text) : s.drop (wsLen s) = s.dropWhile isWhitespace := by
  have hleft : (s.takeWhile isWhitespace ++ s.dropWhile isWhitespace).drop
      (s.takeWhile isWhitespace).length = s.dropWhile isWhitespace := drop_left
  rwa [takeWhile_append_dropWhile] at hleft

theorem optionalCloser_comes (hhead : ∃ c t, closer = c :: t ∧ isWhitespace c = false)
    {s rest : Text} :
    Comes (optionalCloser closer atEos) s (some ((), rest)) ↔ CloserRead closer atEos s rest := by
  have hmay : ∀ tail : Text, ¬ closer <+: tail →
      ((tail.isEmpty || couldBecome [closer] tail) = true ↔ tail <+: closer) := by
    intro tail hno
    rw [Bool.or_eq_true, List.isEmpty_iff, couldBecome_iff]
    simp only [mem_singleton, exists_eq_left]
    constructor
    · rintro (rfl | ⟨hpre, -⟩)
      · exact nil_prefix
      · exact hpre
    · intro hpre
      refine .inr ⟨hpre, Nat.lt_of_le_of_ne hpre.length_le fun heq => hno ?_⟩
      exact hpre.eq_of_length heq ▸ prefix_refl _
  constructor
  · rintro ⟨len, h, rfl⟩
    rw [optionalCloser, drop_wsLen] at h
    split_ifs at h with hthere hwait
    · cases h
      obtain ⟨rest, hrest⟩ := isPrefixOf_iff_prefix.1 hthere
      have hsplit := takeWhile_append_dropWhile (p := isWhitespace) (l := s)
      rw [← hrest] at hsplit
      have hdrop : s.drop (wsLen s + closer.length) = rest := by
        rw [← drop_drop, drop_wsLen, ← hrest, drop_left]
      rw [hdrop]
      nth_rewrite 1 [← hsplit]
      exact .there fun c hc => mem_takeWhile_imp hc
    · cases h
      have hno := mt isPrefixOf_iff_prefix.2 hthere
      refine .absent hno ?_
      rw [Bool.and_eq_true, not_and_or, hmay _ hno] at hwait
      exact hwait.imp_left fun h => by simpa using h
  · intro h
    cases h with
    | @there ws rest hws =>
      obtain ⟨c, t, rfl, hc⟩ := hhead
      have hdrop : (ws ++ (c :: t ++ rest)).dropWhile isWhitespace = c :: t ++ rest := by
        rw [dropWhile_append_of_pos hws, cons_append,
          dropWhile_cons_of_neg (by simp [hc])]
      have hlen : wsLen (ws ++ (c :: t ++ rest)) = ws.length := by
        rw [wsLen, takeWhile_append_of_pos hws, cons_append,
          takeWhile_cons_of_neg (by simp [hc]), append_nil]
      refine ⟨ws.length + (c :: t).length, ?_, ?_⟩
      · rw [optionalCloser, drop_wsLen, hdrop, hlen]
        rw [if_pos ( isPrefixOf_iff_prefix.2 (prefix_append _ _))]
      · rw [← drop_drop, drop_left, drop_left]
    | absent hno hsettled =>
      refine ⟨0, ?_, rfl⟩
      rw [optionalCloser, drop_wsLen]
      rw [if_neg (mt isPrefixOf_iff_prefix.1 hno), if_neg]
      rw [Bool.and_eq_true, not_and_or, hmay _ hno]
      exact hsettled.imp_left fun h => by simp [h]

end

/-! ## Resolvers -/

/-- The characters of a name lie within the graphic ones of ASCII. -/
theorem toNat_of_isGemmaNameChar {c : Char} (h : isGemmaNameChar c = true) :
    0x2d ≤ c.toNat ∧ c.toNat ≤ 0x7a := by
  simp only [isGemmaNameChar, isNameChar, Bool.or_eq_true, beq_iff_eq] at h
  rcases h with ((h | rfl) | rfl) | rfl
  · exact (toNat_of_isAlphanum h).imp_left (Nat.le_trans (by decide))
  all_goals decide

theorem not_name_of_isWhitespace {c : Char} (h : isWhitespace c = true) :
    isGemmaNameChar c = false ∧ c ≠ '[' := by
  have hrange : c.toNat < 0x2d ∨ 0x7a < c.toNat := by
    simp only [isWhitespace, Bool.or_eq_true, Bool.and_eq_true, decide_eq_true_eq, beq_iff_eq] at h
    omega
  constructor
  · by_contra hname
    obtain ⟨hlow, hhigh⟩ := toNat_of_isGemmaNameChar (Bool.eq_true_of_not_eq_false hname)
    omega
  · rintro rfl
    exact absurd h (by decide)

section
variable [JsonText] {atEos : Bool} {s rest : Text} {malformed : Bool}

omit [JsonText] in
/-- A marker that is at hand is read. -/
theorem skip_opener {opener : Text} (h : opener <+: s) {value mid : Text} :
    Comes (Reader.skip opener.length) s (some (value,
      mid)) ↔ s = opener ++ mid ∧ value = opener := by
  rw [skip_comes]
  constructor
  · rintro ⟨rfl, hlen⟩
    obtain ⟨more, heq⟩ := h
    obtain ⟨rfl, rfl⟩ := append_inj heq hlen.symm
    exact ⟨rfl, rfl⟩
  · rintro ⟨rfl, rfl⟩
    exact ⟨rfl, rfl⟩

theorem resolveTag_calm : Calm resolveTag := by
  refine (skip_calm _).bind fun _ => (upTo_calm _).bind fun body => ?_
  dsimp only
  split
  · exact pure _
  · split <;> exact pure _

/-- **A tag that is malformed.** -/
theorem resolveTag_malformed (h : tagOpen <+: s) :
    Comes resolveTag s (some (.noCall malformed, rest)) ↔
      malformed = true ∧ FallsThrough atEos .tag s rest := by
  rw [resolveTag]
  simp only [bind_comes_some, skip_opener h, upTo_comes]
  constructor
  · rintro ⟨_, _, ⟨rfl, rfl⟩, body, mid, ⟨rfl, hend⟩, hbody⟩
    split at hbody
    · cases pure_comes.1 hbody
    next hjson =>
      split at hbody
      · cases pure_comes.1 hbody
      next hfunc =>
        cases pure_comes.1 hbody
        refine ⟨rfl, .tag hend hjson fun hpre => ?_⟩
        rwa [if_pos ( isPrefixOf_iff_prefix.2 hpre)] at hfunc
  · rintro ⟨rfl, hfalls⟩
    cases hfalls with
    | @tag body rest hend hjson hfunc =>
      refine ⟨_, _, ⟨rfl, rfl⟩, _, _, ⟨rfl, hend⟩, ?_⟩
      rw [hjson]
      have hnone : (if funcOpen.isPrefixOf (trim body) = true then parseWrappedFunc (trim body)
          else none) = none := by
        split
        next hpre => exact hfunc ( isPrefixOf_iff_prefix.1 hpre)
        · rfl
      simp only [hnone]
      exact pure_comes.2 rfl

/-! ### Brackets -/

theorem resolveBracketMeta_calm (name : Text) : Calm (resolveBracketMeta atEos name) := by
  refine (marker_calm _).bind fun _ => (run_calm _).bind fun _ => peek_calm.bind fun c => ?_
  refine ite (braces_calm.bind fun body => ?_) (pure _)
  split
  · exact pure _
  · exact optionalCloser_calm.bind fun _ => pure _

theorem resolveBracket_calm : Calm (resolveBracket atEos) := by
  refine (skip_calm _).bind fun _ => (run_calm _).bind fun _ => peek_calm.bind fun c =>
    ite ?_ ?_
  · refine brackets_calm.bind fun body => optionalCloser_calm.bind fun _ => ?_
    exact ite (pure _) (pure _)
  · refine (run_calm _).bind fun name => ite (pure _) ?_
    refine (marker_calm _).bind fun hasId => ite ?_ (resolveBracketMeta_calm name)
    exact (run_calm _).bind fun id => ite (pure _) (resolveBracketMeta_calm name)

omit [JsonText] in
theorem bracketCloser_head : ∃ c t, bracketCloser = c :: t ∧ isWhitespace c = false :=
  ⟨'[', "/TOOL_CALLS]".toList, rfl, rfl⟩

/-- The array form, where it is malformed. -/
theorem resolveBracketArray_malformed :
    Comes (resolveBracketArray atEos) s (some (.noCall malformed, rest)) ↔ malformed = true ∧
      ∃ body tail, s = body ++ tail ∧ body ≠ [] ∧ balancedBracketEnd s = some (body.length - 1) ∧
        (decodeArrayItems (between body)).filterMap callFromValue = [] ∧
        CloserRead bracketCloser atEos tail rest := by
  rw [resolveBracketArray]
  simp only [bind_comes_some, brackets_comes]
  constructor
  · rintro ⟨body, tail, ⟨hs, hne, hend⟩, _, _, hcloser, hcalls⟩
    split at hcalls
    next hempty =>
      cases pure_comes.1 hcalls
      exact ⟨rfl, body, tail, hs, hne, hend, isEmpty_iff.1 hempty,
        (optionalCloser_comes bracketCloser_head).1 hcloser⟩
    · cases pure_comes.1 hcalls
  · rintro ⟨rfl, body, tail, hs, hne, hend, hcalls, hcloser⟩
    refine ⟨body, tail, ⟨hs, hne, hend⟩, (), rest,
      (optionalCloser_comes bracketCloser_head).2 hcloser, ?_⟩
    have hempty : ((arrayItems body).filterMap callFromValue).isEmpty = true :=
      isEmpty_iff.2 hcalls
    rw [if_pos hempty]
    exact pure_comes.2 rfl

/-- The object of the name form, where it is malformed. -/
theorem resolveBracketArgs_malformed {name : Text} :
    Comes (resolveBracketArgs atEos name) s (some (.noCall malformed, rest)) ↔ malformed = true ∧
      s.head? = some '{' ∧ ∃ body, s = body ++ rest ∧ body ≠ [] ∧
        balancedBraceEnd s false = some (some (body.length - 1)) ∧ parseObject body = none := by
  rw [resolveBracketArgs]
  simp only [bind_comes_some, peek_comes]
  constructor
  · rintro ⟨c, _, ⟨hc, rfl⟩, hobject⟩
    split at hobject
    next heq =>
      obtain ⟨body, mid, hbody, hcall⟩ := bind_comes_some.1 hobject
      obtain ⟨hs, hne, hend⟩ := braces_comes.1 hbody
      split at hcall
      next hnone =>
        cases pure_comes.1 hcall
        exact ⟨rfl, heq ▸ hc, body, hs, hne, hend, hnone⟩
      · obtain ⟨_, _, -, hcalls⟩ := bind_comes_some.1 hcall
        cases pure_comes.1 hcalls
    · cases pure_comes.1 hobject
  · rintro ⟨rfl, hopen, body, hs, hne, hend, hnone⟩
    refine ⟨'{', s, ⟨hopen, rfl⟩, ?_⟩
    rw [if_pos rfl]
    refine bind_comes_some.2 ⟨body, rest, braces_comes.2 ⟨hs, hne, hend⟩, ?_⟩
    rw [hnone]
    exact pure_comes.2 rfl

omit [JsonText] in
/-- A marker that stands in brackets is not there where something else than a bracket stands. -/
theorem marker_absent {p t : Text} {c : Char} (hc : c ≠ '[') :
    Comes (Reader.marker ('[' :: p)) (c :: t) (some (false, c :: t)) := by
  refine marker_comes_false.2 ⟨fun h => hc (cons_prefix_cons.1 h).1.symm, ?_, rfl⟩
  refine couldBecome_eq_false_iff.2 fun q hq hpre => ?_
  obtain rfl := mem_singleton.1 hq
  exact absurd (cons_prefix_cons.1 hpre).1 hc

omit [JsonText] in
/-- What follows a name and its id, up to the object. -/
theorem behind_name {marker ws t : Text} (hm : marker = [] ∨ marker = argsTag)
    (hws : ∀ c ∈ ws, isWhitespace c = true) : ∃ c u, marker ++ (ws ++ '{' :: t) = c :: u ∧
      isNameChar c = false ∧ Comes (Reader.marker callIdTag) (c :: u) (some (false, c :: u)) := by
  rcases hm with rfl | rfl
  · cases ws with
    | nil => exact ⟨'{', t, rfl, by decide, marker_absent (by decide)⟩
    | cons c ws =>
      obtain ⟨hname, hc⟩ := not_name_of_isWhitespace (hws c mem_cons_self)
      rw [isGemmaNameChar, Bool.or_eq_false_iff] at hname
      exact ⟨c, ws ++ '{' :: t, rfl, hname.1, marker_absent hc⟩
  · exact ⟨'[', "ARGS]".toList ++ (ws ++ '{' :: t), rfl, by decide, 0, rfl, rfl⟩

/-- Behind the id, where the name form is malformed. -/
theorem resolveBracketMeta_malformed {name : Text} :
    Comes (resolveBracketMeta atEos name) s (some (.noCall malformed, rest)) ↔ malformed = true ∧
      ∃ marker ws b body, (marker = [] ∨ marker = argsTag) ∧ (∀ c ∈ ws, isWhitespace c = true) ∧
        s = marker ++ (ws ++ b) ∧ b.head? = some '{' ∧ b = body ++ rest ∧ body ≠ [] ∧
        balancedBraceEnd b false = some (some (body.length - 1)) ∧ parseObject body = none := by
  rw [resolveBracketMeta]
  simp only [bind_comes_some, run_comes, resolveBracketArgs_malformed]
  constructor
  · rintro ⟨hasMarker, mid, hmarker, ws, b, ⟨rfl, hws, -⟩, rfl, hopen, body, hb, hne, hend, hnone⟩
    cases hasMarker with
    | true =>
      exact ⟨rfl, argsTag, ws, b, body, .inr rfl, hws, marker_comes_true.1 hmarker, hopen, hb, hne,
        hend, hnone⟩
    | false =>
      exact ⟨rfl, [], ws, b, body, .inl rfl, hws, (marker_comes_false.1 hmarker).2.2.symm, hopen,
        hb,
        hne, hend, hnone⟩
  · rintro ⟨rfl, marker, ws, b, body, hmarker, hws, rfl, hopen, hb, hne, hend, hnone⟩
    obtain ⟨t, rfl⟩ : ∃ t, b = '{' :: t := by
      cases b with
      | nil => cases hopen
      | cons c t => exact ⟨t, by rw [Option.some.inj hopen]⟩
    have hread : ∃ hasMarker, Comes (Reader.marker argsTag) (marker ++ (ws ++ '{' :: t))
        (some (hasMarker, ws ++ '{' :: t)) := by
      rcases hmarker with rfl | rfl
      · cases ws with
        | nil => exact ⟨false, marker_absent (by decide)⟩
        | cons c ws =>
          exact ⟨false, marker_absent (not_name_of_isWhitespace (hws c mem_cons_self)).2⟩
      · exact ⟨true, marker_comes_true.2 rfl⟩
    obtain ⟨hasMarker, hread⟩ := hread
    exact ⟨hasMarker, _, hread, ws, '{' :: t, ⟨rfl, hws, '{', t, rfl, by decide⟩, rfl, hopen, body,
      hb,
      hne, hend, hnone⟩

/-- The name form, where it is malformed. -/
theorem resolveBracketName_malformed :
    Comes (resolveBracketName atEos) s (some (.noCall malformed, rest)) ↔ malformed = true ∧
      ∃ name callId marker ws b body, name ≠ [] ∧ (∀ c ∈ name, isNameChar c = true) ∧
        IsCallId callId ∧ (marker = [] ∨ marker = argsTag) ∧ (∀ c ∈ ws, isWhitespace c = true) ∧
        s = name ++ (callId ++ (marker ++ (ws ++ b))) ∧ b.head? = some '{' ∧ b = body ++ rest ∧
        body ≠ [] ∧ balancedBraceEnd b false = some (some (body.length - 1)) ∧
        parseObject body = none := by
  rw [resolveBracketName]
  simp only [bind_comes_some, run_comes]
  constructor
  · rintro ⟨name, mid, ⟨rfl, hname, -⟩, h⟩
    split at h
    · cases pure_comes.1 h
    next hne =>
      have hne : name ≠ [] := fun heq => hne (isEmpty_iff.2 heq)
      obtain ⟨hasId, mid', hmarker, h⟩ := bind_comes_some.1 h
      cases hasId with
      | true =>
        rw [if_pos rfl] at h
        obtain ⟨id, mid'', hid, hmore⟩ := bind_comes_some.1 h
        obtain ⟨rfl, hchars, -⟩ := run_comes.1 hid
        split at hmore
        · cases pure_comes.1 hmore
        next hidne =>
          obtain ⟨rfl, marker, ws, b, body, hm, hws, rfl, hobject⟩ := resolveBracketMeta_malformed.1
            hmore
          refine ⟨rfl, name, callIdTag ++ id, marker, ws, b, body, hne, hname,
            .inr ⟨id, ?_, hchars, rfl⟩,
            hm, hws, ?_, hobject⟩
          · exact fun heq => hidne (isEmpty_iff.2 heq)
          · rw [marker_comes_true.1 hmarker, append_assoc]
      | false =>
        rw [if_neg (by decide)] at h
        obtain ⟨rfl, marker, ws, b, body, hm, hws, rfl, hobject⟩ := resolveBracketMeta_malformed.1 h
        refine ⟨rfl, name, [], marker, ws, b, body, hne, hname, .inl rfl, hm, hws, ?_, hobject⟩
        rw [← (marker_comes_false.1 hmarker).2.2, nil_append]
  · rintro ⟨rfl, name, callId, marker, ws, b, body, hne, hname, hid, hm, hws, rfl, hopen, hobject⟩
    obtain ⟨t, rfl⟩ : ∃ t, b = '{' :: t := by
      cases b with
      | nil => cases hopen
      | cons c t => exact ⟨t, by rw [Option.some.inj hopen]⟩
    have hmeta : Comes (resolveBracketMeta atEos name) (marker ++ (ws ++ '{' :: t))
        (some (.noCall true, rest)) := resolveBracketMeta_malformed.2
      ⟨rfl, marker, ws, _, body, hm, hws, rfl, hopen, hobject⟩
    obtain ⟨c, u, hbehind, hc, habsent⟩ := behind_name (t := t) hm hws
    have hempty : ¬ name.isEmpty = true := fun h => hne (isEmpty_iff.1 h)
    rw [hbehind] at hmeta ⊢
    rcases hid with rfl | ⟨id, hidne, hid, rfl⟩
    · refine ⟨name, c :: u, ⟨rfl, hname, c, u, rfl, hc⟩, ?_⟩
      rw [if_neg hempty]
      exact bind_comes_some.2 ⟨false, c :: u, habsent, hmeta⟩
    refine ⟨name, callIdTag ++ id ++ c :: u, ⟨rfl, hname, '[', "CALL_ID]".toList ++ id ++ c :: u,
      rfl, by decide⟩, ?_⟩
    rw [if_neg hempty, append_assoc]
    refine bind_comes_some.2 ⟨true, id ++ c :: u, marker_comes_true.2 rfl, ?_⟩
    rw [if_pos rfl]
    refine bind_comes_some.2 ⟨id, c :: u, run_comes.2 ⟨rfl, hid, c, u, rfl, hc⟩, ?_⟩
    rw [if_neg fun h => hidne (isEmpty_iff.1 h)]
    exact hmeta

/-- **A call in brackets that is malformed.** -/
theorem resolveBracket_malformed (h : bracketTag <+: s) :
    Comes (resolveBracket atEos) s (some (.noCall malformed, rest)) ↔
      malformed = true ∧ FallsThrough atEos .bracket s rest := by
  rw [resolveBracket]
  simp only [bind_comes_some, skip_opener h, run_comes, peek_comes]
  constructor
  · rintro ⟨_, mid, ⟨rfl, rfl⟩, ws, mid', ⟨rfl, hws, -⟩, c, _, ⟨hc, rfl⟩, hcall⟩
    split at hcall
    next heq =>
      subst heq
      obtain ⟨rfl, body, tail, rfl, hne, hend, hcalls, hcloser⟩ :=
        resolveBracketArray_malformed.1 hcall
      refine ⟨rfl, .array hws ?_ hend hcalls hcloser⟩
      rwa [head?_append_of_ne_nil _ hne] at hc
    next hnot =>
      obtain ⟨rfl, name, callId, marker, ws₂, b, body, hne, hname, hid, hm, hws₂, rfl, hopen, rfl,
        hbody,
        hend, hobject⟩ := resolveBracketName_malformed.1 hcall
      refine ⟨rfl, .named ⟨ws, ws₂, callId, marker, ?_, hne, hname, hid, hm, hopen, rfl⟩ hbody hend
        hobject⟩
      intro c hc
      rcases mem_append.1 hc with hc | hc
      · exact hws c hc
      · exact hws₂ c hc
  · rintro ⟨rfl, hfalls⟩
    cases hfalls with
    | @array ws body tail rest hws hopen hend hcalls hcloser =>
      obtain ⟨t, rfl⟩ : ∃ t, body = '[' :: t := by
        cases body with
        | nil => cases hopen
        | cons c t => exact ⟨t, by rw [Option.some.inj hopen]⟩
      refine ⟨_, _, ⟨rfl, rfl⟩, ws, _, ⟨rfl, hws, '[', t ++ tail, rfl, by decide⟩, '[', _,
        ⟨rfl, rfl⟩, ?_⟩
      rw [if_pos rfl]
      exact resolveBracketArray_malformed.2
        ⟨rfl, _, tail, rfl, cons_ne_nil _ _, hend, hcalls, hcloser⟩
    | @named _ name body rest hcall hbody hend hobject =>
      obtain ⟨ws, ws₂, callId, marker, hws, hne, hname, hid, hm, hopen, rfl⟩ := hcall
      have hcall : Comes (resolveBracketName atEos)
          (name ++ (callId ++ (marker ++ (ws₂ ++ (body ++ rest))))) (some (.noCall true, rest)) :=
        resolveBracketName_malformed.2 ⟨rfl, name, callId, marker, ws₂, _, body, hne, hname, hid,
          hm,
          fun c hc => hws c (mem_append_right _ hc), rfl, hopen, rfl, hbody, hend, hobject⟩
      obtain ⟨c, t, rfl⟩ := exists_cons_of_ne_nil hne
      have hc : isGemmaNameChar c = true := by
        rw [isGemmaNameChar, hname c mem_cons_self, Bool.true_or]
      refine ⟨_, _, ⟨rfl, rfl⟩, ws, _, ⟨rfl, fun d hd => hws d (mem_append_left _ hd), c, _,
        rfl, ?_⟩, c, _, ⟨rfl, rfl⟩, ?_⟩
      · by_contra hwhite
        rw [(not_name_of_isWhitespace (Bool.eq_true_of_not_eq_false hwhite)).1] at hc
        cases hc
      · rw [if_neg]
        · exact hcall
        · rintro rfl
          exact absurd hc (by decide)

/-! ### Gemma's format -/

/-- The object of a Gemma call, and its closer. -/
def resolveGemmaObject (atEos : Bool) (name : Text) : Reader Char Verdict := do
  let body ← braces true
  optionalCloser gemmaClose atEos
  let args ← Reader.orCrash (gemmaArgumentsToJson (between body))
  match args with
  | none => return .noCall true
  | some args => return .calls .gemmaDialect [⟨none, name, JsonText.toText args⟩]

/-- **The head of a Gemma call is read**, or what stands there is no call. -/
theorem resolveGemma_comes {o : Option (Verdict × Text)} (ho : ∀ t, o ≠ some (.bare, t))
    (h : gemmaOpen <+: s) : Comes (resolveGemma atEos) s o ↔
      ∃ name b, GemmaCall s name b ∧ Comes (resolveGemmaObject atEos name) b o := by
  have hbare : ∀ {t : Text}, ¬ Comes (Pure.pure Verdict.bare) t o :=
    fun {t} hpure => ho t (pure_comes.1 hpure)
  constructor
  · intro hcomes
    rw [resolveGemma, bind_comes (skip_calm _)] at hcomes
    obtain ⟨_, t₁, hskip, h₁⟩ := hcomes
    obtain ⟨rfl, rfl⟩ := (skip_opener h).1 hskip
    obtain ⟨ws₁, t₂, hread₁, h₂⟩ := (bind_comes (run_calm _)).1 h₁
    obtain ⟨rfl, hws₁, -⟩ := run_comes.1 hread₁
    obtain ⟨isCall, t₃, hmarker, h₃⟩ := (bind_comes (marker_calm _)).1 h₂
    cases isCall with
    | false => exact absurd h₃ hbare
    | true =>
      obtain rfl := marker_comes_true.1 hmarker
      rw [if_neg (by decide)] at h₃
      obtain ⟨ws₂, t₄, hread₂, h₄⟩ := (bind_comes (run_calm _)).1 h₃
      obtain ⟨rfl, hws₂, -⟩ := run_comes.1 hread₂
      obtain ⟨c, t₅, hpeek, h₅⟩ := (bind_comes peek_calm).1 h₄
      obtain ⟨hc, rfl⟩ := peek_comes.1 hpeek
      split at h₅
      · exact absurd h₅ hbare
      next hcolon =>
        have hcolon : c = ':' := by simpa using hcolon
        subst hcolon
        obtain ⟨_, t₆, hskip', h₆⟩ := (bind_comes (skip_calm _)).1 h₅
        obtain ⟨rfl, hone⟩ := skip_comes.1 hskip'
        obtain ⟨d, rfl⟩ := length_eq_one_iff.1 hone
        obtain rfl : d = ':' := Option.some.inj hc
        obtain ⟨ws₃, t₇, hread₃, h₇⟩ := (bind_comes (run_calm _)).1 h₆
        obtain ⟨rfl, hws₃, -⟩ := run_comes.1 hread₃
        obtain ⟨name, t₈, hread, h₈⟩ := (bind_comes (run_calm _)).1 h₇
        obtain ⟨rfl, hname, -⟩ := run_comes.1 hread
        split at h₈
        · exact absurd h₈ hbare
        next hne =>
          obtain ⟨ws₄, t₉, hread₄, h₉⟩ := (bind_comes (run_calm _)).1 h₈
          obtain ⟨rfl, hws₄, -⟩ := run_comes.1 hread₄
          obtain ⟨e, b, hpeek', h₁₀⟩ := (bind_comes peek_calm).1 h₉
          obtain ⟨he, rfl⟩ := peek_comes.1 hpeek'
          split at h₁₀
          next heq =>
            subst heq
            refine ⟨name, b, ⟨ws₁, ws₂, ws₃, ws₄, fun c hc => ?_, fun heq => hne ?_, hname, he,
              rfl⟩,
              h₁₀⟩
            · simp only [mem_append] at hc
              rcases hc with ((hc | hc) | hc) | hc
              · exact hws₁ c hc
              · exact hws₂ c hc
              · exact hws₃ c hc
              · exact hws₄ c hc
            · exact isEmpty_iff.2 heq
          · exact absurd h₁₀ hbare
  · rintro ⟨name, b, ⟨ws₁, ws₂, ws₃, ws₄, hws, hne, hname, hopen, rfl⟩, hobject⟩
    simp only [mem_append] at hws
    obtain ⟨t, rfl⟩ : ∃ t, b = '{' :: t := by
      cases b with
      | nil => cases hopen
      | cons c t => exact ⟨t, by rw [Option.some.inj hopen]⟩
    have hbody : Comes (resolveGemmaBody atEos name) (ws₄ ++ '{' :: t) o := by
      refine (bind_comes (run_calm _)).2 ⟨ws₄, _, run_comes.2 ⟨rfl, fun c hc => hws c (.inr hc),
        '{', t,
        rfl, by decide⟩, (bind_comes peek_calm).2 ⟨'{', _, peek_comes.2 ⟨rfl, rfl⟩, ?_⟩⟩
      rw [if_pos rfl]
      exact hobject
    obtain ⟨n, name', rfl⟩ := exists_cons_of_ne_nil hne
    have hn : isWhitespace n = false := by
      by_contra hwhite
      have hnot := (not_name_of_isWhitespace (Bool.eq_true_of_not_eq_false hwhite)).1
      rw [hname n mem_cons_self] at hnot
      cases hnot
    have hbehind : ∃ c u, ws₄ ++ '{' :: t = c :: u ∧ isGemmaNameChar c = false := by
      cases ws₄ with
      | nil => exact ⟨'{', t, rfl, by decide⟩
      | cons c ws =>
        exact ⟨c, _, rfl, (not_name_of_isWhitespace (hws c (.inr mem_cons_self))).1⟩
    rw [resolveGemma]
    refine (bind_comes (skip_calm _)).2 ⟨_, _, (skip_opener h).2 ⟨rfl, rfl⟩, ?_⟩
    refine (bind_comes (run_calm _)).2 ⟨ws₁, _, run_comes.2 ⟨rfl,
      fun c hc => hws c (.inl (.inl (.inl hc))), 'c', _, rfl, by decide⟩, ?_⟩
    refine (bind_comes (marker_calm _)).2 ⟨true, _, marker_comes_true.2 rfl, ?_⟩
    rw [if_neg (by decide)]
    refine (bind_comes (run_calm _)).2 ⟨ws₂, _, run_comes.2 ⟨rfl,
      fun c hc => hws c (.inl (.inl (.inr hc))), ':', _, rfl, by decide⟩, ?_⟩
    refine (bind_comes peek_calm).2 ⟨':', _, peek_comes.2 ⟨rfl, rfl⟩, ?_⟩
    rw [if_neg (by decide)]
    refine (bind_comes (skip_calm _)).2 ⟨[':'], _, skip_comes.2 ⟨rfl, rfl⟩, ?_⟩
    refine (bind_comes (run_calm _)).2 ⟨ws₃, _, run_comes.2 ⟨rfl,
      fun c hc => hws c (.inl (.inr hc)), n, _, rfl, hn⟩, ?_⟩
    refine (bind_comes (run_calm _)).2 ⟨n :: name', _, run_comes.2 ⟨rfl, hname, hbehind⟩, ?_⟩
    rw [if_neg (by simp)]
    exact hbody

omit [JsonText] in
theorem gemmaClose_head : ∃ c t, gemmaClose = c :: t ∧ isWhitespace c = false :=
  ⟨'<', "tool_call|>".toList, rfl, rfl⟩

omit [JsonText] in
/-- The object of a call has been read to its end, and its closer. -/
theorem object_comes {b : Text} (hb : b.head? = some '{') (hsafe : BraceSafe b) {body mid : Text} :
    Comes (braces true) b (some (body, mid)) ↔ b = body ++ mid ∧ ObjectEnds b body.length := by
  rw [braces_comes]
  refine and_congr_right fun hsplit => ?_
  rw [balancedBraceEnd_ends_iff hb hsafe]
  constructor
  · rintro ⟨hne, hends⟩
    rwa [Nat.sub_add_cancel (length_pos_iff.2 hne)] at hends
  · intro hends
    exact ⟨length_pos_iff.1 hends.pos, by rwa [Nat.sub_add_cancel hends.pos]⟩

/-- **The resolver of Gemma's format panics** where the scan does, and where the healing does. -/
theorem resolveGemma_crashes (h : gemmaOpen <+: s) : Comes (resolveGemma atEos) s none ↔
    ∃ name b, GemmaCall s name b ∧ (¬ BraceSafe b ∨ BraceSafe b ∧ ∃ body tail rest,
      b = body ++ tail ∧ ObjectEnds b body.length ∧ CloserRead gemmaClose atEos tail rest ∧
        gemmaArgumentsToJson (between body) = none) := by
  rw [resolveGemma_comes (o := none) (by simp) h]
  refine exists_congr fun name => exists_congr fun b => and_congr_right fun hcall => ?_
  have hb : b.head? = some '{' := by
    obtain ⟨_, _, _, _, _, _, _, hb, _⟩ := hcall
    exact hb
  rw [resolveGemmaObject, bind_crashes, braces_crashes, balancedBraceEnd_crashes_iff hb]
  refine or_congr_right' fun hsafe => ?_
  rw [not_not] at hsafe
  rw [and_iff_right hsafe]
  simp only [object_comes hb hsafe, bind_comes optionalCloser_calm,
    optionalCloser_comes gemmaClose_head, bind_crashes, orCrash_crashes]
  constructor
  · rintro ⟨body, tail, ⟨hsplit, hends⟩, _, rest, hcloser, hheal | ⟨args, _, -, hcrash⟩⟩
    · exact ⟨body, tail, rest, hsplit, hends, hcloser, hheal⟩
    · cases args <;> cases pure_comes.1 hcrash
  · rintro ⟨body, tail, rest, hsplit, hends, hcloser, hheal⟩
    exact ⟨body, tail, ⟨hsplit, hends⟩, (), rest, hcloser, .inl hheal⟩

/-- **A Gemma call that is malformed**, where the scan does not panic. -/
theorem resolveGemma_malformed (h : gemmaOpen <+: s)
    (hsafe : ∀ name b, GemmaCall s name b → BraceSafe b) :
    Comes (resolveGemma atEos) s (some (.noCall malformed, rest)) ↔
      malformed = true ∧ FallsThrough atEos .gemma s rest := by
  rw [resolveGemma_comes (by simp) h]
  constructor
  · rintro ⟨name, b, hcall, hobject⟩
    have hb : b.head? = some '{' := by
      obtain ⟨_, _, _, _, _, _, _, hb, _⟩ := hcall
      exact hb
    simp only [resolveGemmaObject, bind_comes_some, object_comes hb (hsafe name b hcall),
      optionalCloser_comes gemmaClose_head, orCrash_comes] at hobject
    obtain ⟨body, tail, ⟨rfl, hends⟩, _, _, hcloser, args, _, ⟨hheal, rfl⟩, hverdict⟩ := hobject
    cases args with
    | none =>
      cases pure_comes.1 hverdict
      exact ⟨rfl, .gemma hcall hends hcloser hheal⟩
    | some args => cases pure_comes.1 hverdict
  · rintro ⟨rfl, hfalls⟩
    cases hfalls with
    | @gemma _ name body tail rest hcall hends hcloser hheal =>
      have hb : (body ++ tail).head? = some '{' := by
        obtain ⟨_, _, _, _, _, _, _, hb, _⟩ := hcall
        exact hb
      refine ⟨name, body ++ tail, hcall, ?_⟩
      simp only [resolveGemmaObject, bind_comes_some, object_comes hb (hsafe name _ hcall),
        optionalCloser_comes gemmaClose_head, orCrash_comes]
      exact ⟨body, tail, ⟨rfl, hends⟩, (), rest, hcloser, none, rest, ⟨hheal, rfl⟩,
        pure_comes.2 rfl⟩

/-! ### The other formats -/

theorem resolveFunc_calm : Calm (resolveFunc atEos) := by
  refine (skip_calm _).bind fun _ => (run_calm _).bind fun name => peek_calm.bind fun c =>
    ite (pure _) ((skip_calm _).bind fun _ => ?_)
  have hbody : Calm (funcBody atEos) := by
    intro s h
    rw [Comes, funcBody] at h
    split at h <;> cases h
  refine hbody.bind fun body => ?_
  split <;> exact pure _

theorem resolveArgs_calm (name : Text) : Calm (resolveArgs name) := by
  refine (skip_calm _).bind fun _ => (run_calm _).bind fun _ => peek_calm.bind fun c =>
    ite (braces_calm.bind fun body => ?_) (pure _)
  split <;> exact pure _

/-- What is no call in these formats is not reported. -/
theorem resolveFunc_yields_unreported : Yields (fun v => v ≠ .noCall true) (resolveFunc atEos) := by
  refine Yields.bind fun _ => Yields.bind fun _ => Yields.bind fun _ =>
    Yields.ite (Yields.pure (by simp)) (Yields.bind fun _ => Yields.bind fun body => ?_)
  split <;> exact Yields.pure (by simp)

theorem resolveArgs_yields_unreported (name : Text) :
    Yields (fun v => v ≠ .noCall true) (resolveArgs name) := by
  refine Yields.bind fun _ => Yields.bind fun _ => Yields.bind fun _ =>
    Yields.ite (Yields.bind fun body => ?_) (Yields.pure (by simp))
  split <;> exact Yields.pure (by simp)

end

end Backend
end Gen2
