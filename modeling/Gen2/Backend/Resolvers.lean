import Gen2.Backend.ToolCalls

/-!
# What the resolvers read

A resolver reads no more than there is; and once it has come to a verdict, or has panicked, what
comes later in the text changes nothing, as long as the text has not ended (`Reads`).

* A body in braces or brackets ends where its depth comes to nought; the loops that look for the end
  look ahead only for Gemma's quote, and where half of one stands at the end of the text they do not
  find an end.
* The end of a function is one that no parameter is open at.  A parameter that has not been closed
  leaves it open.
* A block with calls has one, except that an array may have several (`Verdict.OneCall`).
-/

namespace Gen2
namespace Backend

open Lib Reader List Yields Reads

/-! ## Braces and brackets -/

variable {s : Text}

/-- Half of a quote is no end of a body. -/
theorem balancedBraceLoop_of_couldBecome (h : couldBecome [gemmaQuote] s = true) (i : Nat)
    (depth : Int) (inGemmaString : Bool) :
    balancedBraceLoop true i depth false inGemmaString 0 s = some none := by
  obtain ⟨p, hp, hpre, hlt⟩ := couldBecome_iff.1 h
  obtain rfl := mem_singleton.1 hp
  obtain ⟨n, rfl⟩ : ∃ n, s = gemmaQuote.take n := ⟨s.length, prefix_iff_eq_take.1 hpre⟩
  have hn : n < 5 := by
    rw [length_take, show gemmaQuote.length = 5 from rfl] at hlt
    omega
  have hcases : n = 0 ∨ n = 1 ∨ n = 2 ∨ n = 3 ∨ n = 4 := by omega
  rcases hcases with rfl | rfl | rfl | rfl | rfl <;> cases inGemmaString <;>
    simp [gemmaQuote, balancedBraceLoop, isMultibyte] <;> decide

variable {i skip : Nat} {depth : Int} {inString : Bool}

/-- **What comes later does not move the end of a body.** -/
theorem balancedBraceLoop_append {gemmaQuotes : Bool} (t : Text) {inGemmaString : Bool}
    (h : balancedBraceLoop gemmaQuotes i depth inString inGemmaString skip s ≠ some none) :
    balancedBraceLoop gemmaQuotes i depth inString inGemmaString skip (s ++ t) =
      balancedBraceLoop gemmaQuotes i depth inString inGemmaString skip s := by
  induction s generalizing i depth inString inGemmaString skip with
  | nil => exact absurd rfl h
  | cons c rest ih =>
    rw [cons_append, balancedBraceLoop]
    rw [balancedBraceLoop] at h ⊢
    by_cases hskip : 0 < skip
    · rw [if_pos hskip] at h ⊢
      rw [if_pos hskip]
      exact ih h
    -- where the text stops in a quote, the loop has not found an end
    have hquote : (gemmaQuotes && !inString && gemmaQuote.isPrefixOf (c :: (rest ++ t))) =
        (gemmaQuotes && !inString && gemmaQuote.isPrefixOf (c :: rest)) := by
      by_cases hmay : couldBecome [gemmaQuote] (c :: rest) = true
      · cases gemmaQuotes with
        | false => rfl
        | true =>
          cases inString with
          | true => rfl
          | false =>
            have hnone := balancedBraceLoop_of_couldBecome hmay i depth inGemmaString
            rw [balancedBraceLoop, if_neg (Nat.lt_irrefl 0)] at hnone
            rw [if_neg hskip] at h
            exact absurd hnone h
      · have hprefix := prefix_append_iff (Bool.eq_false_iff.2 hmay)
          (mem_singleton_self gemmaQuote) t
        rw [← isPrefixOf_iff_prefix, ← isPrefixOf_iff_prefix] at hprefix
        rw [cons_append] at hprefix
        rw [Bool.eq_iff_iff.2 hprefix]
    rw [if_neg hskip] at h ⊢
    rw [if_neg hskip, hquote]
    split_ifs at h ⊢ <;> first | rfl | exact ih h

theorem balancedBraceLoop_lt {gemmaQuotes : Bool} {inGemmaString : Bool} {braceEnd : Nat}
    (h : balancedBraceLoop gemmaQuotes i depth inString inGemmaString skip s =
      some (some braceEnd)) : i ≤ braceEnd ∧ braceEnd < i + s.length := by
  induction s generalizing i depth inString inGemmaString skip with
  | nil => simp [balancedBraceLoop] at h
  | cons c rest ih =>
    rw [balancedBraceLoop] at h
    rw [length_cons]
    split_ifs at h <;> first
      | (have hrest := ih h; omega)
      | (simp only [Option.some.injEq] at h; omega)

theorem balancedBracketLoop_append (t : Text)
    (h : balancedBracketLoop i depth inString skip s ≠ none) :
    balancedBracketLoop i depth inString skip (s ++ t) =
      balancedBracketLoop i depth inString skip s := by
  induction s generalizing i depth inString skip with
  | nil => exact absurd rfl h
  | cons c rest ih =>
    rw [cons_append, balancedBracketLoop]
    rw [balancedBracketLoop] at h ⊢
    split_ifs at h ⊢ <;> first | rfl | exact ih h

theorem balancedBracketLoop_lt {close : Nat}
    (h : balancedBracketLoop i depth inString skip s = some close) :
    i ≤ close ∧ close < i + s.length := by
  induction s generalizing i depth inString skip with
  | nil => simp [balancedBracketLoop] at h
  | cons c rest ih =>
    rw [balancedBracketLoop] at h
    rw [length_cons]
    split_ifs at h <;> first
      | (have hrest := ih h; omega)
      | (simp only [Option.some.injEq] at h; omega)

variable {firm : Prop}

theorem braces_reads (gemmaQuotes : Bool) : Reads firm (braces gemmaQuotes) where
  within {s value len} h := by
    rw [braces] at h
    split at h
    · cases h
    · cases h
    next braceEnd hend =>
      cases h
      have hlt := (balancedBraceLoop_lt hend).2
      omega
  stable _ s t h := by
    rw [braces] at h ⊢
    rw [braces]
    cases hend : balancedBraceEnd s gemmaQuotes with
    | none =>
      rw [balancedBraceEnd, balancedBraceLoop_append t (by rw [← balancedBraceEnd, hend]; simp),
        ← balancedBraceEnd, hend]
    | some found =>
      cases found with
      | none => simp [hend] at h
      | some braceEnd =>
        have hlt := (balancedBraceLoop_lt hend).2
        rw [balancedBraceEnd, balancedBraceLoop_append t (by rw [← balancedBraceEnd, hend]; simp),
          ← balancedBraceEnd, hend]
        dsimp only
        rw [take_append_of_le_length (by omega)]

theorem brackets_reads : Reads firm brackets where
  within {s value len} h := by
    rw [brackets] at h
    split at h
    · cases h
    next close hclose =>
      cases h
      have hlt := (balancedBracketLoop_lt hclose).2
      omega
  stable _ s t h := by
    rw [brackets] at h ⊢
    rw [brackets]
    cases hclose : balancedBracketEnd s with
    | none => simp [hclose] at h
    | some close =>
      have hlt := (balancedBracketLoop_lt hclose).2
      rw [balancedBracketEnd,
        balancedBracketLoop_append t (by rw [← balancedBracketEnd, hclose]; simp),
        ← balancedBracketEnd, hclose]
      dsimp only
      rw [take_append_of_le_length (by omega)]

/-! ## What may follow a body -/

theorem wsLen_le (s : Text) : wsLen s ≤ s.length := ( takeWhile_prefix _).length_le

/-- White space has ended where something else follows. -/
theorem wsLen_append (h : s.drop (wsLen s) ≠ []) (t : Text) : wsLen (s ++ t) = wsLen s := by
  have hlt : wsLen s < s.length := by
    by_contra hge
    exact h (drop_eq_nil_of_le (by omega))
  rw [wsLen, takeWhile_append_of_lt hlt, wsLen]

theorem optionalCloser_reads {closer : Text} (hne : closer ≠ []) (atEos : Bool) :
    Reads (atEos = false) (optionalCloser closer atEos) where
  within {s value len} h := by
    rw [optionalCloser] at h
    split at h
    next hpre =>
      cases h
      have hlen := ( isPrefixOf_iff_prefix.1 hpre).length_le
      rw [length_drop] at hlen
      have := wsLen_le s
      omega
    · split at h
      · cases h
      · cases h
        exact Nat.zero_le _
  stable hfirm s t h := by
    subst hfirm
    rw [optionalCloser] at h ⊢
    rw [optionalCloser]
    by_cases htail : s.drop (wsLen s) = []
    · have hpre : ¬ closer.isPrefixOf [] = true := by simpa using hne
      rw [htail, if_neg hpre] at h
      exact absurd rfl h
    rw [wsLen_append htail, drop_append_of_le_length (wsLen_le s)]
    by_cases hpre : closer.isPrefixOf (s.drop (wsLen s)) = true
    · have hpre' := ( isPrefixOf_iff_prefix.1 hpre).trans (prefix_append _ t)
      rw [if_pos hpre, if_pos ( isPrefixOf_iff_prefix.2 hpre')]
    rw [if_neg hpre] at h ⊢
    by_cases hmay : couldBecome [closer] (s.drop (wsLen s)) = true
    · rw [if_pos (by simp [hmay])] at h
      exact absurd rfl h
    have hmay := Bool.eq_false_iff.2 hmay
    have hpre' : ¬ closer.isPrefixOf (s.drop (wsLen s) ++ t) = true := by
      rw [ isPrefixOf_iff_prefix, prefix_append_iff hmay (mem_singleton_self closer),
        ← isPrefixOf_iff_prefix]
      exact hpre
    have hnil : (s.drop (wsLen s) ++ t).isEmpty = false := by simp [htail]
    have hnil' : (s.drop (wsLen s)).isEmpty = false := by simp [htail]
    rw [if_neg hpre', hnil, hnil', hmay, couldBecome_append hmay t]

/-! ## The end of a function -/

theorem rfind_le {needle : Text} (h : rfind s needle = some i) : i ≤ s.length := by
  have hmem := mem_of_find?_eq_some h
  rw [mem_reverse, mem_range] at hmem
  omega

/-- Whether a parameter is open at a closer is decided there. -/
theorem insideOpenParameter_append {pos : Nat} (h : funcClose <+: s.drop pos) (t : Text) :
    insideOpenParameter (s ++ t) pos false = insideOpenParameter s pos false := by
  have hroom := h.length_le
  rw [length_drop, show funcClose.length = 11 from rfl] at hroom
  rw [insideOpenParameter, insideOpenParameter, take_append_of_le_length (by omega)]
  cases hparam : rfind (s.take pos) paramOpen with
  | none => rfl
  | some paramStart =>
    have hle := rfind_le hparam
    rw [length_take] at hle
    dsimp only
    rw [drop_append_of_le_length (by omega)]
    cases hclose : find paramClose (s.drop paramStart) with
    | some rel => rw [find_append hclose]
    | none =>
      cases hlater : find paramClose (s.drop paramStart ++ t) with
      | none => rfl
      | some rel =>
        -- a closer that was not there before is behind this place
        obtain ⟨-, hpre, -⟩ := find_eq_some_iff.1 hlater
        have hnot : ¬ paramStart + rel ≤ pos := by
          intro hbefore
          rw [← drop_append_of_le_length (by omega), drop_drop] at hpre
          rcases Nat.lt_or_eq_of_le hbefore with hlt | heq
          · refine (find_eq_none_iff (by decide)).1 hclose rel ?_
            rw [drop_drop]
            rw [drop_append_of_le_length (by omega)] at hpre
            refine prefix_of_prefix_length_le hpre (prefix_append _ _) ?_
            rw [length_drop, show paramClose.length = 12 from rfl]
            omega
          · rw [heq, drop_append_of_le_length (by omega)] at hpre
            have hshort : funcClose <+: paramClose :=
              prefix_of_prefix_length_le (h.trans (prefix_append _ t)) hpre (by decide)
            exact absurd hshort (by decide)
        simp only [Bool.not_false, if_true, decide_eq_true_eq]
        omega

theorem funcCloseIndex_eq_some {body : Text} {atEos : Bool} {idx : Nat}
    (h : funcCloseIndex body atEos = some idx) :
    funcClose <+: body.drop idx ∧ insideOpenParameter body idx atEos = false := by
  have htest := find?_some h
  simp only [Bool.and_eq_true, Bool.not_eq_true', isPrefixOf_iff_prefix] at htest
  exact htest

theorem funcCloseIndex_append {idx : Nat} (h : funcCloseIndex s false = some idx) (t : Text) :
    funcCloseIndex (s ++ t) false = some idx := by
  obtain ⟨hpre, -⟩ := funcCloseIndex_eq_some h
  have hroom := hpre.length_le
  rw [length_drop, show funcClose.length = 11 from rfl] at hroom
  have hsame : ∀ j ≤ idx, (funcClose.isPrefixOf ((s ++ t).drop j) &&
      !insideOpenParameter (s ++ t) j false) =
        (funcClose.isPrefixOf (s.drop j) && !insideOpenParameter s j false) := by
    intro j hj
    rw [drop_append_of_le_length (by omega)]
    by_cases hstands : funcClose <+: s.drop j
    · rw [insideOpenParameter_append hstands,
        isPrefixOf_iff_prefix.2 hstands,
        isPrefixOf_iff_prefix.2 (hstands.trans (prefix_append _ t))]
    have hstands' : ¬ funcClose <+: s.drop j ++ t := by
      intro hlater
      refine hstands (prefix_of_prefix_length_le hlater (prefix_append _ _) ?_)
      rw [length_drop, show funcClose.length = 11 from rfl]
      omega
    rw [← isPrefixOf_iff_prefix] at hstands hstands'
    rw [Bool.eq_false_iff.2 hstands, Bool.eq_false_iff.2 hstands', Bool.false_and,
      Bool.false_and]
  rw [funcCloseIndex, find?_range_eq_some] at h ⊢
  obtain ⟨htest, hmem, hbefore⟩ := h
  refine ⟨by rw [hsame idx (Nat.le_refl _)]; exact htest, by simp; omega, fun j hj => ?_⟩
  rw [hsame j (Nat.le_of_lt hj)]
  exact hbefore j hj

theorem funcBody_reads (atEos : Bool) : Reads (atEos = false) (funcBody atEos) where
  within {s value len} h := by
    rw [funcBody] at h
    split at h
    · cases h
    next close hclose =>
      cases h
      have hroom := (funcCloseIndex_eq_some hclose).1.length_le
      rw [length_drop] at hroom
      have : 0 < funcClose.length := by decide
      omega
  stable hfirm s t h := by
    subst hfirm
    rw [funcBody] at h ⊢
    rw [funcBody]
    cases hclose : funcCloseIndex s false with
    | none => simp [hclose] at h
    | some close =>
      have hroom := (funcCloseIndex_eq_some hclose).1.length_le
      rw [length_drop, show funcClose.length = 11 from rfl] at hroom
      rw [funcCloseIndex_append hclose]
      dsimp only
      rw [take_append_of_le_length (by omega)]

/-! ## Resolvers -/

section
variable [JsonText]

theorem resolveTag_reads : Reads firm resolveTag := by
  refine bind (skip_reads _) fun _ => bind (upTo_reads _) fun body => ?_
  dsimp only
  split
  · exact pure _
  · split <;> exact pure _

theorem resolveArgs_reads (name : Text) : Reads firm (resolveArgs name) := by
  refine bind (skip_reads _) fun _ => bind (run_reads _) fun _ =>
    bind peek_reads fun c => ite ?_ (pure _)
  refine bind (braces_reads _) fun body => ?_
  split <;> exact pure _

variable (atEos : Bool)

omit [JsonText] in
theorem bracketCloser_reads : Reads (atEos = false) (optionalCloser bracketCloser atEos) :=
  optionalCloser_reads (by decide) atEos

theorem resolveBracketArray_reads : Reads (atEos = false) (resolveBracketArray atEos) := by
  refine bind brackets_reads fun body => bind (bracketCloser_reads atEos) fun _ => ?_
  exact ite (pure _) (pure _)

theorem resolveBracketArgs_reads (name : Text) :
    Reads (atEos = false) (resolveBracketArgs atEos name) := by
  refine bind peek_reads fun c => ite ?_ (pure _)
  refine bind (braces_reads _) fun body => ?_
  split
  · exact pure _
  · exact bind (bracketCloser_reads atEos) fun _ => pure _

theorem resolveBracketMeta_reads (name : Text) :
    Reads (atEos = false) (resolveBracketMeta atEos name) :=
  bind (marker_reads _) fun _ => bind (run_reads _) fun _ =>
    resolveBracketArgs_reads atEos name

theorem resolveBracketName_reads : Reads (atEos = false) (resolveBracketName atEos) := by
  refine bind (run_reads _) fun name => ite (pure _) ?_
  refine bind (marker_reads _) fun hasId =>
    ite ?_ (resolveBracketMeta_reads atEos name)
  exact bind (run_reads _) fun id =>
    ite (pure _) (resolveBracketMeta_reads atEos name)

theorem resolveBracket_reads : Reads (atEos = false) (resolveBracket atEos) :=
  bind (skip_reads _) fun _ => bind (run_reads _) fun _ => bind peek_reads fun _ =>
    ite (resolveBracketArray_reads atEos) (resolveBracketName_reads atEos)

theorem resolveGemmaBody_reads (name : Text) :
    Reads (atEos = false) (resolveGemmaBody atEos name) := by
  refine bind (run_reads _) fun _ => bind peek_reads fun c =>
    ite ?_ (pure _)
  refine bind (braces_reads _) fun body =>
    bind (optionalCloser_reads (by decide) atEos) fun _ =>
      bind (orCrash_reads _) fun args => ?_
  split <;> exact pure _

theorem resolveGemma_reads : Reads (atEos = false) (resolveGemma atEos) := by
  refine bind (skip_reads _) fun _ => bind (run_reads _) fun _ =>
    bind (marker_reads _) fun isCall => ite (pure _) ?_
  refine bind (run_reads _) fun _ => bind peek_reads fun c =>
    ite (pure _) ?_
  refine bind (skip_reads _) fun _ => bind (run_reads _) fun _ =>
    bind (run_reads _) fun name => ?_
  exact ite (pure _) (resolveGemmaBody_reads atEos name)

theorem resolveFunc_reads : Reads (atEos = false) (resolveFunc atEos) := by
  refine bind (skip_reads _) fun _ => bind (run_reads _) fun name =>
    bind peek_reads fun c => ite (pure _) ?_
  refine bind (skip_reads _) fun _ => bind (funcBody_reads atEos) fun body => ?_
  split <;> exact pure _

/-! ## Calls -/

end

/-- What is a block with calls has some. -/
def Verdict.HasCalls : Verdict → Prop
  | .calls _ found => found ≠ []
  | .noCall _ | .bare => True

/-- What is a block with calls has one. -/
def Verdict.OneCall : Verdict → Prop
  | .calls _ found => found.length = 1
  | .noCall _ | .bare => True

theorem Verdict.OneCall.hasCalls {v : Verdict} (h : v.OneCall) : v.HasCalls := by
  cases v with
  | calls dialect found =>
    intro hnil
    rw [OneCall, hnil] at h
    cases h
  | _ => exact trivial

theorem oneCall_singleton (dialect : CallDialect) (call : Generation.ToolCall) :
    (Verdict.calls dialect [call]).OneCall := rfl

section
variable [JsonText]

theorem resolveTag_yields : Yields Verdict.OneCall resolveTag := by
  refine bind fun _ => bind fun body => ?_
  dsimp only
  split
  · exact pure (oneCall_singleton _ _)
  · split
    · exact pure (oneCall_singleton _ _)
    · exact pure trivial

theorem resolveArgs_yields (name : Text) : Yields Verdict.OneCall (resolveArgs name) := by
  refine bind fun _ => bind fun _ => bind fun c =>
    ite ?_ (pure trivial)
  refine bind fun body => ?_
  split
  · exact pure (oneCall_singleton _ _)
  · exact pure trivial

variable (atEos : Bool)

theorem resolveBracketMeta_yields (name : Text) :
    Yields Verdict.OneCall (resolveBracketMeta atEos name) := by
  refine bind fun _ => bind fun _ => bind fun c =>
    ite ?_ (pure trivial)
  refine bind fun body => ?_
  split
  · exact pure trivial
  · exact bind fun _ => pure (oneCall_singleton _ _)

theorem resolveBracketName_yields : Yields Verdict.OneCall (resolveBracketName atEos) := by
  refine bind fun name => ite (pure trivial) ?_
  refine bind fun hasId => ite ?_ (resolveBracketMeta_yields atEos name)
  exact bind fun id =>
    ite (pure trivial) (resolveBracketMeta_yields atEos name)

/-- An array may have several. -/
theorem resolveBracketArray_yields : Yields Verdict.HasCalls (resolveBracketArray atEos) := by
  refine bind fun body => bind fun _ => ?_
  split
  · exact pure trivial
  next hcalls => exact pure fun hnil => hcalls (by rw [hnil]; rfl)

theorem resolveBracket_yields : Yields Verdict.HasCalls (resolveBracket atEos) := by
  refine bind fun _ => bind fun _ => bind fun _ =>
    ite (resolveBracketArray_yields atEos) ?_
  exact (resolveBracketName_yields atEos).mono fun _ => Verdict.OneCall.hasCalls

theorem resolveGemmaBody_yields (name : Text) :
    Yields Verdict.OneCall (resolveGemmaBody atEos name) := by
  refine bind fun _ => bind fun c => ite ?_ (pure trivial)
  refine bind fun body => bind fun _ => bind fun args => ?_
  split
  · exact pure trivial
  · exact pure (oneCall_singleton _ _)

theorem resolveGemma_yields : Yields Verdict.OneCall (resolveGemma atEos) := by
  refine bind fun _ => bind fun _ => bind fun isCall =>
    ite (pure trivial) ?_
  refine bind fun _ => bind fun c => ite (pure trivial) ?_
  refine bind fun _ => bind fun _ => bind fun name => ?_
  exact ite (pure trivial) (resolveGemmaBody_yields atEos name)

theorem resolveFunc_yields : Yields Verdict.OneCall (resolveFunc atEos) := by
  refine bind fun _ => bind fun name => bind fun c =>
    ite (pure trivial) ?_
  refine bind fun _ => bind fun body => ?_
  split
  · exact pure (oneCall_singleton _ _)
  · exact pure trivial

end

end Backend
end Gen2
