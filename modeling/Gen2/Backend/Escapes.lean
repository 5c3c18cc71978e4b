import Gen2.Backend.GemmaValues

/-!
# Where the healing of Gemma's arguments panics

`backend/common/healing.rs`, `quote_gemma_object_keys`: an escape in a string is copied as two
bytes, and the second of them can be inside of a character.

* `escapedInObject` and `escapedInElements` are the characters that stand behind a backslash in the
  strings that are copied: those that are keys, and those that are values of keys, at every depth,
  but not those in a bare value, and not those that are elements of an array themselves.
* `gemmaArgumentsToJson_crashes_iff`: the arguments cannot be healed without a panic if and only if
  one of these characters has several bytes.
-/

namespace Gen2
namespace Backend

open Lib List

section
variable [JsonText]

/-- The array that is the value of the key that is read behind a `{` or a comma. -/
def keyArray (src : Text) : Option Text :=
  let ws := src.takeWhile isAsciiWhitespace
  let keyName := (src.drop ws.length).takeWhile isKeyChar
  let keyEnd := ws.length + keyName.length
  let ws' := (src.drop keyEnd).takeWhile isAsciiWhitespace
  let colonPos := keyEnd + ws'.length
  if keyName.isEmpty || (src.drop colonPos).head? != some ':' then none
  else
    let valueWs := (src.drop (colonPos + 1)).takeWhile isAsciiWhitespace
    match src.drop (colonPos + 1 + valueWs.length) with
    | '[' :: rest =>
      (balancedBracketEnd ('[' :: rest)).map fun arrEnd => (('[' :: rest).take arrEnd).drop 1
    | _ => none

/-- How much is read of a key and its value. -/
def keyLen (src : Text) : Nat := ((quoteGemmaKey some src).map Prod.snd).getD 0

/-- The characters behind a backslash in the strings that `quote_gemma_object_keys` copies;
`elements` are those of an array, and `skip` characters have been read already. -/
def escapedInObject (elements : Text → Text) (inString : Bool) (skip : Nat) : Text → Text
  | [] => []
  | c :: rest =>
    if 0 < skip then escapedInObject elements inString (skip - 1) rest
    else if inString then
      if c = '\\' then rest.take 1 ++ escapedInObject elements true 1 rest
      else escapedInObject elements (c != '"') 0 rest
    else if c = '"' then escapedInObject elements true 0 rest
    else if c != '{' && c != ',' then escapedInObject elements false 0 rest
    else (keyArray rest).elim [] elements ++ escapedInObject elements false (keyLen rest) rest

/-- The same in an element of an array: it is gone through if it is an object or an array. -/
def escapedInElement (elements : Text → Text) (element : Text) : Text :=
  match trim element with
  | '{' :: _ => escapedInObject elements false 0 (trim element)
  | '[' :: _ =>
    match balancedBracketEnd (trim element) with
    | some arrEnd =>
      if arrEnd = (trim element).length - 1 then elements (((trim element).take arrEnd).drop 1)
      else []
    | none => []
  | _ => []

/-- The same in the elements of an array. -/
def escapedInElements : Nat → Text → Text
  | 0, _ => []
  | levels + 1, body =>
    (splitTopLevelCommas body).flatMap (escapedInElement (escapedInElements levels))

/-- The same in the arguments of a call. -/
def escapedInArguments (argsSrc : Text) : Text :=
  let src := ['{'] ++ normaliseGemmaQuotedStrings 0 (trim argsSrc) ++ ['}']
  escapedInObject (escapedInElements src.length) false 0 src

/-! ## Keys -/

variable {elements : Text → Option Text}

/-- What becomes of a key depends on the elements of its array only. -/
theorem quoteGemmaKey_cases (elements : Text → Option Text) (src : Text) :
    (keyArray src = none ∧ quoteGemmaKey elements src = quoteGemmaKey some src ∧
        (quoteGemmaKey some src).isSome = true) ∨
      ∃ (inner : Text) (out : Text → Text) (n : Nat), keyArray src = some inner ∧
        quoteGemmaKey some src = some (out inner, n) ∧
        quoteGemmaKey elements src = (elements inner).map fun t => (out t, n) := by
  unfold keyArray quoteGemmaKey
  dsimp only
  generalize src.takeWhile isAsciiWhitespace = ws
  generalize (src.drop ws.length).takeWhile isKeyChar = keyName
  generalize (src.drop (ws.length + keyName.length)).takeWhile isAsciiWhitespace = ws'
  generalize hcond : (keyName.isEmpty ||
    (src.drop (ws.length + keyName.length + ws'.length)).head? != some ':') = noKey
  cases noKey with
  | true => exact .inl ⟨rfl, rfl, rfl⟩
  | false =>
    simp only [Bool.false_eq_true, if_false]
    generalize (src.drop (ws.length + keyName.length + ws'.length + 1)).takeWhile
      isAsciiWhitespace = valueWs
    generalize src.drop (ws.length + keyName.length + ws'.length + 1 + valueWs.length) = value
    cases value with
    | nil => exact .inl ⟨rfl, rfl, rfl⟩
    | cons c rest =>
      by_cases hc : c = '['
      · subst hc
        cases hend : balancedBracketEnd ('[' :: rest) with
        | none => exact .inl ⟨by simp only [hend, Option.map_none], rfl, by simp⟩
        | some arrEnd =>
          refine .inr ⟨(('[' :: rest).take arrEnd).drop 1, fun inner =>
            ws ++ jsonQuote keyName ++ ws' ++ [':'] ++ valueWs ++ ['['] ++ inner ++ [']'],
            ws.length + keyName.length + ws'.length + 1 + valueWs.length + arrEnd + 1,
            by simp only [hend, Option.map_some], rfl, ?_⟩
          simp only
          cases elements ((('[' :: rest).take arrEnd).drop 1) <;> rfl
      · refine .inl ?_
        refine ⟨?_, ?_, ?_⟩
        · split
          · next heq => exact absurd (cons.inj heq).1 hc
          · rfl
        · split
          · rfl
          · next heq => exact absurd (cons.inj heq).1 hc
          · rfl
        · split
          · rfl
          · next heq => exact absurd (cons.inj heq).1 hc
          · split_ifs <;> rfl

/-- A key cannot be quoted if and only if its array cannot. -/
theorem quoteGemmaKey_eq_none_iff {src : Text} : quoteGemmaKey elements src = none ↔
    ∃ inner, keyArray src = some inner ∧ elements inner = none := by
  rcases quoteGemmaKey_cases elements src with ⟨hnone, hkey, hsome⟩ | ⟨inner, out, n, harray, -,
    hkey⟩
  · rw [hkey, hnone]
    refine iff_of_false (fun h => ?_) fun ⟨_, h, _⟩ => nomatch h
    rw [h] at hsome
    cases hsome
  · rw [hkey, Option.map_eq_none_iff, harray]
    exact ⟨fun h => ⟨inner, rfl, h⟩, fun ⟨_, h, hnone⟩ => Option.some.inj h ▸ hnone⟩

theorem quoteGemmaKey_len {src out : Text} {n : Nat}
    (h : quoteGemmaKey elements src = some (out, n)) :
    n = keyLen src := by
  rw [keyLen]
  rcases quoteGemmaKey_cases elements src with ⟨-, hkey, -⟩ | ⟨inner, out', m, -, hsome, hkey⟩
  · rw [← hkey, h]
    rfl
  · rw [hsome]
    rw [hkey, Option.map_eq_some_iff] at h
    obtain ⟨t, -, heq⟩ := h
    exact (Prod.mk.inj heq).2.symm

/-! ## Objects and arrays -/

/-- **An object cannot be quoted** if and only if a character of several bytes stands behind a
backslash in one of its copied strings. -/
theorem quoteGemmaObjectKeys_eq_none_iff {escaped : Text → Text}
    (helements : ∀ body, elements body = none ↔ (escaped body).any isMultibyte = true)
    {inString : Bool} {skip : Nat} {t : Text} :
    quoteGemmaObjectKeys elements inString skip t = none ↔
      (escapedInObject escaped inString skip t).any isMultibyte = true := by
  induction t generalizing inString skip with
  | nil => simp [quoteGemmaObjectKeys, escapedInObject]
  | cons c rest ih =>
    rw [escapedInObject, quoteGemmaObjectKeys.eq_def]
    dsimp only
    by_cases hskip : 0 < skip
    · rw [if_pos hskip, if_pos hskip]
      exact ih
    rw [if_neg hskip, if_neg hskip]
    cases inString with
    | true =>
      rw [if_pos rfl, if_pos rfl]
      by_cases hescape : c = '\\'
      · subst hescape
        cases rest with
        | nil => simp [quoteGemmaObjectKeys, escapedInObject]
        | cons next rest =>
          rw [if_pos rfl, any_append, Bool.or_eq_true, ← ih]
          show (if isMultibyte next = true then none
            else (quoteGemmaObjectKeys elements true 1 (next :: rest)).map (['\\', next] ++ ·)) =
              none ↔ _
          by_cases hwide : isMultibyte next = true
          · simp [hwide]
          · simp [hwide]
      · rw [if_neg hescape, ← ih]
        split
        · next heq => exact absurd rfl hescape
        · exact Option.map_eq_none_iff
    | false =>
      simp only [Bool.false_eq_true, if_false]
      by_cases hquote : c = '"'
      · rw [if_pos hquote, if_pos hquote, Option.map_eq_none_iff]
        exact ih
      rw [if_neg hquote, if_neg hquote]
      by_cases hplain : (c != '{' && c != ',') = true
      · rw [if_pos hplain, if_pos hplain, Option.map_eq_none_iff]
        exact ih
      rw [if_neg hplain, if_neg hplain, any_append, Bool.or_eq_true, ← ih]
      have harray : ((keyArray rest).elim [] escaped).any isMultibyte = true ↔
          quoteGemmaKey elements rest = none := by
        rw [quoteGemmaKey_eq_none_iff]
        cases keyArray rest with
        | none => simp
        | some inner => simp [helements]
      rw [harray]
      cases hkey : quoteGemmaKey elements rest with
      | none => simp
      | some read =>
        obtain ⟨out, n⟩ := read
        rw [← quoteGemmaKey_len hkey]
        cases hmore : quoteGemmaObjectKeys elements false n rest <;> simp [hmore]

omit [JsonText] in
theorem mapM_eq_none_iff {α β : Type} {f : α → Option β} {xs : List α} :
    xs.mapM f = none ↔ ∃ x ∈ xs, f x = none := by
  induction xs with
  | nil => simp
  | cons x xs ih =>
    rw [mapM_cons]
    cases hx : f x with
    | none => simp [hx]
    | some y => cases hxs : xs.mapM f <;> simp_all

/-- The same for the elements of an array. -/
theorem quoteGemmaArrayElements_eq_none_iff {levels : Nat} {body : Text} :
    quoteGemmaArrayElements levels body = none ↔
      (escapedInElements levels body).any isMultibyte = true := by
  induction levels generalizing body with
  | zero => simp [quoteGemmaArrayElements, escapedInElements]
  | succ levels ih =>
    rw [quoteGemmaArrayElements_succ, Option.map_eq_none_iff, mapM_eq_none_iff, escapedInElements,
      any_flatMap, any_eq_true]
    refine exists_congr fun element => and_congr_right fun _ => ?_
    rw [quoteGemmaElement, escapedInElement]
    generalize trim element = stripped
    cases stripped with
    | nil => simp
    | cons c rest =>
      by_cases hbrace : c = '{'
      · subst hbrace
        exact quoteGemmaObjectKeys_eq_none_iff fun body => ih
      by_cases hbracket : c = '['
      · subst hbracket
        show (match balancedBracketEnd ('[' :: rest) with
          | some arrEnd =>
            if arrEnd = ('[' :: rest).length - 1 then
              (quoteGemmaArrayElements levels ((('[' :: rest).take arrEnd).drop 1)).map
                fun inner => ['['] ++ inner ++ [']']
            else some element
          | none => some element) = none ↔ _
        cases hend : balancedBracketEnd ('[' :: rest) with
        | none => simp
        | some arrEnd =>
          by_cases hlast : arrEnd = ('[' :: rest).length - 1
          · simp only [if_pos hlast, Option.map_eq_none_iff]
            exact ih
          · simp only [if_neg hlast]
            simp
      · refine iff_of_false (fun h => ?_) fun h => ?_
        · split at h
          · cases h
          · cases h
          · next heq => exact hbrace (cons.inj heq).1
          · next heq => exact hbracket (cons.inj heq).1
          · split_ifs at h
        · split at h
          · next heq => exact hbrace (cons.inj heq).1
          · next heq => exact hbracket (cons.inj heq).1
          · cases h

/-- **Arguments cannot be healed without a panic** if and only if a character of several bytes
stands behind a backslash in one of the strings that are copied. -/
theorem gemmaArgumentsToJson_crashes_iff {argsSrc : Text} : gemmaArgumentsToJson argsSrc = none ↔
    (escapedInArguments argsSrc).any isMultibyte = true := by
  rw [gemmaArgumentsToJson, escapedInArguments]
  dsimp only
  by_cases hempty : (trim argsSrc).isEmpty = true
  · rw [if_pos hempty, isEmpty_iff.1 hempty]
    have hkey : keyArray ['}'] = none := rfl
    have hnone : ∀ elements : Text → Text, escapedInObject elements false 0 ['{', '}'] = [] := by
      intro elements
      simp [escapedInObject, hkey]
    exact iff_of_false (fun h => by cases h) (by simp [normaliseGemmaQuotedStrings, hnone])
  · rw [if_neg hempty, ← quoteGemmaObjectKeys_eq_none_iff fun body =>
      quoteGemmaArrayElements_eq_none_iff]
    cases quoteGemmaObjectKeys (quoteGemmaArrayElements _) false 0 _ <;> simp

end

end Backend
end Gen2
