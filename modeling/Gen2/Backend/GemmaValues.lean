import Gen2.Backend.Nested

/-!
# Values in Gemma's dialect

`backend/common/healing.rs`, `gemma_arguments_to_json`: what becomes of a value that is written in
Gemma's dialect, with bare keys and with strings between quote tokens.

* `Gemma.render` writes a value in the dialect, and `Encodable` is what it can write.
* `normalise_render`: `normalise_gemma_quoted_strings` leaves the value with its bare keys, and with
  the strings of JSON.
* `quote_object`: `quote_gemma_object_keys` then leaves the JSON that `serde_json` would write, at
  every depth.
* `gemmaArgumentsToJson_render`: so that the value is read back.
-/

namespace Gen2
namespace Backend

open Lib List

/-! ## Values -/

/-- A key that needs no quotes: `[A-Za-z_][A-Za-z0-9_.-]*`. -/
def IsGemmaKey (k : Text) : Prop :=
  ∃ c t, k = c :: t ∧ (c.isAlpha || c == '_') = true ∧ ∀ d ∈ t, isKeyChar d = true

/-- A string between quote tokens. -/
def tokenQuote (s : Text) : Text := gemmaQuote ++ (s ++ gemmaQuote)

section
variable [JsonText]

/-- A number as `serde_json` writes it. -/
def numberText (n : JsonNumber) : Text := JsonText.toText (.number n)

/-- A bare text that is read as a value. -/
def Readable (t : Text) : Prop := Bare t ∧ (JsonText.fromStr t).isSome = true

mutual
/-- A value that Gemma's dialect can write. -/
def Encodable : Json → Prop
  | .null => Readable "null".toList
  | .bool b => Readable (if b then "true".toList else "false".toList)
  | .number n => Readable (numberText n)
  | .string s => find gemmaQuote s.toList = none
  | .array items => EncodableItems items
  | .object fields => EncodableFields fields

def EncodableItems : List Json → Prop
  | [] => True
  | v :: items => Encodable v ∧ EncodableItems items

def EncodableFields : List (String × Json) → Prop
  | [] => True
  | (name, v) :: fields => IsGemmaKey name.toList ∧ Encodable v ∧ EncodableFields fields
end

/-- A value in Gemma's dialect. -/
abbrev Gemma.render (v : Json) : Text := v.layout id tokenQuote numberText

/-- The fields of an object in Gemma's dialect: what stands between the braces. -/
abbrev Gemma.renderFields (fields : List (String × Json)) : Text :=
  Json.layoutFields id tokenQuote numberText fields

/-- A value whose keys are bare, and whose strings are not. -/
abbrev Gemma.half (v : Json) : Text := v.layout id writeString numberText

end

/-! ### Characters -/

variable {c : Char}

theorem isPlain_of_isBareChar (h : isBareChar c = true) :
    isPlain c = true ∧ c ≠ ',' ∧ c ≠ '<' ∧ c ≠ ':' := by
  rw [isPlain_iff]
  refine ⟨⟨?_, ?_, ?_, ?_, ?_⟩, ?_, ?_, ?_⟩ <;> rintro rfl <;> revert h <;> decide

theorem isPlain_of_isKeyChar (h : isKeyChar c = true) :
    isPlain c = true ∧ c ≠ ',' ∧ c ≠ '<' ∧ c ≠ ':' := by
  rw [isPlain_iff]
  refine ⟨⟨?_, ?_, ?_, ?_, ?_⟩, ?_, ?_, ?_⟩ <;> rintro rfl <;> revert h <;> decide

variable {k : Text}

theorem IsGemmaKey.isKeyChar (h : IsGemmaKey k) : ∀ c ∈ k, isKeyChar c = true := by
  obtain ⟨c, t, rfl, hc, ht⟩ := h
  rw [forall_mem_cons]
  refine ⟨?_, ht⟩
  rw [Bool.or_eq_true] at hc
  rcases hc with hc | hc
  · have halnum : c.isAlphanum = true := (Bool.or_eq_true _ _).mpr (.inl hc)
    simp [Backend.isKeyChar, halnum]
  · simp [Backend.isKeyChar, hc]

/-- White space is none of the characters that words are made of. -/
theorem not_isAlphanum_of_isWhitespace (h : isWhitespace c = true) : c.isAlphanum = false := by
  rw [Bool.eq_false_iff]
  intro hc
  have hbounds := toNat_of_isAlphanum hc
  simp [isWhitespace] at h
  omega

theorem not_isWhitespace_of_isBareChar (h : isBareChar c = true) : isWhitespace c = false := by
  by_contra hwhite
  rw [Bool.not_eq_false] at hwhite
  simp only [isBareChar, not_isAlphanum_of_isWhitespace hwhite, Bool.false_or, Bool.or_eq_true,
    beq_iff_eq] at h
  rcases h with (rfl | rfl) | rfl <;> revert hwhite <;> decide

theorem not_isWhitespace_of_isKeyChar (h : isKeyChar c = true) : isWhitespace c = false := by
  by_contra hwhite
  rw [Bool.not_eq_false] at hwhite
  simp only [isKeyChar, not_isAlphanum_of_isWhitespace hwhite, Bool.false_or, Bool.or_eq_true,
    beq_iff_eq] at h
  rcases h with (rfl | rfl) | rfl <;> revert hwhite <;> decide

theorem isWhitespace_of_isAsciiWhitespace (h : isAsciiWhitespace c = true) :
    isWhitespace c = true := by
  simp only [isAsciiWhitespace, contains_eq_mem, mem_cons, not_mem_nil, or_false,
    decide_eq_true_eq] at h
  rcases h with rfl | rfl | rfl | rfl | rfl <;> decide

/-- A text that does not begin or end with white space. -/
structure Solid (t : Text) : Prop where
  head : ∃ c rest, t = c :: rest ∧ isWhitespace c = false
  last : ∃ rest c, t = rest ++ [c] ∧ isWhitespace c = false

variable {t : Text}

theorem Solid.trim (h : Solid t) : trim t = t := by
  obtain ⟨c, rest, hhead, hc⟩ := h.head
  obtain ⟨rest', d, hlast, hd⟩ := h.last
  have hstart : t.dropWhile isWhitespace = t := by
    rw [hhead, dropWhile_cons_of_neg (by simp [hc])]
  have hend : t.reverse.dropWhile isWhitespace = t.reverse := by
    rw [hlast, reverse_append, reverse_singleton, singleton_append,
      dropWhile_cons_of_neg (by simp [hd])]
  rw [Gen2.trim, hstart, trimEnd, hend, reverse_reverse]

theorem Solid.of_chars (hne : t ≠ []) (h : ∀ c ∈ t, isWhitespace c = false) :
    Solid t where
  head := by
    obtain ⟨c, rest, rfl⟩ := exists_cons_of_ne_nil hne
    exact ⟨c, rest, rfl, h c mem_cons_self⟩
  last := ⟨t.dropLast, t.getLast hne, (dropLast_concat_getLast hne).symm,
    h _ (getLast_mem hne)⟩

theorem Solid.append {s : Text} (hs : Solid s) (m : Text) (ht : Solid t) :
    Solid (s ++ (m ++ t)) where
  head := by
    obtain ⟨c, rest, rfl, hc⟩ := hs.head
    exact ⟨c, rest ++ (m ++ t), rfl, hc⟩
  last := by
    obtain ⟨rest, c, rfl, hc⟩ := ht.last
    exact ⟨s ++ (m ++ rest), c, by simp, hc⟩

theorem Solid.of_ends {d : Char} (hc : isWhitespace c = false) (hd : isWhitespace d = false)
    (t : Text) : Solid (c :: (t ++ [d])) :=
  ⟨⟨c, t ++ [d], rfl, hc⟩, ⟨c :: t, d, rfl, hd⟩⟩

theorem IsGemmaKey.solid (h : IsGemmaKey k) : Solid k := by
  refine .of_chars ?_ fun c hc => not_isWhitespace_of_isKeyChar (h.isKeyChar c hc)
  obtain ⟨c, t, rfl, -, -⟩ := h
  exact cons_ne_nil c t

theorem solid_of_bare (h : Bare t) : Solid t :=
  .of_chars h.1 fun c hc => not_isWhitespace_of_isBareChar (h.2 c hc)

theorem solid_writeString (s : Text) : Solid (writeString s) :=
  .of_ends (by decide) (by decide) _

theorem solid_tokenQuote (s : Text) : Solid (tokenQuote s) where
  head := ⟨'<', _, rfl, by decide⟩
  last := ⟨gemmaQuote ++ (s ++ gemmaQuote.dropLast), '>', by simp [tokenQuote, gemmaQuote],
    by decide⟩

theorem nested_of_bare (h : Bare t) : Nested t :=
  .of_plain fun c hc => (isPlain_of_isBareChar (h.2 c hc)).1

theorem nested_writeString (s : Text) : Nested (writeString s) :=
  .string _ _ (inString_flatMap s) .nil

/-- A key, and what comes behind the colon. -/
theorem IsGemmaKey.nested (h : IsGemmaKey k) (ht : Nested t) : Nested (k ++ ':' :: t) :=
  (Nested.of_plain fun c hc => (isPlain_of_isKeyChar (h.isKeyChar c hc)).1).append
    (.char ':' t (by decide) ht)

/-- What comes behind a value in an object: the end of it, or another key. -/
def Follows (r : Text) : Prop :=
  (∃ rest, r = '}' :: rest) ∨ ∃ k rest, IsGemmaKey k ∧ r = ',' :: (k ++ ':' :: rest)

theorem IsGemmaKey.takeWhile (h : IsGemmaKey k) (rest : Text) :
    (k ++ ':' :: rest).takeWhile Backend.isKeyChar = k := by
  rw [takeWhile_append_of_pos h.isKeyChar]
  simp [Backend.isKeyChar]

theorem IsGemmaKey.head (h : IsGemmaKey k) (rest : Text) :
    (k ++ rest).takeWhile isAsciiWhitespace = [] := by
  obtain ⟨c, t, rfl, hc⟩ := h.solid.head
  rw [cons_append, takeWhile_cons_of_neg]
  intro hwhite
  rw [isWhitespace_of_isAsciiWhitespace hwhite] at hc
  cases hc

theorem nextKeyFollows_key (h : IsGemmaKey k) (rest : Text) :
    nextKeyFollows (k ++ ':' :: rest) = true := by
  have hdrop : (k ++ ':' :: rest).dropWhile isAsciiWhitespace = k ++ ':' :: rest := by
    have hsplit := takeWhile_append_dropWhile (p := isAsciiWhitespace) (l := k ++ ':' :: rest)
    rwa [h.head, nil_append] at hsplit
  have hkey : (k ++ ':' :: rest).dropWhile Backend.isKeyChar = ':' :: rest := by
    rw [dropWhile_append_of_pos h.isKeyChar]
    simp [Backend.isKeyChar]
  obtain ⟨c, t, rfl, hc, -⟩ := h
  rw [nextKeyFollows, hdrop]
  rw [cons_append] at hkey ⊢
  dsimp only
  rw [hc, hkey]
  simp [isAsciiWhitespace]

/-- A bare value goes as far as its characters do. -/
theorem bareValueLen_bare {r : Text} (h : ∀ c ∈ t, isBareChar c = true) (hr : Follows r) :
    bareValueLen (t ++ r) = t.length := by
  induction t with
  | nil =>
    obtain ⟨rest, rfl⟩ | ⟨k, rest, hk, rfl⟩ := hr
    · simp [bareValueLen]
    · simp [bareValueLen, nextKeyFollows_key hk]
  | cons c t ih =>
    obtain ⟨hplain, hcomma, -⟩ := isPlain_of_isBareChar (h c mem_cons_self)
    obtain ⟨-, -, -, -, hbrace⟩ := isPlain_iff.1 hplain
    rw [cons_append, bareValueLen, if_neg (by simp [hcomma, hbrace]),
      ih fun d hd => h d (mem_cons_of_mem _ hd), length_cons]

/-! ### Scans over values -/

section
variable [JsonText]

theorem solid_layout {string : Text → Text} (hstring : ∀ s, Solid (string s)) {v : Json}
    (hv : Encodable v) : Solid (v.layout id string numberText) := by
  cases v with
  | null => exact solid_of_bare (show Readable _ from hv).1
  | bool b => exact solid_of_bare (show Readable _ from hv).1
  | number n => exact solid_of_bare (show Readable _ from hv).1
  | string s => exact hstring _
  | array items => exact .of_ends (by decide) (by decide) _
  | object fields => exact .of_ends (by decide) (by decide) _

open Gemma

mutual
/-- In a value the brackets match. -/
theorem nested_half : ∀ v : Json, Encodable v → Nested (half v)
  | .null, hv => nested_of_bare (show Readable _ from hv).1
  | .bool _, hv => nested_of_bare (show Readable _ from hv).1
  | .number _, hv => nested_of_bare (show Readable _ from hv).1
  | .string s, _ => nested_writeString s.toList
  | .array items, hv =>
    .group '[' ']' _ _ (.inl rfl) (.inl rfl) (nested_items items hv) .nil
  | .object fields, hv =>
    .group '{' '}' _ _ (.inr rfl) (.inr rfl) (nested_fields fields hv) .nil

theorem nested_items : ∀ items : List Json, EncodableItems items →
    Nested (Json.layoutItems id writeString numberText items)
  | [], _ => .nil
  | v :: items, hv => (nested_half v hv.1).append (nested_moreItems items hv.2)

theorem nested_moreItems : ∀ items : List Json, EncodableItems items →
    Nested (Json.layoutMoreItems id writeString numberText items)
  | [], _ => .nil
  | v :: items, hv =>
    .char ',' _ (by decide) ((nested_half v hv.1).append (nested_moreItems items hv.2))

theorem nested_fields : ∀ fields : List (String × Json), EncodableFields fields →
    Nested (Json.layoutFields id writeString numberText fields)
  | [], _ => .nil
  | (_, v) :: fields, hv =>
    hv.1.nested ((nested_half v hv.2.1).append (nested_moreFields fields hv.2.2))

theorem nested_moreFields : ∀ fields : List (String × Json), EncodableFields fields →
    Nested (Json.layoutMoreFields id writeString numberText fields)
  | [], _ => .nil
  | (_, v) :: fields, hv =>
    .char ',' _ (by decide)
      (hv.1.nested ((nested_half v hv.2.1).append (nested_moreFields fields hv.2.2)))
end

/-! ### `normalise_gemma_quoted_strings` -/

theorem normaliseGemmaQuotedStrings_skip (n : Nat) (t : Text) :
    normaliseGemmaQuotedStrings n t = normaliseGemmaQuotedStrings 0 (t.drop n) := by
  induction n generalizing t with
  | zero => rfl
  | succ n ih =>
    cases t with
    | nil => rfl
    | cons c t =>
      rw [normaliseGemmaQuotedStrings, if_pos n.succ_pos, Nat.succ_sub_one, ih, drop_succ_cons]

variable {t : Text}

theorem normaliseGemmaQuotedStrings_chars (h : ∀ c ∈ t, c ≠ '<') (r : Text) :
    normaliseGemmaQuotedStrings 0 (t ++ r) = t ++ normaliseGemmaQuotedStrings 0 r := by
  induction t with
  | nil => rfl
  | cons c t ih =>
    have hc := h c mem_cons_self
    have hnot : gemmaQuote.isPrefixOf (c :: (t ++ r)) = false := by
      rw [Bool.eq_false_iff]
      intro hpre
      have hpre : '<' :: gemmaQuote.tail <+: c :: (t ++ r) := isPrefixOf_iff_prefix.1 hpre
      exact hc (cons_prefix_cons.1 hpre).1.symm
    rw [cons_append, normaliseGemmaQuotedStrings, if_neg (Nat.lt_irrefl 0), hnot,
      if_neg Bool.false_ne_true, ih fun d hd => h d (mem_cons_of_mem _ hd), cons_append]

/-- Strings are written with the escapes of `serde_json`. -/
def WritesStrings : Prop := ∀ s : String, JsonText.toText (.string s) = writeString s.toList

theorem jsonQuote_eq (hwrite : WritesStrings) (s : Text) : jsonQuote s = writeString s := by
  rw [jsonQuote, hwrite, String.toList_ofList]

/-- A string between quote tokens becomes one of JSON. -/
theorem normaliseGemmaQuotedStrings_token (hwrite : WritesStrings) {s : Text}
    (h : find gemmaQuote s = none) (r : Text) :
    normaliseGemmaQuotedStrings 0 (tokenQuote s ++ r) =
      writeString s ++ normaliseGemmaQuotedStrings 0 r := by
  have hfind : find gemmaQuote (s ++ (gemmaQuote ++ r)) = some s.length :=
    find_append_self (by decide) (by decide) h r
  have htext : tokenQuote s ++ r = '<' :: (gemmaQuote.tail ++ (s ++ (gemmaQuote ++ r))) := by
    simp [tokenQuote, gemmaQuote]
  have hstart : gemmaQuote.isPrefixOf ('<' :: (gemmaQuote.tail ++ (s ++ (gemmaQuote ++ r)))) =
      true := by
    simp [gemmaQuote]
  have hbody : ('<' :: (gemmaQuote.tail ++ (s ++ (gemmaQuote ++ r)))).drop gemmaQuote.length =
      s ++ (gemmaQuote ++ r) := rfl
  have hrest : (gemmaQuote.tail ++ (s ++ (gemmaQuote ++ r))).drop
      (2 * gemmaQuote.length + s.length - 1) = r := by
    have hlen : 2 * gemmaQuote.length + s.length - 1 =
        (gemmaQuote.tail ++ (s ++ gemmaQuote)).length := by
      simp [gemmaQuote]
      omega
    have hassoc : gemmaQuote.tail ++ (s ++ (gemmaQuote ++ r)) =
        (gemmaQuote.tail ++ (s ++ gemmaQuote)) ++ r := by simp only [append_assoc]
    rw [hlen, hassoc, drop_left]
  rw [htext, normaliseGemmaQuotedStrings, if_neg (Nat.lt_irrefl 0), if_pos hstart, hbody]
  dsimp only
  rw [hfind]
  dsimp only
  rw [take_left, jsonQuote_eq hwrite, normaliseGemmaQuotedStrings_skip, hrest]

theorem normaliseGemmaQuotedStrings_bare (h : Bare t) (r : Text) :
    normaliseGemmaQuotedStrings 0 (t ++ r) = t ++ normaliseGemmaQuotedStrings 0 r :=
  normaliseGemmaQuotedStrings_chars (fun c hc => (isPlain_of_isBareChar (h.2 c hc)).2.2.1) r

theorem normaliseGemmaQuotedStrings_key {k : Text} (h : IsGemmaKey k) (r : Text) :
    normaliseGemmaQuotedStrings 0 (k ++ ':' :: r) = k ++ ':' :: normaliseGemmaQuotedStrings 0 r := by
  rw [normaliseGemmaQuotedStrings_chars
    (fun c hc => (isPlain_of_isKeyChar (h.isKeyChar c hc)).2.2.1)]
  exact congrArg (k ++ ·) (normaliseGemmaQuotedStrings_chars (t := [':']) (forall_mem_of_all rfl) r)

mutual
/-- Of a value, the strings become those of JSON. -/
theorem normalise_render (hwrite : WritesStrings) : ∀ v : Json, Encodable v → ∀ r,
    normaliseGemmaQuotedStrings 0 (render v ++ r) =
      half v ++ normaliseGemmaQuotedStrings 0 r
  | .null, hv => normaliseGemmaQuotedStrings_bare (show Readable _ from hv).1
  | .bool _, hv => normaliseGemmaQuotedStrings_bare (show Readable _ from hv).1
  | .number _, hv => normaliseGemmaQuotedStrings_bare (show Readable _ from hv).1
  | .string _, hv => normaliseGemmaQuotedStrings_token hwrite hv
  | .array items, hv => fun r => by
    have hopen := fun r => normaliseGemmaQuotedStrings_chars (t := ['[']) (forall_mem_of_all rfl) r
    have hclose := fun r => normaliseGemmaQuotedStrings_chars (t := [']']) (forall_mem_of_all rfl) r
    simp only [render, half, Json.layout, cons_append, append_assoc,
      nil_append] at hopen hclose ⊢
    rw [hopen, normalise_items hwrite items hv, hclose]
  | .object fields, hv => fun r => by
    have hopen := fun r => normaliseGemmaQuotedStrings_chars (t := ['{']) (forall_mem_of_all rfl) r
    have hclose := fun r => normaliseGemmaQuotedStrings_chars (t := ['}']) (forall_mem_of_all rfl) r
    simp only [render, half, Json.layout, cons_append, append_assoc,
      nil_append] at hopen hclose ⊢
    rw [hopen, normalise_fields hwrite fields hv, hclose]

theorem normalise_items (hwrite : WritesStrings) : ∀ items : List Json, EncodableItems items → ∀ r,
    normaliseGemmaQuotedStrings 0 (Json.layoutItems id tokenQuote numberText items ++ r) =
      Json.layoutItems id writeString numberText items ++ normaliseGemmaQuotedStrings 0 r
  | [], _ => fun _ => rfl
  | v :: items, hv => fun r => by
    simp only [Json.layoutItems, append_assoc]
    rw [normalise_render hwrite v hv.1, normalise_moreItems hwrite items hv.2]

theorem normalise_moreItems (hwrite : WritesStrings) : ∀ items
    : List Json, EncodableItems items → ∀ r,
    normaliseGemmaQuotedStrings 0 (Json.layoutMoreItems id tokenQuote numberText items ++ r) =
      Json.layoutMoreItems id writeString numberText items ++ normaliseGemmaQuotedStrings 0 r
  | [], _ => fun _ => rfl
  | v :: items, hv => fun r => by
    have hcomma := fun r => normaliseGemmaQuotedStrings_chars (t := [',']) (forall_mem_of_all rfl) r
    simp only [Json.layoutMoreItems, cons_append, append_assoc,
      nil_append] at hcomma ⊢
    rw [hcomma, normalise_render hwrite v hv.1, normalise_moreItems hwrite items hv.2]

theorem normalise_fields (hwrite : WritesStrings) : ∀ fields : List
    (String × Json), EncodableFields fields → ∀ r,
    normaliseGemmaQuotedStrings 0 (renderFields fields ++ r) =
      Json.layoutFields id writeString numberText fields ++ normaliseGemmaQuotedStrings 0 r
  | [], _ => fun _ => rfl
  | (name, v) :: fields, hv => fun r => by
    simp only [renderFields, Json.layoutFields, cons_append, append_assoc, id]
    rw [normaliseGemmaQuotedStrings_key hv.1, normalise_render hwrite v hv.2.1,
      normalise_moreFields hwrite fields hv.2.2]

theorem normalise_moreFields (hwrite : WritesStrings) : ∀ fields : List
    (String × Json), EncodableFields fields → ∀ r,
    normaliseGemmaQuotedStrings 0 (Json.layoutMoreFields id tokenQuote numberText fields ++ r) =
      Json.layoutMoreFields id writeString numberText fields ++ normaliseGemmaQuotedStrings 0 r
  | [], _ => fun _ => rfl
  | (name, v) :: fields, hv => fun r => by
    have hcomma := fun r => normaliseGemmaQuotedStrings_chars (t := [',']) (forall_mem_of_all rfl) r
    simp only [Json.layoutMoreFields, cons_append, append_assoc, nil_append,
      id] at hcomma ⊢
    rw [hcomma, normaliseGemmaQuotedStrings_key hv.1, normalise_render hwrite v hv.2.1,
      normalise_moreFields hwrite fields hv.2.2]
end

/-! ### `quote_gemma_object_keys` -/

section
variable (elements : Text → Option Text)

theorem quoteGemmaObjectKeys_skip (inString : Bool) (n : Nat) (t : Text) :
    quoteGemmaObjectKeys elements inString n t =
      quoteGemmaObjectKeys elements inString 0 (t.drop n) := by
  induction n generalizing t with
  | zero => rfl
  | succ n ih =>
    cases t with
    | nil => simp [quoteGemmaObjectKeys]
    | cons c t =>
      rw [quoteGemmaObjectKeys.eq_def]
      dsimp only
      rw [if_pos n.succ_pos, Nat.succ_sub_one, ih, drop_succ_cons]

theorem quoteGemmaObjectKeys_plain {c : Char} (hquote : c ≠ '"') (hbrace : c ≠ '{')
    (hcomma : c ≠ ',') (r : Text) :
    quoteGemmaObjectKeys elements false 0 (c :: r) =
      (quoteGemmaObjectKeys elements false 0 r).map (c :: ·) := by
  rw [quoteGemmaObjectKeys.eq_def]
  simp [hquote, hbrace, hcomma]

theorem quoteGemmaObjectKeys_inString {s : Text} (h : InString s) (r : Text) :
    quoteGemmaObjectKeys elements true 0 (s ++ '"' :: r) =
      (quoteGemmaObjectKeys elements false 0 r).map (s ++ '"' :: ·) := by
  induction h with
  | nil =>
    rw [nil_append, quoteGemmaObjectKeys.eq_def]
    simp
  | char c s hquote hescape _ ih =>
    rw [cons_append, quoteGemmaObjectKeys.eq_def]
    simp [hescape, show (c != '"') = true by simpa using hquote, ih, Option.map_map,
      Function.comp_def]
  | escape c s hascii _ ih =>
    rw [cons_append, cons_append, quoteGemmaObjectKeys.eq_def]
    simp [isMultibyte, hascii, quoteGemmaObjectKeys_skip elements true 1, ih, Option.map_map,
      Function.comp_def]

theorem quoteGemmaObjectKeys_string (s r : Text) :
    quoteGemmaObjectKeys elements false 0 (writeString s ++ r) =
      (quoteGemmaObjectKeys elements false 0 r).map (writeString s ++ ·) := by
  have hstart : ∀ r, quoteGemmaObjectKeys elements false 0 ('"' :: r) =
      (quoteGemmaObjectKeys elements true 0 r).map ('"' :: ·) := by
    intro r
    rw [quoteGemmaObjectKeys.eq_def]
    simp
  rw [writeString, cons_append, hstart, append_assoc, singleton_append,
    quoteGemmaObjectKeys_inString elements (inString_flatMap s), Option.map_map]
  simp [Function.comp_def]

/-- What `quote_gemma_object_keys` makes of a value behind a colon: what is put out of it, and how
much of it is read. -/
def quoteGemmaValue (value : Text) : Option (Text × Nat) :=
  match value with
  | [] => some ([], 0)
  | '[' :: _ =>
    match balancedBracketEnd value with
    | none => some (value, value.length)
    | some arrEnd => do
      let inner ← elements ((value.take arrEnd).drop 1)
      return (['['] ++ inner ++ [']'], arrEnd + 1)
  | c :: _ =>
    if c = '"' || c = '{' then some ([], 0)
    else
      let raw := value.take (bareValueLen value)
      if (JsonText.fromStr (trim raw)).isSome then some (raw, raw.length)
      else some (jsonQuote (trim raw), raw.length)

theorem quoteGemmaValue_of_ne {c : Char} (hc : c ≠ '[') (rest : Text) :
    quoteGemmaValue elements (c :: rest) =
      if c = '"' || c = '{' then some ([], 0)
      else
        let raw := (c :: rest).take (bareValueLen (c :: rest))
        if (JsonText.fromStr (trim raw)).isSome then some (raw, raw.length)
        else some (jsonQuote (trim raw), raw.length) := by
  rw [quoteGemmaValue]
  exact fun heq => hc heq

/-- A key is quoted, and its value is read. -/
theorem quoteGemmaKey_key (hwrite : WritesStrings) {k : Text} (hk : IsGemmaKey k) {value : Text}
    (hvalue : ∃ c rest, value = c :: rest ∧ isWhitespace c = false) :
    quoteGemmaKey elements (k ++ ':' :: value) =
      (quoteGemmaValue elements value).map fun r =>
        (writeString k ++ ':' :: r.1, k.length + 1 + r.2) := by
  have hcolon : (k ++ ':' :: value).drop k.length = ':' :: value := drop_left
  have hat : (k ++ ':' :: value).drop (k.length + 1) = value := by
    rw [← drop_drop, hcolon, drop_succ_cons, drop_zero]
  have hspace : (':' :: value).takeWhile isAsciiWhitespace = [] := by simp [isAsciiWhitespace]
  have hspace' : value.takeWhile isAsciiWhitespace = [] := by
    obtain ⟨c, rest, rfl, hc⟩ := hvalue
    rw [takeWhile_cons_of_neg]
    intro hwhite
    rw [isWhitespace_of_isAsciiWhitespace hwhite] at hc
    cases hc
  have hne : k.isEmpty = false := by
    obtain ⟨c, t, rfl, -⟩ := hk
    rfl
  have hlen : (k ++ ':' :: value).length = k.length + 1 + value.length := by
    rw [length_append, length_cons]
    omega
  unfold quoteGemmaKey
  simp only [hk.head, length_nil, drop_zero, hk.takeWhile, Nat.zero_add, hcolon, hspace,
    Nat.add_zero, hne, head?_cons, bne_self_eq_false, Bool.or_self, Bool.false_eq_true,
    if_false, hat, hspace', nil_append, append_nil, jsonQuote_eq hwrite]
  cases value with
  | nil => simp [quoteGemmaValue]
  | cons c rest =>
    by_cases hbracket : c = '['
    · subst hbracket
      unfold quoteGemmaValue
      dsimp only
      cases balancedBracketEnd ('[' :: rest) with
      | none => simp [hlen]
      | some arrEnd =>
        dsimp only
        cases elements (((('[' : Char) :: rest).take arrEnd).drop 1) with
        | none => rfl
        | some inner => simp [Nat.add_assoc]
    · rw [quoteGemmaValue_of_ne elements hbracket]
      split
      · next heq => cases heq
      · next heq => exact absurd (cons.inj heq).1 hbracket
      · next c' rest' _ heq =>
        obtain ⟨rfl, rfl⟩ := cons.inj heq
        dsimp only
        by_cases hopen : (c = '"' || c = '{') = true
        · rw [if_pos hopen, if_pos hopen]
          simp
        rw [if_neg hopen, if_neg hopen]
        generalize (c :: rest).take (bareValueLen (c :: rest)) = raw
        by_cases hread : (JsonText.fromStr (trim raw)).isSome = true
        · rw [if_pos hread, if_pos hread]
          simp
        · rw [if_neg hread, if_neg hread, jsonQuote_eq hwrite]
          simp

/-- What `quote_gemma_object_keys` makes of a key and its value, behind a brace or a comma. -/
theorem quoteGemmaObjectKeys_key (hwrite : WritesStrings) {opening : Char}
    (ho : opening = '{' ∨ opening = ',') {k : Text} (hk : IsGemmaKey k) {value out : Text} {n : Nat}
    (hvalue : ∃ c rest,
      value = c :: rest ∧ isWhitespace c = false) (hquoted : quoteGemmaValue elements value = some (out, n)) :
    quoteGemmaObjectKeys elements false 0 (opening :: (k ++ ':' :: value)) =
      (quoteGemmaObjectKeys elements false 0 (value.drop n)).map
        fun more => opening :: (writeString k ++ ':' :: (out ++ more)) := by
  have hkey := quoteGemmaKey_key elements hwrite hk hvalue
  rw [hquoted, Option.map_some] at hkey
  have hdrop : (k ++ ':' :: value).drop (k.length + 1 + n) = value.drop n := by
    rw [← drop_drop, ← drop_drop, drop_left, drop_succ_cons, drop_zero]
  have hstart : quoteGemmaObjectKeys elements false 0 (opening :: (k ++ ':' :: value)) =
      (quoteGemmaKey elements (k ++ ':' :: value)).bind fun p =>
        (quoteGemmaObjectKeys elements false p.2 (k ++ ':' :: value)).bind fun more =>
          some (opening :: p.1 ++ more) := by
    rw [quoteGemmaObjectKeys.eq_def]
    rcases ho with rfl | rfl <;> simp
  rw [hstart, hkey]
  dsimp only [Option.bind_eq_bind, Option.bind_some]
  rw [quoteGemmaObjectKeys_skip, hdrop]
  cases quoteGemmaObjectKeys elements false 0 (value.drop n) with
  | none => rfl
  | some more => simp

end

/-- `quote_gemma_array_elements` on one element. -/
def quoteGemmaElement (levels : Nat) (element : Text) : Option Text :=
  match trim element with
  | [] => some element
  | '"' :: _ => some element
  | '{' :: _ =>
    quoteGemmaObjectKeys (quoteGemmaArrayElements levels) false 0 (trim element)
  | '[' :: _ =>
    match balancedBracketEnd (trim element) with
    | some arrEnd =>
      if arrEnd = (trim element).length - 1 then
        (quoteGemmaArrayElements levels (((trim element).take arrEnd).drop 1)).map
          fun inner => ['['] ++ inner ++ [']']
      else some element
    | none => some element
  | _ =>
    if (JsonText.fromStr (trim element)).isSome then some element
    else some (jsonQuote (trim element))

theorem quoteGemmaArrayElements_succ (levels : Nat) (body : Text) :
    quoteGemmaArrayElements (levels + 1) body =
      ((splitTopLevelCommas body).mapM (quoteGemmaElement levels)).map (intercalate [',']) := by
  rw [quoteGemmaArrayElements]
  cases h : (splitTopLevelCommas body).mapM (quoteGemmaElement levels) with
  | none => exact congrArg (fun out : Option (List Text) => out >>= fun out =>
      some (intercalate [','] out)) h
  | some out => exact congrArg (fun out : Option (List Text) => out >>= fun out =>
      some (intercalate [','] out)) h

/-! ### Whole values -/

omit [JsonText] in
theorem splitTopLevelLoop_bare (h : Bare t) (part r : Text) :
    splitTopLevelLoop 0 false 0 part (t ++ r) = splitTopLevelLoop 0 false 0 (part ++ t) r := by
  obtain ⟨-, h⟩ := h
  induction t generalizing part with
  | nil => rw [nil_append, append_nil]
  | cons c t ih =>
    obtain ⟨hplain, hcomma, -⟩ := isPlain_of_isBareChar (h c mem_cons_self)
    rw [cons_append, splitTopLevelLoop_plain hplain (.inl hcomma),
      ih _ fun d hd => h d (mem_cons_of_mem _ hd)]
    simp

/-- A value stays together. -/
theorem splitTopLevelLoop_half {v : Json} (hv : Encodable v) (part r : Text) :
    splitTopLevelLoop 0 false 0 part (half v ++ r) =
      splitTopLevelLoop 0 false 0 (part ++ half v) r := by
  cases v with
  | null => exact splitTopLevelLoop_bare (show Readable _ from hv).1 part r
  | bool b => exact splitTopLevelLoop_bare (show Readable _ from hv).1 part r
  | number n => exact splitTopLevelLoop_bare (show Readable _ from hv).1 part r
  | string s =>
    have hstring := splitTopLevelLoop_string (inString_flatMap s.toList) 0 part r
    simp only [half, Json.layout, writeString, cons_append, append_assoc,
      nil_append]
    exact hstring
  | array items =>
    have hgroup := splitTopLevelLoop_group (.inl rfl) (.inl rfl) (nested_items items hv) part r
    simp only [half, Json.layout, cons_append, append_assoc, nil_append]
    exact hgroup
  | object fields =>
    have hgroup := splitTopLevelLoop_group (.inr rfl) (.inr rfl) (nested_fields fields hv) part r
    simp only [half, Json.layout, cons_append, append_assoc, nil_append]
    exact hgroup

variable {items : List Json}

theorem splitTopLevelLoop_moreItems (hv : EncodableItems items) (part : Text) :
    splitTopLevelLoop 0 false 0 part (Json.layoutMoreItems id writeString numberText items) =
      part :: items.map half := by
  induction items generalizing part with
  | nil => rfl
  | cons v items ih =>
    have hcomma : ∀ r, splitTopLevelLoop 0 false 0 part (',' :: r) =
        part :: splitTopLevelLoop 0 false 0 [] r := fun r => by simp [splitTopLevelLoop]
    rw [Json.layoutMoreItems, hcomma, splitTopLevelLoop_half hv.1, nil_append, ih hv.2,
      map_cons]

/-- The items of an array, taken apart. -/
theorem splitTopLevelCommas_items {v : Json} (hv : Encodable v) (hitems : EncodableItems items) :
    splitTopLevelCommas (Json.layoutItems id writeString numberText (v :: items)) =
      (v :: items).map half := by
  rw [splitTopLevelCommas, Json.layoutItems, splitTopLevelLoop_half hv, nil_append,
    splitTopLevelLoop_moreItems hitems, map_cons]

omit [JsonText] in
/-- The items of an array, put together. -/
theorem intercalate_items (key string : Text → Text) (number : JsonNumber → Text) (v : Json)
    (items : List Json) :
    intercalate [','] ((v :: items).map (Json.layout key string number)) =
      Json.layoutItems key string number (v :: items) := by
  have hmore : ∀ (items : List Json) (t : Text),
      intercalate [','] (t :: items.map (Json.layout key string number)) =
        t ++ Json.layoutMoreItems key string number items := by
    intro items
    induction items with
    | nil => simp [Json.layoutMoreItems]
    | cons v items ih =>
      intro t
      rw [map_cons, intercalate_cons_cons, ih, Json.layoutMoreItems]
      simp
  rw [map_cons, hmore, Json.layoutItems]

omit [JsonText] in
theorem Bare.head (h : Bare t) (r : Text) : ∃ c rest, t ++ r = c :: rest ∧ isBareChar c = true := by
  obtain ⟨c, t, rfl⟩ := exists_cons_of_ne_nil h.1
  exact ⟨c, t ++ r, rfl, h.2 c mem_cons_self⟩

/-- A bare value behind a colon is read as it stands. -/
theorem quoteGemmaValue_bare (elements : Text → Option Text) {r : Text} (h : Readable t)
    (hr : Follows r) : quoteGemmaValue elements (t ++ r) = some (t, t.length) := by
  obtain ⟨c, rest, htext, hc⟩ := Bare.head h.1 r
  obtain ⟨hquote, hbracket, hbrace, -⟩ := isPlain_iff.1 (isPlain_of_isBareChar hc).1
  have hraw : (c :: rest).take (bareValueLen (c :: rest)) = t := by
    rw [← htext, bareValueLen_bare h.1.2 hr, take_left]
  rw [htext, quoteGemmaValue_of_ne elements hbracket, if_neg (by simp [hquote, hbrace])]
  dsimp only
  rw [hraw, (solid_of_bare h.1).trim, if_pos h.2]

/-- A bare element is left as it stands. -/
theorem quoteGemmaElement_bare (levels : Nat) (h : Readable t) :
    quoteGemmaElement levels t = some t := by
  have htrim := (solid_of_bare h.1).trim
  obtain ⟨c, rest, htext, hc⟩ := Bare.head h.1 []
  obtain ⟨hquote, hbracket, hbrace, -⟩ := isPlain_iff.1 (isPlain_of_isBareChar hc).1
  rw [append_nil] at htext
  rw [quoteGemmaElement, htrim, htext]
  split
  · next heq => cases heq
  · next heq => exact absurd (cons.inj heq).1 hquote
  · next heq => exact absurd (cons.inj heq).1 hbrace
  · next heq => exact absurd (cons.inj heq).1 hbracket
  · rw [if_pos (htext ▸ h.2)]

theorem follows_moreFields {fields : List (String × Json)} (hv : EncodableFields fields)
    (r : Text) :
    Follows (Json.layoutMoreFields id writeString numberText fields ++ '}' :: r) := by
  cases fields with
  | nil => exact .inl ⟨r, rfl⟩
  | cons field fields =>
    obtain ⟨name, v⟩ := field
    refine .inr ⟨name.toList, half v ++
      (Json.layoutMoreFields id writeString numberText fields ++ '}' :: r), hv.1, ?_⟩
    simp [Json.layoutMoreFields]

/-- An item is not longer than all of them. -/
theorem length_le_layoutItems {w : Json} (h : w ∈ items) :
    (w.layout id writeString numberText).length ≤
      (Json.layoutItems id writeString numberText items).length := by
  have hmore : ∀ {items : List Json}, w ∈ items → (w.layout id writeString numberText).length ≤
      (Json.layoutMoreItems id writeString numberText items).length := by
    intro items h
    induction items with
    | nil => cases h
    | cons v items ih =>
      rw [Json.layoutMoreItems, length_cons, length_append]
      rcases mem_cons.1 h with rfl | h
      · omega
      · have := ih h
        omega
  cases items with
  | nil => cases h
  | cons v items =>
    rw [Json.layoutItems, length_append]
    rcases mem_cons.1 h with rfl | h
    · omega
    · have := hmore h
      omega

/-- A key and a bare value. -/
theorem quote_bareField (hwrite : WritesStrings) {t : Text} (h : Readable t) (levels : Nat)
    {opening : Char} (ho : opening = '{' ∨ opening = ',') {k r : Text} (hk : IsGemmaKey k)
    (hr : Follows r) :
    quoteGemmaObjectKeys (quoteGemmaArrayElements levels) false 0 (opening :: (k ++ ':' :: (t ++ r))) =
      (quoteGemmaObjectKeys (quoteGemmaArrayElements levels) false 0 r).map
        fun more => opening :: (writeString k ++ ':' :: (t ++ more)) := by
  obtain ⟨c, rest, htext, hc⟩ := Bare.head h.1 r
  have hhead : ∃ c rest, t ++ r = c :: rest ∧ isWhitespace c = false :=
    ⟨c, rest, htext, not_isWhitespace_of_isBareChar hc⟩
  have hkey := quoteGemmaObjectKeys_key (quoteGemmaArrayElements levels) hwrite ho hk hhead
    (quoteGemmaValue_bare _ h hr)
  rwa [drop_left] at hkey

mutual
/-- A key and its value: the keys of the value are quoted as well. -/
theorem quote_field (hwrite : WritesStrings) : ∀ v : Json, Encodable v → ∀ (levels : Nat)
    (opening : Char) (k r : Text), (half v).length ≤ levels →
    (opening = '{' ∨ opening = ',') → IsGemmaKey k → Follows r →
    quoteGemmaObjectKeys (quoteGemmaArrayElements levels) false 0
        (opening :: (k ++ ':' :: (half v ++ r))) =
      (quoteGemmaObjectKeys (quoteGemmaArrayElements levels) false 0 r).map
        fun more => opening :: (writeString k ++ ':' :: (v.write numberText ++ more))
  | .null, hv, levels, opening, k, r, _, ho, hk, hr =>
    quote_bareField hwrite (show Readable _ from hv) levels ho hk hr
  | .bool _, hv, levels, opening, k, r, _, ho, hk, hr =>
    quote_bareField hwrite (show Readable _ from hv) levels ho hk hr
  | .number _, hv, levels, opening, k, r, _, ho, hk, hr =>
    quote_bareField hwrite (show Readable _ from hv) levels ho hk hr
  | .string s, _, levels, opening, k, r, _, ho, hk, _ => by
    have hvalue : quoteGemmaValue (quoteGemmaArrayElements levels)
        (writeString s.toList ++ r) = some ([], 0) := by
      rw [writeString, cons_append, quoteGemmaValue_of_ne _ (by decide)]
      simp
    have hhead : ∃ c rest, writeString s.toList ++ r = c :: rest ∧ isWhitespace c = false :=
      ⟨'"', _, rfl, by decide⟩
    have hkey := quoteGemmaObjectKeys_key (quoteGemmaArrayElements levels) hwrite ho hk hhead hvalue
    rw [drop_zero, quoteGemmaObjectKeys_string, Option.map_map] at hkey
    exact hkey
  | .array items, hv, levels, opening, k, r, hlevels, ho, hk, _ => by
    let half := Json.layoutItems id writeString numberText items
    have hlength : half.length + 2 ≤ levels := by
      simp only [half, Json.layout, length_cons, length_append] at hlevels
      simp only [half]
      omega
    have hvalue : quoteGemmaValue (quoteGemmaArrayElements levels) ('[' :: (half ++ ']' :: r)) =
        some ('[' :: (Json.layoutItems writeString writeString numberText items ++ [']']),
          half.length + 2) := by
      rw [quoteGemmaValue, balancedBracketEnd_group (nested_items items hv)]
      dsimp only
      rw [take_succ_cons, take_left, drop_succ_cons, drop_zero,
        quote_elements hwrite items hv levels (show half.length < levels by omega)]
      rfl
    have hhead : ∃ c rest, '[' :: (half ++ ']' :: r) = c :: rest ∧ isWhitespace c = false :=
      ⟨'[', _, rfl, by decide⟩
    have hkey := quoteGemmaObjectKeys_key (quoteGemmaArrayElements levels) hwrite ho hk hhead hvalue
    have hrest : ('[' :: (half ++ ']' :: r)).drop (half.length + 2) = r := by
      rw [drop_succ_cons, ← drop_drop, drop_left, drop_succ_cons,
        drop_zero]
    rw [hrest] at hkey
    simp only [half, Json.write, Json.layout, cons_append, append_assoc,
      nil_append] at hkey ⊢
    exact hkey
  | .object fields, hv, levels, opening, k, r, hlevels, ho, hk, _ => by
    let half := Json.layoutFields id writeString numberText fields
    have hlength : half.length + 2 ≤ levels := by
      simp only [half, Json.layout, length_cons, length_append] at hlevels
      simp only [half]
      omega
    have hvalue : quoteGemmaValue (quoteGemmaArrayElements levels) ('{' :: (half ++ '}' :: r)) =
        some ([], 0) := by
      rw [quoteGemmaValue_of_ne _ (by decide)]
      simp
    have hhead : ∃ c rest, '{' :: (half ++ '}' :: r) = c :: rest ∧ isWhitespace c = false :=
      ⟨'{', _, rfl, by decide⟩
    have hkey := quoteGemmaObjectKeys_key (quoteGemmaArrayElements levels) hwrite ho hk hhead hvalue
    rw [drop_zero, quote_object hwrite fields hv levels (show half.length ≤ levels by omega),
      Option.map_map] at hkey
    simp only [half, Json.write, Json.layout, cons_append, append_assoc,
      nil_append] at hkey ⊢
    exact hkey

/-- An object: its keys are quoted, and those of its values. -/
theorem quote_object (hwrite : WritesStrings) : ∀ fields : List (String × Json),
    EncodableFields fields → ∀ (levels : Nat),
    (Json.layoutFields id writeString numberText fields).length ≤ levels → ∀ r : Text,
    quoteGemmaObjectKeys (quoteGemmaArrayElements levels) false 0
        ('{' :: (Json.layoutFields id writeString numberText fields ++ '}' :: r)) =
      (quoteGemmaObjectKeys (quoteGemmaArrayElements levels) false 0 r).map
        fun more => '{' :: (Json.layoutFields writeString writeString numberText fields ++
          '}' :: more)
  | [], _, levels, _, r => by
    have hnone : quoteGemmaObjectKeys (quoteGemmaArrayElements levels) false 0 ('{' :: '}' :: r) =
        (quoteGemmaObjectKeys (quoteGemmaArrayElements levels) false 0 ('}' :: r)).map
          ('{' :: ·) := by
      have hkey : quoteGemmaKey (quoteGemmaArrayElements levels) ('}' :: r) = some ([], 0) := by
        simp [quoteGemmaKey, isAsciiWhitespace, isKeyChar]
      rw [quoteGemmaObjectKeys.eq_def]
      dsimp only
      rw [if_neg (Nat.lt_irrefl 0), if_neg Bool.false_ne_true, if_neg (by decide),
        if_neg (by decide), hkey]
      dsimp only [Option.bind_eq_bind, Option.bind_some]
      cases quoteGemmaObjectKeys (quoteGemmaArrayElements levels) false 0 ('}' :: r) <;> rfl
    rw [Json.layoutFields, nil_append, hnone,
      quoteGemmaObjectKeys_plain _ (by decide) (by decide) (by decide), Option.map_map]
    rfl
  | (name, v) :: fields, hv, levels, hlevels, r => by
    have hlength : (v.layout id writeString numberText).length ≤ levels ∧
        (Json.layoutMoreFields id writeString numberText fields).length ≤ levels := by
      rw [Json.layoutFields, length_append, length_cons, length_append] at hlevels
      omega
    have hfield := quote_field hwrite v hv.2.1 levels '{' name.toList
      (Json.layoutMoreFields id writeString numberText fields ++ '}' :: r) hlength.1 (.inl rfl) hv.1
      (follows_moreFields hv.2.2 r)
    rw [quote_moreFields hwrite fields hv.2.2 levels hlength.2, Option.map_map] at hfield
    simp only [Json.layoutFields, cons_append, append_assoc, id] at hfield ⊢
    exact hfield

/-- The fields of an object but the first. -/
theorem quote_moreFields (hwrite : WritesStrings) : ∀ fields : List (String × Json),
    EncodableFields fields → ∀ (levels : Nat),
    (Json.layoutMoreFields id writeString numberText fields).length ≤ levels → ∀ r : Text,
    quoteGemmaObjectKeys (quoteGemmaArrayElements levels) false 0
        (Json.layoutMoreFields id writeString numberText fields ++ '}' :: r) =
      (quoteGemmaObjectKeys (quoteGemmaArrayElements levels) false 0 r).map
        fun more => Json.layoutMoreFields writeString writeString numberText fields ++ '}' :: more
  | [], _, levels, _, r =>
    quoteGemmaObjectKeys_plain _ (by decide) (by decide) (by decide) r
  | (name, v) :: fields, hv, levels, hlevels, r => by
    have hlength : (v.layout id writeString numberText).length ≤ levels ∧
        (Json.layoutMoreFields id writeString numberText fields).length ≤ levels := by
      rw [Json.layoutMoreFields, length_cons, length_append, length_cons,
        length_append] at hlevels
      omega
    have hfield := quote_field hwrite v hv.2.1 levels ',' name.toList
      (Json.layoutMoreFields id writeString numberText fields ++ '}' :: r) hlength.1 (.inr rfl) hv.1
      (follows_moreFields hv.2.2 r)
    rw [quote_moreFields hwrite fields hv.2.2 levels hlength.2, Option.map_map] at hfield
    simp only [Json.layoutMoreFields, cons_append, append_assoc, id] at hfield ⊢
    exact hfield

/-- An element of an array: its keys are quoted. -/
theorem quote_element (hwrite : WritesStrings) : ∀ v : Json, Encodable v → ∀ levels : Nat,
    (half v).length ≤ levels →
    quoteGemmaElement levels (half v) = some (v.write numberText)
  | .null, hv, levels, _ => quoteGemmaElement_bare levels hv
  | .bool _, hv, levels, _ => quoteGemmaElement_bare levels hv
  | .number _, hv, levels, _ => quoteGemmaElement_bare levels hv
  | .string s, _, levels, _ => by
    have htrim := (solid_writeString s.toList).trim
    show quoteGemmaElement levels (writeString s.toList) = some (writeString s.toList)
    rw [quoteGemmaElement, htrim]
    rfl
  | .array items, hv, levels, hlevels => by
    let half := Json.layoutItems id writeString numberText items
    have hlength : half.length + 2 ≤ levels := by
      simp only [half, Json.layout, length_cons, length_append] at hlevels
      simp only [half]
      omega
    have htrim : trim ('[' :: (half ++ [']'])) = '[' :: (half ++ [']']) :=
      (Solid.of_ends (by decide) (by decide) half).trim
    show quoteGemmaElement levels ('[' :: (half ++ [']'])) = some _
    rw [quoteGemmaElement, htrim]
    rw [balancedBracketEnd_group (nested_items items hv)]
    dsimp only
    rw [if_pos (by simp [half]), take_succ_cons, take_left, drop_succ_cons,
      drop_zero,
      quote_elements hwrite items hv levels (show half.length < levels by omega)]
    rfl
  | .object fields, hv, levels, hlevels => by
    let half := Json.layoutFields id writeString numberText fields
    have hlength : half.length + 2 ≤ levels := by
      simp only [half, Json.layout, length_cons, length_append] at hlevels
      simp only [half]
      omega
    have htrim : trim ('{' :: (half ++ ['}'])) = '{' :: (half ++ ['}']) :=
      (Solid.of_ends (by decide) (by decide) half).trim
    show quoteGemmaElement levels ('{' :: (half ++ ['}'])) = some _
    rw [quoteGemmaElement, htrim]
    rw [quote_object hwrite fields hv levels (show half.length ≤ levels by omega)]
    rfl

/-- The elements of an array, one by one. -/
theorem quote_items (hwrite : WritesStrings) : ∀ items : List Json, EncodableItems items →
    ∀ levels : Nat, (∀ v ∈ items, (half v).length ≤ levels) →
    (items.map half).mapM (quoteGemmaElement levels) =
      some (items.map (Json.write numberText))
  | [], _, _, _ => rfl
  | v :: items, hv, levels, hlevels => by
    rw [map_cons, mapM_cons,
      quote_element hwrite v hv.1 levels (hlevels v mem_cons_self),
      quote_items hwrite items hv.2 levels fun w hw => hlevels w (mem_cons_of_mem _ hw)]
    rfl

/-- The elements of an array. -/
theorem quote_elements (hwrite : WritesStrings) : ∀ items : List Json, EncodableItems items →
    ∀ levels : Nat, (Json.layoutItems id writeString numberText items).length < levels →
    quoteGemmaArrayElements levels (Json.layoutItems id writeString numberText items) =
      some (Json.layoutItems writeString writeString numberText items)
  | [], _, levels + 1, _ => by
    rw [quoteGemmaArrayElements_succ]
    simp [Json.layoutItems, splitTopLevelCommas, splitTopLevelLoop, quoteGemmaElement, trim,
      trimEnd]
  | v :: items, hv, levels + 1, hlevels => by
    rw [quoteGemmaArrayElements_succ, splitTopLevelCommas_items hv.1 hv.2,
      quote_items hwrite (v :: items) hv levels fun w hw => ?_, Option.map_some]
    · exact congrArg some (intercalate_items writeString writeString numberText v items)
    · exact Nat.le_of_lt_succ (Nat.lt_of_le_of_lt (length_le_layoutItems hw) hlevels)
end

/-- A field, and those behind it. -/
theorem solid_moreFields : ∀ (fields : List (String × Json)), EncodableFields fields → ∀ {t : Text},
    Solid t → Solid (t ++ Json.layoutMoreFields id tokenQuote numberText fields)
  | [], _, t, ht => by rwa [Json.layoutMoreFields, append_nil]
  | (name, v) :: fields, hv, t, ht => by
    have hvalue := solid_layout solid_tokenQuote hv.2.1
    have hmore := solid_moreFields fields hv.2.2
      (ht.append (',' :: (name.toList ++ [':'])) hvalue)
    simpa [Json.layoutMoreFields] using hmore

/-- **Arguments in Gemma's dialect are read as what they are.** -/
theorem gemmaArgumentsToJson_render (hwrite : WritesStrings) {fields : List (String × Json)}
    (hv : EncodableFields fields)
    (hread : JsonText.fromStr ((Json.object fields).write numberText) = some (.object fields)) :
    gemmaArgumentsToJson (renderFields fields) = some (some (.object fields)) := by
  cases fields with
  | nil => rfl
  | cons field fields =>
    obtain ⟨name, v⟩ := field
    have hsolid : Solid (renderFields ((name, v) :: fields)) := by
      have hmore := solid_moreFields fields hv.2.2
        (hv.1.solid.append [':'] (solid_layout solid_tokenQuote hv.2.1))
      simpa [renderFields, Json.layoutFields] using hmore
    obtain ⟨c, rest, hhead, -⟩ := hsolid.head
    have hnormal := normalise_fields hwrite ((name, v) :: fields) hv []
    rw [append_nil, normaliseGemmaQuotedStrings, append_nil] at hnormal
    have hobject := quote_object hwrite ((name, v) :: fields) hv
      (['{'] ++ Json.layoutFields id writeString numberText ((name, v) :: fields) ++ ['}']).length
      (by simp only [length_append]; omega) []
    rw [quoteGemmaObjectKeys, Option.map_some] at hobject
    rw [gemmaArgumentsToJson, hsolid.trim]
    dsimp only
    rw [hhead, isEmpty_cons, if_neg Bool.false_ne_true, ← hhead, hnormal]
    have hsrc : ['{'] ++ Json.layoutFields id writeString numberText ((name,
      v) :: fields) ++ ['}'] =
        '{' :: (Json.layoutFields id writeString numberText ((name, v) :: fields) ++ ['}']) := by
      simp
    rw [hsrc] at hobject ⊢
    rw [hobject]
    dsimp only [Option.bind_eq_bind, Option.bind_some]
    rw [Json.write, Json.layout] at hread
    rw [hread]
    rfl

end

end Backend
end Gen2
