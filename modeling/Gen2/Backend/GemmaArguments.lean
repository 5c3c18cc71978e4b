import Gen2.Backend.GemmaValues

/-!
# The arguments of a Gemma call

`backend/common/healing.rs`, `gemma_arguments_to_json`: arguments that are JSON already stay what
they are.

* `Lex` is a scan over the grammar of JSON, with what the rewriting looks for; `Lex.run_json` takes
  it through every text of JSON.
* `gemmaArgumentsToJson_strict`: an object of JSON is read as it is.
* `gemma_decodes`: whether the arguments are written in Gemma's dialect or in JSON, they are read as
  what they are.
-/

namespace Gen2
namespace Backend

open Lib List

theorem isWhitespace_of_isJsonSpace {c : Char} (h : isJsonSpace c = true) :
    isWhitespace c = true := by
  simp only [isJsonSpace, contains_eq_mem, mem_cons, not_mem_nil, or_false,
    decide_eq_true_eq] at h
  rcases h with rfl | rfl | rfl | rfl <;> decide

/-- Where a scan over JSON is. -/
inductive Lex
  | outside (afterString : Bool)
  | inside
  | escaped

/-- One character.  Outside of strings a colon stands behind a string, there is no bar, and white
space is that of JSON; behind a backslash there is an ASCII character. -/
def Lex.step : Lex → Char → Option Lex
  | .outside afterString, c =>
    if c = '"' then some .inside
    else if c = '|' then none
    else if c = ':' then if afterString then some (.outside false) else none
    else if isJsonSpace c then some (.outside afterString)
    else if isWhitespace c then none
    else some (.outside false)
  | .inside, c =>
    if c = '\\' then some .escaped else if c = '"' then some (.outside true) else some .inside
  | .escaped, c => if isMultibyte c then none else some .inside

def Lex.run : Lex → Text → Option Lex
  | q, [] => some q
  | q, c :: t => (q.step c).bind (·.run t)

def Lex.isInside : Lex → Bool
  | .inside => true
  | _ => false

theorem Lex.run_append (q : Lex) (s t : Text) : q.run (s ++ t) = (q.run s).bind (·.run t) := by
  induction s generalizing q with
  | nil => rfl
  | cons c s ih =>
    rw [cons_append, Lex.run, Lex.run]
    cases q.step c with
    | none => rfl
    | some q' => exact ih q'

theorem Lex.run_inString {t : Text} (h : InString t) : Lex.inside.run t = some .inside := by
  induction h with
  | nil => rfl
  | char c t hquote hescape _ ih =>
    rw [Lex.run, Lex.step, if_neg hescape, if_neg hquote]
    exact ih
  | escape c t hascii _ ih =>
    rw [Lex.run, Lex.step, if_pos rfl, Option.bind_some, Lex.run, Lex.step,
      if_neg (by simp [isMultibyte, hascii])]
    exact ih

theorem Lex.step_space {c : Char} (h : isJsonSpace c = true) (b : Bool) :
    (Lex.outside b).step c = some (.outside b) := by
  simp only [isJsonSpace, contains_eq_mem, mem_cons, not_mem_nil, or_false,
    decide_eq_true_eq] at h
  rcases h with rfl | rfl | rfl | rfl <;> rfl

theorem Lex.run_space {ws : Text} (h : ∀ c ∈ ws, isJsonSpace c = true) (b : Bool) :
    (Lex.outside b).run ws = some (.outside b) := by
  induction ws with
  | nil => rfl
  | cons c ws ih =>
    rw [Lex.run, Lex.step_space (h c mem_cons_self)]
    exact ih fun d hd => h d (mem_cons_of_mem _ hd)

/-- White space that a scan goes through is that of JSON. -/
theorem Lex.isJsonSpace_of_run {ws t : Text} (h : ∀ c ∈ ws, isWhitespace c = true) {b : Bool}
    (hrun : ((Lex.outside b).run (ws ++ t)).isSome = true) : ∀ c ∈ ws, isJsonSpace c = true := by
  induction ws with
  | nil => exact fun c hc => nomatch hc
  | cons c ws ih =>
    have hwhite := h c mem_cons_self
    have hspace : isJsonSpace c = true := by
      by_contra hnot
      have hplain : c ≠ '"' ∧ c ≠ '|' ∧ c ≠ ':' := by
        refine ⟨?_, ?_, ?_⟩ <;> rintro rfl <;> revert hwhite <;> decide
      have hstep : (Lex.outside b).step c = none := by
        simp [Lex.step, hplain.1, hplain.2.1, hplain.2.2, hnot, hwhite]
      rw [cons_append, Lex.run, hstep] at hrun
      cases hrun
    rw [cons_append, Lex.run, Lex.step_space hspace] at hrun
    intro d hd
    rcases mem_cons.1 hd with rfl | hd
    · exact hspace
    · exact ih (fun d hd => h d (mem_cons_of_mem _ hd)) hrun d hd

/-- A string ends with a quote. -/
theorem Lex.run_ne_outside {q : Lex} (hq : ∀ b, q ≠ .outside b) {t : Text} (h : '"' ∉ t) (b : Bool) :
    q.run t ≠ some (.outside b) := by
  induction t generalizing q with
  | nil => exact fun heq => hq b (Option.some.inj heq)
  | cons c t ih =>
    have hquote : c ≠ '"' := fun heq => h (heq ▸ mem_cons_self)
    have hrest : '"' ∉ t := fun hmem => h (mem_cons_of_mem _ hmem)
    rw [Lex.run]
    cases q with
    | outside b' => exact absurd rfl (hq b')
    | inside =>
      rw [Lex.step, if_neg hquote]
      by_cases hescape : c = '\\'
      · rw [if_pos hescape]
        exact ih (fun b' heq => nomatch heq) hrest
      · rw [if_neg hescape]
        exact ih (fun b' heq => nomatch heq) hrest
    | escaped =>
      rw [Lex.step]
      by_cases hwide : isMultibyte c = true
      · rw [if_pos hwide]
        exact fun heq => nomatch heq
      · rw [if_neg hwide]
        exact ih (fun b' heq => nomatch heq) hrest

/-- Characters that mean nothing to the scan. -/
theorem Lex.run_word {t : Text} (hne : t ≠ [])
    (h : ∀ c ∈ t, c ≠ '"' ∧ c ≠ '|' ∧ c ≠ ':' ∧ isWhitespace c = false) (b : Bool) :
    (Lex.outside b).run t = some (.outside false) := by
  induction t generalizing b with
  | nil => exact absurd rfl hne
  | cons c t ih =>
    obtain ⟨hquote, hbar, hcolon, hwhite⟩ := h c mem_cons_self
    have hspace : isJsonSpace c = false := by
      rw [Bool.eq_false_iff]
      intro hspace
      rw [isWhitespace_of_isJsonSpace hspace] at hwhite
      cases hwhite
    have hstep : (Lex.outside b).step c = some (.outside false) := by
      simp [Lex.step, hquote, hbar, hcolon, hspace, hwhite]
    rw [Lex.run, hstep, Option.bind_some]
    by_cases hnil : t = []
    · subst hnil
      rfl
    · exact ih hnil (fun d hd => h d (mem_cons_of_mem _ hd)) false

/-- **A scan goes through JSON.** -/
theorem Lex.run_json {form : JsonForm} {t : Text} (h : IsJson form t) (b : Bool) :
    ∃ b', (Lex.outside b).run t = some (.outside b') := by
  have hopen : ∀ {c : Char} {b : Bool}, c = '[' ∨ c = '{' ∨ c = ',' ∨ c = ']' ∨ c = '}' →
      (Lex.outside b).step c = some (.outside false) := by
    rintro c b (rfl | rfl | rfl | rfl | rfl) <;> rfl
  induction h generalizing b with
  | bare t h =>
    refine ⟨false, Lex.run_word h.1 (fun c hc => ?_) b⟩
    have hbare := h.2 c hc
    refine ⟨?_, ?_, ?_, not_isWhitespace_of_isBareChar hbare⟩
    · rintro rfl
      revert hbare
      decide
    · rintro rfl
      revert hbare
      decide
    · rintro rfl
      revert hbare
      decide
  | string t h =>
    refine ⟨true, ?_⟩
    rw [Lex.run, show (Lex.outside b).step '"' = some .inside from rfl, Option.bind_some,
      Lex.run_append, Lex.run_inString h]
    rfl
  | emptyArray ws h =>
    refine ⟨false, ?_⟩
    rw [Lex.run, hopen (.inl rfl), Option.bind_some, Lex.run_append,
      Lex.run_space h]
    rfl
  | array t _ ih =>
    obtain ⟨b', hb'⟩ := ih false
    refine ⟨false, ?_⟩
    rw [Lex.run, hopen (.inl rfl), Option.bind_some, Lex.run_append, hb', Option.bind_some, Lex.run,
      hopen (by simp)]
    rfl
  | emptyObject ws h =>
    refine ⟨false, ?_⟩
    rw [Lex.run, hopen (by simp), Option.bind_some, Lex.run_append,
      Lex.run_space h]
    rfl
  | object t _ ih =>
    obtain ⟨b', hb'⟩ := ih false
    refine ⟨false, ?_⟩
    rw [Lex.run, hopen (by simp), Option.bind_some, Lex.run_append, hb', Option.bind_some, Lex.run,
      hopen (by simp)]
    rfl
  | element ws t ws' hws _ hws' ih =>
    obtain ⟨b', hb'⟩ := ih b
    refine ⟨b', ?_⟩
    rw [Lex.run_append, Lex.run_space hws, Option.bind_some,
      Lex.run_append, hb', Option.bind_some,
      Lex.run_space hws']
  | oneElement t _ ih => exact ih b
  | moreElements t t' _ _ ih ih' =>
    obtain ⟨b₁, hb₁⟩ := ih b
    obtain ⟨b₂, hb₂⟩ := ih' false
    refine ⟨b₂, ?_⟩
    rw [Lex.run_append, hb₁, Option.bind_some, Lex.run, hopen (by simp)]
    exact hb₂
  | member ws k ws' t hws hk hws' _ ih =>
    obtain ⟨b', hb'⟩ := ih false
    refine ⟨b', ?_⟩
    rw [Lex.run_append, Lex.run_space hws, Option.bind_some,
      Lex.run, show (Lex.outside b).step '"' = some .inside from rfl, Option.bind_some,
      Lex.run_append, Lex.run_inString hk, Option.bind_some, Lex.run,
      show Lex.inside.step '"' = some (.outside true) from rfl, Option.bind_some, Lex.run_append,
      Lex.run_space hws', Option.bind_some, Lex.run,
      show (Lex.outside true).step ':' = some (.outside false) from rfl]
    exact hb'
  | oneMember t _ ih => exact ih b
  | moreMembers t t' _ _ ih ih' =>
    obtain ⟨b₁, hb₁⟩ := ih b
    obtain ⟨b₂, hb₂⟩ := ih' false
    refine ⟨b₂, ?_⟩
    rw [Lex.run_append, hb₁, Option.bind_some, Lex.run, hopen (by simp)]
    exact hb₂

/-! ### What passes through -/

/-- There is no quote token. -/
theorem Lex.run_gemmaQuote (q : Lex) (t : Text) : q.run (gemmaQuote ++ t) = none := by
  cases q with
  | outside b => rfl
  | inside => rfl
  | escaped => rfl

section
variable [JsonText]

/-- JSON has nothing to normalise. -/
theorem normaliseGemmaQuotedStrings_quiet {t : Text} {q : Lex} (h : (q.run t).isSome = true) :
    normaliseGemmaQuotedStrings 0 t = t := by
  induction t generalizing q with
  | nil => rfl
  | cons c t ih =>
    have hnot : gemmaQuote.isPrefixOf (c :: t) = false := by
      rw [Bool.eq_false_iff]
      intro hpre
      obtain ⟨rest, hrest⟩ := isPrefixOf_iff_prefix.1 hpre
      rw [← hrest, Lex.run_gemmaQuote] at h
      cases h
    rw [normaliseGemmaQuotedStrings, if_neg (Nat.lt_irrefl 0), hnot, if_neg Bool.false_ne_true]
    rw [Lex.run] at h
    cases hstep : q.step c with
    | none => rw [hstep] at h; cases h
    | some q' =>
      rw [hstep] at h
      rw [ih h]

omit [JsonText] in
/-- What a text begins with, and the rest of it. -/
theorem takeWhile_split {p : Char → Bool} {t front : Text} (h : t.takeWhile p = front) :
    t = front ++ t.drop front.length ∧ ∀ c ∈ front, p c = true := by
  have hsplit : front ++ t.dropWhile p = t := by rw [← h, takeWhile_append_dropWhile]
  have hdrop : t.drop front.length = t.dropWhile p := by
    nth_rewrite 1 [← hsplit]
    rw [drop_left]
  refine ⟨by rw [hdrop, hsplit], ?_⟩
  rw [← h]
  exact all_eq_true.1 all_takeWhile

omit [JsonText] in
theorem Lex.run_keyName {t : Text} (h : ∀ c ∈ t, isKeyChar c = true) :
    (Lex.outside false).run t = some (.outside false) := by
  by_cases hnil : t = []
  · subst hnil
    rfl
  refine Lex.run_word hnil (fun c hc => ?_) false
  have hkey := h c hc
  refine ⟨?_, ?_, (isPlain_of_isKeyChar hkey).2.2.2, not_isWhitespace_of_isKeyChar hkey⟩
  · rintro rfl
    revert hkey
    decide
  · rintro rfl
    revert hkey
    decide

/-- There is no bare key to quote. -/
theorem quoteGemmaKey_quiet (elements : Text → Option Text) {t : Text}
    (h : ((Lex.outside false).run t).isSome = true) :
    ∃ n, quoteGemmaKey elements t = some (t.take n, n) ∧
      ((Lex.outside false).run (t.drop n)).isSome = true := by
  generalize hws : t.takeWhile isAsciiWhitespace = ws
  generalize hkey : (t.drop ws.length).takeWhile isKeyChar = keyName
  generalize hws' : (t.drop (ws.length + keyName.length)).takeWhile isAsciiWhitespace = ws'
  obtain ⟨hsplit, hspace⟩ := takeWhile_split hws
  obtain ⟨hsplit', hname⟩ := takeWhile_split hkey
  obtain ⟨hsplit'', hspace'⟩ := takeWhile_split hws'
  rw [drop_drop] at hsplit' hsplit''
  rw [hsplit] at h
  have hjson := Lex.isJsonSpace_of_run
    (fun c hc => isWhitespace_of_isAsciiWhitespace (hspace c hc)) h
  rw [Lex.run_append, Lex.run_space hjson, Option.bind_some, hsplit', Lex.run_append,
    Lex.run_keyName hname, Option.bind_some] at h
  refine ⟨ws.length + keyName.length, ?_, h⟩
  rw [hsplit''] at h
  have hjson' := Lex.isJsonSpace_of_run
    (fun c hc => isWhitespace_of_isAsciiWhitespace (hspace' c hc)) h
  rw [Lex.run_append, Lex.run_space hjson', Option.bind_some] at h
  have hcolon : (t.drop (ws.length + keyName.length + ws'.length)).head? != some ':' := by
    cases hrest : t.drop (ws.length + keyName.length + ws'.length) with
    | nil => rfl
    | cons c rest =>
      rw [hrest] at h
      by_cases hc : c = ':'
      · subst hc
        cases h
      · simpa using hc
  unfold quoteGemmaKey
  dsimp only
  rw [hws, hkey, hws', hcolon, Bool.or_true, if_pos rfl]

/-- **JSON has no keys to quote**: it passes as it stands. -/
theorem quoteGemmaObjectKeys_quiet (elements : Text → Option Text) {q : Lex} {t : Text}
    (hq : q ≠ .escaped) (h : (q.run t).isSome = true) :
    quoteGemmaObjectKeys elements q.isInside 0 t = some t := by
  induction hlen : t.length using Nat.strongRecOn generalizing q t with
  | _ k ih =>
  cases t with
  | nil => rfl
  | cons c t =>
    have hrest : ∀ q' : Lex, q' ≠ .escaped → q.step c = some q' →
        quoteGemmaObjectKeys elements q'.isInside 0 t = some t := by
      intro q' hq' hstep
      rw [Lex.run, hstep] at h
      exact ih t.length (hlen ▸ Nat.lt_succ_self _) hq' h rfl
    cases q with
    | escaped => exact absurd rfl hq
    | inside =>
      by_cases hescape : c = '\\'
      · subst hescape
        cases t with
        | nil => rfl
        | cons d t =>
          rw [Lex.run, show Lex.inside.step '\\' = some .escaped from rfl, Option.bind_some,
            Lex.run, Lex.step] at h
          by_cases hwide : isMultibyte d = true
          · rw [if_pos hwide] at h
            cases h
          rw [if_neg hwide, Option.bind_some] at h
          have hshort : t.length < k := by
            rw [← hlen, length_cons, length_cons]
            omega
          have hmore : quoteGemmaObjectKeys elements true 0 t = some t :=
            ih t.length hshort (q := .inside) (fun heq => by cases heq) h rfl
          have hskip := quoteGemmaObjectKeys_skip elements true 1 (d :: t)
          rw [drop_succ_cons, drop_zero, hmore] at hskip
          show quoteGemmaObjectKeys elements true 0 ('\\' :: d :: t) = _
          rw [quoteGemmaObjectKeys.eq_def]
          dsimp only
          rw [if_neg (Nat.lt_irrefl 0), if_pos rfl]
          show (if isMultibyte d = true then none
            else (quoteGemmaObjectKeys elements true 1 (d :: t)).map (['\\', d] ++ ·)) = _
          rw [if_neg hwide, hskip]
          rfl
      · have hplain : quoteGemmaObjectKeys elements true 0 (c :: t) =
            (quoteGemmaObjectKeys elements (c != '"') 0 t).map (c :: ·) := by
          rw [quoteGemmaObjectKeys.eq_def]
          simp [hescape]
        show quoteGemmaObjectKeys elements true 0 (c :: t) = _
        rw [hplain]
        by_cases hquote : c = '"'
        · subst hquote
          have hmore : quoteGemmaObjectKeys elements false 0 t = some t :=
            hrest (.outside true) (fun heq => by cases heq) rfl
          exact congrArg (Option.map ('"' :: ·)) hmore
        · have hmore : quoteGemmaObjectKeys elements true 0 t = some t :=
            hrest .inside (fun heq => by cases heq)
              (by rw [Lex.step, if_neg hescape, if_neg hquote])
          rw [show (c != '"') = true by simpa using hquote]
          exact congrArg (Option.map (c :: ·)) hmore
    | outside b =>
      show quoteGemmaObjectKeys elements false 0 (c :: t) = _
      by_cases hquote : c = '"'
      · subst hquote
        have hmore : quoteGemmaObjectKeys elements true 0 t = some t :=
          hrest .inside (fun heq => by cases heq) rfl
        rw [quoteGemmaObjectKeys.eq_def]
        exact congrArg (Option.map ('"' :: ·)) hmore
      · by_cases hopen : c = '{' ∨ c = ','
        · have hstep : (Lex.outside b).step c = some (.outside false) := by
            rcases hopen with rfl | rfl <;> rfl
          rw [Lex.run, hstep, Option.bind_some] at h
          obtain ⟨n, hkey, hrun⟩ := quoteGemmaKey_quiet elements h
          have hshort : (t.drop n).length < k := by
            rw [← hlen, length_drop, length_cons]
            omega
          have hmore : quoteGemmaObjectKeys elements false 0 (t.drop n) = some (t.drop n) :=
            ih _ hshort (q := .outside false) (fun heq => by cases heq) hrun rfl
          rw [← quoteGemmaObjectKeys_skip] at hmore
          rw [quoteGemmaObjectKeys.eq_def]
          rcases hopen with rfl | rfl <;> simp [hkey, hmore]
        · rw [not_or] at hopen
          obtain ⟨b', hstep⟩ : ∃ b', (Lex.outside b).step c = some (.outside b') := by
            rw [Lex.run] at h
            rw [Lex.step, if_neg hquote] at h ⊢
            split_ifs at h ⊢ <;> first | exact ⟨_, rfl⟩ | cases h
          have hmore : quoteGemmaObjectKeys elements false 0 t = some t :=
            hrest (.outside b') (fun heq => by cases heq) hstep
          rw [quoteGemmaObjectKeys_plain elements hquote hopen.1 hopen.2, hmore]
          rfl

omit [JsonText] in
/-- A text is what `trim` leaves of it, between white space. -/
theorem trim_split (t : Text) : ∃ lead trail, t = lead ++ (trim t ++ trail) ∧
    (∀ c ∈ lead, isWhitespace c = true) ∧ ∀ c ∈ trail, isWhitespace c = true := by
  have hend : ∀ s : Text, s = trimEnd s ++ (s.reverse.takeWhile isWhitespace).reverse := by
    intro s
    rw [trimEnd, ← reverse_append, takeWhile_append_dropWhile, reverse_reverse]
  refine ⟨t.takeWhile isWhitespace,
    ((t.dropWhile isWhitespace).reverse.takeWhile isWhitespace).reverse, ?_, ?_, ?_⟩
  · rw [trim, ← hend, takeWhile_append_dropWhile]
  · exact all_eq_true.1 all_takeWhile
  · intro c hc
    exact all_eq_true.1 all_takeWhile c (mem_reverse.1 hc)

omit [JsonText] in
/-- White space at the two ends means nothing to the scan. -/
theorem Lex.run_trim {body : Text} {b : Bool}
    (h : (Lex.outside false).run (body ++ ['}']) = some (.outside b)) :
    ∃ lead trail, body = lead ++ (trim body ++ trail) ∧ (∀ c ∈ lead, isJsonSpace c = true) ∧
      (∀ c ∈ trail, isJsonSpace c = true) ∧
      ((Lex.outside false).run (trim body ++ ['}'])).isSome = true := by
  obtain ⟨lead, trail, hsplit, hlead, htrail⟩ := trim_split body
  rw [hsplit, append_assoc, append_assoc] at h
  have hjson := Lex.isJsonSpace_of_run hlead (Option.isSome_iff_exists.2 ⟨_, h⟩)
  rw [Lex.run_append, Lex.run_space hjson, Option.bind_some, Lex.run_append] at h
  refine ⟨lead, trail, hsplit, hjson, ?_⟩
  rw [Lex.run_append]
  cases hq : (Lex.outside false).run (trim body) with
  | none => rw [hq] at h; cases h
  | some q =>
    rw [hq, Option.bind_some] at h
    have hquote : '"' ∉ trail ++ ['}'] := by
      intro hmem
      rcases mem_append.1 hmem with hmem | hmem
      · have hwhite := htrail _ hmem
        revert hwhite
        decide
      · revert hmem
        decide
    cases q with
    | outside b' =>
      exact ⟨Lex.isJsonSpace_of_run htrail (Option.isSome_iff_exists.2 ⟨_, h⟩), rfl⟩
    | inside =>
      exact absurd h (Lex.run_ne_outside (q := .inside) (fun b' heq => nomatch heq) hquote b)
    | escaped =>
      exact absurd h (Lex.run_ne_outside (q := .escaped) (fun b' heq => nomatch heq) hquote b)

/-- White space behind the opening brace of an object, and before its closing one, means nothing. -/
def SkipsSpace : Prop :=
  ∀ lead t trail : Text, (∀ c ∈ lead, isJsonSpace c = true) → (∀ c ∈ trail, isJsonSpace c = true) →
    JsonText.fromStr ('{' :: (lead ++ (t ++ trail) ++ ['}'])) = JsonText.fromStr ('{' :: (t ++ ['}']))

/-- **An object of JSON is read as it is.** -/
theorem gemmaArgumentsToJson_strict (hspace : SkipsSpace)
    (hempty : JsonText.fromStr ['{', '}'] = some (.object [])) {body : Text} {v : Json}
    (hjson : IsJson .value ('{' :: (body ++ ['}'])))
    (hread : JsonText.fromStr ('{' :: (body ++ ['}'])) = some v) (hobject : Json.isObject v = true) :
    gemmaArgumentsToJson body = some (some v) := by
  obtain ⟨b, hrun⟩ := Lex.run_json hjson false
  have hstart : ∀ t, (Lex.outside false).run ('{' :: t) = (Lex.outside false).run t := fun _ => rfl
  rw [hstart] at hrun
  obtain ⟨lead, trail, hsplit, hlead, htrail, hbody⟩ := Lex.run_trim hrun
  have htrim : JsonText.fromStr ('{' :: (trim body ++ ['}'])) = some v := by
    rw [← hspace lead (trim body) trail hlead htrail, ← hsplit, hread]
  rw [gemmaArgumentsToJson]
  dsimp only
  by_cases hnil : trim body = []
  · rw [hnil, isEmpty_nil, if_pos rfl]
    rw [hnil, nil_append, hempty] at htrim
    rw [Option.some.inj htrim]
  have hnormal : normaliseGemmaQuotedStrings 0 (trim body) = trim body := by
    rw [Lex.run_append] at hbody
    refine normaliseGemmaQuotedStrings_quiet (q := .outside false) ?_
    cases hq : (Lex.outside false).run (trim body) with
    | none => rw [hq] at hbody; cases hbody
    | some q => rfl
  have hquiet : quoteGemmaObjectKeys
      (quoteGemmaArrayElements ('{' :: (trim body ++ ['}'])).length) false 0
      ('{' :: (trim body ++ ['}'])) = some ('{' :: (trim body ++ ['}'])) :=
    quoteGemmaObjectKeys_quiet _ (q := .outside false) (fun heq => by cases heq)
      ((hstart _).symm ▸ hbody)
  have hsrc : ['{'] ++ trim body ++ ['}'] = '{' :: (trim body ++ ['}']) := by simp
  rw [if_neg (by simpa using hnil), hnormal, hsrc, hquiet]
  dsimp only [Option.bind_eq_bind, Option.bind_some]
  rw [htrim, Option.filter_some, if_pos hobject]
  rfl

/-- **Arguments are read as what they are**: those in Gemma's dialect, and those in JSON. -/
theorem gemma_decodes (hwrite : WritesStrings) (hspace : SkipsSpace)
    (hempty : JsonText.fromStr ['{', '}'] = some (.object [])) :
    (∀ fields, EncodableFields fields →
      JsonText.fromStr ((Json.object fields).write numberText) = some (.object fields) →
      gemmaArgumentsToJson (Gemma.renderFields fields) = some (some (.object fields))) ∧
    ∀ body fields, IsJson .value ('{' :: (body ++ ['}'])) →
      JsonText.fromStr ('{' :: (body ++ ['}'])) = some (.object fields) →
      gemmaArgumentsToJson body = some (some (.object fields)) :=
  ⟨fun _ hv hread => gemmaArgumentsToJson_render hwrite hv hread,
    fun _ _ hjson hread => gemmaArgumentsToJson_strict hspace hempty hjson hread rfl⟩

end

/-! ## An example -/

/-- A text without the white space at its ends. -/
def trimSpace (t : Text) : Text := ((t.dropWhile isJsonSpace).reverse.dropWhile isJsonSpace).reverse

theorem dropWhile_space {ws : Text} (h : ∀ c ∈ ws, isJsonSpace c = true) :
    ws.dropWhile isJsonSpace = [] := by
  have hall : (ws ++ []).dropWhile isJsonSpace = [] := dropWhile_append_of_pos h
  rwa [append_nil] at hall

theorem trimSpace_pad {lead trail : Text} (hlead : ∀ c ∈ lead, isJsonSpace c = true)
    (htrail : ∀ c ∈ trail, isJsonSpace c = true) (t : Text) :
    trimSpace (lead ++ (t ++ trail)) = trimSpace t := by
  unfold trimSpace
  rw [dropWhile_append_of_pos hlead, dropWhile_append]
  by_cases hnil : (t.dropWhile isJsonSpace).isEmpty = true
  · rw [if_pos hnil, isEmpty_iff.1 hnil, dropWhile_space htrail]
  · rw [if_neg hnil, reverse_append, dropWhile_append_of_pos]
    exact fun c hc => htrail c (mem_reverse.1 hc)

/-- An object without the white space next to its braces. -/
def unpadded : Text → Text
  | '{' :: t =>
    match t.reverse with
    | '}' :: body => '{' :: (trimSpace body.reverse ++ ['}'])
    | _ => '{' :: t
  | t => t

/-- `serde_json` on the values of a table, whatever white space is next to the braces; strings it
writes as they are. -/
abbrev JsonText.padded (entries : List (String × Json)) : JsonText where
  fromStr t := entries.lookup (String.ofList (unpadded t))
  streamNext := (JsonText.table entries).streamNext
  toText
    | .string s => writeString s.toList
    | v => (JsonText.table entries).toText v

theorem unpadded_object (t : Text) :
    unpadded ('{' :: (t ++ ['}'])) = '{' :: (trimSpace t ++ ['}']) := by
  rw [unpadded, reverse_append, reverse_singleton, singleton_append]
  show '{' :: (trimSpace t.reverse.reverse ++ ['}']) = _
  rw [reverse_reverse]

theorem skipsSpace_padded (entries : List (String × Json)) :
    letI := JsonText.padded entries
    SkipsSpace := by
  intro lead t trail hlead htrail
  have hsame : unpadded ('{' :: (lead ++ (t ++ trail) ++ ['}'])) =
      unpadded ('{' :: (t ++ ['}'])) := by
    rw [unpadded_object, unpadded_object, trimSpace_pad hlead htrail]
  exact congrArg (fun s => entries.lookup (String.ofList s)) hsame

/-- The arguments of the example: a string with a quote and a brace in it, and an array in an
object. -/
def gemmaExample : List (String × Json) :=
  [("say", .string "\"\x7b,"),
    ("at", .object [("x-1", .array [.number (.posInt 1), .bool true, .string "a:b"])])]

/-- The values of the example. -/
def gemmaExampleJson : List (String × Json) :=
  [("\x7b\x7d", .object []),
    ("1", .number (.posInt 1)),
    ("true", .bool true),
    ("\x7b\"say\":\"\\\"\x7b,\",\"at\":\x7b\"x-1\":[1,true,\"a:b\"]\x7d\x7d", .object gemmaExample),
    ("\x7b\"k\" : [1]\x7d", .object [("k", .array [.number (.posInt 1)])])]

theorem gemma_decodes_example :
    letI := JsonText.padded gemmaExampleJson
    gemmaArgumentsToJson (Gemma.renderFields gemmaExample) = some (some (.object gemmaExample)) ∧
      gemmaArgumentsToJson " \"k\" : [1] ".toList =
        some (some (.object [("k", .array [.number (.posInt 1)])])) := by
  let _ := JsonText.padded gemmaExampleJson
  obtain ⟨hdialect, hstrict⟩ :=
    gemma_decodes (fun s => rfl) (skipsSpace_padded gemmaExampleJson) (by rfl)
  refine ⟨hdialect gemmaExample ?_ (by rfl), hstrict _ _ ?_ (by rfl)⟩
  · have hword : ∀ {t : Text}, t ≠ [] → (∀ c ∈ t, isBareChar c = true) →
        (JsonText.fromStr t).isSome = true → Readable t := fun hne h hread => ⟨⟨hne, h⟩, hread⟩
    have hnumber : Readable (numberText (.posInt 1)) := hword (by decide) (forall_mem_of_all rfl) (by rfl)
    have hbool : Readable "true".toList := hword (by decide) (forall_mem_of_all rfl) (by rfl)
    have hitems : EncodableItems [.number (.posInt 1), .bool true, .string "a:b"] :=
      ⟨hnumber, hbool, (by decide : find gemmaQuote "a:b".toList = none), trivial⟩
    exact ⟨⟨'s', _, rfl, by decide, forall_mem_of_all rfl⟩,
      (by decide : find gemmaQuote "\"\x7b,".toList = none),
      ⟨⟨'a', _, rfl, by decide, forall_mem_of_all rfl⟩, ⟨⟨'x', _, rfl, by decide,
        forall_mem_of_all rfl⟩, hitems, trivial⟩,
        trivial⟩⟩
  · have hone : IsJson .value ['1'] := .bare _ ⟨by decide, forall_mem_of_all rfl⟩
    have hitems : IsJson .elements ['1'] :=
      .oneElement _ (.element [] ['1'] [] (fun _ hc => nomatch hc) hone fun _ hc => nomatch hc)
    have hmember : IsJson .member " \"k\" : [1] ".toList :=
      .member [' '] ['k'] [' '] _ (forall_mem_of_all rfl) (.char 'k' _ (by decide) (by decide) .nil)
        (forall_mem_of_all rfl)
        (.element [' '] _ [' '] (forall_mem_of_all rfl) (.array _ hitems) (forall_mem_of_all rfl))
    exact .object _ (.oneMember _ hmember)

end Backend
end Gen2
