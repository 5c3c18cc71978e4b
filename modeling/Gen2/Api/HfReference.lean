import Gen2.Api.Hf
import Gen2.Lib.Results
import Mathlib.Data.List.GetD
import Mathlib.Data.List.Infix

/-!
# References, and what a refusal advises

The `hf:` grammar of `api/hf.rs`, and the order in which `choose_gguf` picks a file.  The two meet
in the tags that a refusal lists: a reader takes one of them for the next reference.

* `parseReference_tag`: a tag that the grammar allows, behind a repository that it allows, is read
  as that tag; `tagChars_of_parse`: no other is.
* `hasTag_quantOf`: a file carries its own tag, whichever way its name is split.
* `chooseGguf_perm`: the order of the listing does not matter.
* `documented_iff`: the choice keeps to its documented order, and the tags of a refusal can be asked
  for exactly where the tags of the candidates are of the characters that the grammar allows.
-/

namespace Gen2
namespace Hf

open Lib List

/-! ## The grammar -/

/-- `HfError::InvalidReference`. -/
structure InvalidReference where
  reference : Text
  reason : String
  deriving DecidableEq

/-- `Parsed`. -/
structure Parsed where
  repo : Text
  quant : Option Text
  file : Option Text
  deriving DecidableEq

/-- `split_once`. -/
def splitOnce (sep : Char) (t : Text) : Option (Text × Text) :=
  if t.contains sep then
    some (t.takeWhile (· ≠ sep), (t.dropWhile (· ≠ sep)).drop 1)
  else none

/-- `splitn(3, '/')`. -/
def splitThree (t : Text) : Text × Option Text × Option Text :=
  match splitOnce '/' t with
  | none => (t, none, none)
  | some (first, rest) =>
    match splitOnce '/' rest with
    | none => (first, some rest, none)
    | some (second, rest) => (first, some second, some rest)

/-- The characters of a name, and of a tag. -/
def nameChar (c : Char) : Bool := c.isAlphanum || c == '-' || c == '_' || c == '.'

/-- `check_repo`. -/
def checkRepo (reference repo : Text) : Except InvalidReference Unit :=
  match splitOnce '/' repo with
  | none => .error ⟨reference, "the repo must be `owner/name`"⟩
  | some (owner, name) =>
    if owner.isEmpty || name.isEmpty then .error ⟨reference, "the repo must be `owner/name`"⟩
    else if name.contains '/' then
      .error ⟨reference, "the repo must be `owner/name` — a file in it goes after a colon"⟩
    else if !owner.all nameChar || !name.all nameChar then
      .error ⟨reference, "repo names use letters, digits, `-`, `_` and `.` only"⟩
    else .ok ()

/-- `check_quant`. -/
def checkQuant (reference quant : Text) : Except InvalidReference Unit :=
  if !quant.all nameChar then
    .error ⟨reference, "a quantization tag uses letters, digits, `-`, `_` and `.` only"⟩
  else .ok ()

/-- `check_file`. -/
def checkFile (reference file : Text) : Except InvalidReference Unit :=
  if ['/'].isPrefixOf file ||
      (file.splitOn '/').any fun seg => seg.isEmpty || seg == "..".toList then
    .error ⟨reference, "a file is a path within the repo, without `..` or a leading `/`"⟩
  else if file.any isWhitespace then
    .error ⟨reference, "a file name cannot contain whitespace"⟩
  else .ok ()

/-- The name of a `.gguf`, in any case. -/
def endsGguf (t : Text) : Bool := ".gguf".toList.isSuffixOf (lower t)

/-- The file that a URL names. -/
def urlFile (reference : Text) (tail : Option Text) : Except InvalidReference (Option Text) :=
  match tail with
  | none | some [] => .ok none
  | some tail =>
    match splitThree tail with
    | (first, some _, some file) =>
      if first == "resolve".toList || first == "blob".toList then
        if !endsGguf file then .error ⟨reference, "the URL names a file that is not a .gguf"⟩
        else do
          checkFile reference file
          return some file
      else if first == "tree".toList then .ok none
      else
        .error ⟨reference,
          "a URL is accepted only as the repo page or a `resolve`/`blob` file link"⟩
    | (first, _, _) =>
      if first == "tree".toList then .ok none
      else
        .error ⟨reference,
          "a URL is accepted only as the repo page or a `resolve`/`blob` file link"⟩

/-- `parse_url_path`. -/
def parseUrlPath (reference rest : Text) : Except InvalidReference Parsed := do
  let rest := rest.takeWhile fun c => c != '?' && c != '#'
  let rest := (rest.reverse.dropWhile (· == '/')).reverse
  let (owner, name, tail) := splitThree rest
  let repo := owner ++ ['/'] ++ name.getD []
  checkRepo reference repo
  let file ← urlFile reference tail
  return ⟨repo, none, file⟩

/-- What a suffix means: a tag, or a file. -/
def parseSuffix (reference : Text) (suffix : Option Text) :
    Except InvalidReference (Option Text × Option Text) :=
  match suffix with
  | none => .ok (none, none)
  | some [] =>
    .error ⟨reference, "nothing after the colon; drop it, or name a quantization or a .gguf file"⟩
  | some s =>
    if endsGguf s then do
      checkFile reference s
      return (none, some s)
    else do
      checkQuant reference s
      return (some s, none)

/-- What follows the scheme of a reference. -/
def parseBody (reference body : Text) : Except InvalidReference Parsed :=
  if body.isEmpty then .error ⟨reference, "nothing after `hf:`"⟩
  else do
    let (repo, suffix) :=
      match splitOnce ':' body with
      | some (repo, suffix) => (repo, some suffix)
      | none => (body, none)
    checkRepo reference repo
    let (quant, file) ← parseSuffix reference suffix
    return ⟨repo, quant, file⟩

/-- `parse_reference`. -/
def parseReference (reference : Text) : Except InvalidReference Parsed :=
  if trim reference ≠ reference then .error ⟨reference, "leading or trailing whitespace"⟩
  else
    match ((stripPrefix reference "https://huggingface.co/".toList).or
        (stripPrefix reference "http://huggingface.co/".toList)).or
        (stripPrefix reference "https://hf.co/".toList) with
    | some rest => parseUrlPath reference rest
    | none =>
      match ((stripPrefix reference "hf://".toList).or (stripPrefix reference "hf:".toList)).or
          (stripPrefix reference "hf.co/".toList) with
      | none => .error ⟨reference, "it does not start with `hf:`"⟩
      | some body => parseBody reference body

example : parseReference "hf:a/b:Q8_0".toList =
    .ok ⟨"a/b".toList, some "Q8_0".toList, none⟩ := by rfl

/-! ## What the grammar allows -/

variable {t : Text}

theorem splitOnce_append {sep : Char} {rest : Text} (h : sep ∉ t) :
    splitOnce sep (t ++ sep :: rest) = some (t, rest) := by
  have hcontains : (t ++ sep :: rest).contains sep = true := by
    rw [contains_iff_mem]
    exact mem_append_right _ mem_cons_self
  have hne : ∀ c ∈ t, decide (c ≠ sep) = true := by
    intro c hc
    exact decide_eq_true fun heq => h (heq ▸ hc)
  rw [splitOnce, if_pos hcontains, takeWhile_append_of_pos hne,
    dropWhile_append_of_pos hne]
  simp

/-- What `split_once` finds. -/
theorem eq_of_splitOnce {sep : Char} {first rest : Text}
    (h : splitOnce sep t = some (first, rest)) : t = first ++ sep :: rest := by
  by_cases hmem : sep ∈ t
  · obtain ⟨before, after, rfl, hbefore⟩ := eq_append_cons_of_mem hmem
    rw [splitOnce_append hbefore] at h
    cases h
    rfl
  · rw [splitOnce, if_neg (by rw [contains_iff_mem]; exact hmem)] at h
    cases h

/-- A repository that the grammar allows. -/
def ValidRepo (repo : Text) : Prop := checkRepo [] repo = .ok ()

variable {repo : Text}

theorem ValidRepo.check (h : ValidRepo repo) (reference : Text) :
    checkRepo reference repo = .ok () := by
  simp only [ValidRepo, checkRepo] at h ⊢
  split
  · rename_i hsplit
    rw [hsplit] at h
    cases h
  · rename_i owner name hsplit
    rw [hsplit] at h
    dsimp only at h
    split_ifs at h ⊢
    rfl

/-- Its characters. -/
theorem ValidRepo.chars (h : ValidRepo repo) :
    ∃ c rest, repo = c :: rest ∧ nameChar c = true ∧
      ∀ c ∈ repo, nameChar c = true ∨ c = '/' := by
  simp only [ValidRepo, checkRepo] at h
  split at h
  · cases h
  rename_i owner name hsplit
  split_ifs at h with hempty hslash hchars
  simp only [Bool.or_eq_true, List.isEmpty_iff, not_or] at hempty
  simp only [Bool.or_eq_true, Bool.not_eq_true', not_or, Bool.not_eq_false] at hchars
  have howner := all_eq_true.1 hchars.1
  have hname := all_eq_true.1 hchars.2
  obtain ⟨c, rest, rfl⟩ := List.exists_cons_of_ne_nil hempty.1
  rw [eq_of_splitOnce hsplit]
  refine ⟨c, rest ++ '/' :: name, rfl, howner c mem_cons_self, fun c' hc' => ?_⟩
  rcases mem_append.1 hc' with hc' | hc'
  · exact .inl (howner c' hc')
  · rcases mem_cons.1 hc' with rfl | hc'
    · exact .inr rfl
    · exact .inl (hname c' hc')

theorem nameChar_toNat {c : Char} (h : nameChar c = true) :
    0x2d ≤ c.toNat ∧ c.toNat ≤ 0x7a := by
  simp only [nameChar, Bool.or_eq_true, beq_iff_eq] at h
  rcases h with ((h | rfl) | rfl) | rfl
  · exact (toNat_of_isAlphanum h).imp_left (Nat.le_trans (by decide))
  all_goals decide

theorem nameChar_not_whitespace {c : Char} (h : nameChar c = true) : isWhitespace c = false := by
  obtain ⟨hlow, hhigh⟩ := nameChar_toNat h
  simp only [isWhitespace, Bool.or_eq_false_iff, Bool.and_eq_false_iff, decide_eq_false_iff_not,
    beq_eq_false_iff_ne]
  omega

/-- Nothing is trimmed off a text that begins and ends with other characters. -/
theorem trim_eq_self {first last : Char} {rest front : Text} (hfirst : t = first :: rest)
    (hlast : t = front ++ [last]) (hf : isWhitespace first = false)
    (hl : isWhitespace last = false) : trim t = t := by
  have hstart : t.dropWhile isWhitespace = t := by
    rw [hfirst, dropWhile_cons_of_neg (by rw [hf]; exact Bool.false_ne_true)]
  rw [trim, hstart, trimEnd, hlast, reverse_append, reverse_singleton,
    singleton_append, dropWhile_cons_of_neg (by rw [hl]; exact Bool.false_ne_true),
    reverse_cons, reverse_reverse]

variable {tag : Text}

/-- **A tag of the allowed characters is read as that tag.** -/
theorem parseReference_tag (hrepo : ValidRepo repo) (htag : tag ≠ [])
    (hchars : tag.all nameChar = true) (hgguf : endsGguf tag = false) :
    parseReference ("hf:".toList ++ repo ++ ':' :: tag) = .ok ⟨repo, some tag, none⟩ := by
  obtain ⟨c, rest, hcons, hc, hall⟩ := hrepo.chars
  obtain ⟨front, last, hlast⟩ : ∃ front last, tag = front ++ [last] :=
    ⟨_, _, (dropLast_append_getLast htag).symm⟩
  have hcolon : ':' ∉ repo := by
    intro hmem
    rcases hall ':' hmem with h | h <;> exact absurd h (by decide)
  have htrim : trim ("hf:".toList ++ repo ++ ':' :: tag) = "hf:".toList ++ repo ++ ':' :: tag := by
    have hstart : "hf:".toList ++ repo ++ ':' :: tag =
        'h' :: ('f' :: ':' :: repo ++ ':' :: tag) := rfl
    have hend : "hf:".toList ++ repo ++ ':' :: tag =
        ("hf:".toList ++ repo ++ ':' :: front) ++ [last] := by
      rw [hlast]
      simp
    refine trim_eq_self hstart hend (by decide) ?_
    · refine nameChar_not_whitespace (all_eq_true.1 hchars last ?_)
      rw [hlast]
      exact mem_append_right _ (mem_singleton_self _)
  have hbody : parseBody ("hf:".toList ++ repo ++ ':' :: tag) (repo ++ ':' :: tag) =
      .ok ⟨repo, some tag, none⟩ := by
    have hempty : ¬ ((repo ++ ':' :: tag).isEmpty = true) := by simp
    obtain ⟨d, tail, rfl⟩ := exists_cons_of_ne_nil htag
    rw [parseBody, if_neg hempty, splitOnce_append hcolon]
    simp only [hrepo.check, parseSuffix, hgguf, checkQuant, hchars, Bool.not_true,
      Bool.false_eq_true, if_false]
    rfl
  have hstrip (start : Text) (h : start.isPrefixOf ("hf:".toList ++ repo ++ ':' :: tag) = false) :
      stripPrefix ("hf:".toList ++ repo ++ ':' :: tag) start = none := by
    rw [stripPrefix, h]
    rfl
  have hslashes : "hf://".toList.isPrefixOf ("hf:".toList ++ repo ++ ':' :: tag) = false := by
    have hslash : ('/' == c) = false := beq_false_of_ne fun h => absurd (h ▸ hc) (by decide)
    rw [hcons]
    change (('/' == c) && _) = false
    rw [hslash, Bool.false_and]
  rw [parseReference, if_neg (by rw [htrim]; exact not_not.2 rfl)]
  rw [hstrip "https://huggingface.co/".toList rfl, hstrip "http://huggingface.co/".toList rfl,
    hstrip "https://hf.co/".toList rfl, hstrip "hf://".toList hslashes]
  exact hbody

theorem tagChars_of_parseSuffix {reference : Text} {suffix file : Option Text}
    (h : parseSuffix reference suffix = .ok (some tag, file)) : tag.all nameChar = true := by
  simp only [parseSuffix] at h
  split at h
  · cases h
  · cases h
  split at h
  · obtain ⟨_, -, h⟩ := bind_eq_ok.1 h
    cases h
  obtain ⟨_, hcheck, h⟩ := bind_eq_ok.1 h
  cases h
  rw [checkQuant] at hcheck
  split at hcheck
  · cases hcheck
  · rename_i hchars
    simpa using hchars

/-- No other tag is. -/
theorem tagChars_of_parse {reference : Text} {file : Option Text}
    (h : parseReference reference = .ok ⟨repo, some tag, file⟩) : tag.all nameChar = true := by
  rw [parseReference] at h
  split at h
  · cases h
  split at h
  · -- a URL names no tag
    obtain ⟨_, -, h⟩ := bind_eq_ok.1 h
    obtain ⟨_, -, h⟩ := bind_eq_ok.1 h
    cases h
  · split at h
    · cases h
    rw [parseBody] at h
    split at h
    · cases h
    · obtain ⟨_, -, h⟩ := bind_eq_ok.1 h
      obtain ⟨⟨quant, file'⟩, hsuffix, h⟩ := bind_eq_ok.1 h
      cases h
      exact tagChars_of_parseSuffix hsuffix

/-! ## The tag of a file -/

/-- What `parts` splits at. -/
def isBreak (c : Char) : Bool := c == '-' || c == '.'

theorem not_break_of_mem_splitOnP {part : Text} (h : part ∈ t.splitOnP isBreak) :
    ∀ c ∈ part, isBreak c = false := by
  induction t generalizing part with
  | nil =>
    rw [splitOnP_nil] at h
    rw [mem_singleton.1 h]
    exact fun c hc => by cases hc
  | cons d t ih =>
    rw [splitOnP_cons_eq_if_modifyHead] at h
    split at h
    · rcases mem_cons.1 h with rfl | h
      · exact fun c hc => by cases hc
      · exact ih h
    rename_i hd
    cases hsplit : t.splitOnP isBreak with
    | nil => exact absurd hsplit (splitOnP_ne_nil _ _)
    | cons first rest =>
      rw [hsplit] at h ih
      rcases mem_cons.1 h with rfl | h
      · intro c hc
        rcases mem_cons.1 hc with rfl | hc
        · exact Bool.eq_false_iff.2 hd
        · exact ih mem_cons_self c hc
      · exact ih (mem_cons_of_mem first h)

theorem of_mem_parts {part : Text} (h : part ∈ parts t) :
    part ≠ [] ∧ ∀ c ∈ part, isBreak c = false := by
  obtain ⟨hmem, hne⟩ := mem_filter.1 h
  exact ⟨by simpa using hne, not_break_of_mem_splitOnP hmem⟩

theorem parts_single (hne : t ≠ []) (h : ∀ c ∈ t, isBreak c = false) : parts t = [t] := by
  change (t.splitOnP isBreak).filter _ = _
  rw [splitOnP_eq_singleton h]
  exact filter_cons_of_pos (by simpa using hne)

theorem parts_pair {first second : Text} (hfirst : first ≠ [])
    (hbreak : ∀ c ∈ first, isBreak c = false) (hsecond : second ≠ [])
    (hbreak' : ∀ c ∈ second, isBreak c = false) :
    parts (first ++ ['-'] ++ second) = [first, second] := by
  have hsplit : (first ++ '-' :: second).splitOnP isBreak = first :: second.splitOnP isBreak :=
    splitOnP_append_cons_of_forall_mem hbreak '-' rfl second
  have hrest := parts_single hsecond hbreak'
  rw [append_assoc, singleton_append]
  change ((first ++ '-' :: second).splitOnP isBreak).filter _ = _
  rw [hsplit, filter_cons_of_pos (by simp [hfirst])]
  exact congrArg _ hrest

/-- Where the tag of a file stands among the parts of its name. -/
theorem quantOf_stands [RegexCrate] {name : Text} (h : quantOf name = some tag) :
    ∃ before part after, part ≠ [] ∧ (∀ c ∈ part, isBreak c = false) ∧
      ((parts (stemOf name) = before ++ part :: after ∧ tag = part) ∨
        ∃ ud, ud ≠ [] ∧ (∀ c ∈ ud, isBreak c = false) ∧ lower ud = "ud".toList ∧
          parts (stemOf name) = before ++ ud :: part :: after ∧ tag = ud ++ ['-'] ++ part) := by
  have hparts : ∀ part ∈ parts (stemOf name), part ≠ [] ∧ ∀ c ∈ part, isBreak c = false :=
    fun _ hpart => of_mem_parts hpart
  -- the equation of the definition is not there to rewrite with: its literals are too much for it
  delta quantOf at h
  dsimp only at h
  generalize parts (stemOf name) = raw at h hparts ⊢
  cases hfind : (range raw.length).reverse.find? fun i =>
      looksLikeQuant (lower (raw.getD i [])) with
  | none =>
    rw [hfind] at h
    cases h
  | some i =>
    rw [hfind] at h
    dsimp only at h
    have hlt : i < raw.length :=
      mem_range.1 (mem_reverse.1 (mem_of_find?_eq_some hfind))
    have hget : raw.getD i [] = raw[i] := getD_eq_getElem _ _ hlt
    have hrest : raw.drop i = raw[i] :: raw.drop (i + 1) := (cons_getElem_drop_succ).symm
    obtain ⟨hne, hbreak⟩ := hparts _ (getElem_mem hlt)
    split at h
    · rename_i hud
      obtain ⟨hpos, hud⟩ := hud
      have hlt' : i - 1 < raw.length := by omega
      have hget' : raw.getD (i - 1) [] = raw[i - 1] := getD_eq_getElem _ _ hlt'
      have hrest' : raw.drop (i - 1) = raw[i - 1] :: raw.drop i := by
        rw [← cons_getElem_drop_succ (h := hlt'), Nat.sub_add_cancel hpos]
      obtain ⟨hneUd, hbreakUd⟩ := hparts _ (getElem_mem hlt')
      rw [hget', hget] at h
      rw [hget'] at hud
      refine ⟨raw.take (i - 1), raw[i], raw.drop (i + 1), hne, hbreak,
        .inr ⟨raw[i - 1], hneUd, hbreakUd, hud, ?_, (Option.some.inj h).symm⟩⟩
      rw [← hrest, ← hrest', take_append_drop]
    · rw [hget] at h
      refine ⟨raw.take i, raw[i], raw.drop (i + 1), hne, hbreak,
        .inl ⟨?_, (Option.some.inj h).symm⟩⟩
      rw [← hrest, take_append_drop]

theorem tails_any_of_append (want before after : List Text) :
    ((before ++ (want ++ after)).tails.any fun window => want.isPrefixOf window) = true := by
  refine any_eq_true.2 ⟨want ++ after, ?_, ?_⟩
  · exact (mem_tails _ _).2 (suffix_append _ _)
  · rw [ isPrefixOf_iff_prefix]
    exact prefix_append _ _

/-- **A file carries its own tag.** -/
theorem hasTag_quantOf [RegexCrate] {name : Text} (h : quantOf name = some tag) :
    hasTag name tag = true := by
  obtain ⟨before, part, after, hne, hbreak, ⟨hparts, rfl⟩ |
    ⟨ud, hud, hudBreak, -, hparts, rfl⟩⟩ := quantOf_stands h
  · rw [hasTag, parts_single hne hbreak, segments, hparts]
    have hany := tails_any_of_append [lower tag] (before.map lower) (after.map lower)
    simpa using hany
  · rw [hasTag, parts_pair hud hudBreak hne hbreak, segments, hparts]
    have hany := tails_any_of_append [lower ud, lower part] (before.map lower) (after.map lower)
    simpa using hany

/-! ## What a refusal lists -/

theorem toLower_of_not {c : Char} (h : ¬ (c.val ≥ 'A'.val ∧ c.val ≤ 'Z'.val)) : c.toLower = c :=
  dif_neg h

theorem nameChar_toLower (c : Char) : nameChar c.toLower = nameChar c := by
  have hupper : ∀ n ∈ range' 65 26,
      nameChar (Char.ofNat n).toLower = nameChar (Char.ofNat n) := by decide
  by_cases h : c.val ≥ 'A'.val ∧ c.val ≤ 'Z'.val
  · have hrange : c.toNat ∈ range' 65 26 :=
      mem_range'_1.2 ⟨h.1, Nat.lt_succ_of_le h.2⟩
    have hc := hupper c.toNat hrange
    rwa [Char.ofNat_toNat] at hc
  · rw [toLower_of_not h]

theorem all_nameChar_of_lower_eq {a b : Text} (h : lower a = lower b)
    (ha : a.all nameChar = true) : b.all nameChar = true := by
  have hmap (t : Text) : (lower t).all nameChar = t.all nameChar := by
    rw [lower, all_map]
    congr 1
    funext c
    exact nameChar_toLower c
  rw [← hmap, ← h, hmap, ha]

theorem eq_dot_of_toLower {c : Char} (h : c.toLower = '.') : c = '.' := by
  have hupper : ∀ n ∈ range' 65 26, (Char.ofNat n).toLower ≠ '.' := by decide
  by_cases hrange : c.val ≥ 'A'.val ∧ c.val ≤ 'Z'.val
  · have hmem : c.toNat ∈ range' 65 26 :=
      mem_range'_1.2 ⟨hrange.1, Nat.lt_succ_of_le hrange.2⟩
    have hno := hupper c.toNat hmem
    rw [Char.ofNat_toNat] at hno
    exact absurd h hno
  · rwa [toLower_of_not hrange] at h

/-- A text without a dot is not the name of a `.gguf`. -/
theorem endsGguf_of_not_mem (h : '.' ∉ t) : endsGguf t = false := by
  rw [endsGguf, Bool.eq_false_iff]
  intro hsuffix
  have hmem : '.' ∈ lower t := (isSuffixOf_iff_suffix.1 hsuffix).subset (by decide)
  obtain ⟨c, hc, hlower⟩ := mem_map.1 hmem
  exact h (eq_dot_of_toLower hlower ▸ hc)

/-- The tag of a file is a text, and has no dot in it. -/
theorem quantOf_chars [RegexCrate] {name : Text} (h : quantOf name = some tag) :
    tag ≠ [] ∧ '.' ∉ tag := by
  have hdot {t : Text} (ht : ∀ c ∈ t, isBreak c = false) : '.' ∉ t :=
    fun hmem => absurd (ht '.' hmem) (by decide)
  obtain ⟨-, part, -, hne, hbreak, ⟨-, rfl⟩ | ⟨ud, -, hudBreak, -, -, rfl⟩⟩ := quantOf_stands h
  · exact ⟨hne, hdot hbreak⟩
  refine ⟨by simp, fun hmem => ?_⟩
  rcases mem_append.1 hmem with hmem | hmem
  · rcases mem_append.1 hmem with hmem | hmem
    · exact hdot hudBreak hmem
    · exact absurd (mem_singleton.1 hmem) (by decide)
  · exact hdot hbreak hmem

/-! ## The documented order -/

theorem exists_head_sortOn {l : List GgufFile} (h : l ≠ []) :
    ∃ f, (sortOn sizeKey l).head? = some f := by
  cases hhead : (sortOn sizeKey l).head? with
  | some f => exact ⟨f, rfl⟩
  | none =>
    rw [head?_eq_none_iff, sortOn_eq_nil] at hhead
    exact absurd hhead h

section
variable [RegexCrate]

/-- The candidates of some files. -/
def candidates (files : List GgufFile) : List GgufFile := files.filter fun f => isCandidate f.name

/-- The candidates tagged `Q4`-anything. -/
def q4Candidates (files : List GgufFile) : List GgufFile :=
  (candidates files).filter fun f => ((quantOf f.name).map fun t => isQ4 (lower t)).getD false

/-- The smallest of some files, one of unknown size last, and then by name. -/
def Smallest (files : List GgufFile) (f : GgufFile) : Prop :=
  f ∈ files ∧ ∀ g ∈ files, sizeKey f ≤ sizeKey g

/-- What `choose_gguf` is documented to do. -/
structure Documented (files : List GgufFile) (quant : Option Text) : Prop where
  /-- The order of the listing does not matter. -/
  order : ∀ files' : List GgufFile, files'.Perm files →
    chooseGguf files' quant = chooseGguf files quant
  /-- What is picked is a listed file, and neither a projector nor a later shard. -/
  picks : ∀ name, chooseGguf files quant = .exact name ∨ chooseGguf files quant = .fallback name →
    (∃ f ∈ files, f.name = name) ∧ isProjector name = false ∧
      ∀ stem number, shard (baseName name) = some (stem, number) → number = "00001".toList
  tagged : tagged quant files ≠ [] →
    ∃ f, Smallest (tagged quant files) f ∧ chooseGguf files quant = .exact f.name
  q4 : quant = none → Hf.tagged quant files = [] → q4Candidates files ≠ [] →
    ∃ f, Smallest (q4Candidates files) f ∧ chooseGguf files quant = .fallback f.name
  smallest : quant = none → Hf.tagged quant files = [] → q4Candidates files = [] →
    candidates files ≠ [] →
    ∃ f, Smallest (candidates files) f ∧ chooseGguf files quant = .fallback f.name
  /-- A listed tag can be asked for, and selects a file that carries it. -/
  advice : ∀ available, chooseGguf files quant = .quantMissing available → ∀ tag ∈ available,
    (∀ repo, ValidRepo repo →
      parseReference ("hf:".toList ++ repo ++ ':' :: tag) = .ok ⟨repo, some tag, none⟩) ∧
    ∃ f ∈ files, chooseGguf files (some tag) = .exact f.name ∧ hasTag f.name tag = true

/-- Where a tag is asked for that no candidate carries, those of the candidates are of the
characters that the grammar allows. -/
def TagsAllowed (files : List GgufFile) (quant : Option Text) : Prop :=
  quant.isSome = true → tagged quant files = [] →
    ∀ f ∈ candidates files, ∀ tag, quantOf f.name = some tag → tag.all nameChar = true

/-- The candidates, by name. -/
def sortedCandidates (files : List GgufFile) : List GgufFile :=
  sortOn (fun f => f.name) (candidates files)

variable {files : List GgufFile} {f : GgufFile}

theorem mem_sortedCandidates :
    f ∈ sortedCandidates files ↔ f ∈ candidates files := mem_sortOn

theorem chooseGguf_perm (L : Listing) (hperm : files.Perm L.files) (quant : Option Text) :
    chooseGguf files quant = chooseGguf L.files quant := by
  have hsorted : sortedCandidates files = sortedCandidates L.files :=
    sortOn_perm
      (fun a ha b hb => L.name_inj (mem_of_mem_filter ha) (mem_of_mem_filter hb))
      (hperm.filter _)
  rw [sortedCandidates, sortedCandidates, candidates, candidates] at hsorted
  rw [chooseGguf, chooseGguf, hsorted]

/-- The head of a part of the sorted candidates is the smallest of it. -/
theorem smallest_of_head {part : List GgufFile} {p : GgufFile → Bool}
    (hpart : ∀ g, g ∈ part ↔ g ∈ candidates files ∧ p g = true)
    (h : (sortOn sizeKey ((sortedCandidates files).filter p)).head? = some f) :
    Smallest part f := by
  obtain ⟨hmem, hleast⟩ := head_sortOn h
  have hiff (g : GgufFile) : g ∈ (sortedCandidates files).filter p ↔ g ∈ part := by
    rw [mem_filter, mem_sortedCandidates, hpart]
  exact ⟨(hiff f).1 hmem, fun g hg => hleast g ((hiff g).2 hg)⟩

variable {quant : Option Text}

theorem chooseGguf_of_tagged (L : Listing) (h : tagged quant L.files ≠ []) :
    ∃ f, Smallest (tagged quant L.files) f ∧ chooseGguf L.files quant = .exact f.name := by
  obtain ⟨f, hf⟩ := exists_head_sortOn h
  refine ⟨f, head_sortOn hf, (chooseGguf_tagged L (List.Subset.refl _) quant f.name).2 ?_⟩
  rw [hf, Option.map_some]

theorem mem_tagged :
    f ∈ tagged quant files ↔
      f ∈ candidates files ∧ hasTag f.name (quant.getD defaultQuant) = true := by
  simp only [tagged, candidates, mem_filter, isTagged, Bool.and_eq_true, and_assoc]

/-- Without a candidate that carries the tag. -/
theorem chooseGguf_untagged (htagged : tagged quant files = []) (hsome : candidates files ≠ []) :
    chooseGguf files quant =
      if quant.isSome then
        .quantMissing ((sortOn lower ((sortedCandidates files).filterMap fun f =>
          quantOf f.name)).destutter fun a b => lower a ≠ lower b)
      else
        match (sortOn sizeKey ((sortedCandidates files).filter fun f =>
            ((quantOf f.name).map fun t => isQ4 (lower t)).getD false)).head? with
        | some f => .fallback f.name
        | none =>
          match (sortOn sizeKey (sortedCandidates files)).head? with
          | some f => .fallback f.name
          | none => .noGguf := by
  have hempty : ¬ ((sortedCandidates files).isEmpty = true) := by
    rw [List.isEmpty_iff, sortedCandidates, sortOn_eq_nil]
    exact hsome
  have hnone : (sortedCandidates files).filter
      (fun f => hasTag f.name (quant.getD defaultQuant)) = [] := by
    rw [filter_eq_nil_iff]
    intro f hf htag
    have hmem := mem_tagged.2 ⟨mem_sortedCandidates.1 hf, htag⟩
    rw [htagged] at hmem
    cases hmem
  rw [sortedCandidates, candidates] at hempty hnone
  rw [chooseGguf]
  dsimp only
  rw [if_neg hempty, hnone]
  rfl

theorem chooseGguf_q4 (htagged : tagged none files = []) (hq4 : q4Candidates files ≠ []) :
    ∃ f, Smallest (q4Candidates files) f ∧ chooseGguf files none = .fallback f.name := by
  have hsome : candidates files ≠ [] := by
    intro hnil
    rw [q4Candidates, hnil] at hq4
    exact hq4 rfl
  have hmem (g : GgufFile) : g ∈ q4Candidates files ↔ g ∈ candidates files ∧
      ((quantOf g.name).map fun t => isQ4 (lower t)).getD false = true := mem_filter
  have hne : ((sortedCandidates files).filter fun f =>
      ((quantOf f.name).map fun t => isQ4 (lower t)).getD false) ≠ [] := by
    obtain ⟨g, hg⟩ := exists_mem_of_ne_nil _ hq4
    obtain ⟨hg, hg4⟩ := (hmem g).1 hg
    exact ne_nil_of_mem (mem_filter.2 ⟨mem_sortedCandidates.2 hg, hg4⟩)
  obtain ⟨f, hf⟩ := exists_head_sortOn hne
  refine ⟨f, smallest_of_head hmem hf, ?_⟩
  rw [chooseGguf_untagged htagged hsome, hf]
  rfl

theorem chooseGguf_smallest (htagged : tagged none files = []) (hq4 : q4Candidates files = [])
    (hsome : candidates files ≠ []) :
    ∃ f, Smallest (candidates files) f ∧ chooseGguf files none = .fallback f.name := by
  have hnone : ((sortedCandidates files).filter fun f =>
      ((quantOf f.name).map fun t => isQ4 (lower t)).getD false) = [] := by
    rw [filter_eq_nil_iff]
    intro g hg hg4
    have hmem : g ∈ q4Candidates files := mem_filter.2 ⟨mem_sortedCandidates.1 hg, hg4⟩
    rw [hq4] at hmem
    cases hmem
  have hsorted : sortedCandidates files ≠ [] := by
    rw [sortedCandidates, Ne, sortOn_eq_nil]
    exact hsome
  obtain ⟨f, hf⟩ := exists_head_sortOn hsorted
  obtain ⟨hmem, hleast⟩ := head_sortOn hf
  refine ⟨f, ⟨mem_sortedCandidates.1 hmem, fun g hg => hleast g (mem_sortedCandidates.2 hg)⟩, ?_⟩
  rw [chooseGguf_untagged htagged hsome, hnone, hf]
  rfl

/-- What is picked is a candidate. -/
theorem mem_candidates_of_picked (L : Listing) {name : Text}
    (h : chooseGguf L.files quant = .exact name ∨ chooseGguf L.files quant = .fallback name) :
    ∃ f ∈ candidates L.files, f.name = name := by
  by_cases htagged : tagged quant L.files = []
  · by_cases hsome : candidates L.files = []
    · rw [chooseGguf, if_pos (by rw [List.isEmpty_iff, sortOn_eq_nil]; exact hsome)] at h
      rcases h with h | h <;> cases h
    cases quant with
    | some tag =>
      rw [chooseGguf_untagged htagged hsome] at h
      rcases h with h | h <;> cases h
    | none =>
      by_cases hq4 : q4Candidates L.files = []
      · obtain ⟨f, hf, hchoice⟩ := chooseGguf_smallest htagged hq4 hsome
        rw [hchoice] at h
        rcases h with h | h <;> cases h
        exact ⟨f, hf.1, rfl⟩
      · obtain ⟨f, hf, hchoice⟩ := chooseGguf_q4 htagged hq4
        rw [hchoice] at h
        rcases h with h | h <;> cases h
        exact ⟨f, List.mem_of_mem_filter hf.1, rfl⟩
  · obtain ⟨f, hf, hchoice⟩ := chooseGguf_of_tagged L htagged
    rw [hchoice] at h
    rcases h with h | h <;> cases h
    exact ⟨f, (mem_tagged.1 hf.1).1, rfl⟩

theorem not_projector_of_candidate {name : Text} (h : isCandidate name = true) :
    isProjector name = false := by
  rw [isCandidate] at h
  rw [isProjector]
  split at h
  · cases h
  · rename_i hname
    rw [Bool.or_eq_true, not_or] at hname
    rw [Bool.eq_false_iff.2 hname.2, Bool.false_and]

theorem first_shard_of_candidate {name stem number : Text} (h : isCandidate name = true)
    (hshard : shard (baseName name) = some (stem, number)) : number = "00001".toList := by
  rw [isCandidate] at h
  rw [hshard] at h
  split at h
  · cases h
  · exact beq_iff_eq.1 h

/-- A refusal: a tag was asked for, none of the candidates carries it, and it lists theirs. -/
theorem missing_of_chooseGguf (L : Listing) {available : List Text}
    (h : chooseGguf L.files quant = .quantMissing available) :
    quant.isSome = true ∧ tagged quant L.files = [] ∧
      available = (sortOn lower ((sortedCandidates L.files).filterMap fun f =>
        quantOf f.name)).destutter fun a b => lower a ≠ lower b := by
  by_cases htagged : tagged quant L.files = []
  · by_cases hsome : candidates L.files = []
    · rw [chooseGguf, if_pos (by rw [List.isEmpty_iff, sortOn_eq_nil]; exact hsome)] at h
      cases h
    rw [chooseGguf_untagged htagged hsome] at h
    cases quant with
    | some tag =>
      cases h
      exact ⟨rfl, htagged, rfl⟩
    | none =>
      rw [if_neg (by decide)] at h
      split at h
      · cases h
      · split at h <;> cases h
  · obtain ⟨f, -, hchoice⟩ := chooseGguf_of_tagged L htagged
    rw [hchoice] at h
    cases h

theorem quantOf_of_listed {tag : Text}
    (h : tag ∈ (sortOn lower ((sortedCandidates files).filterMap fun f =>
      quantOf f.name)).destutter fun a b => lower a ≠ lower b) :
    ∃ f ∈ candidates files, quantOf f.name = some tag := by
  have hmem := mem_sortOn.1 ((destutter_sublist _ _).subset h)
  obtain ⟨f, hf, hquant⟩ := mem_filterMap.1 hmem
  exact ⟨f, mem_sortedCandidates.1 hf, hquant⟩

theorem listed_of_quantOf {tag : Text} (hf : f ∈ candidates files) (h : quantOf f.name = some tag) :
    ∃ listed ∈ (sortOn lower ((sortedCandidates files).filterMap fun f =>
      quantOf f.name)).destutter (fun a b => lower a ≠ lower b), lower listed = lower tag :=
  exists_mem_destutter lower
    (mem_sortOn.2 (mem_filterMap.2 ⟨f, mem_sortedCandidates.2 hf, h⟩))

/-- The tag of a candidate selects a file that carries it. -/
theorem selects_quantOf (L : Listing) {tag : Text} (hf : f ∈ candidates L.files)
    (h : quantOf f.name = some tag) :
    ∃ g ∈ L.files, chooseGguf L.files (some tag) = .exact g.name ∧ hasTag g.name tag = true := by
  have hne : tagged (some tag) L.files ≠ [] :=
    ne_nil_of_mem (mem_tagged.2 ⟨hf, hasTag_quantOf h⟩)
  obtain ⟨g, hg, hchoice⟩ := chooseGguf_of_tagged L hne
  obtain ⟨hcand, htag⟩ := mem_tagged.1 hg.1
  exact ⟨g, mem_of_mem_filter hcand, hchoice, htag⟩

/-- **The choice is as documented** exactly where the tags that a refusal lists are of the
characters that the grammar allows: for every listing, and every tag that is asked for, or none. -/
theorem documented_iff (L : Listing) (quant : Option Text) :
    Documented L.files quant ↔ TagsAllowed L.files quant := by
  constructor
  · intro hdoc hquant htagged f hf tag htag
    obtain ⟨listed, hlisted, hlower⟩ := listed_of_quantOf hf htag
    have hchoice := chooseGguf_untagged htagged (List.ne_nil_of_mem hf)
    rw [if_pos hquant] at hchoice
    obtain ⟨haccepted, -⟩ := hdoc.advice _ hchoice listed hlisted
    have hparsed := haccepted "a/b".toList (by rw [ValidRepo]; rfl)
    exact all_nameChar_of_lower_eq hlower (tagChars_of_parse hparsed)
  · intro hallowed
    refine ⟨fun files' hperm => chooseGguf_perm L hperm quant, fun name hpick => ?_,
      chooseGguf_of_tagged L, ?_, ?_, fun available hmissing tag hlisted => ?_⟩
    · obtain ⟨f, hf, rfl⟩ := mem_candidates_of_picked L hpick
      have hcand : isCandidate f.name = true := (List.mem_filter.1 hf).2
      exact ⟨⟨f, List.mem_of_mem_filter hf, rfl⟩, not_projector_of_candidate hcand,
        fun _ _ hshard => first_shard_of_candidate hcand hshard⟩
    · rintro rfl htagged hq4
      exact chooseGguf_q4 htagged hq4
    · rintro rfl htagged hq4 hsome
      exact chooseGguf_smallest htagged hq4 hsome
    obtain ⟨hquant, htagged, rfl⟩ := missing_of_chooseGguf L hmissing
    obtain ⟨f, hf, htag⟩ := quantOf_of_listed hlisted
    obtain ⟨hne, hdot⟩ := quantOf_chars htag
    exact ⟨fun repo hrepo => parseReference_tag hrepo hne
      (hallowed hquant htagged f hf tag htag) (endsGguf_of_not_mem hdot),
      selects_quantOf L hf htag⟩

end

/-- A repository whose only model file has a tag with a `+` in it. -/
def plusRepo : Listing := ⟨[⟨"m-Q4_K_M+x.gguf".toList, some 40⟩], by decide⟩

/-- The refusal of another tag lists that one, and the grammar refuses it. -/
theorem advice_refused :
    letI := asciiDigits
    chooseGguf plusRepo.files (some "Q8_0".toList) = .quantMissing ["Q4_K_M+x".toList] ∧
      parseReference "hf:a/b:Q4_K_M+x".toList = .error ⟨"hf:a/b:Q4_K_M+x".toList,
        "a quantization tag uses letters, digits, `-`, `_` and `.` only"⟩ ∧
      ¬ Documented plusRepo.files (some "Q8_0".toList) := by
  let := asciiDigits
  have hmissing : chooseGguf plusRepo.files (some "Q8_0".toList) =
      .quantMissing ["Q4_K_M+x".toList] := by rfl
  have hrefused : parseReference "hf:a/b:Q4_K_M+x".toList = .error ⟨"hf:a/b:Q4_K_M+x".toList,
      "a quantization tag uses letters, digits, `-`, `_` and `.` only"⟩ := by rfl
  refine ⟨hmissing, hrefused, fun hdoc => ?_⟩
  obtain ⟨haccepted, -⟩ := hdoc.advice _ hmissing _ (List.mem_singleton_self _)
  have hparsed := haccepted "a/b".toList (by rw [ValidRepo]; rfl)
  rw [show "hf:".toList ++ "a/b".toList ++ ':' :: "Q4_K_M+x".toList =
    "hf:a/b:Q4_K_M+x".toList from rfl, hrefused] at hparsed
  cases hparsed

end Hf
end Gen2
