import Gen2.Lib.Least
import Gen2.Types.Text
import Mathlib.Data.List.Destutter
import Mathlib.Data.List.Lex
import Mathlib.Data.Char

/-!
# Which file of a repository

`api/hf.rs`: a reference names a repository, and perhaps a quantization tag or a file; choosing
picks the model file and the projector out of what the repository holds.  The same rules run over
what the cache holds, where the Hub is not asked at all.

* The definitions follow the source: what is a candidate, what a tag matches, the order of
  preference.
* `chooseGguf_tagged` and `chooseMmproj_eq` say that both choices are the least element of a list
  under a key, so that `Lib.head_sortOn_part` says what becomes of them on a part of the list.
* `cache_agrees_iff` is the outcome: an answer out of the cache is the one the whole listing gives
  exactly when nothing that is listed and not cached comes before everything that is cached — among
  the files with the tag, and among the projectors.
-/

namespace Gen2
namespace Hf

open Lib List

/-- `DEFAULT_QUANT`. -/
def defaultQuant : Text := "Q4_K_M".toList

/-- `Mmproj`. -/
inductive Mmproj
  | auto
  | none
  | file (name : Text)

/-- `HfModel`, without the fields that only a download reads. -/
structure HfModel where
  /-- `owner/name`. -/
  repo : Text
  /-- A quantization tag to pick the file by; ignored when `file` is set. -/
  quant : Option Text
  /-- An exact file in the repo. -/
  file : Option Text
  mmproj : Mmproj

/-- `HfResolved`. -/
structure HfResolved where
  repo : Text
  file : Text
  mmproj : Option Text
  fromCache : Bool

/-- The errors of `HfError` that choosing gives. -/
inductive HfError
  | fileNotFound (repo file : Text)
  | quantNotFound (repo quant : Text) (available : List Text)
  | noGguf (repo : Text)

/-- `GgufFile`: a GGUF in a repo, as listed by the Hub or found in the cache. -/
structure GgufFile where
  name : Text
  size : Option Nat
  deriving DecidableEq

/-- `Choice`. -/
inductive Choice
  | exact (name : Text)
  | fallback (name : Text)
  | quantMissing (available : List Text)
  | noGguf
  deriving DecidableEq

/-- What the `regex` crate takes for `\d`: the decimal digits of Unicode. -/
class RegexCrate where
  isDigit : Char → Bool

/-- `u64::MAX`. -/
def unknownSize : Nat := 2 ^ 64 - 1

/-- What `by_size` compares: the size, then the name. -/
def sizeKey (f : GgufFile) : Nat ×ₗ Text := toLex (f.size.getD unknownSize, f.name)

/-- What the listing of a repository is: a file for each name. -/
structure Listing where
  files : List GgufFile
  distinct : (files.map fun f => f.name).Nodup

theorem Listing.name_inj (L : Listing) {a b : GgufFile} (ha : a ∈ L.files) (hb : b ∈ L.files)
    (h : a.name = b.name) : a = b :=
  inj_on_of_nodup_map L.distinct ha hb h

theorem Listing.sizeKey_inj (L : Listing) {a b : GgufFile} (ha : a ∈ L.files) (hb : b ∈ L.files)
    (h : sizeKey a = sizeKey b) : a = b :=
  L.name_inj ha hb (Prod.mk.inj (toLex.injective h)).2

/-- `str::to_ascii_lowercase`. -/
def lower (t : Text) : Text := t.map Char.toLower

/-- `name.rsplit('/').next()`. -/
def baseName (name : Text) : Text := (name.reverse.takeWhile (· ≠ '/')).reverse

/-- `Path::extension` is `gguf`, in any case. -/
def isGguf (name : Text) : Bool :=
  let base := baseName name
  let ext := (base.reverse.takeWhile (· ≠ '.')).reverse
  decide (ext.length + 1 < base.length) && lower ext == "gguf".toList

/-- `cached_gguf_files`: the GGUF files among those a snapshot holds, by name, each name once. -/
def cachedGgufFiles (held : List GgufFile) : List GgufFile :=
  (sortOn (fun f => f.name) (held.filter fun f => isGguf f.name)).destutter
    fun a b => a.name ≠ b.name

theorem cachedGgufFiles_subset (held : List GgufFile) : cachedGgufFiles held ⊆ held := by
  intro f hf
  have hf := (destutter_sublist _ _).subset hf
  exact mem_of_mem_filter (mem_sortOn.1 hf)

section
variable [RegexCrate]

/-! ## Names -/

/-- `SHARD`, `(?i)-(\d{5})-of-\d{5}\.gguf$`: what comes before the match, and its number.  A match
is twenty characters long and ends the name. -/
def shard (base : Text) : Option (Text × Text) :=
  let stem := base.take (base.length - 20)
  let tail := base.drop (base.length - 20)
  let number := (tail.drop 1).take 5
  if tail.length = 20 ∧ tail.take 1 = ['-'] ∧ number.all RegexCrate.isDigit ∧
      lower ((tail.drop 6).take 4) = "-of-".toList ∧
      ((tail.drop 10).take 5).all RegexCrate.isDigit ∧ lower (tail.drop 15) = ".gguf".toList then
    some (stem, number)
  else
    none

/-- `is_candidate`: a `.gguf` that is not a projector and not a later shard. -/
def isCandidate (name : Text) : Bool :=
  let base := baseName name
  let low := lower base
  if !".gguf".toList.isSuffixOf low || "mmproj".toList.isPrefixOf low then
    false
  else
    match shard base with
    | some (_, number) => number == "00001".toList
    | none => true

/-- The base name without its ending, and without a shard's number. -/
def stemOf (name : Text) : Text :=
  let base := baseName name
  match shard base with
  | some (stem, _) => stem
  | none =>
    ((stripSuffix base ".gguf".toList).or (stripSuffix base ".GGUF".toList)).getD base

/-- `split(['-', '.'])`, without the empty parts. -/
def parts (t : Text) : List Text :=
  (t.splitOnP fun c => c == '-' || c == '.').filter fun part => !part.isEmpty

/-- `segments`: the file's name as tag segments. -/
def segments (name : Text) : List Text := (parts (stemOf name)).map lower

/-- `has_tag`: whether the file's segments contain the tag's segments contiguously. -/
def hasTag (name tag : Text) : Bool :=
  let want := (parts tag).map lower
  if want.isEmpty then false
  else (segments name).tails.any fun window => want.isPrefixOf window

/-- `looks_like_quant`. -/
def looksLikeQuant (seg : Text) : Bool :=
  match (stripPrefix seg "iq".toList).or (stripPrefix seg "q".toList) with
  | some rest => (rest.head?.map Char.isDigit).getD false
  | none => ["f16", "f32", "bf16", "fp16", "fp32"].contains (String.ofList seg)

/-- `quant_of`: the tag a file carries, in the file's own casing. -/
def quantOf (name : Text) : Option Text :=
  let raw := parts (stemOf name)
  match (List.range raw.length).reverse.find? fun i => looksLikeQuant (lower (raw.getD i [])) with
  | none => none
  | some at_ =>
    let tag := raw.getD at_ []
    if 0 < at_ ∧ lower (raw.getD (at_ - 1) []) = "ud".toList then
      some (raw.getD (at_ - 1) [] ++ ['-'] ++ tag)
    else
      some tag

/-! ## Choosing -/

/-- A model candidate that carries the tag. -/
def isTagged (tag : Text) (f : GgufFile) : Bool := isCandidate f.name && hasTag f.name tag

/-- `trim_start_matches("ud-")`, then `starts_with("q4")`. -/
def isQ4 : Text → Bool
  | 'u' :: 'd' :: '-' :: rest => isQ4 rest
  | tag => "q4".toList.isPrefixOf tag

/-- `choose_gguf`: the model file for a reference, out of what the repo holds. -/
def chooseGguf (files : List GgufFile) (quant : Option Text) : Choice :=
  let candidates := sortOn (fun f => f.name) (files.filter fun f => isCandidate f.name)
  if candidates.isEmpty then
    .noGguf
  else
    let wanted := quant.getD defaultQuant
    match (sortOn sizeKey (candidates.filter fun f => hasTag f.name wanted)).head? with
    | some f => .exact f.name
    | none =>
      if quant.isSome then
        let available := sortOn lower (candidates.filterMap fun f => quantOf f.name)
        .quantMissing (available.destutter fun a b => lower a ≠ lower b)
      else
        let q4 := candidates.filter fun f => ((quantOf f.name).map fun t => isQ4 (lower t)).getD false
        match (sortOn sizeKey q4).head? with
        | some f => .fallback f.name
        | none =>
          match (sortOn sizeKey candidates).head? with
          | some f => .fallback f.name
          | none => .noGguf

/-- A projector's name. -/
def isProjector (name : Text) : Bool :=
  let base := lower (baseName name)
  "mmproj".toList.isPrefixOf base && ".gguf".toList.isSuffixOf base

/-- "F16" as a whole segment. -/
def isF16 (name : Text) : Bool := (segments name).contains "f16".toList

/-- `choose_mmproj`: the projector to pair with the weights, an F16 one first. -/
def chooseMmproj (files : List GgufFile) : Option Text :=
  let projectors := sortOn id ((files.map fun f => f.name).filter isProjector)
  (projectors.find? isF16).or projectors.head?

/-! ## The Hub, and the cache -/

/-- The model file, when the cache alone can answer: the exact file, or the exact tag asked for. -/
def HfModel.fileFromCache (m : HfModel) (files : List GgufFile) : Option Text :=
  match m.file with
  | some file => if files.any fun f => f.name == file then some file else none
  | none =>
    match chooseGguf files m.quant with
    | .exact name => some name
    | _ => none

/-- The projector, when the cache alone can answer. -/
def HfModel.mmprojFromCache (m : HfModel) (files : List GgufFile) : Option (Option Text) :=
  match m.mmproj with
  | .none => some none
  -- a projector named but not cached means the cache cannot answer
  | .file name => if files.any fun f => f.name == name then some (some name) else none
  | .auto => some (chooseMmproj files)

/-- `resolve_from_cache`: what the cache alone can answer. -/
def HfModel.resolveFromCache (m : HfModel) (held : List GgufFile) : Option HfResolved := do
  let files := cachedGgufFiles held
  let file ← m.fileFromCache files
  let mmproj ← m.mmprojFromCache files
  return ⟨m.repo, file, mmproj, true⟩

/-- The model file, out of the files the Hub lists. -/
def HfModel.chooseFile (m : HfModel) (files : List GgufFile) : Except HfError Text :=
  match m.file with
  | some file =>
    if files.any fun f => f.name == file then .ok file else .error (.fileNotFound m.repo file)
  | none =>
    match chooseGguf files m.quant with
    | .exact name | .fallback name => .ok name
    | .quantMissing available => .error (.quantNotFound m.repo (m.quant.getD []) available)
    | .noGguf => .error (.noGguf m.repo)

/-- The projector, out of the files the Hub lists. -/
def HfModel.pairedMmproj (m : HfModel) (files : List GgufFile) : Option Text :=
  match m.mmproj with
  | .none => none
  | .file name => some name
  | .auto => chooseMmproj files

/-- `choose`, over the files the Hub lists. -/
def HfModel.choose (m : HfModel) (files : List GgufFile) : Except HfError HfResolved := do
  let file ← m.chooseFile files
  return ⟨m.repo, file, m.pairedMmproj files, false⟩

/-! ## What is chosen -/

/-- The candidates of some files that carry the tag a reference asks for. -/
def tagged (quant : Option Text) (files : List GgufFile) : List GgufFile :=
  files.filter (isTagged (quant.getD defaultQuant))

/-- A tag that some candidate carries is answered by the least of them, by size and then by name. -/
theorem chooseGguf_tagged (L : Listing) {files : List GgufFile} (hsub : files ⊆ L.files)
    (quant : Option Text) (name : Text) :
    chooseGguf files quant = .exact name ↔
      (sortOn sizeKey (tagged quant files)).head?.map (fun f => f.name) = some name := by
  have hhead : (sortOn sizeKey (tagged quant files)).head? =
      (sortOn sizeKey ((sortOn (fun f => f.name) (files.filter fun f => isCandidate f.name)).filter
        fun f => hasTag f.name (quant.getD defaultQuant))).head? := by
    refine head_sortOn_congr (fun a ha b hb => L.sizeKey_inj (hsub (mem_of_mem_filter ha))
      (hsub (mem_of_mem_filter hb))) fun f => ?_
    simp only [tagged, mem_filter, mem_sortOn, isTagged, Bool.and_eq_true, and_assoc]
  rw [hhead, chooseGguf]
  dsimp only
  generalize sortOn (fun f => f.name) (files.filter fun f => isCandidate f.name) = candidates
  split
  · rename_i hempty
    rw [isEmpty_iff.1 hempty]
    simp [sortOn]
  cases hfirst : (sortOn sizeKey
      (candidates.filter fun f => hasTag f.name (quant.getD defaultQuant))).head? with
  | some f => simp
  | none =>
    refine iff_of_false ?_ (by simp)
    dsimp only
    repeat' split
    all_goals simp

/-- What `choose_mmproj` prefers: an F16 projector, and then by name. -/
def projectorKey (name : Text) : Bool ×ₗ Text := toLex (!isF16 name, name)

/-- The projectors of some files, by name. -/
def projectors (files : List GgufFile) : List Text := (files.map fun f => f.name).filter isProjector

/-- The projector that is chosen is the least. -/
theorem chooseMmproj_eq (files : List GgufFile) :
    chooseMmproj files = (sortOn projectorKey (projectors files)).head? :=
  find_or_head_sortOn isF16 fun _ _ _ _ h => h

/-! ## The cache answers as the Hub would -/

/-- Nothing that is listed and not cached comes before everything that is cached: among the
candidates with the tag, where a tag decides, and among the projectors, where the repository's own
is wanted. -/
structure HfModel.CacheDecides (m : HfModel) (listed cached : List GgufFile) : Prop where
  file : m.file = none → ∀ f ∈ listed, isTagged (m.quant.getD defaultQuant) f = true → f ∉ cached →
    ∃ g ∈ cached, isTagged (m.quant.getD defaultQuant) g = true ∧ sizeKey g ≤ sizeKey f
  mmproj : m.mmproj = .auto → ∀ f ∈ listed, isProjector f.name = true → f ∉ cached →
    ∃ g ∈ cached, isProjector g.name = true ∧ projectorKey g.name ≤ projectorKey f.name

variable {cached : List GgufFile}

/-- Among the files with the tag. -/
theorem tagged_agrees_iff (L : Listing) (hsub : cached ⊆ L.files) (quant : Option Text)
    {name : Text} (h : chooseGguf cached quant = .exact name) :
    chooseGguf L.files quant = .exact name ↔
      ∀ f ∈ L.files, isTagged (quant.getD defaultQuant) f = true → f ∉ cached →
        ∃ g ∈ cached, isTagged (quant.getD defaultQuant) g = true ∧ sizeKey g ≤ sizeKey f := by
  rw [chooseGguf_tagged L hsub] at h
  obtain ⟨g, hg, hname⟩ := Option.map_eq_some_iff.1 h
  have hgmem : g ∈ L.files := hsub (mem_of_mem_filter (head_sortOn hg).1)
  have hpart : (sortOn sizeKey (tagged quant L.files)).head? =
      (sortOn sizeKey (tagged quant cached)).head? ↔
        ∀ f ∈ tagged quant L.files, f ∉ tagged quant cached →
          ∃ g ∈ tagged quant cached, sizeKey g ≤ sizeKey f :=
    head_sortOn_part
      (fun a ha b hb => L.sizeKey_inj (mem_of_mem_filter ha) (mem_of_mem_filter hb))
      (filter_subset _ hsub)
  have hsame : (sortOn sizeKey (tagged quant L.files)).head?.map (fun f => f.name) = some name ↔
      (sortOn sizeKey (tagged quant L.files)).head? =
        (sortOn sizeKey (tagged quant cached)).head? := by
    rw [hg]
    constructor
    · intro hmap
      obtain ⟨f, hf, hfname⟩ := Option.map_eq_some_iff.1 hmap
      have hfmem : f ∈ L.files := mem_of_mem_filter (head_sortOn hf).1
      rw [hf, L.name_inj hfmem hgmem (hfname.trans hname.symm)]
    · intro heq
      rw [heq, Option.map_some, hname]
  rw [chooseGguf_tagged L (List.Subset.refl _), hsame, hpart]
  simp only [tagged, mem_filter]
  constructor
  · intro hall f hf htag hno
    obtain ⟨g, ⟨hg, htag'⟩, hle⟩ := hall f ⟨hf, htag⟩ fun hmem => hno hmem.1
    exact ⟨g, hg, htag', hle⟩
  · intro hall f ⟨hf, htag⟩ hno
    obtain ⟨g, hg, htag', hle⟩ := hall f hf htag fun hmem => hno ⟨hmem, htag⟩
    exact ⟨g, ⟨hg, htag'⟩, hle⟩

/-- Among the projectors. -/
theorem projector_agrees_iff (L : Listing) (hsub : cached ⊆ L.files) :
    chooseMmproj L.files = chooseMmproj cached ↔
      ∀ f ∈ L.files, isProjector f.name = true → f ∉ cached →
        ∃ g ∈ cached, isProjector g.name = true ∧ projectorKey g.name ≤ projectorKey f.name := by
  have hnames : projectors cached ⊆ projectors L.files :=
    filter_subset _ (map_subset _ hsub)
  have hpart : (sortOn projectorKey (projectors L.files)).head? =
      (sortOn projectorKey (projectors cached)).head? ↔
        ∀ name ∈ projectors L.files, name ∉ projectors cached →
          ∃ other ∈ projectors cached, projectorKey other ≤ projectorKey name :=
    head_sortOn_part (fun a _ b _ heq => (Prod.mk.inj (toLex.injective heq)).2) hnames
  rw [chooseMmproj_eq, chooseMmproj_eq, hpart]
  constructor
  · intro hall f hf hproj hno
    obtain ⟨name, hname, hle⟩ := hall f.name (mem_filter.2 ⟨mem_map_of_mem hf, hproj⟩)
      fun hmem => by
        obtain ⟨g, hg, heq⟩ := mem_map.1 (mem_of_mem_filter hmem)
        exact hno (L.name_inj (hsub hg) hf heq ▸ hg)
    obtain ⟨g, hg, rfl⟩ := mem_map.1 (mem_of_mem_filter hname)
    exact ⟨g, hg, of_mem_filter hname, hle⟩
  · intro hall name hname hno
    obtain ⟨f, hf, rfl⟩ := mem_map.1 (mem_of_mem_filter hname)
    obtain ⟨g, hg, hproj, hle⟩ := hall f hf (of_mem_filter hname)
      fun hmem => hno (mem_filter.2 ⟨mem_map_of_mem hmem, of_mem_filter hname⟩)
    exact ⟨g.name, mem_filter.2 ⟨mem_map_of_mem hg, hproj⟩, hle⟩

/-- The file a reference names, or its tag decides on. -/
theorem chooseFile_agrees_iff (L : Listing) (hsub : cached ⊆ L.files) (m : HfModel) {file : Text}
    (h : m.fileFromCache cached = some file) :
    m.chooseFile L.files = .ok file ↔
      (m.file = none → ∀ f ∈ L.files, isTagged (m.quant.getD defaultQuant) f = true → f ∉ cached →
        ∃ g ∈ cached, isTagged (m.quant.getD defaultQuant) g = true ∧ sizeKey g ≤ sizeKey f) := by
  rw [HfModel.fileFromCache] at h
  rw [HfModel.chooseFile]
  cases hfile : m.file with
  | some name =>
    rw [hfile] at h
    dsimp only at h
    split at h
    · rename_i hany
      cases h
      obtain ⟨f, hf, heq⟩ := any_eq_true.1 hany
      have hlisted : (L.files.any fun f => f.name == file) = true :=
        any_eq_true.2 ⟨f, hsub hf, heq⟩
      exact iff_of_true (if_pos hlisted) fun hno => by cases hno
    · cases h
  | none =>
    rw [hfile] at h
    dsimp only at h ⊢
    split at h
    · rename_i name hexact
      cases h
      -- the tag is carried by a cached file, so it is carried by a listed one
      obtain ⟨g, hg,
        -⟩ := Option.map_eq_some_iff.1 ((chooseGguf_tagged L hsub m.quant file).1 hexact)
      have hgmem : g ∈ tagged m.quant L.files :=
        mem_filter.2 ⟨hsub (mem_of_mem_filter (head_sortOn hg).1),
          of_mem_filter (head_sortOn hg).1⟩
      obtain ⟨f, hf⟩ : ∃ f, (sortOn sizeKey (tagged m.quant L.files)).head? = some f := by
        cases hhead : (sortOn sizeKey (tagged m.quant L.files)).head? with
        | some f => exact ⟨f, rfl⟩
        | none =>
          rw [head?_eq_none_iff, sortOn_eq_nil] at hhead
          rw [hhead] at hgmem
          cases hgmem
      have hchoice : chooseGguf L.files m.quant = .exact f.name :=
        (chooseGguf_tagged L (List.Subset.refl _) m.quant f.name).2 (by rw [hf]; rfl)
      have hagree := tagged_agrees_iff L hsub m.quant hexact
      rw [hchoice] at hagree ⊢
      simp only [Except.ok.injEq, forall_const]
      rw [← hagree, Choice.exact.injEq]
    · cases h

/-- The projector a reference names, or the repository has. -/
theorem pairedMmproj_agrees_iff (L : Listing) (hsub : cached ⊆ L.files) (m : HfModel)
    {mmproj : Option Text} (h : m.mmprojFromCache cached = some mmproj) :
    m.pairedMmproj L.files = mmproj ↔
      (m.mmproj = .auto → ∀ f ∈ L.files, isProjector f.name = true → f ∉ cached →
        ∃ g ∈ cached, isProjector g.name = true ∧ projectorKey g.name ≤ projectorKey f.name) := by
  rw [HfModel.mmprojFromCache] at h
  rw [HfModel.pairedMmproj]
  cases hpair : m.mmproj with
  | none =>
    rw [hpair] at h
    cases h
    exact iff_of_true rfl fun hno => by cases hno
  | file name =>
    rw [hpair] at h
    dsimp only at h
    split at h
    · cases h
      exact iff_of_true rfl fun hno => by cases hno
    · cases h
  | auto =>
    rw [hpair] at h
    cases h
    simp only [forall_const]
    exact projector_agrees_iff L hsub

/-- **A warm cache answers as the Hub would** exactly when `CacheDecides`: for every listing of a
repository, every part of it that the cache holds, and every reference the cache answers. -/
theorem cache_agrees_iff (L : Listing) {held : List GgufFile} (hheld : held ⊆ L.files) (m : HfModel)
    {r : HfResolved} (h : m.resolveFromCache held = some r) :
    (∃ r', m.choose L.files = .ok r' ∧ r'.file = r.file ∧ r'.mmproj = r.mmproj) ↔
      m.CacheDecides L.files (cachedGgufFiles held) := by
  have hsub : cachedGgufFiles held ⊆ L.files := fun f hf => hheld (cachedGgufFiles_subset held hf)
  obtain ⟨file, hfile, hrest⟩ := Option.bind_eq_some_iff.1 h
  obtain ⟨mmproj, hmmproj, hr⟩ := Option.bind_eq_some_iff.1 hrest
  cases hr
  have hfileIff := chooseFile_agrees_iff L hsub m hfile
  have hmmprojIff := pairedMmproj_agrees_iff L hsub m hmmproj
  constructor
  · rintro ⟨r', hr', hsame, hsame'⟩
    rw [HfModel.choose] at hr'
    cases hchosen : m.chooseFile L.files with
    | error e =>
      rw [hchosen] at hr'
      cases hr'
    | ok chosen =>
      rw [hchosen] at hr'
      cases hr'
      have hsame : chosen = file := hsame
      exact ⟨hfileIff.1 (by rw [hchosen, hsame]), hmmprojIff.1 hsame'⟩
  · rintro ⟨hfirst, hsecond⟩
    refine ⟨⟨m.repo, file, m.pairedMmproj L.files, false⟩, ?_, rfl, hmmprojIff.2 hsecond⟩
    rw [HfModel.choose, hfileIff.2 hfirst]
    rfl

end

/-- `\d` on the names of a repository in ASCII. -/
abbrev asciiDigits : RegexCrate := ⟨Char.isDigit⟩

/-- A repository with one model file and a projector. -/
def visionRepo : Listing :=
  ⟨[⟨"m-Q4_K_M.gguf".toList, some 40⟩, ⟨"mmproj-F16.gguf".toList, some 20⟩], by decide⟩

/-- With both files cached the reference means what it means on the Hub. -/
theorem cache_agrees_vision :
    letI := asciiDigits
    let m : HfModel := ⟨"a/b".toList, none, none, .auto⟩
    (∃ r', m.choose visionRepo.files = .ok r' ∧ r'.file = "m-Q4_K_M.gguf".toList ∧
        r'.mmproj = some "mmproj-F16.gguf".toList) ↔
      m.CacheDecides visionRepo.files (cachedGgufFiles visionRepo.files) :=
  letI := asciiDigits
  cache_agrees_iff visionRepo (List.Subset.refl _) ⟨"a/b".toList, none, none, .auto⟩
    (r := ⟨"a/b".toList, "m-Q4_K_M.gguf".toList, some "mmproj-F16.gguf".toList, true⟩) (by rfl)

/-- The model file was fetched without the projector: the cache answers that there is none. -/
theorem cache_forgets_projector :
    letI := asciiDigits
    let m : HfModel := ⟨"a/b".toList, none, none, .auto⟩
    let held := [⟨"m-Q4_K_M.gguf".toList, some 40⟩]
    held ⊆ visionRepo.files ∧
      m.resolveFromCache held = some ⟨"a/b".toList, "m-Q4_K_M.gguf".toList, none, true⟩ ∧
      m.choose visionRepo.files = .ok ⟨"a/b".toList, "m-Q4_K_M.gguf".toList,
        some "mmproj-F16.gguf".toList, false⟩ :=
  letI := asciiDigits
  ⟨by decide, rfl, rfl⟩

end Hf
end Gen2
