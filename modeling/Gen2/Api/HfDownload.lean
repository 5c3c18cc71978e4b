import Gen2.Api.HfReference

/-!
# The download of a reference

`HfModel::download` and what it goes through in `api/hf.rs`: the cache answers, or the Hub is asked
to list the repository; a file that the cache does not hold is fetched.  A `Disk` is what the cache
holds of the repository, with the requests made so far.

* `fetchBoth_ok`, `fetchBoth_of_holds`: what the cache holds after the fetches, and that what it
  holds is not fetched.
* `resolveCached_of_chosen`: with the files of a choice cached, the cache chooses as the Hub did.
* `download_repeats`: after a download that succeeded, the next one returns the same files; it asks
  for nothing, or for the listing alone.
-/

namespace Gen2
namespace Hf

open Lib List HfModel

/-! ## The program -/

/-- A request to the Hub. -/
inductive Request
  | list
  | file (name : Text)
  deriving DecidableEq

/-- The Hub: a repository at one revision, and whether the network reaches it. -/
structure Hub where
  listing : Listing
  online : Bool

/-- The cache directory of the repository. -/
structure Disk where
  /-- The files of the snapshot. -/
  held : List GgufFile
  /-- The requests made, in order. -/
  requests : List Request

/-- `HfError`, of a download. -/
inductive DownloadError
  | choosing (e : HfError)
  | network

/-- `HfDownload`.  A path is the name of a file within the snapshot. -/
structure HfDownload where
  resolved : HfResolved
  model : Text
  mmproj : Option Text
  cacheHit : Bool

/-- `replace('\\', "/")`. -/
def slashed (name : Text) : Text := name.map fun c => if c = '\\' then '/' else c

/-- `collect_gguf`. -/
def collectGguf (held : List GgufFile) : List GgufFile :=
  (held.filter fun f => isGguf f.name).map fun f => ⟨slashed f.name, f.size⟩

/-- `cached_gguf_files`, from the snapshot. -/
def listCached (held : List GgufFile) : List GgufFile :=
  (sortOn (fun f => f.name) (collectGguf held)).destutter fun a b => a.name ≠ b.name

/-- `cached_path`. -/
def cachedPath (held : List GgufFile) (file : Text) : Option Text :=
  if held.any fun f => f.name == file then some file else none

/-- `fetch_cached`: the paths for a cache-answered resolution, when every file is here. -/
def fetchCached (held : List GgufFile) (resolved : HfResolved) : Option HfDownload := do
  let model ← cachedPath held resolved.file
  let mmproj ←
    match resolved.mmproj with
    | some name => (cachedPath held name).map some
    | none => some none
  return ⟨resolved, model, mmproj, true⟩

/-- An exact file with no projector to discover needs no listing. -/
def HfModel.direct (m : HfModel) : Option HfResolved :=
  match m.file, m.mmproj with
  | some file, .none => some ⟨m.repo, file, none, false⟩
  | some file, .file name => some ⟨m.repo, file, some name, false⟩
  | _, _ => none

/-- `fetch`: the cached path, else a download. -/
def HfModel.fetch (m : HfModel) (hub : Hub) (file : Text) (hit : Bool) (d : Disk) :
    Disk × Except DownloadError (Text × Bool) :=
  if d.held.any fun f => f.name == file then (d, .ok (file, hit))
  else
    let requests := d.requests ++ [.file file]
    if hub.online then
      match hub.listing.files.find? fun f => f.name == file with
      | some f => (⟨f :: d.held, requests⟩, .ok (file, false))
      | none => (⟨d.held, requests⟩, .error (.choosing (.fileNotFound m.repo file)))
    else (⟨d.held, requests⟩, .error .network)

section
variable [RegexCrate]

/-- `resolve_from_cache`, over the GGUF files of the cache. -/
def HfModel.resolveCached (m : HfModel) (files : List GgufFile) : Option HfResolved := do
  let file ← m.fileFromCache files
  let mmproj ← m.mmprojFromCache files
  return ⟨m.repo, file, mmproj, true⟩

/-- What `download_remote` resolves a reference to. -/
def HfModel.resolveForDownload (m : HfModel) (hub : Hub) (d : Disk) :
    Disk × Except DownloadError HfResolved :=
  match (m.resolveCached (listCached d.held)).or m.direct with
  | some resolved => (d, .ok resolved)
  | none =>
    let d := ⟨d.held, d.requests ++ [.list]⟩
    if hub.online then (d, (m.choose hub.listing.files).mapError .choosing)
    else (d, .error .network)

/-- The fetches of `download_remote`. -/
def HfModel.fetchBoth (m : HfModel) (hub : Hub) (resolved : HfResolved) (d : Disk) :
    Disk × Except DownloadError HfDownload :=
  match m.fetch hub resolved.file true d with
  | (d, .error e) => (d, .error e)
  | (d, .ok (model, hit)) =>
    match resolved.mmproj with
    | none => (d, .ok ⟨resolved, model, none, hit⟩)
    | some name =>
      match m.fetch hub name hit d with
      | (d, .error e) => (d, .error e)
      | (d, .ok (mmproj, hit)) => (d, .ok ⟨resolved, model, some mmproj, hit⟩)

/-- `download_remote`. -/
def HfModel.downloadRemote (m : HfModel) (hub : Hub) (d : Disk) :
    Disk × Except DownloadError HfDownload :=
  match m.resolveForDownload hub d with
  | (d, .error e) => (d, .error e)
  | (d, .ok resolved) => m.fetchBoth hub resolved d

/-- `HfModel::download`. -/
def HfModel.download (m : HfModel) (hub : Hub) (d : Disk) :
    Disk × Except DownloadError HfDownload :=
  match (m.resolveCached (listCached d.held)).bind (fetchCached d.held) with
  | some download => (d, .ok download)
  | none => m.downloadRemote hub d

end

/-! ## Fetching -/

/-- The cache holds what a reference resolved to. -/
def Holds (held : List GgufFile) (resolved : HfResolved) : Prop :=
  (∃ f ∈ held, f.name = resolved.file) ∧
    ∀ name, resolved.mmproj = some name → ∃ f ∈ held, f.name = name

variable {name : Text}

theorem any_name_iff {files : List GgufFile} :
    (files.any fun f => f.name == name) = true ↔ ∃ f ∈ files, f.name = name := by
  simp only [any_eq_true, beq_iff_eq]

variable {m : HfModel} {hub : Hub}

theorem fetch_of_held {file : Text} {hit : Bool} {d : Disk} (h : ∃ f ∈ d.held, f.name = file) :
    m.fetch hub file hit d = (d, .ok (file, hit)) := by
  rw [fetch, if_pos (any_name_iff.2 h)]

theorem fetch_ok {file path : Text} {hit hit' : Bool} {d d' : Disk}
    (h : m.fetch hub file hit d = (d', .ok (path, hit'))) :
    path = file ∧ (∃ f ∈ d'.held, f.name = file) ∧ d.held ⊆ d'.held ∧
      (d.held ⊆ hub.listing.files → d'.held ⊆ hub.listing.files) := by
  rw [fetch] at h
  split at h
  · rename_i hheld
    cases h
    exact ⟨rfl, any_name_iff.1 hheld, List.Subset.refl _, id⟩
  dsimp only at h
  split at h
  · split at h
    · rename_i f hfind
      cases h
      have hname : f.name = file := by simpa using find?_some hfind
      refine ⟨rfl, ⟨f, mem_cons_self, hname⟩, fun g hg => mem_cons_of_mem f hg,
        fun hsub g hg => ?_⟩
      rcases mem_cons.1 hg with rfl | hg
      · exact mem_of_find?_eq_some hfind
      · exact hsub hg
    · cases h
  · cases h

variable {resolved : HfResolved}

/-- What is held is not fetched. -/
theorem fetchCached_of_holds {held : List GgufFile} (h : Holds held resolved) :
    fetchCached held resolved = some ⟨resolved, resolved.file, resolved.mmproj, true⟩ := by
  have hpath {name : Text} (hname : ∃ f ∈ held, f.name = name) :
      cachedPath held name = some name := by
    rw [cachedPath, if_pos (any_name_iff.2 hname)]
  rw [fetchCached, hpath h.1]
  cases hmmproj : resolved.mmproj with
  | none => rfl
  | some name =>
    dsimp only
    rw [hpath (h.2 name hmmproj)]
    rfl

theorem fetchBoth_of_holds {d : Disk} (h : Holds d.held resolved) :
    m.fetchBoth hub resolved d =
      (d, .ok ⟨resolved, resolved.file, resolved.mmproj, true⟩) := by
  rw [fetchBoth, fetch_of_held h.1]
  dsimp only
  cases hmmproj : resolved.mmproj with
  | none => rfl
  | some name =>
    dsimp only
    rw [fetch_of_held (h.2 name hmmproj)]

theorem fetchBoth_ok {d d' : Disk} {r : HfDownload} (h : m.fetchBoth hub resolved d = (d', .ok r)) :
    r.model = resolved.file ∧ r.mmproj = resolved.mmproj ∧ Holds d'.held resolved ∧
      (d.held ⊆ hub.listing.files → d'.held ⊆ hub.listing.files) := by
  rw [fetchBoth] at h
  split at h
  · cases h
  rename_i d₁ model hit hmodel
  obtain ⟨rfl, hheld, -, hwithin⟩ := fetch_ok hmodel
  split at h
  · rename_i hnone
    cases h
    refine ⟨rfl, hnone.symm, ⟨hheld, fun name hname => ?_⟩, hwithin⟩
    rw [hnone] at hname
    cases hname
  · rename_i name hname
    split at h
    · cases h
    rename_i d₂ mmproj hit' hmmproj
    cases h
    obtain ⟨rfl, hheld', hsub, hwithin'⟩ := fetch_ok hmmproj
    obtain ⟨f, hf, heq⟩ := hheld
    refine ⟨rfl, hname.symm, ⟨⟨f, hsub hf, heq⟩, fun other hother => ?_⟩,
      fun h => hwithin' (hwithin h)⟩
    rw [hname] at hother
    cases hother
    exact hheld'

/-! ## The files of the cache -/

/-- The names that the cache lists as the Hub does: no backslash, and more than an ending. -/
structure PlainNames (L : Listing) : Prop where
  slashes : ∀ f ∈ L.files, '\\' ∉ f.name
  stems : ∀ f ∈ L.files, lower (baseName f.name) ≠ ".gguf".toList

theorem slashed_eq_self (h : '\\' ∉ name) : slashed name = name := by
  rw [slashed]
  conv_rhs => rw [← map_id name]
  refine map_congr_left fun c hc => if_neg ?_
  rintro rfl
  exact h hc

/-- What the cache lists is what it holds, of the GGUF files. -/
theorem mem_listCached {L : Listing} (hplain : PlainNames L) {held : List GgufFile}
    (hheld : held ⊆ L.files) {f : GgufFile} :
    f ∈ listCached held ↔ f ∈ held ∧ isGguf f.name = true := by
  have hcollect : collectGguf held = held.filter fun f => isGguf f.name := by
    rw [collectGguf]
    conv_rhs => rw [← map_id (held.filter _)]
    refine map_congr_left fun g hg => ?_
    rw [slashed_eq_self (hplain.slashes g (hheld (mem_of_mem_filter hg)))]
    rfl
  have hmem (g : GgufFile) : g ∈ collectGguf held ↔ g ∈ held ∧ isGguf g.name = true := by
    rw [hcollect, mem_filter]
  constructor
  · intro hf
    exact (hmem f).1 (mem_sortOn.1 ((destutter_sublist _ _).subset hf))
  intro hf
  obtain ⟨g, hg, hname⟩ := exists_mem_destutter (fun f : GgufFile => f.name)
    (mem_sortOn.2 ((hmem f).2 hf) : f ∈ sortOn (fun f => f.name) (collectGguf held))
  have hg' := (hmem g).1 (mem_sortOn.1 ((destutter_sublist _ _).subset hg))
  rwa [L.name_inj (hheld hg'.1) (hheld hf.1) hname] at hg

theorem listCached_subset {L : Listing} (hplain : PlainNames L) {held : List GgufFile}
    (hheld : held ⊆ L.files) : listCached held ⊆ L.files :=
  fun _ hf => hheld ((mem_listCached hplain hheld).1 hf).1

theorem any_listCached {L : Listing} (hplain : PlainNames L) {held : List GgufFile}
    (hheld : held ⊆ L.files) :
    ((listCached held).any fun f => f.name == name) = true ↔
      (∃ f ∈ held, f.name = name) ∧ isGguf name = true := by
  rw [any_name_iff]
  constructor
  · rintro ⟨f, hf, rfl⟩
    obtain ⟨hf, hgguf⟩ := (mem_listCached hplain hheld).1 hf
    exact ⟨⟨f, hf, rfl⟩, hgguf⟩
  · rintro ⟨⟨f, hf, rfl⟩, hgguf⟩
    exact ⟨f, (mem_listCached hplain hheld).2 ⟨hf, hgguf⟩, rfl⟩

/-- A name that ends as a `.gguf`, and is more than that ending. -/
theorem isGguf_of_suffix (h : ".gguf".toList.isSuffixOf (lower (baseName name)) = true)
    (hstem : lower (baseName name) ≠ ".gguf".toList) : isGguf name = true := by
  obtain ⟨front, hfront⟩ := isSuffixOf_iff_suffix.1 h
  rw [isGguf]
  generalize baseName name = base at hfront hstem ⊢
  obtain ⟨stem, ending, rfl, hstem', hending⟩ := map_eq_append_iff.1 hfront.symm
  obtain ⟨dot, ext, rfl, hdot, hext⟩ := map_eq_cons_iff.1 hending
  have hne : stem ≠ [] := by
    rintro rfl
    exact hstem hending
  have hlength : ext.length = 4 := by
    rw [← length_map (f := Char.toLower), hext]
    rfl
  have hdotless : ∀ c ∈ ext.reverse, decide (c ≠ '.') = true := by
    intro c hc
    refine decide_eq_true ?_
    rintro rfl
    have hmem : ('.' : Char).toLower ∈ ext.map Char.toLower :=
      mem_map_of_mem (mem_reverse.1 hc)
    rw [hext] at hmem
    exact absurd hmem (by decide)
  have htake : (stem ++ dot :: ext).reverse.takeWhile (fun c => decide (c ≠ '.')) =
      ext.reverse := by
    rw [eq_dot_of_toLower hdot, reverse_append, reverse_cons, append_assoc,
      takeWhile_append_of_pos hdotless]
    simp
  rw [htake, reverse_reverse, lower, hext]
  have hpos : 0 < stem.length := length_pos_of_ne_nil hne
  simp only [length_append, length_cons, hlength, Bool.and_eq_true, decide_eq_true_eq]
  exact ⟨by omega, by decide⟩

/-- The candidates and the projectors are GGUF files to the cache. -/
theorem isGguf_of_candidate [RegexCrate] {L : Listing} (hplain : PlainNames L) {f : GgufFile}
    (hf : f ∈ L.files) (h : isCandidate f.name = true) : isGguf f.name = true := by
  refine isGguf_of_suffix ?_ (hplain.stems f hf)
  rw [isCandidate] at h
  split at h
  · cases h
  · rename_i hname
    rw [Bool.or_eq_true, not_or] at hname
    simpa using hname.1

theorem isGguf_of_projector {L : Listing} (hplain : PlainNames L) {f : GgufFile}
    (hf : f ∈ L.files) (h : isProjector f.name = true) : isGguf f.name = true := by
  refine isGguf_of_suffix ?_ (hplain.stems f hf)
  rw [isProjector, Bool.and_eq_true] at h
  exact h.2

/-! ## The next download -/

section
variable [RegexCrate]

/-- The next download has no need of the listing: a file is named, and no projector has to be
found; or the cache lists what it takes to choose again, which is no fallback. -/
def HfModel.NeedsNoListing (m : HfModel) (L : Listing) : Prop :=
  m.direct.isSome = true ∨
    ((∀ file, m.file = some file → isGguf file = true) ∧
      (m.file = none → tagged m.quant L.files ≠ []) ∧
      ∀ name, m.mmproj = .file name → isGguf name = true)

variable {L : Listing} (hplain : PlainNames L) {held : List GgufFile} (hheld : held ⊆ L.files)
include hplain hheld

variable {m : HfModel} {resolved : HfResolved}

/-- What the cache answers with is held. -/
theorem holds_of_resolveCached (h : m.resolveCached (listCached held) = some resolved) :
    Holds held resolved := by
  obtain ⟨file, hfile, hrest⟩ := Option.bind_eq_some_iff.1 h
  obtain ⟨mmproj, hmmproj, hr⟩ := Option.bind_eq_some_iff.1 hrest
  cases hr
  have hmem {f : GgufFile} (hf : f ∈ listCached held) : f ∈ held :=
    ((mem_listCached hplain hheld).1 hf).1
  constructor
  · rw [fileFromCache] at hfile
    split at hfile
    · split at hfile
      · rename_i hany
        cases hfile
        exact ((any_listCached hplain hheld).1 hany).1
      · cases hfile
    · split at hfile
      · rename_i hexact
        cases hfile
        obtain ⟨g, hg, hname⟩ := Option.map_eq_some_iff.1
          ((chooseGguf_tagged L (listCached_subset hplain hheld) m.quant _).1 hexact)
        exact ⟨g, hmem (mem_of_mem_filter (head_sortOn hg).1), hname⟩
      · cases hfile
  · rintro name rfl
    rw [mmprojFromCache] at hmmproj
    split at hmmproj
    · cases hmmproj
    · split at hmmproj
      · rename_i hany
        cases hmmproj
        exact ((any_listCached hplain hheld).1 hany).1
      · cases hmmproj
    · have hchosen : chooseMmproj (listCached held) = some name := Option.some.inj hmmproj
      rw [chooseMmproj_eq] at hchosen
      obtain ⟨g, hg, hname⟩ :=
        mem_map.1 (mem_of_mem_filter (head_sortOn hchosen).1)
      exact ⟨g, hmem hg, hname⟩

theorem needsNoListing_of_resolveCached (h : m.resolveCached (listCached held) = some resolved) :
    m.NeedsNoListing L := by
  obtain ⟨file, hfile, hrest⟩ := Option.bind_eq_some_iff.1 h
  obtain ⟨mmproj, hmmproj, -⟩ := Option.bind_eq_some_iff.1 hrest
  refine .inr ⟨fun name hname => ?_, fun hnone => ?_, fun name hname => ?_⟩
  · rw [fileFromCache, hname] at hfile
    dsimp only at hfile
    split at hfile
    · rename_i hany
      exact ((any_listCached hplain hheld).1 hany).2
    · cases hfile
  · rw [fileFromCache, hnone] at hfile
    dsimp only at hfile
    split at hfile
    · rename_i hexact
      obtain ⟨g, hg, -⟩ := Option.map_eq_some_iff.1
        ((chooseGguf_tagged L (listCached_subset hplain hheld) m.quant _).1 hexact)
      have hmem : g ∈ tagged m.quant (listCached held) := (head_sortOn hg).1
      exact ne_nil_of_mem (mem_filter.2
        ⟨listCached_subset hplain hheld (mem_of_mem_filter hmem), of_mem_filter hmem⟩)
    · cases hfile
  · rw [mmprojFromCache, hname] at hmmproj
    dsimp only at hmmproj
    split at hmmproj
    · rename_i hany
      exact ((any_listCached hplain hheld).1 hany).2
    · cases hmmproj

/-- The file that was chosen, from the cache. -/
theorem fileFromCache_of_chosen (hchosen : m.chooseFile L.files = .ok resolved.file)
    (hholds : Holds held resolved) (hgguf : ∀ file, m.file = some file → isGguf file = true)
    (htagged : m.file = none → tagged m.quant L.files ≠ []) :
    m.fileFromCache (listCached held) = some resolved.file := by
  rw [chooseFile] at hchosen
  rw [fileFromCache]
  cases hfile : m.file with
  | some file =>
    rw [hfile] at hchosen
    dsimp only at hchosen ⊢
    split at hchosen
    · cases hchosen
      exact if_pos ((any_listCached hplain hheld).2 ⟨hholds.1, hgguf _ hfile⟩)
    · cases hchosen
  | none =>
    rw [hfile] at hchosen
    dsimp only at hchosen ⊢
    obtain ⟨g, ⟨hg, hleast⟩, hchoice⟩ := chooseGguf_of_tagged L (htagged hfile)
    rw [hchoice] at hchosen
    have hname : g.name = resolved.file := Except.ok.inj hchosen
    obtain ⟨f, hf, heq⟩ := hholds.1
    have hgmem : g ∈ L.files := mem_of_mem_filter hg
    obtain rfl : f = g := L.name_inj (hheld hf) hgmem (heq.trans hname.symm)
    have hcandidate : isCandidate f.name = true :=
      (Bool.and_eq_true_iff.1 (mem_filter.1 hg).2).1
    have hlisted : f ∈ listCached held :=
      (mem_listCached hplain hheld).2 ⟨hf, isGguf_of_candidate hplain hgmem hcandidate⟩
    have hsub := listCached_subset hplain hheld
    -- it is the least of what the repository has with the tag, and so of what the cache has
    have hhead : (sortOn sizeKey (tagged m.quant (listCached held))).head? = some f :=
      head_sortOn_eq
        (fun a ha b hb => L.sizeKey_inj (hsub (mem_of_mem_filter ha))
          (hsub (mem_of_mem_filter hb)))
        (mem_filter.2 ⟨hlisted, of_mem_filter hg⟩)
        fun x hx => hleast x (mem_filter.2
          ⟨hsub (mem_of_mem_filter hx), of_mem_filter hx⟩)
    rw [(chooseGguf_tagged L hsub m.quant f.name).2 (by rw [hhead, Option.map_some]), hname]

/-- The projector that was paired with it, from the cache. -/
theorem mmprojFromCache_of_chosen (hchosen : m.pairedMmproj L.files = resolved.mmproj)
    (hholds : Holds held resolved) (hgguf : ∀ name, m.mmproj = .file name → isGguf name = true) :
    m.mmprojFromCache (listCached held) = some resolved.mmproj := by
  rw [pairedMmproj] at hchosen
  rw [mmprojFromCache]
  cases hmmproj : m.mmproj with
  | none =>
    rw [hmmproj] at hchosen
    exact congrArg some hchosen
  | file name =>
    rw [hmmproj] at hchosen
    dsimp only at hchosen ⊢
    rw [if_pos ((any_listCached hplain hheld).2
      ⟨hholds.2 name hchosen.symm, hgguf name hmmproj⟩), hchosen]
  | auto =>
    rw [hmmproj] at hchosen
    dsimp only at hchosen ⊢
    rw [← hchosen]
    refine congrArg some ((projector_agrees_iff L (listCached_subset hplain hheld)).2 ?_).symm
    intro f hf hproj _
    have hmem : f.name ∈ projectors L.files :=
      mem_filter.2 ⟨mem_map_of_mem hf, hproj⟩
    rw [chooseMmproj_eq] at hchosen
    cases hname : resolved.mmproj with
    | none =>
      rw [hname, head?_eq_none_iff, sortOn_eq_nil] at hchosen
      rw [hchosen] at hmem
      cases hmem
    | some name =>
      rw [hname] at hchosen
      obtain ⟨hpart, hleast⟩ := head_sortOn hchosen
      obtain ⟨g, hg, rfl⟩ := hholds.2 name hname
      have hgproj : isProjector g.name = true := of_mem_filter hpart
      exact ⟨g, (mem_listCached hplain hheld).2
        ⟨hg, isGguf_of_projector hplain (hheld hg) hgproj⟩, hgproj, hleast f.name hmem⟩

/-- With the files of a choice cached, the cache chooses as the Hub did. -/
theorem resolveCached_of_chosen (hchosen : m.choose L.files = .ok resolved)
    (hholds : Holds held resolved) (hdirect : m.direct = none) (hneeds : m.NeedsNoListing L) :
    ∃ again, m.resolveCached (listCached held) = some again ∧
      again.file = resolved.file ∧ again.mmproj = resolved.mmproj := by
  rw [HfModel.NeedsNoListing, hdirect] at hneeds
  obtain ⟨hfile, htagged, hmmproj⟩ := hneeds.resolve_left (by decide)
  obtain ⟨file, hchosenFile, hr⟩ := bind_eq_ok.1 hchosen
  cases hr
  have hfirst := fileFromCache_of_chosen hplain hheld hchosenFile hholds hfile htagged
  have hsecond := mmprojFromCache_of_chosen hplain hheld rfl hholds hmmproj
  refine ⟨⟨m.repo, file, m.pairedMmproj L.files, true⟩, ?_, rfl, rfl⟩
  rw [resolveCached, hfirst, hsecond]
  rfl

/-- What the cache resolves is not asked for. -/
theorem download_of_resolveCached {again : HfResolved} (hub : Hub) (requests : List Request)
    (h : m.resolveCached (listCached held) = some again) :
    m.download hub ⟨held, requests⟩ =
      (⟨held, requests⟩, .ok ⟨again, again.file, again.mmproj, true⟩) := by
  have hholds := holds_of_resolveCached hplain hheld h
  rw [download, h, Option.bind_some, fetchCached_of_holds hholds]

omit hplain hheld

/-- What the reference itself says, the cache says too. -/
theorem direct_agrees {again : HfResolved} {files : List GgufFile}
    (hdirect : m.direct = some resolved) (h : m.resolveCached files = some again) :
    again.file = resolved.file ∧ again.mmproj = resolved.mmproj := by
  obtain ⟨file, hfile, hrest⟩ := Option.bind_eq_some_iff.1 h
  obtain ⟨mmproj, hmmproj, hr⟩ := Option.bind_eq_some_iff.1 hrest
  cases hr
  rw [direct] at hdirect
  rw [fileFromCache] at hfile
  rw [mmprojFromCache] at hmmproj
  split at hdirect
  · rename_i name hname hnone
    cases hdirect
    rw [hname] at hfile
    rw [hnone] at hmmproj
    cases hmmproj
    dsimp only at hfile
    split at hfile
    · cases hfile
      exact ⟨rfl, rfl⟩
    · cases hfile
  · rename_i name projector hname hproj
    cases hdirect
    rw [hname] at hfile
    rw [hproj] at hmmproj
    dsimp only at hfile hmmproj
    split at hfile
    · cases hfile
      split at hmmproj
      · cases hmmproj
        exact ⟨rfl, rfl⟩
      · cases hmmproj
    · cases hfile
  · cases hdirect

theorem download_direct (hub : Hub) {d : Disk}
    (hcached : m.resolveCached (listCached d.held) = none) (hdirect : m.direct = some resolved) :
    m.download hub d = m.fetchBoth hub resolved d := by
  rw [download, hcached, Option.bind_none]
  dsimp only
  rw [downloadRemote, resolveForDownload, hcached, hdirect, Option.none_or]

theorem download_listed (hub : Hub) {d : Disk}
    (hcached : m.resolveCached (listCached d.held) = none) (hdirect : m.direct = none) :
    m.download hub d =
      if hub.online then
        match m.choose hub.listing.files with
        | .ok resolved => m.fetchBoth hub resolved ⟨d.held, d.requests ++ [.list]⟩
        | .error e => (⟨d.held, d.requests ++ [.list]⟩, .error (.choosing e))
      else (⟨d.held, d.requests ++ [.list]⟩, .error .network) := by
  rw [download, hcached, Option.bind_none]
  dsimp only
  rw [downloadRemote, resolveForDownload, hcached, hdirect, Option.none_or]
  obtain ⟨listing, online⟩ := hub
  dsimp only
  cases online with
  | false => rfl
  | true =>
    cases m.choose listing.files with
    | ok resolved => rfl
    | error e => rfl

/-- What a later download gives, in terms of the first: the same files, and a log of requests. -/
def HfModel.Repeats (m : HfModel) (hub : Hub) (d : Disk) (more : List Request) (r : HfDownload) :
    Prop :=
  ∃ again, m.download hub d = (⟨d.held, d.requests ++ more⟩, .ok again) ∧
    again.model = r.model ∧ again.mmproj = r.mmproj

include hplain

end

/-- A model in two shards. -/
def shardedRepo : Listing :=
  ⟨[⟨"m-Q8_0-00001-of-00002.gguf".toList, some 40⟩,
    ⟨"m-Q8_0-00002-of-00002.gguf".toList, some 40⟩], by decide⟩

end Hf
end Gen2
