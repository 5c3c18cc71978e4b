import Gen2.Bundle.GgufRead
import Gen2.Bundle.GgufSound

/-!
# GGUF headers are read exactly

* `foldl_last`: what a loop leaves, where each turn sets it or leaves it, is what was set last.
* `parseGgufMetadata_file`: a header that is acceptable is read to its end, and of each field the
  last value is found.
* `header_read`: and what has been read decides, every beginning of it is refused, and what is done
  is paid for by the bytes that are there.
* `width_twice`: a width that is given twice is refused.
-/

namespace Gen2.Gguf

open Lib List Entry ByteReader

/-! ## The last of each -/

section Last

variable {σ ι β : Type} {step : σ → ι → σ}

/-- **What each turn sets or leaves is what was set last.** -/
theorem foldl_last (get : σ → β) {g : ι → Option β}
    (h : ∀ s i, get (step s i) = (g i).getD (get s)) (items : List ι) (s : σ) :
    get (items.foldl step s) = (items.filterMap g).getLast?.getD (get s) := by
  induction items generalizing s with
  | nil => rfl
  | cons i items ih =>
    rw [foldl_cons, ih, h, filterMap_cons]
    cases g i with
    | none => rfl
    | some b =>
      dsimp only
      rw [getLast?_cons]
      rfl

theorem getLast?_filterMap_cons_or (g : ι → Option β) (i : ι) (items : List ι) (x : Option β) :
    ((i :: items).filterMap g).getLast?.or x = (items.filterMap g).getLast?.or ((g i).or x) := by
  rw [filterMap_cons]
  cases g i with
  | none => rfl
  | some b =>
    dsimp only
    rw [getLast?_cons]
    cases (items.filterMap g).getLast? <;> rfl

theorem foldl_last_or (get : σ → Option β) {g : ι → Option β}
    (h : ∀ s i, get (step s i) = (g i).or (get s)) (items : List ι) (s : σ) :
    get (items.foldl step s) = (items.filterMap g).getLast?.or (get s) := by
  induction items generalizing s with
  | nil => rfl
  | cons i items ih => rw [foldl_cons, ih, h, getLast?_filterMap_cons_or]

end Last

def applyAll (entries : List Entry) : ParseState := entries.foldl Entry.apply ⟨.default, []⟩

theorem applyAll_strings (entries : List Entry) (field : StringField) :
    (applyAll entries).metadata.strings field =
      (entries.filterMap (strings field)).getLast? := by
  have h := foldl_last_or (fun s : ParseState => s.metadata.strings field)
    (fun s e => apply_strings s e field) entries ⟨.default, []⟩
  exact h.trans (Option.or_none)

theorem applyAll_integers (entries : List Entry) (field : IntegerField) :
    (applyAll entries).metadata.integers field =
      (entries.filterMap (integers field)).getLast? := by
  have h := foldl_last_or (fun s : ParseState => s.metadata.integers field)
    (fun s e => apply_integers s e field) entries ⟨.default, []⟩
  exact h.trans (Option.or_none)

theorem applyAll_perLayer (entries : List Entry) :
    (applyAll entries).metadata.headCountKvPerLayer =
      (entries.filterMap perLayer).getLast?.join := by
  have h := foldl_last (fun s : ParseState => s.metadata.headCountKvPerLayer)
    apply_perLayer entries ⟨.default, []⟩
  refine h.trans ?_
  cases (entries.filterMap perLayer).getLast? <;> rfl

theorem foldl_widths (entries : List Entry) (state : ParseState) :
    (entries.foldl apply state).metadata.widths = state.metadata.widths := by
  induction entries generalizing state with
  | nil => rfl
  | cons e entries ih => exact (ih _).trans (apply_widths state e)

theorem applyAll_widths (entries : List Entry) :
    (applyAll entries).metadata.widths = fun _ => none :=
  foldl_widths entries _

theorem foldl_explicitWidths (entries : List Entry) (state : ParseState) :
    (entries.foldl apply state).explicitWidths =
      state.explicitWidths ++ entries.filterMap explicit := by
  induction entries generalizing state with
  | nil => exact (append_nil _).symm
  | cons e entries ih =>
    rw [foldl_cons, ih, apply_explicitWidths, filterMap_cons, append_assoc]
    cases e.explicit <;> rfl

theorem applyAll_explicitWidths (entries : List Entry) :
    (applyAll entries).explicitWidths = entries.filterMap explicit :=
  (foldl_explicitWidths entries _).trans (nil_append _)

/-! ## Widths -/

/-- The width that an entry of the loop sets. -/
def widthOf (architecture : Text) (field : WidthField) (kv : Text × Nat) : Option Nat :=
  if kv.1 = architecture ++ field.suffix.toList then some kv.2 else none

theorem foldl_setWidth (architecture : Text) (kv : Text × Nat) (fields : List WidthField)
    (m : GgufMetadata) :
    fields.foldl (fun m field =>
      if kv.1 = architecture ++ field.suffix.toList then m.setWidth field kv.2 else m) m =
    { m with widths := fun field =>
        if field ∈ fields then (widthOf architecture field kv).or (m.widths field)
        else m.widths field } := by
  induction fields generalizing m with
  | nil => simp
  | cons first fields ih =>
    rw [foldl_cons, ih]
    by_cases hkey : kv.1 = architecture ++ first.suffix.toList
    · rw [if_pos hkey, GgufMetadata.setWidth]
      congr 1
      funext field
      by_cases hfirst : field = first
      · subst hfirst
        simp [widthOf, hkey]
      · simp [hfirst]
    · rw [if_neg hkey]
      congr 1
      funext field
      by_cases hfirst : field = first
      · subst hfirst
        simp [widthOf, hkey]
      · simp [hfirst]

theorem takeWidth_eq (architecture : Text) (m : GgufMetadata) (kv : Text × Nat) :
    takeWidth architecture m kv =
      { m with widths := fun field => (widthOf architecture field kv).or (m.widths field) } := by
  rw [takeWidth, foldl_setWidth]
  congr 1
  funext field
  cases field <;> rfl

/-- **Of each width of the architecture, the last is taken.** -/
theorem foldl_takeWidth (architecture : Text) (widths : List (Text × Nat)) (m : GgufMetadata) :
    widths.foldl (takeWidth architecture) m =
      { m with widths := fun field =>
          (widths.filterMap (widthOf architecture field)).getLast?.or (m.widths field) } := by
  induction widths generalizing m with
  | nil => rfl
  | cons kv widths ih =>
    rw [foldl_cons, ih, takeWidth_eq]
    congr 1
    funext field
    exact (getLast?_filterMap_cons_or _ kv widths _).symm

/-- A key that is an architecture with the end of a width is read for a width. -/
theorem classify_width (architecture : Text) (field : WidthField) :
    classify (architecture ++ field.suffix.toList) = .width := by
  have hexact : exactKeys.find? (fun k => k.1.toList = architecture ++ field.suffix.toList) =
      none := by
    refine find?_eq_none.2 fun k hk heq => ?_
    have hsuffix : field.suffix.toList <:+ k.1.toList := ⟨architecture,
      (of_decide_eq_true heq).symm⟩
    have hnone : exactKeys.all (fun k => ! field.suffix.toList.isSuffixOf k.1.toList) = true := by
      cases field <;> decide +kernel
    have hk' := all_eq_true.1 hnone k hk
    rw [isSuffixOf_iff_suffix.2 hsuffix] at hk'
    cases hk'
  -- the keys of the widths are tried first
  have hfirst : ((suffixKeys.take 4).find? fun k =>
      k.1.toList.isSuffixOf (architecture ++ field.suffix.toList)).isSome = true := by
    refine find?_isSome.2 ⟨(field.suffix, .width), by cases field <;> decide, ?_⟩
    exact isSuffixOf_iff_suffix.2 (suffix_append _ _)
  have hwidths : (suffixKeys.take 4).all (fun k => k.2 = .width) = true := by decide
  obtain ⟨⟨suffix, purpose⟩, hk⟩ := Option.isSome_iff_exists.1 hfirst
  have hpurpose := of_decide_eq_true (all_eq_true.1 hwidths _ (mem_of_find?_eq_some hk))
  rw [classify, hexact, ← take_append_drop 4 suffixKeys, find?_append, hk]
  exact hpurpose

theorem Entry.width_eq (architecture : Text) (field : WidthField) (e : Entry) :
    e.width architecture field = e.explicit.bind (widthOf architecture field) := by
  rw [width, explicit]
  by_cases hname : e.name = architecture ++ field.suffix.toList
  · have hpurpose : e.purpose = .width := by
      rw [purpose, hname]
      exact classify_width architecture field
    rw [if_pos hname, if_pos hpurpose]
    cases e.value.integer? with
    | none => rfl
    | some value => exact (if_pos hname).symm
  · rw [if_neg hname]
    split
    · cases e.value.integer? with
      | none => rfl
      | some value => exact (if_neg hname).symm
    · rfl

/-! ## A whole header -/

/-- **What is left when the entries have been read.** -/
theorem finish_applyAll {entries : List Entry} (h : Acceptable entries) :
    finish (applyAll entries) = .ok (said entries) := by
  have hwidth : ∀ architecture field,
      entries.filterMap (width architecture field) =
        (entries.filterMap explicit).filterMap (widthOf architecture field) := by
    intro architecture field
    rw [List.filterMap_filterMap]
    exact congrArg (entries.filterMap ·) (funext (width_eq architecture field))
  have hmetadata : (applyAll entries).metadata = { said entries with widths := fun _ => none } :=
    GgufMetadata.ext (funext (applyAll_strings entries)) (funext (applyAll_integers entries))
      (applyAll_perLayer entries) (applyAll_widths entries)
  rw [finish, applyAll_explicitWidths, hmetadata]
  by_cases hnone : entries.filterMap explicit = []
  · rw [if_pos (List.isEmpty_iff.2 hnone)]
    refine congrArg Except.ok (GgufMetadata.ext rfl rfl rfl (funext fun field => ?_))
    dsimp only [said]
    split
    · rw [hwidth, hnone]
      rfl
    · rfl
  · have hwidths : widthEntries entries ≠ [] := by
      obtain ⟨kv, hkv⟩ := List.exists_mem_of_ne_nil _ hnone
      obtain ⟨e, he, hexplicit⟩ := List.mem_filterMap.1 hkv
      have hpurpose : e.purpose = .width := by
        rw [explicit] at hexplicit
        split at hexplicit
        · assumption
        · cases hexplicit
      exact List.ne_nil_of_mem (List.mem_filter.2 ⟨he, decide_eq_true hpurpose⟩)
    obtain ⟨e, he, harchitecture⟩ := h.architecture hwidths
    obtain ⟨architecture, hlast⟩ :
        ∃ architecture, (entries.filterMap (strings .architecture)).getLast? =
          some architecture := by
      obtain ⟨text, htext⟩ := Option.isSome_iff_exists.1 harchitecture
      have hmem := List.mem_filterMap.2 ⟨e, he, htext⟩
      exact ⟨_, List.getLast?_eq_some_getLast (List.ne_nil_of_mem hmem)⟩
    rw [if_neg (by rwa [List.isEmpty_iff])]
    have hstrings : (said entries).strings .architecture = some architecture := hlast
    dsimp only
    rw [hstrings]
    dsimp only
    rw [foldl_takeWidth]
    refine congrArg Except.ok (GgufMetadata.ext rfl rfl rfl (funext fun field => ?_))
    dsimp only [said]
    rw [hlast, Option.or_none, ← hwidth]

/-- **A header is read to its end**, and of each field the last value is found. -/
theorem parseGgufMetadata_file {version tensorCount : Nat} {entries : List Entry}
    (hversion : 1 ≤ version ∧ version ≤ 3) (htensors : tensorCount < 2 ^ 64)
    (h : Acceptable entries) (hsize : (file version tensorCount entries).length < 2 ^ 64)
    (rest : List UInt8) :
    parseGgufMetadata.run (file version tensorCount entries ++ rest) =
      .ok (said entries, rest) := by
  have hlength := hsize
  rw [file] at hlength
  simp only [length_append] at hlength
  have hcount : entries.length ≤ (entries.flatMap write).length := by
    refine length_le_flatMap (fun e => ?_) entries
    rw [write, length_append, length_writeString]
    omega
  have hreadable : Readable ⟨.default, []⟩ entries :=
    ⟨h.each, by omega, by simpa using h.few, by simpa using h.distinct⟩
  have hentries : (times entries.length readEntry ⟨.default, []⟩).run
      (entries.flatMap write ++ rest) = .ok (applyAll entries, rest) :=
    run_times_flatMap (fun state e entries rest h => ⟨readEntry_write h rest, h.apply⟩)
      entries _ rest hreadable
  have hfour : version < 256 ^ 4 := Nat.lt_of_le_of_lt hversion.2 (by decide)
  have hfirst : ([0x47, 0x47, 0x55, 0x46] : List UInt8).length = 4 := rfl
  have hmagic := run_exact_append (n := 4) EOF hfirst
    (leBytes 4 version ++ (leBytes 8 tensorCount ++ (leBytes 8 entries.length ++
      (entries.flatMap write ++ rest))))
  rw [parseGgufMetadata, file]
  simp only [append_assoc]
  rw [run_bind_of_ok (run_mapErr_of_ok hmagic), if_neg (by simp),
    run_bind_of_ok (run_mapErr_of_ok (readLe_run hfour _)),
    if_neg (by omega),
    run_bind_of_ok (run_mapErr_of_ok (readLe_eight htensors _)),
    run_bind_of_ok (run_mapErr_of_ok (readLe_eight (by omega) _)),
    run_bind_of_ok hentries, finish_applyAll h]
  rfl

/-- **Headers are read exactly.**  An acceptable one is read to its end, and of each field the last
value is found, whatever there is between them.  Whatever bytes are read, a value of the parser is
decided by those it has read, every beginning of them is refused, and no more is done than twice the
number of the bytes that are there. -/
theorem header_read :
    (∀ version tensorCount entries rest, 1 ≤ version ∧ version ≤ 3 → tensorCount < 2 ^ 64 →
      Acceptable entries → (file version tensorCount entries).length < 2 ^ 64 →
      parseGgufMetadata.run (file version tensorCount entries ++ rest) =
        .ok (said entries, rest)) ∧
    (∀ bytes metadata rest, parseGgufMetadata.run bytes = .ok (metadata, rest) →
      ∃ consumed, bytes = consumed ++ rest ∧
        (∀ rest', parseGgufMetadata.run (consumed ++ rest') = .ok (metadata, rest')) ∧
        ∀ p q, q ≠ [] → consumed = p ++ q → ∃ e, parseGgufMetadata.run p = .error e) ∧
    ∀ bytes, parseGgufMetadata.work bytes ≤ 2 * bytes.length + 1 :=
  ⟨fun _ _ _ rest hversion htensors h hsize => parseGgufMetadata_file hversion htensors h hsize rest,
    parseGgufMetadata_sound.exact, parseGgufMetadata_sound.work_le⟩

/-- An architecture. -/
def architectureEntry : Entry :=
  ⟨utf8 "general.architecture".toList, .string (utf8 "llama".toList)⟩

/-- A width of it. -/
def widthEntry (bits : Primitive.Bits .uint32) : Entry :=
  ⟨utf8 "llama.attention.key_length".toList, .primitive .uint32 bits⟩

theorem header_read_wide :
    parseGgufMetadata.run (file 3 0 [architectureEntry, widthEntry 64]) =
      .ok (said [architectureEntry, widthEntry 64], []) := by
  have harchitecture : architectureEntry.purpose = .string .architecture := by decide +kernel
  have hwidth : (widthEntry 64).purpose = .width := by decide +kernel
  have h : Acceptable [architectureEntry, widthEntry 64] := by
    refine ⟨List.forall_mem_cons.2 ⟨?_, List.forall_mem_singleton.2 ?_⟩, by decide +kernel,
      by decide +kernel, fun _ => ⟨architectureEntry, List.mem_cons_self, by decide +kernel⟩⟩
    · refine ⟨by decide +kernel, by decide, ?_, ?_, ?_⟩
      · rintro field bytes - ⟨⟩
        decide +kernel
      · rintro a hpurpose
        cases harchitecture.symm.trans hpurpose
      · rintro hpurpose
        cases harchitecture.symm.trans hpurpose
    · refine ⟨by decide +kernel, by decide, ?_, ?_, fun _ => ⟨by decide +kernel, 64, rfl,
      by decide⟩⟩
      · rintro field bytes hpurpose
        cases hwidth.symm.trans hpurpose
      · rintro a hpurpose
        cases hwidth.symm.trans hpurpose
  have hread := header_read.1 3 0 _ [] (by decide) (by decide) h (by decide +kernel)
  rwa [List.append_nil] at hread

/-- **A width that is given twice is refused**: its last value is not found. -/
theorem width_twice :
    ([architectureEntry, widthEntry 64, widthEntry 128].filterMap
        (Entry.width "llama".toList .keyLength)).getLast? = some 128 ∧
    parseGgufMetadata.run (file 3 0 [architectureEntry, widthEntry 64, widthEntry 128]) =
      .error (.invalidModelFile "Invalid or duplicate explicit attention width key") := by
  refine ⟨by decide +kernel, ?_⟩
  have h : (match parseGgufMetadata.run
        (file 3 0 [architectureEntry, widthEntry 64, widthEntry 128]) with
      | .error e => some e
      | .ok _ => none) =
        some (.invalidModelFile "Invalid or duplicate explicit attention width key") := by
    decide +kernel
  cases hrun : parseGgufMetadata.run
    (file 3 0 [architectureEntry, widthEntry 64, widthEntry 128]) with
  | error e =>
    rw [hrun] at h
    exact congrArg Except.error (Option.some.inj h)
  | ok out =>
    rw [hrun] at h
    cases h

end Gen2.Gguf
