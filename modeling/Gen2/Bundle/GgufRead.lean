import Gen2.Bundle.GgufFormat

/-!
# What is read of a GGUF header

* `Entry.strings`, `Entry.integers`, `Entry.perLayer` and `Entry.width` are what one entry says, and
  `said` is what all of them do: of each, the last.
* `Acceptable` is what the parser wants of the entries.
* `readEntry_write`: one entry is read to its end, and nothing but what it says is changed.
* `Entry.apply_strings` and its like: what it changes of a field is what it says of it.
-/

namespace Gen2.Gguf

open Lib List ByteReader Entry GgufValue

/-! ## What the entries say -/

def Entry.name (e : Entry) : Text := fromUtf8Lossy e.key

def Entry.purpose (e : Entry) : Purpose := classify e.name

/-- The elements of an array. -/
def GgufArray.values : GgufArray → List GgufValue
  | primitives p items => items.map (.primitive p)
  | strings items => items.map .string
  | arrays items => items.map .array

/-- The numbers that an array is made of, if it is made of numbers, and none is negative. -/
def GgufArray.integers? (a : GgufArray) : Option (List Nat) :=
  if a.values.all (fun v => v.integer?.isSome) then some (a.values.filterMap GgufValue.integer?)
  else none

/-- The text that an entry has for a field. -/
def Entry.strings (field : StringField) (e : Entry) : Option Text :=
  if e.purpose = .string field then e.value.string?.map field.take else none

/-- The number that an entry has for a field. -/
def Entry.integers (field : IntegerField) (e : Entry) : Option Nat :=
  if e.purpose = .integer field ∨ (e.purpose = .headCountKv ∧ field = .headCountKv) then
    e.value.integer?
  else none

/-- What an entry has for the heads of the keys in each layer. -/
def Entry.perLayer (e : Entry) : Option (Option (List Nat)) :=
  match e.purpose, e.value with
  | .headCountKv, .array a => some a.integers?
  | _, _ => none

/-- The number that an entry has for a width of an architecture. -/
def Entry.width (architecture : Text) (field : WidthField) (e : Entry) : Option Nat :=
  if e.name = architecture ++ field.suffix.toList then e.value.integer? else none

/-- What a list of entries says: of each field, the last value. -/
def said (entries : List Entry) : GgufMetadata where
  strings field := (entries.filterMap (Entry.strings field)).getLast?
  integers field := (entries.filterMap (Entry.integers field)).getLast?
  headCountKvPerLayer := (entries.filterMap Entry.perLayer).getLast?.join
  widths field :=
    match (entries.filterMap (Entry.strings .architecture)).getLast? with
    | some architecture => (entries.filterMap (Entry.width architecture field)).getLast?
    | none => none

/-! ## What the parser wants -/

/-- What the parser wants of one entry. -/
structure Entry.Acceptable (e : Entry) : Prop where
  key : e.key.length ≤ MAX_STRING_BYTES
  depth : e.value.depth ≤ MAX_ARRAY_DEPTH + 1
  string : ∀ field bytes, e.purpose = .string field → e.value = .string bytes →
    bytes.length ≤ MAX_STRING_BYTES
  heads : ∀ a, e.purpose = .headCountKv → e.value = .array a → a.count ≠ 0 ∧ a.count ≤ 4096
  width : e.purpose = .width → strLen e.name ≤ 256 ∧ ∃ n, e.value.integer? = some n ∧ 0 < n

/-- The entries that give a width. -/
def widthEntries (entries : List Entry) : List Entry := entries.filter fun e => e.purpose = .width

/-- What the parser wants of a header: that it wants nothing else of an entry, that each width has
one entry, and that there is an architecture for them. -/
structure Acceptable (entries : List Entry) : Prop where
  each : ∀ e ∈ entries, e.Acceptable
  few : (widthEntries entries).length ≤ 16
  distinct : ((widthEntries entries).map Entry.name).Nodup
  architecture : widthEntries entries ≠ [] → ∃ e ∈ entries, (e.strings .architecture).isSome

/-- A header as it is written. -/
def file (version tensorCount : Nat) (entries : List Entry) : List UInt8 :=
  [0x47, 0x47, 0x55, 0x46] ++ (leBytes 4 version ++ (leBytes 8 tensorCount ++
    (leBytes 8 entries.length ++ entries.flatMap Entry.write)))

/-! ## Arrays as lists of values -/

theorem GgufArray.length_values (a : GgufArray) : a.values.length = a.count := by
  cases a <;> exact length_map _

theorem GgufArray.type_of_mem {a : GgufArray} {v : GgufValue} (h : v ∈ a.values) :
    v.type = a.elementType := by
  cases a with
  | primitives p items =>
    obtain ⟨n, -, rfl⟩ := mem_map.1 h
    rfl
  | strings items =>
    obtain ⟨bytes, -, rfl⟩ := mem_map.1 h
    rfl
  | arrays items =>
    obtain ⟨a, -, rfl⟩ := mem_map.1 h
    rfl

theorem GgufArray.depth_le_depths {a : GgufArray} {items : List GgufArray} (h : a ∈ items) :
    a.depth ≤ GgufArray.depths items := by
  induction items with
  | nil => cases h
  | cons b items ih =>
    rw [GgufArray.depths]
    rcases mem_cons.1 h with rfl | h
    · exact Nat.le_max_left _ _
    · exact (ih h).trans (Nat.le_max_right _ _)

theorem GgufArray.depth_of_mem {a : GgufArray} {v : GgufValue} (h : v ∈ a.values) :
    v.depth ≤ a.depth := by
  cases a with
  | primitives p items =>
    obtain ⟨n, -, rfl⟩ := mem_map.1 h
    exact Nat.zero_le _
  | strings items =>
    obtain ⟨bytes, -, rfl⟩ := mem_map.1 h
    exact Nat.zero_le _
  | arrays items =>
    obtain ⟨a, ha, rfl⟩ := mem_map.1 h
    rw [GgufArray.depth]
    exact (depth_le_depths ha).trans (Nat.le_succ _)

theorem GgufArray.bodies_eq (items : List GgufArray) :
    GgufArray.bodies items = (items.map array).flatMap payload := by
  induction items with
  | nil => rfl
  | cons a items ih =>
    rw [GgufArray.bodies, map_cons, flatMap_cons, ← ih, payload]
    simp only [append_assoc]

/-- An array is its elements without their types. -/
theorem GgufArray.body_eq (a : GgufArray) : a.body = a.values.flatMap payload := by
  cases a with
  | primitives p items => rw [body, values, flatMap_map]; rfl
  | strings items => rw [body, values, flatMap_map]; rfl
  | arrays items => rw [body, values, bodies_eq]

/-! ## The heads of the keys in each layer -/

/-- One turn of the loop over the layers. -/
def pushLayer : List Nat × Bool → GgufValue → List Nat × Bool
  | (values, valid), v =>
    match v.integer? with
    | some value => (values ++ [value], valid)
    | none => (values, false)

theorem foldl_pushLayer (items : List GgufValue) (values : List Nat) (valid : Bool) :
    items.foldl pushLayer (values, valid) =
      (values ++ items.filterMap integer?,
        valid && items.all fun v => v.integer?.isSome) := by
  induction items generalizing values valid with
  | nil => simp
  | cons v items ih =>
    rw [foldl_cons, pushLayer]
    cases hv : v.integer? with
    | some value =>
      dsimp only
      rw [ih, filterMap_cons, hv, all_cons, hv, append_assoc]
      rfl
    | none =>
      dsimp only
      rw [ih, filterMap_cons, hv, all_cons, hv]
      simp

/-- **An array of the heads of the keys is read**, of whatever it is made. -/
theorem readPerLayer_run (a : GgufArray) (hcount : a.count ≠ 0 ∧ a.count ≤ 4096)
    (hdepth : a.depth ≤ MAX_ARRAY_DEPTH + 1) (hsize : a.body.length < 2 ^ 64)
    (rest : List UInt8) :
    readPerLayer.run (payload (.array a) ++ rest) = .ok (a.integers?, rest) := by
  have hle := a.count_le_body
  let inv : List Nat × Bool → List GgufValue → Prop := fun _ items =>
    ∀ v ∈ items, v.type = a.elementType ∧ v.depth ≤ MAX_ARRAY_DEPTH + 1 ∧
      v.payload.length < 2 ^ 64
  have hinv : inv ([], true) a.values := by
    intro v hv
    refine ⟨GgufArray.type_of_mem hv, (GgufArray.depth_of_mem hv).trans hdepth, ?_⟩
    rw [a.body_eq, flatMap_def] at hsize
    have hsub := sublist_flatten_of_mem (mem_map_of_mem (f := payload) hv)
    exact Nat.lt_of_le_of_lt hsub.length_le hsize
  rw [readPerLayer, payload, append_assoc, append_assoc,
    run_bind_of_ok (run_mapErr_of_ok (readLe_run a.elementType_lt _)),
    run_bind_of_ok (run_mapErr_of_ok (readLe_eight (by omega) _)),
    if_neg (by omega), a.body_eq, ← a.length_values]
  refine (run_bind_of_ok (a := a.values.foldl pushLayer ([], true))
    (run_times_flatMap ?_ a.values _ rest hinv)).trans ?_
  · rintro ⟨values, valid⟩ v items rest hv
    obtain ⟨htype, hvdepth, hvsize⟩ := hv v mem_cons_self
    have hread := readValueAsU64_payload v hvdepth hvsize rest
    rw [htype] at hread
    refine ⟨?_, fun w hw => hv w (mem_cons_of_mem _ hw)⟩
    dsimp only
    rw [run_bind_of_ok (run_mapErr_of_ok hread), pushLayer]
    cases v.integer? <;> rfl
  · rw [foldl_pushLayer]
    dsimp only
    rw [nil_append, Bool.true_and, GgufArray.integers?]
    split <;> rfl

/-! ## One entry -/

/-- What an entry changes. -/
def Entry.apply (state : ParseState) (e : Entry) : ParseState :=
  match e.purpose with
  | .string field =>
    match e.value.string? with
    | some value => { state with metadata := state.metadata.setString field (field.take value) }
    | none => state
  | .integer field =>
    match e.value.integer? with
    | some value => { state with metadata := state.metadata.setInteger field value }
    | none => state
  | .width =>
    match e.value.integer? with
    | some value => { state with explicitWidths := state.explicitWidths ++ [(e.name, value)] }
    | none => state
  | .headCountKv =>
    match e.value with
    | .array a =>
      { state with metadata := { state.metadata with headCountKvPerLayer := a.integers? } }
    | value =>
      match value.integer? with
      | some value => { state with metadata := state.metadata.setInteger .headCountKv value }
      | none => state
  | .nothing => state

/-- What must hold for the rest of the entries to be read. -/
structure Readable (state : ParseState) (entries : List Entry) : Prop where
  each : ∀ e ∈ entries, e.Acceptable
  size : (entries.flatMap Entry.write).length < 2 ^ 64
  few : state.explicitWidths.length + (widthEntries entries).length ≤ 16
  distinct : (state.explicitWidths.map Prod.fst ++ (widthEntries entries).map Entry.name).Nodup

variable {e : Entry}

theorem widthEntries_cons_of_width (h : e.purpose = .width) (entries : List Entry) :
    widthEntries (e :: entries) = e :: widthEntries entries :=
  filter_cons_of_pos (decide_eq_true h)

theorem widthEntries_cons_of_ne (h : e.purpose ≠ .width) (entries : List Entry) :
    widthEntries (e :: entries) = widthEntries entries :=
  filter_cons_of_neg (by simpa using h)

theorem GgufValue.isIntegerType_of_integer? {v : GgufValue} {n : Nat} (h : v.integer? = some n) :
    isIntegerType v.type = true := by
  cases v with
  | primitive p bits =>
    cases p with
    | uint8 | uint16 | uint32 | uint64 => rfl
    | int8 | int16 | int32 | int64 => rfl
    | float32 | bool | float64 => cases h
  | string bytes => cases h
  | array a => cases h

theorem Entry.apply_explicitWidths_of_ne (h : e.purpose ≠ .width) (state : ParseState) :
    (e.apply state).explicitWidths = state.explicitWidths := by
  rw [apply]
  cases hpurpose : e.purpose with
  | width => exact absurd hpurpose h
  | string field => dsimp only; split <;> rfl
  | integer field => dsimp only; split <;> rfl
  | headCountKv =>
    dsimp only
    split
    · rfl
    · split <;> rfl
  | nothing => rfl

variable {state : ParseState}

/-- **A width is read**, if it is the first of its key. -/
theorem readWidth_run {n : Nat} (hname : strLen e.name ≤ 256) (hvalue : e.value.integer? = some n)
    (hpos : 0 < n) (hfew : state.explicitWidths.length < 16)
    (hnew : e.name ∉ state.explicitWidths.map Prod.fst)
    (hdepth : e.value.depth ≤ MAX_ARRAY_DEPTH + 1) (hsize : e.value.payload.length < 2 ^ 64)
    (rest : List UInt8) :
    (readWidth e.name e.value.type state).run (e.value.payload ++ rest) =
      .ok ({ state with explicitWidths := state.explicitWidths ++ [(e.name, n)] }, rest) := by
  have hread := readValueAsU64_payload e.value hdepth hsize rest
  have hseen : ¬ state.explicitWidths.any (fun seen => seen.1 = e.name) = true := by
    intro h
    obtain ⟨seen, hseen, heq⟩ := any_eq_true.1 h
    exact hnew (mem_map.2 ⟨seen, hseen, of_decide_eq_true heq⟩)
  have htype : ¬ (! isIntegerType e.value.type) = true := by
    rw [isIntegerType_of_integer? hvalue]
    exact Bool.false_ne_true
  have hfilter : Option.filter (fun value => decide (0 < value)) (some n) = some n :=
    Option.filter_some_pos (decide_eq_true hpos)
  rw [hvalue] at hread
  rw [readWidth, if_neg (not_or.2 ⟨Nat.not_lt.2 hname, not_or.2 ⟨Nat.not_le.2 hfew, hseen⟩⟩),
    if_neg htype, run_bind_of_ok (run_mapErr_of_ok hread), hfilter]
  rfl

/-- **An entry is read to its end**, and no more is changed than it says. -/
theorem readEntry_write {entries : List Entry} (h : Readable state (e :: entries))
    (rest : List UInt8) : (readEntry state).run (e.write ++ rest) = .ok (e.apply state, rest) := by
  have he := h.each e mem_cons_self
  have hsize := h.size
  rw [flatMap_cons, length_append, write, length_append, length_append]
    at hsize
  have hskip := skipValue_payload e.value he.depth (by omega) rest
  have hread := readValueAsU64_payload e.value he.depth (by omega) rest
  rw [readEntry, write, append_assoc, append_assoc,
    run_bind_of_ok (run_mapErr_of_ok (readLenPrefixedString_run he.key _)),
    run_bind_of_ok (run_mapErr_of_ok (readLe_run e.value.type_lt _)),
    apply]
  have hclassify : classify (fromUtf8Lossy e.key) = e.purpose := rfl
  rw [hclassify]
  cases hpurpose : e.purpose with
  | string field =>
    have hstring := readValueAsString_payload e.value he.depth (by omega)
      (fun bytes => he.string field bytes hpurpose) rest
    dsimp only
    rw [run_bind_of_ok (run_mapErr_of_ok hstring)]
    cases e.value.string? <;> rfl
  | integer field =>
    dsimp only
    rw [run_bind_of_ok (run_mapErr_of_ok hread)]
    cases e.value.integer? <;> rfl
  | width =>
    have hfew := h.few
    have hdistinct := h.distinct
    rw [widthEntries_cons_of_width hpurpose] at hfew hdistinct
    obtain ⟨hname, n, hvalue, hpos⟩ := he.width hpurpose
    rw [length_cons] at hfew
    rw [map_cons, nodup_append] at hdistinct
    have hnew : e.name ∉ state.explicitWidths.map Prod.fst := by
      intro hmem
      exact hdistinct.2.2 _ hmem _ mem_cons_self rfl
    dsimp only
    rw [hvalue]
    exact readWidth_run hname hvalue hpos (by omega) hnew he.depth (by omega) rest
  | headCountKv =>
    have hdepth := he.depth
    cases hvalue : e.value with
    | array a =>
      have htype : (array a).type = GGUF_TYPE_ARRAY := rfl
      rw [hvalue, depth] at hdepth
      rw [hvalue, payload, length_append, length_append] at hsize
      have hheads := readPerLayer_run a (he.heads a hpurpose hvalue) hdepth (by omega) rest
      dsimp only
      rw [if_pos htype, run_bind_of_ok hheads]
      rfl
    | primitive p bits =>
      have htype : (primitive p bits).type ≠ GGUF_TYPE_ARRAY := p.code_ne_array
      rw [hvalue] at hread
      dsimp only
      rw [if_neg htype, run_bind_of_ok (run_mapErr_of_ok hread)]
      cases (primitive p bits).integer? <;> rfl
    | string bytes =>
      have htype : (string bytes).type ≠ GGUF_TYPE_ARRAY :=
        (by decide : GGUF_TYPE_STRING ≠ GGUF_TYPE_ARRAY)
      rw [hvalue] at hread
      dsimp only
      rw [if_neg htype, run_bind_of_ok (run_mapErr_of_ok hread)]
      rfl
  | nothing =>
    dsimp only
    rw [run_bind_of_ok (run_mapErr_of_ok hskip)]
    rfl

/-! ## What an entry changes -/

/-- The width that an entry gives, with its key. -/
def Entry.explicit (e : Entry) : Option (Text × Nat) :=
  if e.purpose = .width then e.value.integer?.map fun value => (e.name, value) else none

theorem Entry.apply_explicitWidths (state : ParseState) (e : Entry) :
    (e.apply state).explicitWidths = state.explicitWidths ++ e.explicit.toList := by
  rw [explicit]
  by_cases h : e.purpose = .width
  · rw [if_pos h, apply, h]
    dsimp only
    cases e.value.integer? with
    | some value => rfl
    | none => exact (append_nil _).symm
  · rw [if_neg h, apply_explicitWidths_of_ne h]
    exact (append_nil _).symm

theorem Readable.apply {entries : List Entry} (h : Readable state (e :: entries)) :
    Readable (e.apply state) entries := by
  have hsize := h.size
  have hfew := h.few
  have hdistinct := h.distinct
  have heach : ∀ e ∈ entries, e.Acceptable := fun e he => h.each e (mem_cons_of_mem _ he)
  rw [flatMap_cons, length_append] at hsize
  by_cases hpurpose : e.purpose = .width
  · obtain ⟨n, hvalue, -⟩ := ((h.each e mem_cons_self).width hpurpose).2
    have hwidths : (e.apply state).explicitWidths = state.explicitWidths ++ [(e.name, n)] := by
      rw [apply_explicitWidths, explicit, if_pos hpurpose, hvalue]
      rfl
    rw [widthEntries_cons_of_width hpurpose] at hfew hdistinct
    refine ⟨heach, by omega, ?_, ?_⟩
    · rw [length_cons] at hfew
      rw [hwidths, length_append, length_singleton]
      omega
    · rw [hwidths, map_append, append_assoc]
      exact hdistinct
  · rw [widthEntries_cons_of_ne hpurpose] at hfew hdistinct
    rw [← apply_explicitWidths_of_ne hpurpose state] at hfew hdistinct
    exact ⟨heach, by omega, hfew, hdistinct⟩

theorem Entry.apply_strings (state : ParseState) (e : Entry) (field : StringField) :
    (e.apply state).metadata.strings field =
      (e.strings field).or (state.metadata.strings field) := by
  rw [apply, strings]
  cases e.purpose with
  | string other =>
    dsimp only
    cases e.value.string? with
    | none => simp
    | some value =>
      by_cases h : field = other
      · subst h
        simp [GgufMetadata.setString]
      · simp [GgufMetadata.setString, h, Ne.symm h]
  | integer other => dsimp only; split <;> rfl
  | width => dsimp only; split <;> rfl
  | headCountKv =>
    dsimp only
    split
    · rfl
    · split <;> rfl
  | nothing => rfl

theorem Entry.apply_integers (state : ParseState) (e : Entry) (field : IntegerField) :
    (e.apply state).metadata.integers field =
      (e.integers field).or (state.metadata.integers field) := by
  rw [apply, integers]
  cases e.purpose with
  | string other => dsimp only; split <;> rfl
  | integer other =>
    dsimp only
    cases e.value.integer? with
    | none => simp
    | some value =>
      by_cases h : field = other
      · subst h
        simp [GgufMetadata.setInteger]
      · simp [GgufMetadata.setInteger, h, Ne.symm h]
  | width => dsimp only; split <;> rfl
  | headCountKv =>
    cases e.value with
    | array a => simp [integer?]
    | string bytes => simp [integer?]
    | primitive p bits =>
      dsimp only
      cases (primitive p bits).integer? with
      | none => simp
      | some value => by_cases h : field = .headCountKv <;> simp [GgufMetadata.setInteger, h]
  | nothing => rfl

theorem Entry.apply_perLayer (state : ParseState) (e : Entry) :
    (e.apply state).metadata.headCountKvPerLayer =
      e.perLayer.getD state.metadata.headCountKvPerLayer := by
  rw [apply, perLayer]
  cases e.purpose with
  | string other => dsimp only; split <;> rfl
  | integer other => dsimp only; split <;> rfl
  | width => dsimp only; split <;> rfl
  | headCountKv =>
    cases e.value with
    | array a => rfl
    | string bytes => rfl
    | primitive p bits => dsimp only; split <;> rfl
  | nothing => rfl

theorem Entry.apply_widths (state : ParseState) (e : Entry) :
    (e.apply state).metadata.widths = state.metadata.widths := by
  rw [apply]
  cases e.purpose with
  | string other => dsimp only; split <;> rfl
  | integer other => dsimp only; split <;> rfl
  | width => dsimp only; split <;> rfl
  | headCountKv =>
    dsimp only
    split
    · rfl
    · split <;> rfl
  | nothing => rfl

end Gen2.Gguf
