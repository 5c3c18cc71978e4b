import Gen2.Decision.Encode

/-!
# What a row keeps

What `encode` of `decision/encode.rs` owes: every row fits its budget and ends with the separator,
its mask tokens are where the markers say, one in front of each option in the order they are
presented, and what was cut off is counted, or nothing was.

* `Kept` is the property of a row, and `encodeRow_kept` gives it for tokens without a mask.
* `encode_kept` is the result for whole requests, where the mask text is `Unambiguous`.
-/

namespace Gen2.Decision

open Lib List

/-! ## The tokens by what they are for -/

/-- The tokens of the instructions, of each option, and of the state. -/
structure Parts where
  head : List Int
  spans : List (List Int)
  state : List Int

/-- A row up to its state. -/
def Parts.header (special : SpecialTokens) (p : Parts) : List Int :=
  special.cls :: p.head ++ special.sep :: (p.spans.flatMap (special.mask :: ·) ++ [special.sep])

/-- A row. -/
def Parts.row (special : SpecialTokens) (p : Parts) : List Int :=
  p.header special ++ p.state ++ [special.sep]

/-- No part has a mask token. -/
def Parts.Unmasked (special : SpecialTokens) (p : Parts) : Prop :=
  special.mask ∉ p.head ∧ (∀ v ∈ p.spans, special.mask ∉ v) ∧ special.mask ∉ p.state

/-- What a row has to do with the tokens that there were: `p` is what is left of them. -/
structure Kept (special : SpecialTokens) (options : EncodeOptions) (truncateLeft : Bool)
    (whole p : Parts) (row : EncodedQuestion) : Prop where
  ids : row.inputIds = p.row special
  fits : row.inputIds.length ≤ options.maxLen
  last : row.inputIds.getLast? = some special.sep
  /-- The mask tokens are at the markers. -/
  masks : ∀ i, row.inputIds[i]? = some special.mask ↔ i ∈ row.markerPos
  increasing : row.markerPos.Pairwise (· < ·)
  /-- Behind each marker is the option that is presented there. -/
  presented : List.Forall₂ (fun m span => special.mask :: span <+: row.inputIds.drop m)
    row.markerPos p.spans
  head : p.head <+: whole.head
  spans : List.Forall₂ (· <+: ·) p.spans whole.spans
  total : row.optionsTotal = whole.spans.length
  headDropped : p.head.length + row.instructionTokensDropped = whole.head.length
  spansDropped : row.optionTokensDropped =
    List.zipWith (fun span left => span.length - left.length) whole.spans p.spans
  stateTokens : row.stateTokens = whole.state.length
  stateDropped : p.state.length + row.stateTokensDropped = whole.state.length
  /-- Where nothing may be lost nothing is. -/
  lossless : options.overflow = .reject → p = whole
  /-- Of the state as much as fits is left, the last of a conversation. -/
  state : p.state =
    let room := options.maxLen - ((p.header special).length + 1)
    if truncateLeft then whole.state.drop (whole.state.length - room) else whole.state.take room

/-! ## The markers -/

section Markers

variable {mask : Int}

theorem le_of_mem_markersFrom {start m : Nat} {options : List (List Int)}
    (h : m ∈ markersFrom start options) : start ≤ m := by
  induction options generalizing start with
  | nil => cases h
  | cons v options ih =>
    rcases mem_cons.1 h with rfl | h
    · exact Nat.le_refl _
    · exact Nat.le_of_add_right_le (ih h)

theorem lt_of_mem_markersFrom {start m : Nat} {spans : List (List Int)}
    (h : m ∈ markersFrom start (spans.map (mask :: ·))) :
    m < start + (spans.flatMap (mask :: ·)).length := by
  induction spans generalizing start with
  | nil => cases h
  | cons v spans ih =>
    rw [map_cons, markersFrom, mem_cons, length_cons] at h
    rw [flatMap_cons, length_append, length_cons]
    rcases h with rfl | h
    · omega
    · have := ih h
      omega

theorem length_markersFrom (start : Nat) (options : List (List Int)) :
    (markersFrom start options).length = options.length := by
  induction options generalizing start with
  | nil => rfl
  | cons v options ih => rw [markersFrom, length_cons, ih, length_cons]

theorem increasing_markersFrom (start : Nat) (spans : List (List Int)) :
    (markersFrom start (spans.map (mask :: ·))).Pairwise (· < ·) := by
  induction spans generalizing start with
  | nil => exact .nil
  | cons v spans ih =>
    rw [map_cons, markersFrom, pairwise_cons, length_cons]
    exact ⟨fun m hm => by have := le_of_mem_markersFrom hm; omega, ih _⟩

/-- In options without a mask of their own, the masks are at the markers. -/
theorem masks_of_spans {spans : List (List Int)} (h : ∀ v ∈ spans, mask ∉ v) {back : List Int}
    (hback : mask ∉ back) (start i : Nat) :
    (spans.flatMap (mask :: ·) ++ back)[i]? = some mask ↔
      start + i ∈ markersFrom start (spans.map (mask :: ·)) := by
  induction spans generalizing start i with
  | nil =>
    refine iff_of_false (fun hi => hback (mem_of_getElem? hi)) ?_
    rw [map_nil, markersFrom]
    exact not_mem_nil
  | cons v spans ih =>
    rw [forall_mem_cons] at h
    rw [flatMap_cons, append_assoc, cons_append, map_cons, markersFrom,
      mem_cons, length_cons]
    cases i with
    | zero => exact iff_of_true rfl (.inl rfl)
    | succ i =>
      rw [getElem?_cons_succ, or_iff_right (by omega)]
      rcases Nat.lt_or_ge i v.length with hlt | hge
      · rw [getElem?_append_left hlt]
        refine iff_of_false (fun hi => h.1 (mem_of_getElem? hi)) fun hm => ?_
        have := le_of_mem_markersFrom hm
        omega
      · rw [getElem?_append_right hge, ih h.2 (start + (v.length + 1))]
        exact iff_of_eq (congrArg (· ∈ _) (by omega))

/-- Behind each marker is its option. -/
theorem presented_markersFrom (front back : List Int) (spans : List (List Int)) :
    List.Forall₂
      (fun m span => mask :: span <+: (front ++ (spans.flatMap (mask :: ·) ++ back)).drop m)
      (markersFrom front.length (spans.map (mask :: ·))) spans := by
  induction spans generalizing front with
  | nil => exact .nil
  | cons v spans ih =>
    rw [map_cons, markersFrom]
    refine .cons ?_ ?_
    · rw [drop_left, flatMap_cons, append_assoc]
      exact prefix_append _ _
    · have hrest := ih (front ++ mask :: v)
      rw [length_append] at hrest
      rwa [flatMap_cons, append_assoc, ← append_assoc front]

end Markers

/-! ## One row -/

theorem clipOptions_ok {headMaxLen : Nat} {mask : Int} {spans clipped : List (List Int)}
    {perOption : Option Nat} (h : clipOptions headMaxLen mask spans = .ok (clipped, perOption)) :
    ∃ n, clipped = spans.map fun v => mask :: v.take n := by
  rw [clipOptions] at h
  have h := (ite_error_eq_ok.1 h).2
  split at h
  · cases h
    refine ⟨min (max ((headMaxLen - 16) / (spans.map fun v => mask :: v.take 48).length) 4 - 1) 48,
      ?_⟩
    rw [map_map]
    refine map_congr_left fun v _ => ?_
    rw [Function.comp_apply, take_cons (by omega), take_take]
  · cases h
    exact ⟨48, rfl⟩

theorem forall₂_map_take (n : Nat) (spans : List (List Int)) :
    List.Forall₂ (· <+: ·) (spans.map (take n)) spans := by
  rw [forall₂_map_left_iff]
  exact forall₂_same.2 fun v _ => take_prefix n v

/-- Prefixes that are not shorter are the whole. -/
theorem eq_of_none_dropped {lefts spans : List (List Int)}
    (h : List.Forall₂ (· <+: ·) lefts spans)
    (hnone : ∀ m ∈ zipWith (fun span left => span.length - left.length) spans lefts, m = 0) :
    lefts = spans := by
  induction h with
  | nil => rfl
  | cons hprefix _ ih =>
    rw [zipWith_cons_cons, forall_mem_cons] at hnone
    rw [ih hnone.2, hprefix.eq_of_length (by have := hprefix.length_le; omega)]

theorem length_header (special : SpecialTokens) (p : Parts) :
    (p.header special).length = p.head.length + (p.spans.flatMap (special.mask :: ·)).length + 3 := by
  simp [Parts.header]
  omega

/-- The masks of a row without others are where the markers of its spans are. -/
theorem masks_row {special : SpecialTokens} {p : Parts} (h : p.Unmasked special) (i : Nat) :
    (p.row special)[i]? = some special.mask ↔
      i ∈ markersFrom (p.head.length + 2) (p.spans.map (special.mask :: ·)) := by
  obtain ⟨hhead, hspans, hstate⟩ := h
  have hdistinct := special.distinct
  simp only [nodup_cons, mem_cons, not_mem_nil, or_false, not_or] at hdistinct
  obtain ⟨⟨-, -, hcls⟩, ⟨-, hsep⟩, -⟩ := hdistinct
  have hrow : p.row special = (special.cls :: p.head ++ [special.sep]) ++
      (p.spans.flatMap (special.mask :: ·) ++ (special.sep :: (p.state ++ [special.sep]))) := by
    simp [Parts.row, Parts.header]
  have hlength : (special.cls :: p.head ++ [special.sep]).length = p.head.length + 2 := by simp
  have hfront : special.mask ∉ special.cls :: p.head ++ [special.sep] := by
    simp [hhead, Ne.symm hcls, Ne.symm hsep]
  have hback : special.mask ∉ special.sep :: (p.state ++ [special.sep]) := by
    simp [hstate, Ne.symm hsep]
  rw [hrow]
  rcases Nat.lt_or_ge i (p.head.length + 2) with hlt | hge
  · rw [getElem?_append_left (by omega)]
    refine iff_of_false (fun hi => hfront (mem_of_getElem? hi)) fun hm => ?_
    have := le_of_mem_markersFrom hm
    omega
  · rw [getElem?_append_right (by omega), hlength, masks_of_spans hspans hback
      (p.head.length + 2)]
    exact iff_of_eq (congrArg (· ∈ _) (by omega))

/-- Behind each marker of a row is its option. -/
theorem presented_row (special : SpecialTokens) (p : Parts) :
    List.Forall₂ (fun m span => special.mask :: span <+: (p.row special).drop m)
      (markersFrom (p.head.length + 2) (p.spans.map (special.mask :: ·))) p.spans := by
  have h := @presented_markersFrom special.mask (special.cls :: p.head ++ [special.sep])
    (special.sep :: (p.state ++ [special.sep])) p.spans
  simpa [Parts.row, Parts.header] using h

/-- As much as fits is not more than there is. -/
theorem cut_min (truncateLeft : Bool) (room : Nat) (state : List Int) :
    (if truncateLeft then state.drop (state.length - min room state.length)
      else state.take (min room state.length)) =
      if truncateLeft then state.drop (state.length - room) else state.take room := by
  split
  · exact congrArg (drop · state) (by omega)
  · exact take_eq_take_iff.2 (by omega)

/-- What is left of the tokens when `n` of each option are. -/
def Parts.cut (options : EncodeOptions) (special : SpecialTokens) (truncateLeft : Bool) (n : Nat)
    (whole : Parts) : Parts :=
  let spans := whole.spans.map (List.take n)
  let sum := ((spans.map (special.mask :: ·)).map List.length).sum
  let head := whole.head.take (max (options.headMaxLen - sum) 8)
  let room := options.maxLen - ((Parts.header special ⟨head, spans, []⟩).length + 1)
  let used := min room whole.state.length
  ⟨head, spans, if truncateLeft then whole.state.drop (whole.state.length - used)
    else whole.state.take used⟩

/-- The state takes up the room that is left at most. -/
theorem length_cut_state (options : EncodeOptions) (special : SpecialTokens) (truncateLeft : Bool)
    (n : Nat) (whole : Parts) :
    (whole.cut options special truncateLeft n).state.length =
      min (options.maxLen -
        (((whole.cut options special truncateLeft n).header special).length + 1))
        whole.state.length := by
  rw [Parts.cut]
  dsimp only
  split
  · rw [length_drop]
    exact Nat.sub_sub_self (Nat.min_le_right _ _)
  · rw [length_take]
    exact Nat.min_eq_left (Nat.min_le_right _ _)

/-- A row whose header fits does. -/
theorem length_cut_row {options : EncodeOptions} {special : SpecialTokens} {truncateLeft : Bool}
    {n : Nat} {whole : Parts}
    (h : ((whole.cut options special truncateLeft n).header special).length < options.maxLen) :
    ((whole.cut options special truncateLeft n).row special).length ≤ options.maxLen := by
  rw [Parts.row, length_append, length_append, length_singleton, length_cut_state]
  omega

section Encode

variable [Formatting]

variable {options : EncodeOptions} {special : SpecialTokens} {truncateLeft : Bool} {id : String}
  {qtype : Fin 3} {whole : Parts} {row : EncodedQuestion}

/-- What it takes for a row to come out, and which one does. -/
theorem encodeRow_ok
    (h : encodeRow options special truncateLeft id qtype whole.head whole.spans whole.state =
      .ok row) :
    ∃ n p, p = whole.cut options special truncateLeft n ∧
      (p.header special).length < options.maxLen ∧
      (options.overflow = .reject →
        whole.head.length - p.head.length = 0 ∧
        (∀ m ∈ row.optionTokensDropped, m = 0) ∧ row.stateTokensDropped = 0) ∧
      row.id = id ∧ row.inputIds = (p.row special).take options.maxLen ∧
      row.markerPos = markersFrom (p.head.length + 2) (p.spans.map (special.mask :: ·)) ∧
      row.optionsTotal = whole.spans.length ∧
      row.instructionTokensDropped = whole.head.length - p.head.length ∧
      row.optionTokensDropped = zipWith (fun span left => span.length - left.length)
        whole.spans p.spans ∧
      row.stateTokens = whole.state.length ∧
      row.stateTokensDropped = whole.state.length -
        min (options.maxLen - ((p.header special).length + 1)) whole.state.length := by
  obtain ⟨⟨clipped, perOption⟩, hclip, h⟩ := bind_eq_ok.1 h
  obtain ⟨n, hclipped⟩ := clipOptions_ok hclip
  obtain rfl : clipped = (whole.spans.map (take n)).map (special.mask :: ·) := by
    rw [hclipped, map_map]
    rfl
  have hdropped : ∀ spans : List (List Int),
      zipWith (fun original actual => original.length + 1 - actual.length) spans
          ((spans.map (take n)).map (special.mask :: ·)) =
        zipWith (fun span left => span.length - left.length) spans
          (spans.map (take n)) := by
    intro spans
    rw [zipWith_map_right]
    simp only [length_cons, Nat.add_sub_add_right]
  obtain ⟨-, h⟩ := ite_error_eq_ok.1 h
  obtain ⟨hreject, h⟩ := ite_error_eq_ok.1 h
  obtain ⟨hroom, h⟩ := ite_error_eq_ok.1 h
  obtain ⟨hdrop, h⟩ := ite_error_eq_ok.1 h
  obtain ⟨hmarkers, h⟩ := ite_error_eq_ok.1 h
  cases h
  refine ⟨n, _, rfl, Nat.lt_of_not_ge hroom, fun hpolicy => ?_, rfl, rfl, ?_, by simp, rfl,
    hdropped _, rfl, rfl⟩
  · have hno := not_and.1 hreject hpolicy
    rw [not_or] at hno
    refine ⟨Nat.eq_zero_of_not_pos hno.1, fun m hm => Nat.eq_zero_of_not_pos fun hpos => ?_,
      Nat.eq_zero_of_not_pos fun hpos => hdrop ⟨hpos, hpolicy⟩⟩
    exact hno.2 (any_eq_true.2 ⟨m, hm, by simpa using hpos⟩)
  · exact filter_sublist.eq_of_length
      ((not_not.1 hmarkers).trans (length_markersFrom _ _).symm)

theorem encodeRow_id (whole : Parts)
    (h : encodeRow options special truncateLeft id qtype whole.head whole.spans whole.state =
      .ok row) : row.id = id := by
  obtain ⟨_, _, -, -, -, hid, -⟩ := encodeRow_ok h
  exact hid

/-- **A row keeps what it should**, when none of its parts has a mask token. -/
theorem encodeRow_kept
    (h : encodeRow options special truncateLeft id qtype whole.head whole.spans whole.state =
      .ok row) (hmask : whole.Unmasked special) :
    row.id = id ∧ ∃ p, Kept special options truncateLeft whole p row := by
  obtain ⟨n, p, hp, hroom, hreject, hid, hids, hmarkers, htotal, hhead, hspans, hstate, hdropped⟩ :=
    encodeRow_ok h
  have hheadPrefix : p.head <+: whole.head := hp ▸ take_prefix _ _
  have hspansPrefix : List.Forall₂ (· <+: ·) p.spans whole.spans :=
    hp ▸ forall₂_map_take n whole.spans
  have hstateEq : p.state =
      let room := options.maxLen - ((p.header special).length + 1)
      if truncateLeft then whole.state.drop (whole.state.length - room)
      else whole.state.take room := by
    subst hp
    exact cut_min _ _ _
  have hstateLength : p.state.length = min (options.maxLen - ((p.header special).length + 1))
      whole.state.length := hp ▸ length_cut_state options special truncateLeft n whole
  have hlength : (p.row special).length ≤ options.maxLen := by
    subst hp
    exact length_cut_row hroom
  have hrow : row.inputIds = p.row special := hids.trans (take_of_length_le hlength)
  have hunmasked : p.Unmasked special := by
    refine ⟨fun hmem => hmask.1 (hheadPrefix.subset hmem), fun v hv hmem => ?_, fun hmem => ?_⟩
    · rw [hp] at hv
      obtain ⟨span, hwhole, rfl⟩ := mem_map.1 hv
      exact hmask.2.1 span hwhole (mem_of_mem_take hmem)
    · rw [hstateEq] at hmem
      split at hmem
      · exact hmask.2.2 (mem_of_mem_drop hmem)
      · exact hmask.2.2 (mem_of_mem_take hmem)
  refine ⟨hid, p, ⟨hrow, hrow ▸ hlength, ?_, ?_, ?_, ?_, hheadPrefix, hspansPrefix, htotal, ?_,
    hspans, hstate, ?_, fun hpolicy => ?_, hstateEq⟩⟩
  · rw [hrow, Parts.row, getLast?_concat]
  · rw [hrow, hmarkers]
    exact masks_row hunmasked
  · rw [hmarkers]
    exact increasing_markersFrom _ _
  · rw [hrow, hmarkers]
    exact presented_row special p
  · have := hheadPrefix.length_le
    omega
  · omega
  obtain ⟨hhead', hspans', hstate'⟩ := hreject hpolicy
  have hheads : p.head = whole.head :=
    hheadPrefix.eq_of_length (by have := hheadPrefix.length_le; omega)
  have hall : p.spans = whole.spans := eq_of_none_dropped hspansPrefix (hspans ▸ hspans')
  have hstates : p.state = whole.state := by
    have hroomy : whole.state.length ≤ options.maxLen - ((p.header special).length + 1) := by
      omega
    rw [hstateEq]
    dsimp only
    split
    · rw [Nat.sub_eq_zero_of_le hroomy, drop_zero]
    · exact take_of_length_le hroomy
  cases p
  cases whole
  cases hheads
  cases hall
  cases hstates
  rfl

/-- Behind each marker is what is left of an option, whatever the tokens are. -/
theorem encodeRow_presented (whole : Parts)
    (h : encodeRow options special truncateLeft id qtype whole.head whole.spans whole.state =
      .ok row) :
    ∃ lefts, List.Forall₂ (· <+: ·) lefts whole.spans ∧
      List.Forall₂ (fun m left => special.mask :: left <+: row.inputIds.drop m) row.markerPos
        lefts := by
  obtain ⟨n, p, rfl, hroom, -, -, hids, hmarkers, -⟩ := encodeRow_ok h
  refine ⟨_, forall₂_map_take n whole.spans, ?_⟩
  rw [hids, hmarkers, take_of_length_le (length_cut_row hroom)]
  exact presented_row special _

/-- Budgets with room for everything lose nothing. -/
theorem encodeRow_roomy (id : String) (qtype : Fin 3) (hshort : ∀ v ∈ whole.spans, v.length ≤ 48)
    (hnodup : whole.spans.Nodup)
    (hfits : ((whole.spans.map (special.mask :: ·)).map length).sum < 2 ^ 64)
    (hhead : ((whole.spans.map (special.mask :: ·)).map length).sum + 16 +
      whole.head.length ≤ options.headMaxLen)
    (hlength : (whole.row special).length ≤ options.maxLen) :
    ∃ row, encodeRow options special truncateLeft id qtype whole.head whole.spans whole.state =
        .ok row ∧
      row.inputIds = whole.row special ∧
      row.markerPos = markersFrom (whole.head.length + 2) (whole.spans.map (special.mask :: ·)) := by
  have hmarked : (whole.spans.map fun v => special.mask :: v.take 48) =
      whole.spans.map (special.mask :: ·) :=
    map_congr_left fun v hv => by rw [take_of_length_le (hshort v hv)]
  have hclip : clipOptions options.headMaxLen special.mask whole.spans =
      .ok (whole.spans.map (special.mask :: ·), none) := by
    rw [clipOptions, hmarked, if_neg (by omega), if_neg (by omega)]
  have hkept : whole.head.take (max (options.headMaxLen -
      ((whole.spans.map (special.mask :: ·)).map length).sum) 8) = whole.head :=
    take_of_length_le (by omega)
  have hdistinct : (whole.spans.map (special.mask :: ·)).dedup.length =
      (whole.spans.map (special.mask :: ·)).length := by
    rw [(hnodup.map cons_injective).dedup]
  have hdropped : ∀ m ∈ zipWith (fun original actual => original.length + 1 - actual.length)
      whole.spans (whole.spans.map (special.mask :: ·)), m = 0 := by
    rw [zipWith_map_right]
    simp [mem_iff_get]
  have hheader : (special.cls :: whole.head ++
      special.sep :: ((whole.spans.map (special.mask :: ·)).flatten ++ [special.sep])) =
      whole.header special := by
    rw [Parts.header, flatMap_def]
  have hfull : (whole.row special).take options.maxLen = whole.row special :=
    take_of_length_le hlength
  have hsize : (whole.row special).length = (whole.header special).length + whole.state.length + 1 :=
    by rw [Parts.row, length_append, length_append, length_singleton]
  have hmarkers : (markersFrom (whole.head.length + 2) (whole.spans.map (special.mask :: ·))).filter
      (· < (whole.row special).length) =
      markersFrom (whole.head.length + 2) (whole.spans.map (special.mask :: ·)) := by
    refine filter_eq_self.2 fun m hm => decide_eq_true ?_
    have := lt_of_mem_markersFrom hm
    rw [hsize, length_header]
    omega
  have hroom : min (options.maxLen - ((whole.header special).length + 1)) whole.state.length =
      whole.state.length := Nat.min_eq_right (by omega)
  have hkeeps : ¬ ((zipWith (fun original actual => original.length + 1 - actual.length)
      whole.spans (whole.spans.map (special.mask :: ·))).any (0 < ·)) = true := by
    rw [any_eq_true]
    rintro ⟨m, hm, hpos⟩
    rw [hdropped m hm] at hpos
    exact absurd hpos (by decide)
  have hrow : whole.header special ++ whole.state ++ [special.sep] = whole.row special := rfl
  rw [encodeRow, hclip]
  dsimp only [bind, Except.bind]
  simp only [hkept, hheader, hroom, Nat.sub_self, drop_zero, take_length, ite_self,
    hrow, hfull, hmarkers]
  rw [if_neg (by omega), if_neg (by simpa using fun _ => hkeeps), if_neg (by omega),
    if_neg (by simp), if_neg (by simp [length_markersFrom])]
  exact ⟨_, rfl, rfl, rfl⟩

/-! ## Whole requests -/

/-- The tokens of a question with its state, where the mask text is replaced in the texts that are
not the program's own. -/
structure Tokenized (special : SpecialTokens) (tokenize : Text → Except DecisionError (List Int))
    (state : DecisionState) (q : Question) (whole : Parts) : Prop where
  head : tokenize (headText special q) = .ok whole.head
  /-- The options, in the order they are presented. -/
  spans : ∃ texts, q.renderModelOptions = .ok texts ∧
    List.Forall₂ (fun text span => tokenize (' ' :: special.clean text) = .ok span) texts whole.spans
  state : ∃ text, state.serialize = .ok text ∧ tokenize (special.clean text) = .ok whole.state

/-- What a question's row owes. -/
def RowKept (special : SpecialTokens) (tokenize : Text → Except DecisionError (List Int))
    (options : EncodeOptions) (state : DecisionState) (asked : String × Question)
    (row : EncodedQuestion) : Prop :=
  row.id = asked.1 ∧ ∃ whole p, Tokenized special tokenize state asked.2 whole ∧
    Kept special options state.truncateLeft whole p row

/-- The mask text has no space, and is not in the words in front of the instructions. -/
def SpecialTokens.Unambiguous (special : SpecialTokens) : Prop :=
  ' ' ∉ special.maskText.toList ∧
    ∀ word ∈ ["choice", "score", "noul", "question:"], ¬ special.maskText.toList <:+: word.toList

omit [Formatting] in
theorem not_infix_clean (h : ' ' ∉ special.maskText.toList) (text : Text) :
    ¬ special.maskText.toList <:+: special.clean text :=
  not_infix_replaceAll special.nonempty (cons_ne_nil _ _)
    (fun _ ha hspace => h (by rwa [mem_singleton.1 hspace] at ha)) text

omit [Formatting] in
theorem not_infix_headText (h : special.Unambiguous) (q : Question) :
    ¬ special.maskText.toList <:+: headText special q := by
  have htext : headText special q =
      q.typeName ++ ' ' :: ("question:".toList ++ ' ' :: special.clean q.instructions.toList) := by
    rw [headText, append_assoc]
    rfl
  rw [htext, infix_append_cons_iff h.1, infix_append_cons_iff h.1]
  have hname : ¬ special.maskText.toList <:+: q.typeName := by
    cases q with
    | choice => exact h.2 "choice" (by simp)
    | score => exact h.2 "score" (by simp)
    | yesNo => exact h.2 "noul" (by simp)
  rintro (hinside | hinside | hinside)
  · exact hname hinside
  · exact h.2 "question:" (by simp) hinside
  · exact not_infix_clean h.1 _ hinside

/-- The tokens of a question have no mask, whatever its texts are. -/
theorem Tokenized.unmasked {tokenizer : Tokenizer special} {state : DecisionState} {q : Question}
    (h : Tokenized special tokenizer.encode state q whole) (hmask : special.Unambiguous) :
    whole.Unmasked special := by
  obtain ⟨texts, -, hspans⟩ := h.spans
  obtain ⟨text, -, hstate⟩ := h.state
  refine ⟨fun hmem => ?_, fun v hv hmem => ?_, fun hmem => ?_⟩
  · exact not_infix_headText hmask q (tokenizer.maskOnly _ _ h.head hmem)
  · obtain ⟨i, hi, rfl⟩ := getElem_of_mem hv
    have hspan := hspans.get (by rw [hspans.length_eq]; exact hi) hi
    have hinside := tokenizer.maskOnly _ _ hspan hmem
    rcases (infix_append_cons_iff (s := []) hmask.1).1 hinside with hnil | hinside
    · exact special.nonempty (infix_nil.1 hnil)
    · exact not_infix_clean hmask.1 _ hinside
  · exact not_infix_clean hmask.1 _ (tokenizer.maskOnly _ _ hstate hmem)

/-- What it takes for a row of a question to come out. -/
theorem encodeQuestion_ok {tokenize : Text → Except DecisionError (List Int)} {stateIds : List Int}
    {q : Question}
    (h : encodeQuestion options special tokenize truncateLeft stateIds id q = .ok row) :
    ∃ head texts spans, tokenize (headText special q) = .ok head ∧
      q.renderModelOptions = .ok texts ∧
      List.Forall₂ (fun text span => tokenize (' ' :: special.clean text) = .ok span) texts spans ∧
      encodeRow options special truncateLeft id q.qtype head spans stateIds = .ok row := by
  obtain ⟨head, hhead, h⟩ := bind_eq_ok.1 h
  obtain ⟨texts, htexts, h⟩ := bind_eq_ok.1 h
  obtain ⟨spans, hspans, h⟩ := bind_eq_ok.1 h
  exact ⟨head, texts, spans, hhead, htexts, mapM_eq_ok.1 hspans, h⟩

/-- Each question has its row. -/
theorem encode_ok {request : DecisionRequest} {tokenize : Text → Except DecisionError (List Int)}
    {rows : List EncodedQuestion} (h : encode request options special tokenize = .ok rows) :
    List.Forall₂ (fun (asked : String × Question) row => ∃ text stateIds,
      request.state.serialize = .ok text ∧ tokenize (special.clean text) = .ok stateIds ∧
      encodeQuestion options special tokenize request.state.truncateLeft stateIds asked.1 asked.2 =
        .ok row) request.questions rows := by
  obtain ⟨⟨⟩, -, h⟩ := bind_eq_ok.1 h
  obtain ⟨-, h⟩ := ite_error_eq_ok.1 h
  split at h
  next hempty =>
    cases h
    rw [isEmpty_iff.1 hempty]
    exact .nil
  obtain ⟨text, htext, h⟩ := bind_eq_ok.1 h
  obtain ⟨stateIds, hstate, h⟩ := bind_eq_ok.1 h
  exact (mapM_eq_ok.1 h).imp fun _ _ hrow => ⟨text, stateIds, htext, hstate, hrow⟩

theorem encode_kept (hmask : special.Unambiguous) {tokenizer : Tokenizer special}
    {request : DecisionRequest} {rows : List EncodedQuestion}
    (h : encode request options special tokenizer.encode = .ok rows) :
    List.Forall₂ (RowKept special tokenizer.encode options request.state) request.questions
      rows := by
  refine (encode_ok h).imp fun asked row ⟨text, stateIds, htext, hstate, hrow⟩ => ?_
  obtain ⟨head, texts, spans, hhead, htexts, hspans, hrow⟩ := encodeQuestion_ok hrow
  have htokenized : Tokenized special tokenizer.encode request.state asked.2
      ⟨head, spans, stateIds⟩ :=
    ⟨hhead, ⟨texts, htexts, hspans⟩, ⟨text, htext, hstate⟩⟩
  obtain ⟨hid, p, hkept⟩ := encodeRow_kept hrow (htokenized.unmasked hmask)
  exact ⟨hid, _, p, htokenized, hkept⟩

end Encode

end Gen2.Decision
