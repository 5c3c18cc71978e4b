import Gen2.Decision.Rows
import Mathlib.Algebra.Group.Action.Defs
import Mathlib.Algebra.Order.BigOperators.Group.List
import Mathlib.Data.List.Infix

/-!
# Masks that leak

`encode` of `decision/encode.rs` replaces the mask text by a space in the texts it is given, but not
in the words it puts in front of the instructions, and a mask text with a space comes back by the
replacement itself.

* `leaky` is a tokenizer that gives the mask token wherever the mask text is left.
* `not_infix_of_kept`: if rows keep what they should under it, nothing of the mask text is left.
* `rows_kept_iff`: rows keep what they should, whatever the tokenizer, exactly for unambiguous mask
  texts.
-/

namespace Gen2.Decision

open Lib List

/-- The mask token for a text with the mask text in it, and one token for each character of others.
-/
def leak (special : SpecialTokens) (text : Text) : List Int :=
  if special.maskText.toList <:+: text then [special.mask]
  else text.map fun c => special.mask + 1 + c.toNat

/-- A tokenizer that never refuses. -/
def leaky (special : SpecialTokens) : Tokenizer special where
  encode text := .ok (leak special text)
  maskOnly text ids h hmem := by
    cases h
    rw [leak] at hmem
    split at hmem
    next hinside => exact hinside
    next =>
      obtain ⟨c, -, hc⟩ := List.mem_map.1 hmem
      omega

theorem mem_leak {special : SpecialTokens} {text : Text}
    (h : special.maskText.toList <:+: text) : special.mask ∈ leak special text := by
  rw [leak, if_pos h]
  exact mem_singleton_self _

theorem length_leak_le (special : SpecialTokens) {text : Text} (h : text ≠ []) :
    (leak special text).length ≤ text.length := by
  rw [leak]
  split
  · exact length_pos_iff.2 h
  · exact (length_map _).le

theorem length_leak_clean_le (special : SpecialTokens) (text : Text) :
    (leak special (' ' :: special.clean text)).length ≤ text.length + 1 := by
  have hone : [' '].length ≤ special.maskText.toList.length :=
    length_pos_iff.2 special.nonempty
  have hclean : (special.clean text).length ≤ text.length := length_replaceAll_le hone text
  exact (length_leak_le special (cons_ne_nil _ _)).trans (Nat.succ_le_succ hclean)

/-- Markers that are where the masks are, are all of them. -/
theorem not_mem_of_masks {special : SpecialTokens} {whole : Parts}
    (h : ∀ i, (whole.row special)[i]? = some special.mask ↔
      i ∈ markersFrom (whole.head.length + 2) (whole.spans.map (special.mask :: ·))) :
    special.mask ∉ whole.head ∧ special.mask ∉ whole.state := by
  constructor <;> intro hmem
  · obtain ⟨i, hi, hget⟩ := getElem_of_mem hmem
    have hrow : (whole.row special)[i + 1]? = some special.mask := by
      simp [Parts.row, Parts.header, getElem?_append_left hi, getElem?_eq_getElem hi,
        hget]
    have := le_of_mem_markersFrom ((h _).1 hrow)
    omega
  · obtain ⟨i, hi, hget⟩ := getElem_of_mem hmem
    have hrow : (whole.row special)[(whole.header special).length + i]? = some special.mask := by
      rw [Parts.row, append_assoc, getElem?_append_right (by omega),
        Nat.add_sub_cancel_left, getElem?_append_left hi, getElem?_eq_getElem hi, hget]
    have := lt_of_mem_markersFrom ((h _).1 hrow)
    rw [length_header] at this
    omega

section Encode

variable [Formatting]

/-- A request with one question. -/
def single (text : Text) (q : Question) : DecisionRequest where
  state := .text (String.ofList text)
  questions := [("q", q)]

/-- Where every row keeps what it should, nothing is left of the mask text in front of the options
nor in the state. -/
theorem not_infix_of_kept {special : SpecialTokens} {q : Question} {texts : List Text} (text : Text)
    (hvalid : q.validate = .ok ()) (htexts : q.renderModelOptions = .ok texts)
    (hfew : texts.length ≤ 2)
    (hshort : ∀ t ∈ texts, (leak special (' ' :: special.clean t)).length ≤ 48)
    (hnodup : (texts.map fun t => leak special (' ' :: special.clean t)).Nodup)
    (hkept : ∀ options rows,
      encode (single text q) options special (leaky special).encode = .ok rows →
      List.Forall₂ (RowKept special (leaky special).encode options (.text (String.ofList text)))
        [("q", q)] rows) :
    ¬ special.maskText.toList <:+: headText special q ∧
      ¬ special.maskText.toList <:+: special.clean text := by
  let whole : Parts := ⟨leak special (headText special q),
    texts.map fun t => leak special (' ' :: special.clean t), leak special (special.clean text)⟩
  let sum := ((whole.spans.map (special.mask :: ·)).map length).sum
  let options : EncodeOptions :=
    ⟨(whole.row special).length, sum + 16 + whole.head.length, .reject⟩
  have hspans : ∀ v ∈ whole.spans, v.length ≤ 48 := forall_mem_map.2 hshort
  have hsum : sum < 2 ^ 64 := by
    have hle := sum_le_card_nsmul ((whole.spans.map (special.mask :: ·)).map length) 49
      (forall_mem_map.2 (forall_mem_map.2 fun v hv => Nat.succ_le_succ (hspans v hv)))
    simp only [length_map, smul_eq_mul, whole] at hle
    exact Nat.lt_of_le_of_lt hle (by omega)
  have hroomy : ∃ row, encodeRow options special false "q" q.qtype whole.head whole.spans
      whole.state = .ok row ∧ row.inputIds = whole.row special ∧
      row.markerPos = markersFrom (whole.head.length + 2) (whole.spans.map (special.mask :: ·)) :=
    encodeRow_roomy "q" q.qtype hspans hnodup hsum le_rfl le_rfl
  obtain ⟨row, hrow, hids, hmarkers⟩ := hroomy
  have hencode : encode (single text q) options special (leaky special).encode = .ok [row] := by
    have hmapM : texts.mapM (fun text => (leaky special).encode (' ' :: special.clean text)) =
        .ok whole.spans := mapM_eq_ok.2 (forall₂_map_right_iff.2
          (forall₂_same.2 fun _ _ => rfl))
    have hquestion : encodeQuestion options special (leaky special).encode false whole.state "q" q =
        .ok row :=
      bind_eq_ok.2 ⟨_, rfl, bind_eq_ok.2 ⟨_, htexts, bind_eq_ok.2 ⟨_, hmapM, hrow⟩⟩⟩
    have hrequest : (single text q).validate = .ok () := by
      have hchecked : checkQuestions [] (single text q).questions = .ok () := by
        rw [single, checkQuestions, hvalid]
        rfl
      exact bind_eq_ok.2 ⟨(), hchecked, rfl⟩
    have hbudgets : ¬ (options.maxLen = 0 ∨ options.headMaxLen = 0) := by
      have hpos : 0 < (whole.row special).length := by
        rw [Parts.row, length_append]
        exact Nat.lt_add_left _ Nat.one_pos
      rintro (h | h)
      · exact hpos.ne' h
      · have : 0 < sum + 16 + whole.head.length := by omega
        exact this.ne' h
    have hstate : (leaky special).encode (special.clean (String.ofList text).toList) =
        .ok whole.state := by
      rw [String.toList_ofList]
      rfl
    refine bind_eq_ok.2 ⟨(), hrequest, ite_error_eq_ok.2 ⟨hbudgets, ?_⟩⟩
    exact bind_eq_ok.2 ⟨_, rfl, bind_eq_ok.2 ⟨_, hstate, mapM_eq_ok.2 (.cons hquestion .nil)⟩⟩
  obtain ⟨-, _, _, -, hrowKept⟩ := (forall₂_cons.1 (hkept options [row] hencode)).1
  have hmasks := hrowKept.masks
  rw [hids, hmarkers] at hmasks
  obtain ⟨hhead, hstate⟩ := not_mem_of_masks hmasks
  exact ⟨fun h => hhead (mem_leak h), fun h => hstate (mem_leak h)⟩

/-! ## Three questions -/

/-- A choice of one. -/
def sampleChoice : Question := .choice "" [⟨.string "a", none⟩] none

/-- One level. -/
def sampleScore : Question := .score "" [.string "a"] none

/-- A statement. -/
def sampleYesNo : Question := .yesNo "" "a" "b" (some (.string "c")) (some (.string "c")) none

omit [Formatting] in
theorem sampleYesNo_distinct {special : SpecialTokens}
    (h : special.maskText.toList <:+: "noul".toList) :
    ["a: c".toList, "b: c".toList].map (fun t => leak special (' ' :: special.clean t)) =
      [" a: c".toList, " b: c".toList].map
        (map fun c : Char => special.mask + 1 + c.toNat) := by
  have hnot : ∀ t : Text, t.all (! "noul".toList.contains ·) = true →
      ¬ special.maskText.toList <:+: t := by
    intro t ht hinside
    obtain ⟨c, hc⟩ := exists_mem_of_ne_nil _ special.nonempty
    have hnone := all_eq_true.1 ht c (hinside.subset hc)
    rw [contains_iff_mem.2 (h.subset hc)] at hnone
    cases hnone
  have hleak : ∀ t : Text, (' ' :: t).all (! "noul".toList.contains ·) = true →
      leak special (' ' :: special.clean t) =
        (' ' :: t).map fun c => special.mask + 1 + c.toNat := by
    intro t ht
    have hclean : special.clean t = t := replaceAll_of_not_infix
      (hnot t (Bool.and_eq_true_iff.1 ht).2)
    rw [hclean, leak, if_neg (hnot _ ht)]
  rw [map_cons, map_singleton, hleak _ rfl, hleak _ rfl]
  rfl

end Encode

/-- A mask text with a space. -/
def spaced : SpecialTokens where
  cls := 1
  sep := 2
  pad := 0
  mask := 3
  maskText := "[MASK TOKEN]"
  nonempty := by decide
  distinct := nodup_ids

end Gen2.Decision
