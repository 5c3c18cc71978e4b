import Gen2.Decision.Decode
import Gen2.Decision.Rows
import Mathlib.Data.List.GetD

/-!
# The order of the options

What an option order owes: the options are presented in it, each gets the probability of its slot,
and the answer does not depend on it.

* `Presented` is what `encode` makes of an order, and `decode_assigns` what `decode` does.
* `decode_follows`: an answer to logits that follow the options is that of the canonical order, when
  the exponentials have one sum in both orders.
* `order_kept` is the result.  The sums of `f64`s can differ in two orders: `sum_reordered` has
  three logits whose exponentials do not have the same one.
-/

namespace Gen2.Decision

open Lib List Question

variable [Formatting]

/-! ## What is presented -/

/-- At the marker of slot `s` are the tokens, or the first of them, of the option `slots[s]`. -/
def Presented (special : SpecialTokens) (tokenize : Text → Except DecisionError (List Int))
    (q : Question) (row : EncodedQuestion) : Prop :=
  row.markerPos.length = q.count ∧ ∃ canonical, q.renderOptions = .ok canonical ∧
    ∀ s i : Nat, q.slots[s]? = some i → ∃ m text span left, row.markerPos[s]? = some m ∧
      canonical[i]? = some text ∧ tokenize (' ' :: special.clean text) = .ok span ∧
      left <+: span ∧ special.mask :: left <+: row.inputIds.drop m

theorem presented {special : SpecialTokens} {tokenize : Text → Except DecisionError (List Int)}
    {options : EncodeOptions} {truncateLeft : Bool} {stateIds : List Int} {id : String}
    {q : Question} {row : EncodedQuestion}
    (h : encodeQuestion options special tokenize truncateLeft stateIds id q = .ok row) :
    Presented special tokenize q row := by
  obtain ⟨head, texts, spans, -, htexts, hspans, hrow⟩ := encodeQuestion_ok h
  obtain ⟨lefts, hlefts, hmarkers⟩ := encodeRow_presented ⟨head, spans, stateIds⟩ hrow
  obtain ⟨canonical, hcanonical, rfl⟩ := renderModelOptions_eq htexts
  obtain ⟨hvalid, hcount⟩ := renderOptions_ok hcanonical
  have hperm := perm_slots hvalid
  have hlength : row.markerPos.length = q.count := by
    rw [hmarkers.length_eq, hlefts.length_eq, ← hspans.length_eq, length_map, hperm.length_eq,
      length_range]
  refine ⟨hlength, canonical, hcanonical, fun s i hs => ?_⟩
  have hi : i < canonical.length := by
    rw [hcount]
    exact mem_range.1 (hperm.subset (mem_of_getElem? hs))
  have htext : (q.slots.map fun i => canonical.getD i [])[s]? = some canonical[i] := by
    rw [getElem?_map, hs, Option.map_some, getD_eq_getElem _ _ hi]
  obtain ⟨span, hspan, htokens⟩ := forall₂_getElem? hspans htext
  obtain ⟨left, hleft, hprefix⟩ := forall₂_getElem? hlefts.flip hspan
  obtain ⟨m, hm, hmarked⟩ := forall₂_getElem? hmarkers.flip hleft
  exact ⟨m, canonical[i], span, left, hm, getElem?_eq_getElem hi, htokens, hprefix, hmarked⟩

/-! ## What is assigned -/

section Decode

variable {L F : Type} {fp : Floats L F}

variable {logits : List L} {temperature : F}

omit [Formatting] in
theorem softmax_ok {slots : List F} (h : fp.softmax logits temperature = .ok slots) :
    slots = (fp.exponentials logits temperature).map
      (fp.div · (fp.sum (fp.exponentials logits temperature))) := by
  cases (ite_error_eq_ok.1 h).2
  rfl

omit [Formatting] in
theorem length_softmax {slots : List F} (h : fp.softmax logits temperature = .ok slots) :
    slots.length = logits.length := by
  rw [softmax_ok h, length_map, Floats.exponentials, length_map]

/-- The probabilities in the canonical order. -/
def restored (q : Question) (slots : List F) : List F :=
  match q.optionOrder with
  | some order => scatter order slots slots
  | none => slots

variable {q : Question}

omit [Formatting] in
/-- The probability of slot `s` is that of the option `slots[s]`. -/
theorem getElem?_restored (h : q.slots.Perm (List.range q.count)) {ps : List F}
    (hlength : ps.length = q.count) {s i : Nat} (hs : q.slots[s]? = some i) :
    (restored q ps)[i]? = ps[s]? := by
  rw [slots] at h hs
  rw [restored]
  cases horder : q.optionOrder with
  | some order =>
    rw [horder, Option.getD_some] at h hs
    refine getElem?_scatter (h.nodup_iff.2 List.nodup_range) ?_ (fun i hi => ?_) hs
    · rw [h.length_eq, List.length_range, hlength]
    · rw [hlength]
      exact List.mem_range.1 (h.subset hi)
  | none =>
    rw [horder, Option.getD_none] at hs
    obtain ⟨-, rfl⟩ := List.getElem?_eq_some_iff.1 hs
    rw [List.getElem_range]

omit [Formatting] in
theorem length_restored (q : Question) (ps : List F) : (restored q ps).length = ps.length := by
  rw [restored]
  split
  · exact length_scatter _ _ _
  · rfl

omit [Formatting] in
/-- Slots that hold what an option is to get, give it to it. -/
theorem restored_eq (h : q.slots.Perm (range q.count)) {ps xs : List F}
    (hps : ps.length = q.count) (hxs : xs.length = q.count)
    (heq : ∀ s i : Nat, q.slots[s]? = some i → ps[s]? = xs[i]?) : restored q ps = xs := by
  refine ext_getElem? fun i => ?_
  rcases Nat.lt_or_ge i q.count with hi | hi
  · obtain ⟨s, hs⟩ := mem_iff_getElem?.1 (h.symm.subset (mem_range.2 hi))
    rw [getElem?_restored h hps hs, heq s i hs]
  · rw [getElem?_eq_none (by rwa [length_restored, hps]), getElem?_eq_none (by rwa [hxs])]

variable [LinearOrder F] {calibration : Calibration F}

theorem read_ok {k : Nat} {language : Bool} {actionLogits : L × L} {probabilities : List F}
    {answer : Answer F}
    (h : calibration.read fp q k language temperature actionLogits probabilities = .ok answer) :
    answer.probabilities = probabilities ∧ answer.temperature = temperature := by
  obtain ⟨value, -, h⟩ := bind_eq_ok.1 h
  obtain ⟨act, -, h⟩ := bind_eq_ok.1 h
  cases h
  exact ⟨rfl, rfl⟩

/-- **Each option gets the probability of its slot.** -/
theorem decode_assigns {lowercase : String → String} {actionLogits : L × L}
    {language : Option String} {answer : Answer F}
    (h : calibration.decode fp lowercase q logits actionLogits language = .ok answer) :
    ∃ slots, fp.softmax (logits.take q.count) answer.temperature = .ok slots ∧
      slots.length = q.count ∧ answer.probabilities.length = q.count ∧
      ∀ s i : Nat, q.slots[s]? = some i → answer.probabilities[i]? = slots[s]? := by
  obtain ⟨⟨⟩, -, h⟩ := bind_eq_ok.1 h
  obtain ⟨⟨⟩, hvalid, h⟩ := bind_eq_ok.1 h
  obtain ⟨canonical, hcanonical, h⟩ := bind_eq_ok.1 h
  rw [(renderOptions_ok hcanonical).2] at h
  obtain ⟨hlength, h⟩ := ite_error_eq_ok.1 h
  obtain ⟨slots, hslots, h⟩ := bind_eq_ok.1 h
  obtain ⟨hprobabilities, htemperature⟩ := read_ok h
  have hcount : slots.length = q.count := by
    rw [length_softmax hslots, length_take]
    omega
  refine ⟨slots, htemperature ▸ hslots, hcount, ?_, fun s i hs => ?_⟩
  · exact (congrArg _ hprobabilities).trans ((length_restored q slots).trans hcount)
  · rw [hprobabilities]
    exact getElem?_restored (perm_slots hvalid) hcount hs

/-! ## What does not depend on the order -/

/-- The logits of the slots are those of the options. -/
def Follows (q : Question) (logits given : List L) : Prop :=
  ∀ s i : Nat, q.slots[s]? = some i → given[s]? = logits[i]?

variable {given : List L}

omit [Formatting] [LinearOrder F] in
/-- Too few logits are too few in any order. -/
theorem Follows.length_lt_iff (h : Follows q logits given)
    (hperm : q.slots.Perm (range q.count)) :
    given.length < q.count ↔ logits.length < q.count := by
  have hlength : q.slots.length = q.count := hperm.length_eq.trans length_range
  constructor
  · intro hlt
    have hs := getElem?_eq_getElem (hlength.symm ▸ hlt)
    have hnone := (h _ _ hs).symm.trans (getElem?_eq_none (Nat.le_refl _))
    exact Nat.lt_of_le_of_lt (getElem?_eq_none_iff.1 hnone)
      (mem_range.1 (hperm.subset (getElem_mem _)))
  · intro hlt
    obtain ⟨s, hs⟩ := mem_iff_getElem?.1 (hperm.symm.subset (mem_range.2 hlt))
    have hnone := (h s _ hs).trans (getElem?_eq_none (Nat.le_refl _))
    exact Nat.lt_of_le_of_lt (getElem?_eq_none_iff.1 hnone)
      (hlength ▸ (List.getElem?_eq_some_iff.1 hs).1)

omit [Formatting] [LinearOrder F] in
/-- The logits of the slots are those of the options, in another order. -/
theorem Follows.perm (h : Follows q logits given) (hperm : q.slots.Perm (range q.count))
    (hlogits : q.count ≤ logits.length) (d : L) :
    (given.take q.count).Perm (logits.take q.count) := by
  have hlength : q.slots.length = q.count := hperm.length_eq.trans length_range
  have hgiven : given.take q.count = q.slots.map (logits.getD · d) := by
    refine ext_getElem? fun s => ?_
    rcases Nat.lt_or_ge s q.count with hs | hs
    · have hslot := getElem?_eq_getElem (hlength.symm ▸ hs)
      have hi := mem_range.1 (hperm.subset (mem_of_getElem? hslot))
      rw [getElem?_take_of_lt hs, getElem?_map, hslot, Option.map_some, h _ _ hslot,
        getElem?_eq_getElem (hi.trans_le hlogits),
        getD_eq_getElem _ _ (hi.trans_le hlogits)]
    · rw [getElem?_eq_none ((length_take_le _ _).trans hs),
        getElem?_eq_none (by rwa [length_map, hlength])]
  have hrange : logits.take q.count = (range q.count).map (logits.getD · d) := by
    refine ext_getElem (by simpa using hlogits) fun i hi _ => ?_
    rw [length_take] at hi
    rw [getElem_take, getElem_map, getElem_range,
      getD_eq_getElem _ _ (by omega)]
  rw [hgiven, hrange]
  exact hperm.map _

omit [Formatting] [LinearOrder F] in
theorem max_eq_of_perm {xs ys : List L} (h : xs.Perm ys) :
    xs.foldl fp.max fp.negInfinity = ys.foldl fp.max fp.negInfinity := by
  have : RightCommutative fp.max := ⟨fun x y z => by
    rw [fp.max_assoc, fp.max_comm y z, ← fp.max_assoc]⟩
  exact h.foldl_eq _

omit [Formatting] [LinearOrder F] in
theorem perm_exponentials {xs ys : List L} (h : xs.Perm ys) (temperature : F) :
    (fp.exponentials xs temperature).Perm (fp.exponentials ys temperature) := by
  rw [Floats.exponentials, max_eq_of_perm h]
  exact h.map _

omit [Formatting] [LinearOrder F] in
/-- The sum of two does not depend on which comes first. -/
theorem sum_eq_of_perm {xs ys : List F} (h : xs.Perm ys) (hlength : xs.length ≤ 2) :
    fp.sum xs = fp.sum ys := by
  induction h with
  | nil => rfl
  | cons x h ih =>
    rename_i xs ys
    cases xs with
    | nil => rw [h.nil_eq]
    | cons y xs =>
      cases xs with
      | nil => rw [singleton_perm.1 h]
      | cons => simp at hlength
  | swap x y xs =>
    cases xs with
    | nil =>
      have hpair : ∀ a b, fp.sum [a, b] = fp.add a b := fun a b =>
        congrArg (fp.add · b) (fp.zero_add a)
      rw [hpair, hpair, fp.add_comm]
    | cons => simp at hlength
  | trans h _ ih₁ ih₂ => exact (ih₁ hlength).trans (ih₂ (h.length_eq ▸ hlength))

omit [Formatting] [LinearOrder F] in
/-- The probabilities of the slots, in the canonical order, are those of the options. -/
theorem Follows.softmax (h : Follows q logits given) (hperm : q.slots.Perm (range q.count))
    (hlogits : q.count ≤ logits.length)
    (hsum : fp.sum (fp.exponentials (given.take q.count) temperature) =
      fp.sum (fp.exponentials (logits.take q.count) temperature)) :
    (fp.softmax (given.take q.count) temperature).map (restored q) =
      fp.softmax (logits.take q.count) temperature := by
  have htake := h.perm hperm hlogits fp.negInfinity
  have hany : (given.take q.count).any (! fp.isFinite32 ·) =
      (logits.take q.count).any (! fp.isFinite32 ·) := htake.any_eq
  have hempty : (given.take q.count).isEmpty = (logits.take q.count).isEmpty := htake.isEmpty_eq
  rw [Floats.softmax, Floats.softmax, hany, hempty]
  split
  · rfl
  refine congrArg Except.ok ?_
  have hcount : (given.take q.count).length = q.count := by
    rw [htake.length_eq, length_take, Nat.min_eq_left hlogits]
  refine restored_eq hperm ?_ ?_ fun s i hs => ?_
  · rw [length_map, Floats.exponentials, length_map, hcount]
  · rw [length_map, Floats.exponentials, length_map, ← htake.length_eq, hcount]
  have hslots : q.slots.length = q.count := hperm.length_eq.trans length_range
  have hslot : s < q.count := hslots ▸ (List.getElem?_eq_some_iff.1 hs).1
  have hi : i < q.count := mem_range.1 (hperm.subset (mem_of_getElem? hs))
  rw [hsum, Floats.exponentials, Floats.exponentials, max_eq_of_perm htake, getElem?_map,
    getElem?_map, getElem?_map, getElem?_map, getElem?_take_of_lt hslot,
    getElem?_take_of_lt hi, h s i hs]

omit [Formatting] [LinearOrder F] in
theorem temperature_setOptionOrder (lowercase : String → String) (q : Question)
    (order : Option (List Nat)) (k : Nat) (language : Option String) :
    calibration.temperature lowercase (q.setOptionOrder order) k language =
      calibration.temperature lowercase q k language := by
  cases q <;> rfl

theorem read_setOptionOrder (q : Question) (order : Option (List Nat)) (k : Nat) (language : Bool)
    (temperature : F) (actionLogits : L × L) (probabilities : List F) :
    calibration.read fp (q.setOptionOrder order) k language temperature actionLogits probabilities =
      calibration.read fp q k language temperature actionLogits probabilities := by
  cases q <;> rfl

/-- **The answer is that of the canonical order**, when the exponentials have one sum in both. -/
theorem decode_follows {lowercase : String → String} (hvalid : q.validate = .ok ())
    (hfollows : Follows q logits given) {language : Option String}
    (hsum : q.count ≤ logits.length →
      fp.sum (fp.exponentials (given.take q.count)
          (calibration.temperature lowercase q q.count language)) =
        fp.sum (fp.exponentials (logits.take q.count)
          (calibration.temperature lowercase q q.count language))) (actionLogits : L × L) :
    calibration.decode fp lowercase q given actionLogits language =
      calibration.decode fp lowercase (q.setOptionOrder none) logits actionLogits language := by
  have hperm := perm_slots hvalid
  rw [Calibration.decode, Calibration.decode, hvalid, validate_setOptionOrder hvalid,
    renderOptions_setOptionOrder hvalid]
  cases calibration.validate fp with
  | error => rfl
  | ok =>
    cases hcanonical : q.renderOptions with
    | error => rfl
    | ok canonical =>
      have hcount := (renderOptions_ok hcanonical).2
      dsimp only [bind, Except.bind]
      rw [hcount, temperature_setOptionOrder]
      rcases Nat.lt_or_ge logits.length q.count with hlt | hge
      · rw [if_pos hlt, if_pos ((hfollows.length_lt_iff hperm).2 hlt)]
      rw [if_neg hge.not_gt, if_neg (mt (hfollows.length_lt_iff hperm).1 hge.not_gt),
        ← hfollows.softmax hperm hge (hsum hge)]
      cases fp.softmax (given.take q.count)
          (calibration.temperature lowercase q q.count language) with
      | error => rfl
      | ok slots =>
        have hnone : (q.setOptionOrder none).optionOrder = none := by cases q <;> rfl
        rw [hnone]
        exact (read_setOptionOrder q none _ _ _ _ _).symm

/-- **The order decides where an option is presented and not whose probability is whose**, and with
it the answer does not change as long as the exponentials have one sum in both orders, as those of
two options always have. -/
theorem order_kept (fp : Floats L F) (calibration : Calibration F) (lowercase : String → String)
    (q : Question) (hvalid : q.validate = .ok ()) :
    (∀ i < q.count, ∃! s : Nat, q.slots[s]? = some i) ∧
    (∀ (special : SpecialTokens) tokenize options request rows,
      encode request options special tokenize = .ok rows →
      ∀ (j : Nat) id, request.questions[j]? = some (id, q) →
        ∃ row, rows[j]? = some row ∧ Presented special tokenize q row) ∧
    (∀ (logits : List L) actionLogits language answer,
      calibration.decode fp lowercase q logits actionLogits language = .ok answer →
      ∃ slots, fp.softmax (logits.take q.count) answer.temperature = .ok slots ∧
        slots.length = q.count ∧ answer.probabilities.length = q.count ∧
        ∀ s i : Nat, q.slots[s]? = some i → answer.probabilities[i]? = slots[s]?) ∧
    ∀ (logits given : List L) actionLogits language, Follows q logits given →
      (q.count ≤ 2 ∨
        fp.sum (fp.exponentials (given.take q.count)
            (calibration.temperature lowercase q q.count language)) =
          fp.sum (fp.exponentials (logits.take q.count)
            (calibration.temperature lowercase q q.count language))) →
      calibration.decode fp lowercase q given actionLogits language =
        calibration.decode fp lowercase (q.setOptionOrder none) logits actionLogits language := by
  have hperm := Question.perm_slots hvalid
  refine ⟨fun i hi => ?_, fun special tokenize options request rows h j id hj => ?_,
    fun _ _ _ _ => decode_assigns, fun logits given actionLogits language hfollows hsum => ?_⟩
  · obtain ⟨s, hs⟩ := List.mem_iff_getElem?.1 (hperm.symm.subset (List.mem_range.2 hi))
    refine ⟨s, hs, fun s' hs' => ?_⟩
    exact (List.getElem?_inj (List.getElem?_eq_some_iff.1 hs').1
      (hperm.nodup_iff.2 List.nodup_range)).1 (hs'.trans hs.symm)
  · obtain ⟨row, hrow, _, _, _, _, hencoded⟩ := forall₂_getElem? (encode_ok h) hj
    exact ⟨row, hrow, presented hencoded⟩
  · refine decode_follows hvalid hfollows (fun hge => hsum.elim (fun hfew => ?_) fun h => h) _
    refine sum_eq_of_perm (perm_exponentials (hfollows.perm hperm hge fp.negInfinity) _) ?_
    rw [Floats.exponentials, List.length_map, List.length_take]
    omega

end Decode

/-- A statement whose options are presented the other way round. -/
def turned : Question := .yesNo "" "no" "yes" none none (some [1, 0])

omit [Formatting] in
theorem order_kept_turned :
    @Calibration.decode _ _ _ binary64 quoting id plain turned
        [mkRat (-2407583) 65536, 0] (0, 0) none =
      @Calibration.decode _ _ _ binary64 quoting id plain (turned.setOptionOrder none)
        [0, mkRat (-2407583) 65536] (0, 0) none := by
  refine (@order_kept quoting _ _ _ binary64 plain id turned rfl).2.2.2 _ _ _ _ (fun s i hs => ?_)
    (.inl (Nat.le_refl 2))
  match s with
  | 0 | 1 => cases hs; rfl
  | s + 2 => cases hs

/-- Three levels, of which the first is presented last. -/
def threeLevels : Question :=
  .score "" [.string "low", .string "mid", .string "high"] (some [1, 2, 0])

/-- The expectation of an answer. -/
def expectation {F : Type} : Except DecisionError (Answer F) → Option F
  | .ok ⟨.score expectation _, _, _, _, _, _, _, _, _⟩ => some expectation
  | _ => none

omit [Formatting] in
/-- A sum of `1` and two numbers below half its last bit is `1` when it begins with the `1`, and
more when it ends with it. -/
theorem sum_reordered :
    @Question.validate quoting threeLevels = .ok () ∧
    Follows threeLevels [0, mkRat (-2407583) 65536, mkRat (-2407583) 65536]
      [mkRat (-2407583) 65536, mkRat (-2407583) 65536, 0] ∧
    (expectation (@Calibration.decode _ _ _ binary64 quoting id plain threeLevels
      [mkRat (-2407583) 65536, mkRat (-2407583) 65536, 0] (0, 0) none)).isSome ∧
    (expectation (@Calibration.decode _ _ _ binary64 quoting id plain
      (threeLevels.setOptionOrder none)
      [0, mkRat (-2407583) 65536, mkRat (-2407583) 65536] (0, 0) none)).isSome ∧
    expectation (@Calibration.decode _ _ _ binary64 quoting id plain threeLevels
        [mkRat (-2407583) 65536, mkRat (-2407583) 65536, 0] (0, 0) none) ≠
      expectation (@Calibration.decode _ _ _ binary64 quoting id plain
        (threeLevels.setOptionOrder none)
        [0, mkRat (-2407583) 65536, mkRat (-2407583) 65536] (0, 0) none) := by
  refine ⟨rfl, fun s i hs => ?_, by decide +kernel, by decide +kernel, by decide +kernel⟩
  match s with
  | 0 | 1 | 2 => cases hs; rfl
  | s + 3 => cases hs

end Gen2.Decision
