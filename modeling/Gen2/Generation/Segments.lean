import Gen2.Generation.ReplyParts

/-!
# What the markers of a reply say

`generation/reply_parts.rs` splits a reply as it comes in.  Here is what it is to split a reply that
lies there as a whole: from left to right, and at each place by the longest marker of the channel.

* `ChannelMarkers.segment` is that reading, `ChannelMarkers.visits` the places it comes to.
* `segment_scan`: as far as the machine decides, it decides as the reading does.
* What it has not decided when the text is over, `finish` takes for text.  That is what the reading
  makes of it if and only if there is no marker in it (`segment_length_iff`); so the parts are those
  of the reading exactly where the text `EndsClear` (`finish_eq_segment_iff`).
-/

namespace Gen2
namespace Generation

open Lib List ChannelMarkers

/-! ## The longest marker -/

/-- The length of the longest of the patterns that a text begins with.  Empty ones do not count. -/
def longest (patterns : List Text) (s : Text) : Option Nat :=
  ((patterns.filter fun p => !p.isEmpty && p.isPrefixOf s).map List.length).max?

/-- The scan for the longest match, from what it has found so far. -/
theorem matchAny_foldl_eq (patterns : List Text) (s : Text) (best : Option Nat) :
    patterns.foldl (fun best p =>
      if p.isEmpty then best
      else if p.isPrefixOf s then some (best.elim p.length (max · p.length))
      else best) best =
    match best with
    | none => longest patterns s
    | some n => some (((patterns.filter fun p => !p.isEmpty && p.isPrefixOf s).map
        length).foldl max n) := by
  induction patterns generalizing best with
  | nil => cases best <;> rfl
  | cons p patterns ih =>
    rw [foldl_cons, ih, longest, longest, filter_cons]
    by_cases hempty : p.isEmpty = true
    · simp only [hempty, if_true, Bool.not_true, Bool.false_and, Bool.false_eq_true, if_false]
    by_cases hpre : p.isPrefixOf s = true
    · simp only [hempty, hpre, Bool.not_false, Bool.and_self, Bool.false_eq_true, if_true,
      if_false]
      cases best <;> rfl
    · simp only [hempty, hpre, Bool.false_eq_true, if_false, Bool.and_false]

theorem matchAny_eq_longest (patterns : List Text) (s : Text) :
    matchAny s patterns = longest patterns s :=
  matchAny_foldl_eq patterns s none

variable {patterns : List Text}

theorem longest_drop_lt {s : Text} {n : Nat} (h : longest patterns s = some n) :
    (s.drop n).length < s.length :=
  matchAny_drop_lt ((matchAny_eq_longest patterns s).trans h)

theorem longest_pos {s : Text} {n : Nat} (h : longest patterns s = some n) : 0 < n ∧ n ≤ s.length :=
  have hspec := matchAny_spec ((matchAny_eq_longest patterns s).trans h)
  ⟨hspec.1, hspec.2.1⟩

@[simp] theorem longest_nil (patterns : List Text) : longest patterns [] = none := by
  cases h : longest patterns [] with
  | none => rfl
  | some n =>
    obtain ⟨hpos, hle⟩ := longest_pos h
    exact absurd (Nat.lt_of_lt_of_le hpos hle) (Nat.lt_irrefl 0)

/-! ## The reading -/

/-- The reading of a whole text: what is said, and in which channel. -/
def ChannelMarkers.segment (markers : ChannelMarkers) (q : ChannelState) (s : Text) :
    List (ChannelState × Char) :=
  match s with
  | [] => []
  | c :: rest =>
    match _h : longest (markers.patterns q) (c :: rest) with
    | some n => markers.segment q.flip ((c :: rest).drop n)
    | none => (q, c) :: markers.segment q rest
termination_by s.length
decreasing_by
  all_goals first | exact longest_drop_lt _h | exact Nat.lt_succ_self _

/-- The places that the reading comes to: the channel, and the rest of the text from there. -/
def ChannelMarkers.visits (markers : ChannelMarkers) (q : ChannelState) (s : Text) :
    List (ChannelState × Text) :=
  match s with
  | [] => []
  | c :: rest =>
    (q, c :: rest) ::
      match _h : longest (markers.patterns q) (c :: rest) with
      | some n => markers.visits q.flip ((c :: rest).drop n)
      | none => markers.visits q rest
termination_by s.length
decreasing_by
  all_goals first | exact longest_drop_lt _h | exact Nat.lt_succ_self _

/-- No marker begins anywhere in the text. -/
def Unmarked (patterns : List Text) (s : Text) : Prop := ∀ j, longest patterns (s.drop j) = none

/-- Where the reading comes to a place from which the rest of the text is the beginning of a longer
marker, there is no marker in that rest. -/
def ChannelMarkers.EndsClear (markers : ChannelMarkers) (q : ChannelState) (s : Text) : Prop :=
  ∀ visit ∈ markers.visits q s, couldBecome (markers.patterns visit.1) visit.2 = true →
    Unmarked (markers.patterns visit.1) visit.2

/-- The parts of a reply, from what is said in each channel. -/
def partsOf (out : List (ChannelState × Char)) : ReplyParts :=
  let reasoning := channelText .inReasoning out
  ⟨channelText .visible out, if reasoning.isEmpty then none else some reasoning, []⟩

variable {markers : ChannelMarkers} {q : ChannelState} {c : Char} {rest s : Text}

@[simp] theorem segment_nil : markers.segment q [] = [] := by
  rw [ChannelMarkers.segment]

theorem segment_marker {n : Nat} (h : longest (markers.patterns q) (c :: rest) = some n) :
    markers.segment q (c :: rest) = markers.segment q.flip ((c :: rest).drop n) := by
  rw [ChannelMarkers.segment]
  split
  · next n' h' => rw [Option.some.inj (h.symm.trans h')]
  · next h' => cases h.symm.trans h'

theorem segment_char (h : longest (markers.patterns q) (c :: rest) = none) :
    markers.segment q (c :: rest) = (q, c) :: markers.segment q rest := by
  rw [ChannelMarkers.segment]
  split
  · next h' => cases h.symm.trans h'
  · rfl

@[simp] theorem visits_nil : markers.visits q [] = [] := by
  rw [visits]

theorem visits_marker {n : Nat} (h : longest (markers.patterns q) (c :: rest) = some n) :
    markers.visits q (c :: rest) =
      (q, c :: rest) :: markers.visits q.flip ((c :: rest).drop n) := by
  rw [visits]
  split
  · next n' h' => rw [Option.some.inj (h.symm.trans h')]
  · next h' => cases h.symm.trans h'

theorem visits_char (h : longest (markers.patterns q) (c :: rest) = none) :
    markers.visits q (c :: rest) = (q, c :: rest) :: markers.visits q rest := by
  rw [visits]
  split
  · next h' => cases h.symm.trans h'
  · rfl

/-! ## As far as the machine decides -/

/-- **What the machine decides, it decides as the reading does**, and the reading goes on from where
the machine has come to. -/
theorem segment_scan (markers : ChannelMarkers) (q : ChannelState) (s : Text) :
    markers.segment q s = (markers.scanner.scan q s).1 ++
      markers.segment (markers.scanner.scan q s).2.1 (markers.scanner.scan q s).2.2 := by
  induction hlen : s.length using Nat.strongRecOn generalizing q s with
  | _ k ih =>
  cases s with
  | nil => rw [markers.scanner.scan_none (markers.scanner.next_nil q), nil_append]
  | cons c rest =>
    by_cases hbecome : couldBecome (markers.patterns q) (c :: rest) = true
    · rw [scan_hold hbecome, nil_append]
    have hdecided := Bool.eq_false_iff.2 hbecome
    cases hmatch : matchAny (c :: rest) (markers.patterns q) with
    | some n =>
      rw [scan_marker hdecided hmatch,
        segment_marker ((matchAny_eq_longest _ _).symm.trans hmatch)]
      exact ih _ (hlen ▸ matchAny_drop_lt hmatch) _ _ rfl
    | none =>
      rw [scan_char hdecided hmatch, segment_char ((matchAny_eq_longest _ _).symm.trans hmatch)]
      exact congrArg ((q, c) :: ·) (ih _ (hlen ▸ Nat.lt_succ_self _) q rest rfl)

/-- The places before that are not such that the rest could become a marker. -/
theorem endsClear_scan (markers : ChannelMarkers) (q : ChannelState) (s : Text) :
    markers.EndsClear q s ↔
      markers.EndsClear (markers.scanner.scan q s).2.1 (markers.scanner.scan q s).2.2 := by
  induction hlen : s.length using Nat.strongRecOn generalizing q s with
  | _ k ih =>
  cases s with
  | nil => rw [markers.scanner.scan_none (markers.scanner.next_nil q)]
  | cons c rest =>
    by_cases hbecome : couldBecome (markers.patterns q) (c :: rest) = true
    · rw [scan_hold hbecome]
    have hdecided := Bool.eq_false_iff.2 hbecome
    have hfirst : ∀ visits : List (ChannelState × Text),
        (∀ visit ∈ (q, c :: rest) :: visits,
          couldBecome (markers.patterns visit.1) visit.2 = true →
            Unmarked (markers.patterns visit.1) visit.2) ↔
        ∀ visit ∈ visits, couldBecome (markers.patterns visit.1) visit.2 = true →
            Unmarked (markers.patterns visit.1) visit.2 := by
      intro visits
      rw [forall_mem_cons]
      exact and_iff_right fun h => absurd h hbecome
    cases hmatch : matchAny (c :: rest) (markers.patterns q) with
    | some n =>
      rw [scan_marker hdecided hmatch, ← ih _ (hlen ▸ matchAny_drop_lt hmatch) _ _ rfl,
        ChannelMarkers.EndsClear, visits_marker ((matchAny_eq_longest _ _).symm.trans hmatch)]
      exact hfirst _
    | none =>
      rw [scan_char hdecided hmatch, ← ih _ (hlen ▸ Nat.lt_succ_self _) q rest rfl,
        ChannelMarkers.EndsClear, visits_char ((matchAny_eq_longest _ _).symm.trans hmatch)]
      exact hfirst _

/-! ## What is left when the text is over -/

theorem Unmarked.tail (h : Unmarked patterns (c :: rest)) :
    Unmarked patterns rest := fun j => h (j + 1)

theorem segment_of_unmarked (h : Unmarked (markers.patterns q) s) :
    markers.segment q s = s.map (q, ·) := by
  induction s with
  | nil => exact segment_nil
  | cons c rest ih => rw [segment_char (h 0), ih h.tail, map_cons]

theorem segment_length_le (markers : ChannelMarkers) (q : ChannelState) (s : Text) :
    (markers.segment q s).length ≤ s.length := by
  induction hlen : s.length using Nat.strongRecOn generalizing q s with
  | _ k ih =>
  cases s with
  | nil => simp
  | cons c rest =>
    rw [length_cons] at hlen
    cases hmatch : longest (markers.patterns q) (c :: rest) with
    | some n =>
      have hshort := longest_drop_lt hmatch
      rw [length_cons, hlen] at hshort
      rw [segment_marker hmatch]
      exact (ih _ hshort _ _ rfl).trans hshort.le
    | none =>
      rw [segment_char hmatch, length_cons, ← hlen]
      exact Nat.succ_le_succ (ih rest.length (by omega) q rest rfl)

/-- **The reading says as much as the text** if and only if there is no marker in it. -/
theorem segment_length_iff :
    (markers.segment q s).length = s.length ↔ Unmarked (markers.patterns q) s := by
  refine ⟨fun h => ?_, fun h => by rw [segment_of_unmarked h, length_map]⟩
  induction s with
  | nil =>
    intro j
    rw [drop_nil, longest_nil]
  | cons c rest ih =>
    cases hmatch : longest (markers.patterns q) (c :: rest) with
    | some n =>
      have hle := segment_length_le markers q.flip ((c :: rest).drop n)
      rw [segment_marker hmatch] at h
      exact absurd (longest_drop_lt hmatch) (Nat.not_lt.2 (h ▸ hle))
    | none =>
      rw [segment_char hmatch, length_cons, length_cons] at h
      have hrest := ih (Nat.succ.inj h)
      intro j
      cases j with
      | zero => exact hmatch
      | succ j => exact hrest j

theorem visits_of_unmarked (h : Unmarked (markers.patterns q) s) {visit : ChannelState × Text}
    (hmem : visit ∈ markers.visits q s) : visit.1 = q ∧ visit.2 <:+ s := by
  induction s with
  | nil => simp at hmem
  | cons c rest ih =>
    rw [visits_char (h 0)] at hmem
    rcases mem_cons.1 hmem with rfl | hmem
    · exact ⟨rfl, suffix_refl _⟩
    · obtain ⟨hq, hsuffix⟩ := ih h.tail hmem
      exact ⟨hq, hsuffix.trans (suffix_cons c rest)⟩

theorem Unmarked.suffix {t : Text} (h : Unmarked patterns s) (ht : t <:+ s) :
    Unmarked patterns t := by
  obtain ⟨front, rfl⟩ := ht
  intro j
  have hall := h (front.length + j)
  rwa [← drop_drop, drop_left] at hall

/-- At a place where the machine does not decide, only that place counts. -/
theorem endsClear_stuck (h : markers.scanner.next q s = none) :
    markers.EndsClear q s ↔ Unmarked (markers.patterns q) s := by
  refine ⟨fun hclear => ?_, fun hunmarked visit hmem _ => ?_⟩
  · cases s with
    | nil =>
      intro j
      rw [drop_nil, longest_nil]
    | cons c rest =>
      have hbecome : couldBecome (markers.patterns q) (c :: rest) = true := by
        by_contra hno
        have hnext : markers.scanner.next q (c :: rest) ≠ none := by
          refine fun hnone => ?_
          rw [show markers.scanner.next q (c :: rest) = markers.next q (c :: rest) from rfl,
            ChannelMarkers.next, if_neg hno] at hnone
          split at hnone <;> cases hnone
        exact hnext h
      refine hclear (q, c :: rest) ?_ hbecome
      cases hmatch : longest (markers.patterns q) (c :: rest) with
      | some n => exact visits_marker hmatch ▸ mem_cons_self
      | none => exact visits_char hmatch ▸ mem_cons_self
  · obtain ⟨hq, hsuffix⟩ := visits_of_unmarked hunmarked hmem
    rw [hq]
    exact hunmarked.suffix hsuffix

/-! ## The parts -/

theorem channelText_length (out : List (ChannelState × Char)) :
    (channelText .visible out).length + (channelText .inReasoning out).length = out.length := by
  induction out with
  | nil => rfl
  | cons p out ih =>
    obtain ⟨q, c⟩ := p
    cases q <;> simp [channelText] at ih ⊢ <;> omega

/-- Equal parts say as much. -/
theorem length_eq_of_partsOf {out out' : List (ChannelState × Char)}
    (h : partsOf out = partsOf out') : out.length = out'.length := by
  have hvisible : channelText .visible out = channelText .visible out' :=
    congrArg ReplyParts.content h
  have hreasoning : channelText .inReasoning out = channelText .inReasoning out' := by
    have hparts := congrArg (fun parts : ReplyParts => parts.reasoning.getD []) h
    have hgetD : ∀ out, (partsOf out).reasoning.getD [] = channelText .inReasoning out := by
      intro out
      cases hout : channelText .inReasoning out <;> simp [partsOf, hout]
    rwa [hgetD, hgetD] at hparts
  rw [← channelText_length, ← channelText_length, hvisible, hreasoning]

theorem channelText_map (channel q : ChannelState) (text : Text) :
    channelText channel (text.map (q, ·)) = if q = channel then text else [] := by
  by_cases h : q = channel
  · simp [channelText, filter_map, Function.comp_def, h]
  · simp [channelText, filter_map, Function.comp_def, h]

/-- `finish` takes what has been held back for text. -/
theorem ReplyStateMachine.Holds.finish_eq {m : ReplyStateMachine}
    {r : List (ChannelState × Char) × ChannelState × Text} (h : m.Holds markers r) :
    m.finish = partsOf (r.1 ++ r.2.2.map (r.2.1, ·)) := by
  rw [ReplyStateMachine.finish, partsOf, channelText_append, channelText_append, channelText_map,
    channelText_map, h.state, h.content, h.reasoning, h.pending]
  cases r.2.1 <;> simp

/-- What the machine comes to is what the reading comes to, if and only if the text ends clear. -/
theorem partsOf_scan_iff (markers : ChannelMarkers) (q : ChannelState) (s : Text) :
    partsOf ((markers.scanner.scan q s).1 ++
        (markers.scanner.scan q s).2.2.map ((markers.scanner.scan q s).2.1, ·)) =
      partsOf (markers.segment q s) ↔ markers.EndsClear q s := by
  rw [endsClear_scan, endsClear_stuck (markers.scanner.next_scan q s), segment_scan]
  refine ⟨fun h => ?_, fun h => by rw [segment_of_unmarked h]⟩
  have hlength := length_eq_of_partsOf h
  rw [length_append, length_append, length_map] at hlength
  exact segment_length_iff.1 (Nat.add_left_cancel hlength).symm

namespace ReplyStateMachine

/-- **The parts are those of the reading** if and only if, from no place that the reading comes to,
the rest of the text is the beginning of a longer marker and has a marker in it; whether they are
collected by `push` or by `push_emit`. -/
theorem finish_eq_segment_iff (markers : ChannelMarkers) (chunks : List Text) :
    ((chunks.foldl push (new markers)).finish = partsOf (markers.segment .visible chunks.flatten) ↔
      markers.EndsClear .visible chunks.flatten) ∧
    (((new markers).pushEmitAll chunks).2.finish =
        partsOf (markers.segment .visible chunks.flatten) ↔
      markers.EndsClear .visible chunks.flatten) := by
  have hpushed := pushAll_holds chunks (holds_new markers)
  have hemitted := (pushEmitAll_holds chunks (holds_new markers)).1
  rw [markers.scanner.feed_chunks chunks .visible] at hpushed hemitted
  rw [hpushed.finish_eq, hemitted.finish_eq]
  exact ⟨partsOf_scan_iff _ _ _, partsOf_scan_iff _ _ _⟩

end ReplyStateMachine

/-- The markers of `ChannelMarkers::gemma4`. -/
def ChannelMarkers.gemma4 : ChannelMarkers where
  «open» := ["<|channel>thought\n".toList, "<|channel>thought".toList]
  close := ["\n<channel|>".toList, "<channel|>".toList]

/-- A reply that ends with the shorter of two markers is shown with it. -/
theorem gemma4_marker_shown :
    ((ReplyStateMachine.new .gemma4).push "<|channel>thought".toList).finish ≠
      partsOf (ChannelMarkers.gemma4.segment .visible "<|channel>thought".toList) := by
  intro h
  have hcontent := congrArg ReplyParts.content h
  revert hcontent
  decide +kernel

end Generation
end Gen2
