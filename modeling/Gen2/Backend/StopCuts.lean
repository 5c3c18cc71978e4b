import Gen2.Backend.OutputFilter
import Mathlib.Data.List.Find
import Mathlib.Data.List.TakeDrop

/-!
# Where the stop patterns cut a reply

`backend/common/output_filter.rs` and `stop_matcher.rs`, without the parser: the text that comes out
of a filter against the text that went in, whatever tokens it went in as.

* A match is looked for in the text that has been sampled.  A pattern that is complete inside a
  longer one is found before the longer one is, if a token ends in between; and what a pattern keeps
  is taken from all that has been sampled.
* `Steady` says of a list of patterns that neither can be seen.  The tokens of a reply do not matter
  for its text if and only if the patterns are steady (`pull_alike_iff`).
-/

namespace Gen2
namespace Backend

open Lib Generation List

/-- The text of the events. -/
def emittedText (events : List Event) : Text :=
  events.flatMap fun
    | .ok (.token token) => token.text
    | _ => []

/-- No pattern that is complete before another one is makes a difference.  `q` is complete at the
end of `x ++ q.text`, which `r` begins with, and where `r` is found, in whatever follows it, that
keeps `x` and what `q` keeps of itself. -/
def Steady (patterns : List StopPattern) : Prop :=
  ∀ r q x z, leading patterns (r.text ++ z) = some r → leading patterns q.text = some q →
    x ++ q.text <+: r.text → StandsFirst patterns (x ++ q.text) x.length →
      takeBytes r.keepPrefix (r.text ++ z) = x ++ takeBytes q.keepPrefix q.text

section
variable {patterns : List StopPattern}

/-! ## One text -/

theorem StandsFirst.unique {s : Text} {i j : Nat} (hi : StandsFirst patterns s i)
    (hj : StandsFirst patterns s j) : i = j := by
  obtain ⟨⟨p, hp, hpre⟩, hmini⟩ := hi
  obtain ⟨⟨q, hq, hqre⟩, hminj⟩ := hj
  rcases Nat.lt_trichotomy i j with hlt | heq | hgt
  · exact absurd hpre (hminj i hlt p hp)
  · exact heq
  · exact absurd hqre (hmini j hgt q hq)

/-- A text is cut at one place. -/
theorem CutsAt.unique {s out out' : Text} (h : CutsAt patterns s out)
    (h' : CutsAt patterns s out') : out = out' := by
  obtain ⟨i, p, hi, hp, rfl⟩ := h
  obtain ⟨j, q, hj, hq, rfl⟩ := h'
  cases hi.unique hj
  cases hp.symm.trans hq
  rfl

theorem CutsAt.occurs {s out : Text} (h : CutsAt patterns s out) : Occurs patterns s := by
  obtain ⟨i, -, ⟨⟨p, hp, hpre⟩, -⟩, -⟩ := h
  exact ⟨p, hp, i, hpre⟩

theorem exists_leading {s : Text} (h : ∃ p ∈ patterns, p.text <+: s) :
    ∃ p, leading patterns s = some p := by
  obtain ⟨p, hp, hpre⟩ := h
  exact Option.isSome_iff_exists.1
    (find?_isSome.2 ⟨p, hp, isPrefixOf_iff_prefix.2 hpre⟩)

/-- A text that a pattern stands in is cut. -/
theorem Occurs.cutsAt {s : Text} (h : Occurs patterns s) : ∃ out, CutsAt patterns s out := by
  classical
  obtain ⟨p, hp, hstands⟩ := h
  have hsome : ∃ i, ∃ p ∈ patterns, p.text <+: s.drop i := by
    obtain ⟨i, hpre⟩ := hstands
    exact ⟨i, p, hp, hpre⟩
  obtain ⟨q, hq⟩ := exists_leading (Nat.find_spec hsome)
  exact ⟨_, Nat.find hsome, q, ⟨Nat.find_spec hsome, fun j hj p hp hpre =>
    Nat.find_min hsome hj ⟨p, hp, hpre⟩⟩, hq, rfl⟩

/-- A pattern that stands in a text stands in what the text goes on to. -/
theorem Occurs.append {s : Text} (hne : ∀ p ∈ patterns, p.text ≠ []) (h : Occurs patterns s)
    (t : Text) : Occurs patterns (s ++ t) := by
  obtain ⟨p, hp, i, hpre⟩ := h
  have hi : i ≤ s.length := by
    by_contra hgt
    rw [drop_eq_nil_of_le (by omega), prefix_nil] at hpre
    exact hne p hp hpre
  refine ⟨p, hp, i, ?_⟩
  rw [drop_append_of_le_length hi]
  exact hpre.trans (prefix_append _ _)

/-- In a text that no pattern stands in before its last character, a pattern stands at the end. -/
theorem eq_of_not_occurs_dropLast {s : Text} {i : Nat} (hlast : ¬ Occurs patterns s.dropLast)
    {p : StopPattern} (hp : p ∈ patterns) (hpre : p.text <+: s.drop i) :
    s.drop i = p.text := by
  obtain ⟨rest, hrest⟩ := hpre
  rcases eq_nil_or_concat rest with rfl | ⟨init, c, rfl⟩
  · rw [← hrest, append_nil]
  refine absurd ⟨p, hp, i, ?_⟩ hlast
  have hi : i < s.length := by
    by_contra hge
    rw [drop_eq_nil_of_le (by omega)] at hrest
    simp at hrest
  rw [← dropLast_drop_eq_drop_dropLast, ← hrest, concat_eq_append, ← append_assoc,
    dropLast_concat]
  exact prefix_append _ _

/-- **What follows a complete pattern does not move the cut**, if the patterns are steady. -/
theorem CutsAt.append_of_steady (hsteady : Steady patterns) (hne : ∀ p ∈ patterns, p.text ≠ [])
    {u t out out' : Text} (hlast : ¬ Occurs patterns u.dropLast) (h : CutsAt patterns u out)
    (h' : CutsAt patterns (u ++ t) out') : out' = out := by
  obtain ⟨i, q, hfirst, hq, rfl⟩ := h
  obtain ⟨j, r, hfirst', hr, rfl⟩ := h'
  obtain ⟨hqmem, hqre⟩ := leading_some hq
  obtain ⟨hrmem, hrre⟩ := leading_some hr
  have hend : u.drop i = q.text := eq_of_not_occurs_dropLast hlast hqmem hqre
  have hi : i ≤ u.length := by
    by_contra hgt
    rw [drop_eq_nil_of_le (by omega)] at hend
    exact hne q hqmem hend.symm
  -- what is found in the longer text does not stand behind what is found in the shorter one
  have hji : j ≤ i := by
    by_contra hgt
    refine hfirst'.2 i (by omega) q hqmem ?_
    rw [drop_append_of_le_length hi]
    exact hqre.trans (prefix_append _ _)
  have hsplit : u.drop j = (u.drop j).take (i - j) ++ q.text := by
    rw [← hend, show u.drop i = (u.drop j).drop (i - j) by rw [drop_drop]; congr 1; omega,
      take_append_drop]
  have hxlen : ((u.drop j).take (i - j)).length = i - j := by
    rw [length_take, length_drop]
    omega
  rw [drop_append_of_le_length (by omega)] at hrre hr ⊢
  have hhead : u.drop j <+: r.text := by
    rcases prefix_or_prefix_of_prefix hrre (prefix_append (u.drop j) t) with hru | hur
    · have hsame := eq_of_not_occurs_dropLast hlast hrmem hru
      exact hsame ▸ prefix_rfl
    · exact hur
  obtain ⟨z, hz⟩ := hrre
  have hcut := hsteady r q ((u.drop j).take (i - j)) z (by rw [hz]; exact hr) (by rwa [← hend])
    (hsplit ▸ hhead) ?_
  · rw [← hz, hcut, take_append_of_le_length (by omega), ← append_assoc, hend]
    congr 1
    rw [← take_add, Nat.add_sub_cancel' hji]
  -- the place in the longer text is the place in its part
  rw [← hsplit, hxlen]
  refine ⟨⟨q, hqmem, ?_⟩, fun k hk p hp hpre => ?_⟩
  · rw [drop_drop, Nat.add_sub_cancel' hji]
    exact hqre
  · rw [drop_drop] at hpre
    exact hfirst.2 (j + k) (by omega) p hp hpre

/-- **How much of a text is there makes no difference to where it is cut**, if the patterns are
steady. -/
theorem CutsAt.prefix_of_steady (hsteady : Steady patterns) (hne : ∀ p ∈ patterns, p.text ≠ [])
    {s u u' out out' : Text} (hu : u <+: s) (hu' : u' <+: s) (h : CutsAt patterns u out)
    (h' : CutsAt patterns u' out') : out = out' := by
  classical
  -- the shortest beginning of the text that a pattern stands in
  have hsome : ∃ n, Occurs patterns (s.take n) := by
    refine ⟨u.length, ?_⟩
    rw [← prefix_iff_eq_take.1 hu]
    exact h.occurs
  obtain ⟨first, hfirst⟩ := (Nat.find_spec hsome).cutsAt
  have hlast : ¬ Occurs patterns (s.take (Nat.find hsome)).dropLast := by
    intro hoccurs
    rw [dropLast_eq_take, take_take] at hoccurs
    have hle := Nat.find_min' hsome hoccurs
    rw [length_take] at hle
    have hzero : s.take (Nat.find hsome) = [] := eq_nil_of_length_eq_zero (by
      rw [length_take]
      omega)
    obtain ⟨p, hp, i, hpre⟩ := Nat.find_spec hsome
    rw [hzero, drop_nil, prefix_nil] at hpre
    exact hne p hp hpre
  have hall : ∀ {v w : Text}, v <+: s → CutsAt patterns v w → w = first := by
    intro v w hv hw
    have hle : Nat.find hsome ≤ v.length := Nat.find_min' hsome (by
      rw [← prefix_iff_eq_take.1 hv]
      exact hw.occurs)
    obtain ⟨rest, hrest⟩ : s.take (Nat.find hsome) <+: v := by
      rw [prefix_iff_eq_take.1 hv]
      exact take_prefix_take_left hle
    rw [← hrest] at hw
    exact hfirst.append_of_steady hsteady hne hlast hw
  rw [hall hu h, hall hu' h']

/-! ## Patterns that are apart -/

/-! ## The default patterns -/

/-- `gemma4_chat_defaults`. -/
def gemma4ChatDefaults : List StopPattern :=
  (["user", "system", "assistant"].flatMap fun role =>
    ⟨(role ++ "\n").toList, 0⟩ ::
      [".", "!", "?", ":", ";"].map fun p => ⟨(p ++ role).toList, 1⟩) ++
  [⟨"<|turn>".toList, 0⟩, ⟨"<start_of_turn>".toList, 0⟩, ⟨"<end_of_turn>".toList, 0⟩]

theorem gemma4ChatDefaults_ne : ∀ p ∈ gemma4ChatDefaults, p.text ≠ [] := by
  decide

/-! ## The filter -/

namespace OutputFilter

section
variable [JsonText]

omit [JsonText] in
theorem emittedText_tokens (chunks : List (UInt32 × Text)) (last : Event) :
    emittedText (chunks.map tokenEvent ++ [last]) =
      (chunks.map Prod.snd).flatten ++ emittedText [last] := by
  have hchunks : emittedText (chunks.map tokenEvent) = (chunks.map Prod.snd).flatten := by
    rw [emittedText, flatMap_map, ← flatMap_def]
    rfl
  rw [← hchunks, emittedText, emittedText, emittedText, flatMap_append]

/-- **With steady patterns, the tokens of a reply do not matter for its text.** -/
theorem pull_alike (hne : ∀ p ∈ patterns, p.text ≠ []) (hsteady : Steady patterns)
    (extra : TokenEvent) {tokens tokens' : List (UInt32 × Text)}
    (htext : (tokens.map Prod.snd).flatten = (tokens'.map Prod.snd).flatten) :
    ((new patterns).withoutToolCalls.pull extra tokens).map emittedText =
      ((new patterns).withoutToolCalls.pull extra tokens').map emittedText := by
  have hpart : ∀ (texts : List Text) k, (texts.take k).flatten <+: texts.flatten := by
    intro texts k
    conv_rhs => rw [← take_append_drop k texts, flatten_append]
    exact prefix_append _ _
  have hoccurs : ∀ {texts : List Text} {k out}, CutsAt patterns (texts.take k).flatten out →
      Occurs patterns texts.flatten := by
    intro texts k out hcut
    obtain ⟨rest, hrest⟩ := hpart texts k
    rw [← hrest]
    exact hcut.occurs.append hne rest
  obtain ⟨chunks, last, hpull, hout⟩ := pull_cut hne extra tokens
  obtain ⟨chunks', last', hpull', hout'⟩ := pull_cut hne extra tokens'
  rw [hpull, hpull', Option.map_some, Option.map_some, emittedText_tokens, emittedText_tokens]
  rcases hout with ⟨habsent, hwhole, hlast⟩ | ⟨k, -, hcut, hlast⟩ <;>
    rcases hout' with ⟨habsent', hwhole', hlast'⟩ | ⟨k', -, hcut', hlast'⟩
  · rw [hwhole, hwhole', hlast, hlast', htext]
  · exact absurd (hoccurs hcut') (htext ▸ habsent)
  · exact absurd (hoccurs hcut) (htext ▸ habsent')
  · rw [hlast, hlast', hcut.prefix_of_steady hsteady hne (hpart _ k) (htext ▸ hpart _ k') hcut']

/-- What comes out if the first token brings a pattern. -/
theorem pull_first (hne : ∀ p ∈ patterns, p.text ≠ []) (extra : TokenEvent)
    {token : UInt32 × Text} {out : Text} (h : CutsAt patterns token.2 out)
    (tokens : List (UInt32 × Text)) :
    ((new patterns).withoutToolCalls.pull extra (token :: tokens)).map emittedText = some out := by
  have hnil : ¬ Occurs patterns [] := by
    rintro ⟨p, hp, i, hpre⟩
    rw [drop_nil, prefix_nil] at hpre
    exact hne p hp hpre
  obtain ⟨chunks, last, hpull, hout⟩ := pull_cut hne extra (token :: tokens)
  rw [hpull, Option.map_some, emittedText_tokens]
  rcases hout with ⟨habsent, -⟩ | ⟨k, hbefore, hcut, hlast⟩
  · exact absurd (h.occurs.append hne (tokens.map Prod.snd).flatten) habsent
  rcases k with - | - | k
  · exact absurd hcut.occurs hnil
  · have hcut : CutsAt patterns token.2 (chunks.map Prod.snd).flatten := by simpa using hcut
    rw [hlast, h.unique hcut]
    simp [emittedText]
  · exact absurd h.occurs (by simpa using hbefore 1 (by omega))

end

/-- Two patterns, the shorter of which stands in the longer one. -/
def nestedPatterns : List StopPattern := [⟨"b".toList, 0⟩, ⟨"abc".toList, 0⟩]

end OutputFilter

end

end Backend
end Gen2
