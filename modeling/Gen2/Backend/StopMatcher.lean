import Gen2.Lib.Patterns
import Gen2.Types.Text

/-!
# Stop patterns

`backend/common/stop_matcher.rs`: the text of a reply is searched for patterns that end it, while it
arrives.

* What stands first is where the text is cut (`StopState.full`).
* The end of the text that could still become a pattern is held back (`StopState.holding`).

The source counts bytes, and so does a `StopState`.
-/

namespace Gen2
namespace Backend

open Lib List

/-- `StopPattern`. -/
structure StopPattern where
  text : Text
  keepPrefix : Nat

/-- `StopState`. -/
inductive StopState
  | clean
  | holding (hold : Nat)
  | full (start patternLen emitAt : Nat)

/-- `StopMatcher`. -/
structure StopMatcher where
  patterns : List StopPattern
  buf : Text

/-- A pattern stands in the text. -/
def Occurs (patterns : List StopPattern) (s : Text) : Prop :=
  ∃ p ∈ patterns, ∃ i, p.text <+: s.drop i

/-- A pattern stands here, and none before. -/
def StandsFirst (patterns : List StopPattern) (s : Text) (i : Nat) : Prop :=
  (∃ p ∈ patterns, p.text <+: s.drop i) ∧ ∀ j < i, ∀ p ∈ patterns, ¬ p.text <+: s.drop j

/-- Of the patterns that the text begins with, the one that is looked for first. -/
def leading (patterns : List StopPattern) (s : Text) : Option StopPattern :=
  patterns.find? fun p => p.text.isPrefixOf s

theorem leading_some {patterns : List StopPattern} {s : Text} {p : StopPattern}
    (h : leading patterns s = some p) : p ∈ patterns ∧ p.text <+: s := by
  rw [leading] at h
  have hpre := find?_some h
  exact ⟨mem_of_find?_eq_some h, isPrefixOf_iff_prefix.1 hpre⟩

/-- Where a text is cut: the first place where a pattern stands, and of the patterns that stand
there the one that is looked for first, which keeps some of what stands there. -/
def CutsAt (patterns : List StopPattern) (s out : Text) : Prop :=
  ∃ i p, StandsFirst patterns s i ∧ leading patterns (s.drop i) = some p ∧
    out = s.take i ++ takeBytes p.keepPrefix (s.drop i)

/-- Where a text is cut, if no pattern keeps anything. -/
theorem CutsAt.take {patterns : List StopPattern} {s out : Text} (hne : ∀ p ∈ patterns, p.text ≠ [])
    (hkeep : ∀ p ∈ patterns, p.keepPrefix = 0) (h : CutsAt patterns s out) (t : Text) :
    ∃ i, StandsFirst patterns s i ∧ out = (s ++ t).take i := by
  obtain ⟨i, p, hfirst, hleading, rfl⟩ := h
  obtain ⟨hp, hpre⟩ := leading_some hleading
  have hi : i ≤ s.length := by
    by_contra hgt
    rw [drop_eq_nil_of_le (by omega), prefix_nil] at hpre
    exact hne p hp hpre
  exact ⟨i, hfirst, by rw [hkeep p hp, takeBytes_zero, append_nil,
    take_append_of_le_length hi]⟩

namespace StopMatcher

/-- The patterns that are looked for, each with the text it is looked for by. -/
def candidates (m : StopMatcher) : List (Text × StopPattern) :=
  (m.patterns.filter fun p => !p.text.isEmpty).map fun p => (p.text, p)

/-- `StopMatcher::push`: what the buffer is classified as, once the text is in it. -/
def push (m : StopMatcher) (text : Text) : StopState × StopMatcher :=
  let buf := m.buf ++ text
  let state := match earliest m.candidates buf with
    | some (i, pattern) =>
      let start := strLen (buf.take i)
      .full start (strLen pattern.text) (start + pattern.keepPrefix)
    | none =>
      let longestHold := holdLen (m.candidates.map Prod.fst) buf
      if 0 < longestHold then .holding (strLen (buf.drop (buf.length - longestHold))) else .clean
  (state, { m with buf })

/-- `StopMatcher::reset`. -/
def reset (m : StopMatcher) : StopMatcher := { m with buf := [] }

theorem candidates_eq {m : StopMatcher} (hne : ∀ p ∈ m.patterns, p.text ≠ []) :
    m.candidates = m.patterns.map fun p => (p.text, p) := by
  rw [candidates, filter_eq_self.2]
  intro p hp
  simpa using hne p hp

/-- **What a push has found**: the first place where a pattern stands; or no pattern stands in the
buffer, and if nothing is to be held back, none can come to begin in it. -/
theorem push_spec {m : StopMatcher} (hne : ∀ p ∈ m.patterns, p.text ≠ []) (text : Text) :
    match (m.push text).1 with
    | .full start _ emitAt => ∃ i, StandsFirst m.patterns (m.buf ++ text) i ∧
        start = strLen ((m.buf ++ text).take i) ∧
        ∃ p, leading m.patterns ((m.buf ++ text).drop i) = some p ∧ emitAt = start + p.keepPrefix
    | .holding _ => ∀ j, ∀ p ∈ m.patterns, ¬ p.text <+: (m.buf ++ text).drop j
    | .clean => (∀ j, ∀ p ∈ m.patterns, ¬ p.text <+: (m.buf ++ text).drop j) ∧
        Clear (m.patterns.map (·.text)) (m.buf ++ text).length (m.buf ++ text) := by
  have htexts : (m.patterns.map fun p => (p.text, p)).map Prod.fst = m.patterns.map (·.text) := by
    simp
  have hmem : ∀ {c : Text × StopPattern}, c ∈ m.patterns.map (fun p => (p.text, p)) →
      c.2 ∈ m.patterns ∧ c.1 = c.2.text := by
    rintro c hc
    obtain ⟨p, hp, rfl⟩ := mem_map.1 hc
    exact ⟨hp, rfl⟩
  rw [push, candidates_eq hne, htexts]
  dsimp only
  cases hfound : earliest (m.patterns.map fun p => (p.text, p)) (m.buf ++ text) with
  | some found =>
    obtain ⟨i, pattern⟩ := found
    obtain ⟨-, hmin⟩ := earliest_some hfound
    obtain ⟨c, hc, hpattern⟩ := earliest_find? hfound
    have hleading : leading m.patterns ((m.buf ++ text).drop i) = some pattern := by
      rw [find?_map, Option.map_eq_some_iff] at hc
      obtain ⟨p, hp, rfl⟩ := hc
      subst hpattern
      exact hp
    exact ⟨i, ⟨⟨pattern, leading_some hleading⟩, fun j hj p hp =>
      hmin j hj (p.text, p) (mem_map_of_mem hp)⟩, rfl, pattern, hleading, rfl⟩
  | none =>
    have habsent : ∀ j, ∀ p ∈ m.patterns, ¬ p.text <+: (m.buf ++ text).drop j := by
      intro j p hp
      refine earliest_none ?_ hfound j (mem_map_of_mem hp)
      intro c hc
      rw [(hmem hc).2]
      exact hne c.2 (hmem hc).1
    dsimp only
    split
    next state hstate =>
      split at hstate
      · cases hstate
      · cases hstate
    · exact habsent
    next hstate =>
      split at hstate
      · cases hstate
      next hzero =>
        refine ⟨habsent, clear_of_holdLen (List.Subset.refl _) (by omega) ?_⟩
        intro j _ text' htext'
        obtain ⟨p, hp, rfl⟩ := mem_map.1 htext'
        exact habsent j p hp

end StopMatcher

end Backend
end Gen2
