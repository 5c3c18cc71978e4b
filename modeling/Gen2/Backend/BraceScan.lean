import Gen2.Backend.Healing

/-!
# Where the scan of a Gemma object panics

`backend/common/healing.rs`, `balanced_brace_end` with Gemma's quote tokens: it looks at every byte
outside of JSON strings for a quote token, and for this cuts the text there.

* `places` says of every character where it stands: bare, in a JSON string, or in a span between
  quote tokens.  `ObjectEnds` counts the bare braces.
* `balancedBraceEnd_crashes_iff`: the scan panics if and only if a character of several bytes stands
  outside of the JSON strings before the object ends.
* `balancedBraceEnd_ends_iff`: where it does not, it finds the end of the object.
-/

namespace Gen2
namespace Backend

open Lib List

/-- Where a character of an object stands. -/
inductive Place
  | bare
  | json
  | span
  deriving DecidableEq

/-- The places of the characters from one on that stands at `place`; `skip` characters are left of
an escape or of a quote token. -/
def placesFrom (place : Place) (skip : Nat) : Text → List (Char × Place)
  | [] => []
  | c :: rest =>
    if 0 < skip then
      (c, if place = .json then .json else .span) :: placesFrom place (skip - 1) rest
    else if place = .json then
      if c = '\\' then (c, .json) :: placesFrom .json 1 rest
      else (c, .json) :: placesFrom (if c = '"' then .bare else .json) 0 rest
    else if gemmaQuote.isPrefixOf (c :: rest) then
      (c, .span) :: placesFrom (if place = .span then .bare else .span) (gemmaQuote.length - 1) rest
    else if place = .span then (c, .span) :: placesFrom .span 0 rest
    else if c = '"' then (c, .json) :: placesFrom .json 0 rest
    else (c, .bare) :: placesFrom .bare 0 rest

/-- Where the characters of an object stand. -/
def places (b : Text) : List (Char × Place) := placesFrom .bare 0 b

/-- What a character adds to the depth. -/
def weight (m : Char × Place) : Int :=
  if m = ('{', .bare) then 1 else if m = ('}', .bare) then -1 else 0

/-- How many more bare braces have been opened than closed. -/
def depthOf (m : List (Char × Place)) : Int := (m.map weight).sum

/-- The object that a text begins with has this length. -/
structure ObjectEnds (b : Text) (len : Nat) : Prop where
  pos : 0 < len
  within : len ≤ (places b).length
  closed : depthOf ((places b).take len) = 0
  first : ∀ k < len, 0 < k → depthOf ((places b).take k) ≠ 0

/-- Up to the end of the object, characters of several bytes stand in JSON strings only. -/
def BraceSafe (b : Text) : Prop :=
  ∀ i c place, (places b)[i]? = some (c, place) → isMultibyte c = true →
    place = .json ∨ ∃ len ≤ i, ObjectEnds b len

/-! ## The scan over the places -/

/-- The scan, where the places are known. -/
def scanPlaces (depth : Int) (i : Nat) : List (Char × Place) → Option (Option Nat)
  | [] => some none
  | (c, place) :: m =>
    if isMultibyte c = true ∧ place ≠ .json then none
    else if depth + weight (c, place) = 0 then some (some i)
    else scanPlaces (depth + weight (c, place)) (i + 1) m

theorem weight_json (c : Char) : weight (c, .json) = 0 := by simp [weight]

theorem weight_span (c : Char) : weight (c, .span) = 0 := by simp [weight]

theorem weight_bare {c : Char} (hopen : c ≠ '{') (hclose : c ≠ '}') : weight (c, .bare) = 0 := by
  simp [weight, hopen, hclose]

/-- A character that opens or closes nothing. -/
theorem scanPlaces_still {depth : Int} (hdepth : 0 < depth) (i : Nat) {c : Char} {place : Place}
    (hsafe : isMultibyte c = true → place = .json) (hweight : weight (c, place) = 0)
    (m : List (Char × Place)) :
    scanPlaces depth i ((c, place) :: m) = scanPlaces depth (i + 1) m := by
  rw [scanPlaces, if_neg fun h => h.2 (hsafe h.1), hweight, Int.add_zero, if_neg (by omega)]

/-- The rest of a quote token. -/
theorem narrow_of_quote {c : Char} {rest : Text} (h : gemmaQuote.isPrefixOf (c :: rest) = true) :
    isMultibyte c = false ∧
      ∀ d ∈ rest.take (gemmaQuote.length - 1), isMultibyte d = false := by
  obtain ⟨t, ht⟩ := isPrefixOf_iff_prefix.1 h
  obtain ⟨rfl, rfl⟩ := cons.inj (ht.symm.trans
    (show gemmaQuote ++ t = '<' :: (['|', '"', '|', '>'] ++ t) from rfl))
  rw [show gemmaQuote.length - 1 = ['|', '"', '|', '>'].length from rfl, take_left]
  exact ⟨by decide, forall_mem_of_all rfl⟩

section
variable {c : Char} {rest : Text} {depth : Int} {i : Nat}

/-- One character of a JSON string. -/
theorem loop_json (hdepth : 0 < depth)
    (hjson : ∀ skip, balancedBraceLoop true (i + 1) depth true false skip rest =
      scanPlaces depth (i + 1) (placesFrom .json skip rest))
    (hbare : balancedBraceLoop true (i + 1) depth false false 0 rest =
      scanPlaces depth (i + 1) (placesFrom .bare 0 rest)) :
    balancedBraceLoop true i depth true false 0 (c :: rest) =
      scanPlaces depth i (placesFrom .json 0 (c :: rest)) := by
  rw [placesFrom, if_neg (Nat.lt_irrefl 0), if_pos rfl]
  by_cases hescape : c = '\\'
  · rw [if_pos hescape, scanPlaces_still hdepth i (fun _ => rfl) (weight_json c), ← hjson]
    simp [balancedBraceLoop, hescape]
  rw [if_neg hescape, scanPlaces_still hdepth i (fun _ => rfl) (weight_json c)]
  by_cases hquote : c = '"'
  · rw [if_pos hquote, ← hbare]
    simp [balancedBraceLoop, hquote]
  · rw [if_neg hquote, ← hjson]
    simp [balancedBraceLoop, hescape, show (c != '"') = true by simpa using hquote]

/-- A quote token. -/
theorem loop_quote (hdepth : 0 < depth) {place : Place} (hplace : place ≠ .json)
    (hquote : gemmaQuote.isPrefixOf (c :: rest) = true)
    (hmore : ∀ p, p ≠ .json →
      balancedBraceLoop true (i + 1) depth false (p = .span) (gemmaQuote.length - 1) rest =
        scanPlaces depth (i + 1) (placesFrom p (gemmaQuote.length - 1) rest)) :
    balancedBraceLoop true i depth false (place = .span) 0 (c :: rest) =
      scanPlaces depth i (placesFrom place 0 (c :: rest)) := by
  obtain ⟨hnarrow, -⟩ := narrow_of_quote hquote
  rw [placesFrom, if_neg (Nat.lt_irrefl 0), if_neg hplace, if_pos hquote,
    scanPlaces_still hdepth i (fun hwide => absurd hwide (by simp [hnarrow])) (weight_span c),
    ← hmore _ (by split <;> decide)]
  cases place with
  | json => exact absurd rfl hplace
  | bare => simp [balancedBraceLoop, hquote]
  | span => simp [balancedBraceLoop, hquote]

/-- One character of a span. -/
theorem loop_span (hdepth : 0 < depth) (hquote : gemmaQuote.isPrefixOf (c :: rest) = false)
    (hmore : balancedBraceLoop true (i + 1) depth false true 0 rest =
      scanPlaces depth (i + 1) (placesFrom .span 0 rest)) :
    balancedBraceLoop true i depth false true 0 (c :: rest) =
      scanPlaces depth i (placesFrom .span 0 (c :: rest)) := by
  rw [placesFrom, if_neg (Nat.lt_irrefl 0), if_neg (by decide), if_neg (by simp [hquote]),
    if_pos rfl]
  by_cases hwide : isMultibyte c = true
  · rw [scanPlaces, if_pos ⟨hwide, by decide⟩]
    simp [balancedBraceLoop, hquote, hwide]
  · rw [scanPlaces_still hdepth i (fun h => absurd h hwide) (weight_span c), ← hmore]
    simp [balancedBraceLoop, hquote, hwide]

/-- One character that stands bare. -/
theorem loop_bare (hdepth : 0 < depth) (hquote : gemmaQuote.isPrefixOf (c :: rest) = false)
    (hjson : balancedBraceLoop true (i + 1) depth true false 0 rest =
      scanPlaces depth (i + 1) (placesFrom .json 0 rest))
    (hbare : ∀ {d : Int}, 0 < d → balancedBraceLoop true (i + 1) d false false 0 rest =
      scanPlaces d (i + 1) (placesFrom .bare 0 rest)) :
    balancedBraceLoop true i depth false false 0 (c :: rest) =
      scanPlaces depth i (placesFrom .bare 0 (c :: rest)) := by
  rw [placesFrom, if_neg (Nat.lt_irrefl 0), if_neg (by decide), if_neg (by simp [hquote]),
    if_neg (by decide)]
  by_cases hstring : c = '"'
  · subst hstring
    rw [if_pos rfl, scanPlaces_still hdepth i (fun _ => rfl) (weight_json '"'), ← hjson]
    simp [balancedBraceLoop, hquote, show isMultibyte '"' = false from by decide]
  rw [if_neg hstring]
  by_cases hwide : isMultibyte c = true
  · rw [scanPlaces, if_pos ⟨hwide, by decide⟩]
    simp [balancedBraceLoop, hquote, hwide]
  rw [scanPlaces, if_neg fun h => hwide h.1]
  by_cases hopen : c = '{'
  · subst hopen
    rw [show weight ('{', Place.bare) = 1 from rfl, if_neg (by omega), ← hbare (by omega)]
    simp [balancedBraceLoop, hquote, hwide]
  by_cases hclose : c = '}'
  · subst hclose
    rw [show weight ('}', Place.bare) = -1 from rfl]
    by_cases hend : depth + -1 = 0
    · rw [if_pos hend]
      simp [balancedBraceLoop, hquote, hwide, show depth - 1 = 0 from hend]
    · rw [if_neg hend, ← hbare (by omega)]
      simp [balancedBraceLoop, hquote, hwide, hend, Int.sub_eq_add_neg]
  · rw [weight_bare hopen hclose, Int.add_zero, if_neg (by omega), ← hbare hdepth]
    simp [balancedBraceLoop, hquote, hwide, hstring, hopen, hclose]

end

/-- **The loop is the scan over the places.** -/
theorem balancedBraceLoop_eq_scan {t : Text} {depth : Int} (hdepth : 0 < depth) (i : Nat)
    (place : Place) (skip : Nat)
    (hskip : place ≠ .json → ∀ d ∈ t.take skip, isMultibyte d = false) :
    balancedBraceLoop true i depth (place = .json) (place = .span) skip t =
      scanPlaces depth i (placesFrom place skip t) := by
  induction t generalizing i depth place skip with
  | nil => rfl
  | cons c rest ih =>
    have hnone : ∀ {p : Place}, p ≠ .json → ∀ d ∈ rest.take 0, isMultibyte d = false :=
      fun _ d hd => nomatch hd
    by_cases hpos : 0 < skip
    · obtain ⟨skip, rfl⟩ : ∃ n, skip = n + 1 := ⟨skip - 1, by omega⟩
      rw [take_succ_cons] at hskip
      rw [balancedBraceLoop, placesFrom, if_pos hpos, if_pos hpos, scanPlaces_still hdepth]
      · exact ih hdepth (i + 1) place skip fun hne d hd => hskip hne d (mem_cons_of_mem _ hd)
      · intro hwide
        by_contra hnot
        have hne : place ≠ .json := fun heq => hnot (if_pos heq)
        rw [hskip hne c mem_cons_self] at hwide
        cases hwide
      · split
        · exact weight_json c
        · exact weight_span c
    obtain rfl : skip = 0 := by omega
    have hjson : ∀ skip, balancedBraceLoop true (i + 1) depth true false skip rest =
        scanPlaces depth (i + 1) (placesFrom .json skip rest) :=
      fun skip => ih hdepth (i + 1) .json skip fun hne => absurd rfl hne
    have hbare : ∀ {d : Int}, 0 < d → balancedBraceLoop true (i + 1) d false false 0 rest =
        scanPlaces d (i + 1) (placesFrom .bare 0 rest) :=
      fun hd => ih hd (i + 1) .bare 0 hnone
    by_cases hplace : place = .json
    · subst hplace
      exact loop_json hdepth hjson (hbare hdepth)
    rw [show decide (place = .json) = false from decide_eq_false hplace]
    by_cases hquote : gemmaQuote.isPrefixOf (c :: rest) = true
    · refine loop_quote hdepth hplace hquote fun p hp => ?_
      have hmore := ih hdepth (i + 1) p _ fun _ => (narrow_of_quote hquote).2
      rwa [show decide (p = .json) = false from decide_eq_false hp] at hmore
    have hquote := Bool.eq_false_iff.2 hquote
    cases place with
    | json => exact absurd rfl hplace
    | bare => exact loop_bare hdepth hquote (hjson 0) hbare
    | span => exact loop_span hdepth hquote (ih hdepth (i + 1) .span 0 hnone)

/-! ## What the scan comes to -/

theorem depthOf_take_succ (x : Char × Place) (m : List (Char × Place)) (k : Nat) :
    depthOf ((x :: m).take (k + 1)) = weight x + depthOf (m.take k) := rfl

theorem depthOf_take_one (x : Char × Place) (m : List (Char × Place)) :
    depthOf ((x :: m).take 1) = weight x := Int.add_zero _

/-- The scan panics at a character that it comes to. -/
theorem scanPlaces_eq_none_iff {depth : Int} {i : Nat} {m : List (Char × Place)} :
    scanPlaces depth i m = none ↔ ∃ j c place, m[j]? = some (c, place) ∧ isMultibyte c = true ∧
      place ≠ .json ∧ ∀ k ≤ j, 0 < k → depth + depthOf (m.take k) ≠ 0 := by
  induction m generalizing depth i with
  | nil => simp [scanPlaces]
  | cons x m ih =>
    obtain ⟨c, place⟩ := x
    rw [scanPlaces]
    by_cases hwide : isMultibyte c = true ∧ place ≠ .json
    · rw [if_pos hwide]
      refine iff_of_true rfl ⟨0, c, place, rfl, hwide.1, hwide.2, fun k hk hpos => ?_⟩
      omega
    rw [if_neg hwide]
    by_cases hend : depth + weight (c, place) = 0
    · rw [if_pos hend]
      refine iff_of_false (fun h => nomatch h) ?_
      rintro ⟨j, c', place', hj, hwide', hplace', hopen⟩
      cases j with
      | zero =>
        cases hj
        exact hwide ⟨hwide', hplace'⟩
      | succ j =>
        refine hopen 1 (by omega) Nat.one_pos ?_
        rwa [depthOf_take_one]
    rw [if_neg hend, ih]
    constructor
    · rintro ⟨j, c', place', hj, hwide', hplace', hopen⟩
      refine ⟨j + 1, c', place', hj, hwide', hplace', fun k hk hpos => ?_⟩
      obtain ⟨k, rfl⟩ : ∃ n, k = n + 1 := ⟨k - 1, by omega⟩
      by_cases hk0 : k = 0
      · subst hk0
        rwa [depthOf_take_one]
      · rw [depthOf_take_succ, ← Int.add_assoc]
        exact hopen k (by omega) (by omega)
    · rintro ⟨j, c', place', hj, hwide', hplace', hopen⟩
      cases j with
      | zero =>
        cases hj
        exact absurd ⟨hwide', hplace'⟩ hwide
      | succ j =>
        refine ⟨j, c', place', hj, hwide', hplace', fun k hk hpos => ?_⟩
        have hnot := hopen (k + 1) (by omega) (Nat.succ_pos k)
        rwa [depthOf_take_succ, ← Int.add_assoc] at hnot

/-- The scan ends where as many braces have been closed as opened. -/
theorem scanPlaces_eq_some_iff {depth : Int} {i e : Nat} {m : List (Char × Place)} :
    scanPlaces depth i m = some (some e) ↔ ∃ len, e + 1 = i + len ∧ 0 < len ∧ len ≤ m.length ∧
      depth + depthOf (m.take len) = 0 ∧ (∀ k < len, 0 < k → depth + depthOf (m.take k) ≠ 0) ∧
        ∀ j < len, ∀ c place, m[j]? = some (c, place) → isMultibyte c = true → place = .json := by
  induction m generalizing depth i with
  | nil =>
    refine iff_of_false (by simp [scanPlaces]) ?_
    rintro ⟨len, -, hpos, hle, -⟩
    rw [length_nil] at hle
    omega
  | cons x m ih =>
    obtain ⟨c, place⟩ := x
    rw [scanPlaces]
    by_cases hwide : isMultibyte c = true ∧ place ≠ .json
    · rw [if_pos hwide]
      refine iff_of_false (fun h => nomatch h) ?_
      rintro ⟨len, -, hpos, -, -, -, hsafe⟩
      exact hwide.2 (hsafe 0 hpos c place rfl hwide.1)
    have hfirst : isMultibyte c = true → place = .json := fun h =>
      by_contra fun hne => hwide ⟨h, hne⟩
    rw [if_neg hwide]
    by_cases hend : depth + weight (c, place) = 0
    · rw [if_pos hend, Option.some.injEq, Option.some.injEq]
      constructor
      · rintro rfl
        refine ⟨1, rfl, Nat.one_pos, by simp, by rwa [depthOf_take_one], fun k hk hpos => by omega,
          ?_⟩
        intro j hj c' place' hat
        obtain rfl : j = 0 := by omega
        cases hat
        exact hfirst
      · rintro ⟨len, hlen, hpos, -, -, hopen, -⟩
        by_contra hne
        exact hopen 1 (by omega) Nat.one_pos (by rwa [depthOf_take_one])
    rw [if_neg hend, ih]
    constructor
    · rintro ⟨len, hlen, hpos, hle, hclosed, hopen, hsafe⟩
      refine ⟨len + 1, by omega, Nat.succ_pos len, Nat.succ_le_succ hle, ?_, ?_, ?_⟩
      · rwa [depthOf_take_succ, ← Int.add_assoc]
      · intro k hk hkpos
        obtain ⟨k, rfl⟩ : ∃ n, k = n + 1 := ⟨k - 1, by omega⟩
        by_cases hk0 : k = 0
        · subst hk0
          rwa [depthOf_take_one]
        · rw [depthOf_take_succ, ← Int.add_assoc]
          exact hopen k (by omega) (by omega)
      · intro j hj c' place' hat
        cases j with
        | zero =>
          cases hat
          exact hfirst
        | succ j => exact hsafe j (by omega) c' place' hat
    · rintro ⟨len, hlen, hpos, hle, hclosed, hopen, hsafe⟩
      obtain ⟨len, rfl⟩ : ∃ n, len = n + 1 := ⟨len - 1, by omega⟩
      have hpos' : 0 < len := by
        by_contra hzero
        obtain rfl : len = 0 := by omega
        rw [depthOf_take_one] at hclosed
        exact hend hclosed
      rw [depthOf_take_succ, ← Int.add_assoc] at hclosed
      refine ⟨len, by omega, hpos', Nat.le_of_succ_le_succ hle, hclosed, fun k hk hkpos => ?_,
        fun j hj c' place' hat => hsafe (j + 1) (by omega) c' place' hat⟩
      have hnot := hopen (k + 1) (by omega) (Nat.succ_pos k)
      rwa [depthOf_take_succ, ← Int.add_assoc] at hnot

/-! ## What `balanced_brace_end` comes to -/

section
variable {b : Text} (hb : b.head? = some '{')

include hb

theorem balancedBraceEnd_eq_scan : balancedBraceEnd b true = scanPlaces 0 0 (places b) := by
  cases b with
  | nil => cases hb
  | cons c rest =>
    cases hb
    have hmore := balancedBraceLoop_eq_scan (t := rest) Int.zero_lt_one 1 .bare 0
      fun _ d hd => nomatch hd
    have hquote : ¬ gemmaQuote.isPrefixOf ('{' :: rest) = true := fun h => nomatch h
    rw [places, placesFrom, if_neg (Nat.lt_irrefl 0), if_neg (by decide), if_neg hquote,
      if_neg (by decide), if_neg (by decide), scanPlaces, if_neg (by decide), if_neg (by decide)]
    exact hmore

/-- **The scan panics** if and only if a character of several bytes stands outside of the JSON
strings before the object ends. -/
theorem balancedBraceEnd_crashes_iff : balancedBraceEnd b true = none ↔ ¬ BraceSafe b := by
  rw [balancedBraceEnd_eq_scan hb, scanPlaces_eq_none_iff]
  simp only [Int.zero_add]
  constructor
  · rintro ⟨j, c, place, hj, hwide, hplace, hopen⟩ hsafe
    obtain hjson | ⟨len, hle, hends⟩ := hsafe j c place hj hwide
    · exact hplace hjson
    · exact hopen len hle hends.pos hends.closed
  · intro hnot
    rw [BraceSafe] at hnot
    push Not at hnot
    obtain ⟨j, c, place, hj, hwide, hplace, hopen⟩ := hnot
    refine ⟨j, c, place, hj, hwide, hplace, fun k hk hpos hclosed => ?_⟩
    -- the first end is an end of the object
    induction k using Nat.strongRecOn with
    | _ k ih =>
      refine hopen k hk ⟨hpos, ?_, hclosed, fun k' hk' hpos' hclosed' => ?_⟩
      · have hlt := (List.getElem?_eq_some_iff.1 hj).1
        omega
      · exact ih k' hk' (by omega) hpos' hclosed'

/-- **Where it does not panic, it finds the end.** -/
theorem balancedBraceEnd_ends_iff (hsafe : BraceSafe b) {e : Nat} :
    balancedBraceEnd b true = some (some e) ↔ ObjectEnds b (e + 1) := by
  rw [balancedBraceEnd_eq_scan hb, scanPlaces_eq_some_iff]
  simp only [Int.zero_add, Nat.zero_add]
  constructor
  · rintro ⟨len, rfl, hpos, hle, hclosed, hopen, -⟩
    exact ⟨hpos, hle, hclosed, hopen⟩
  intro hends
  refine ⟨e + 1, rfl, hends.pos, hends.within, hends.closed, hends.first, ?_⟩
  intro j hj c place hat hwide
  obtain hjson | ⟨len, hle, hearlier⟩ := hsafe j c place hat hwide
  · exact hjson
  · exact absurd hearlier.closed (hends.first len (by omega) hearlier.pos)

end

end Backend
end Gen2
