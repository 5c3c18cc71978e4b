import Mathlib.Tactic.Common

/-!
# Patterns in a text that is still arriving

A text is searched for patterns while only a part of it is there.  What decides whether the search
can go on is whether the part that is there could still become a pattern.

* `find p s` is where `p` first stands in `s`; what comes after `s` does not change that
  (`find_append`).  `earliest` is the first place where one of several patterns stands.
* `couldBecome ps s` says that some pattern goes on after `s`.  Where it is false, which patterns
  `s` begins with does not depend on what comes after it (`prefix_append_iff`), and it stays false
  (`couldBecome_append`).
* `holdLen ps s` is how much of the end of `s` could still become a pattern.  The places before that
  are `Clear`: no pattern begins there, whatever comes after `s` (`Clear.append`).
-/

namespace Gen2.Lib

open List

universe u v

variable {α : Type u} [DecidableEq α]

/-- `s` is a beginning of one of the patterns, and not all of it. -/
def couldBecome (ps : List (List α)) (s : List α) : Bool :=
  ps.any fun p => s.isPrefixOf p && decide (s.length < p.length)

variable {ps : List (List α)} {s : List α}

theorem couldBecome_iff : couldBecome ps s = true ↔ ∃ p ∈ ps, s <+: p ∧ s.length < p.length := by
  simp [couldBecome]

theorem couldBecome_eq_false_iff :
    couldBecome ps s = false ↔ ∀ p ∈ ps, s <+: p → p.length ≤ s.length := by
  rw [← Bool.not_eq_true, couldBecome_iff]
  constructor
  · intro h p hp hpre
    by_contra hlt
    exact h ⟨p, hp, hpre, by omega⟩
  · rintro h ⟨p, hp, hpre, hlt⟩
    have := h p hp hpre
    omega

variable {p : List α}

/-- **Which patterns a text begins with** is decided as soon as the text can become no other. -/
theorem prefix_append_iff (h : couldBecome ps s = false) (hp : p ∈ ps) (t : List α) :
    p <+: s ++ t ↔ p <+: s := by
  constructor
  · intro hpre
    rcases prefix_or_prefix_of_prefix hpre (prefix_append s t) with hps | hsp
    · exact hps
    · have hlen := couldBecome_eq_false_iff.1 h p hp hsp
      exact (hsp.eq_of_length_le hlen) ▸ prefix_refl s
  · intro hpre
    exact hpre.trans (prefix_append s t)

theorem couldBecome_append (h : couldBecome ps s = false) (t : List α) :
    couldBecome ps (s ++ t) = false := by
  rw [couldBecome_eq_false_iff] at h ⊢
  intro p hp hpre
  have hlen := h p hp ((prefix_append s t).trans hpre)
  rw [length_append]
  omega

/-! ## The first occurrence -/

/-- `str::find`: where the pattern first stands. -/
def find (p : List α) : List α → Option Nat
  | [] => if p.isEmpty then some 0 else none
  | a :: s => if p.isPrefixOf (a :: s) then some 0 else (find p s).map (· + 1)

theorem find_eq_some_iff {i : Nat} :
    find p s = some i ↔ i ≤ s.length ∧ p <+: s.drop i ∧ ∀ j < i, ¬ p <+: s.drop j := by
  induction s generalizing i with
  | nil =>
    rw [find]
    by_cases hp : p = []
    · subst hp
      simp only [isEmpty_nil, if_true, Option.some.injEq, length_nil, Nat.le_zero_eq]
      refine ⟨fun h => ⟨h.symm, nil_prefix, fun j hj => ?_⟩, fun h => h.1.symm⟩
      omega
    · rw [if_neg (by simpa using hp)]
      simp [hp]
  | cons a s ih =>
    rw [find]
    by_cases hp : p.isPrefixOf (a :: s) = true
    · rw [if_pos hp]
      rw [ isPrefixOf_iff_prefix] at hp
      constructor
      · intro h
        cases h
        exact ⟨Nat.zero_le _, hp, fun j hj => absurd hj (Nat.not_lt_zero j)⟩
      · rintro ⟨-, -, hmin⟩
        cases i with
        | zero => rfl
        | succ i => exact absurd hp (hmin 0 (Nat.zero_lt_succ i))
    · rw [if_neg hp]
      rw [ isPrefixOf_iff_prefix] at hp
      cases i with
      | zero =>
        refine ⟨fun h => ?_, fun h => absurd h.2.1 hp⟩
        obtain ⟨k, -, hk⟩ := Option.map_eq_some_iff.1 h
        exact absurd hk (Nat.succ_ne_zero k)
      | succ i =>
        rw [Option.map_eq_some_iff]
        constructor
        · rintro ⟨k, hk, heq⟩
          cases heq
          obtain ⟨hle, hpre, hmin⟩ := ih.1 hk
          refine ⟨Nat.succ_le_succ hle, hpre, fun j hj => ?_⟩
          cases j with
          | zero => exact hp
          | succ j => exact hmin j (Nat.lt_of_succ_lt_succ hj)
        · rintro ⟨hle, hpre, hmin⟩
          refine ⟨i, ih.2 ⟨Nat.le_of_succ_le_succ hle, hpre, fun j hj => ?_⟩, rfl⟩
          exact hmin (j + 1) (Nat.succ_lt_succ hj)

theorem find_eq_none_iff (hp : p ≠ []) : find p s = none ↔ ∀ i, ¬ p <+: s.drop i := by
  induction s with
  | nil => simp [find, hp]
  | cons a s ih =>
    rw [find]
    by_cases hpre : p.isPrefixOf (a :: s) = true
    · rw [if_pos hpre]
      exact ⟨fun h => (nomatch h), fun h => absurd ( isPrefixOf_iff_prefix.1 hpre) (h 0)⟩
    rw [if_neg hpre, Option.map_eq_none_iff, ih]
    rw [ isPrefixOf_iff_prefix] at hpre
    constructor
    · intro h i
      cases i with
      | zero => exact hpre
      | succ i => exact h i
    · intro h i
      exact h (i + 1)

/-- Where a pattern has been found, there is room for it. -/
theorem find_le {i : Nat} (h : find p s = some i) : i + p.length ≤ s.length := by
  obtain ⟨hle, hpre, -⟩ := find_eq_some_iff.1 h
  have := hpre.length_le
  rw [length_drop] at this
  omega

/-- A pattern that does not overlap itself is found behind a text without it. -/
theorem find_append_self (hne : p ≠ []) (hborder : ∀ k < p.length, 0 < k → ¬ p.drop k <+: p)
    (hs : find p s = none) (t : List α) : find p (s ++ (p ++ t)) = some s.length := by
  refine find_eq_some_iff.2 ⟨by simp, ?_, fun j hj hpre => ?_⟩
  · rw [drop_left]
    exact prefix_append p t
  rw [drop_append_of_le_length (Nat.le_of_lt hj)] at hpre
  rcases prefix_or_prefix_of_prefix hpre (prefix_append (s.drop j) (p ++ t)) with h | h
  · exact (find_eq_none_iff hne).1 hs j h
  -- the end of the pattern would begin it
  have hlen : (s.drop j).length = s.length - j := length_drop
  obtain ⟨q, hq⟩ := h
  rw [← hq, prefix_append_right_inj, hq] at hpre
  have hshort : q.length < p.length := by
    rw [← hq, length_append]
    omega
  have hqp : q <+: p :=
    ( prefix_or_prefix_of_prefix hpre (prefix_append p t)).resolve_right
      fun hle => by
        have := hle.length_le
        omega
  have hrest : q ≠ [] := by
    rintro rfl
    rw [append_nil] at hq
    exact (find_eq_none_iff hne).1 hs j (hq ▸ prefix_refl _)
  have hq' : p.drop (s.drop j).length = q := by rw [← hq, drop_left]
  refine hborder (s.drop j).length ?_ (by omega) (hq' ▸ hqp)
  rw [← hq, length_append]
  have := length_pos_iff.2 hrest
  omega

/-- **What comes later does not move the first occurrence.** -/
theorem find_append {i : Nat} (h : find p s = some i) (t : List α) : find p (s ++ t) = some i := by
  obtain ⟨hle, hpre, hmin⟩ := find_eq_some_iff.1 h
  have hroom := find_le h
  refine find_eq_some_iff.2 ⟨by rw [length_append]; omega, ?_, fun j hj hpre' => ?_⟩
  · rw [drop_append_of_le_length hle]
    exact hpre.trans (prefix_append _ _)
  refine hmin j hj (prefix_of_prefix_length_le hpre' ?_ ?_)
  · rw [drop_append_of_le_length (by omega)]
    exact prefix_append _ _
  · rw [length_drop]
    omega

/-! ## The first of several patterns -/

section
variable {τ : Type v}

/-- Keep what has been found before, unless what is found now is earlier. -/
def keepEarlier : Option (Nat × τ) → Option (Nat × τ) → Option (Nat × τ)
  | best, none => best
  | none, some found => some found
  | some best, some found => if found.1 < best.1 then some found else some best

/-- Look for the patterns one after another, and keep the first place; where two stand at the same
place, keep the one that was looked for first. -/
def earliest (cs : List (List α × τ)) (s : List α) : Option (Nat × τ) :=
  cs.foldl (fun best c => keepEarlier best ((find c.1 s).map fun i => (i, c.2))) none

/-- No pattern stands in another one, and none is the beginning of another one. -/
def Apart (ps : List (List α)) : Prop :=
  ∀ p ∈ ps, ∀ q ∈ ps, ∀ k < p.length, q <+: p.drop k → k = 0 ∧ q = p

instance (ps : List (List α)) : Decidable (Apart ps) :=
  inferInstanceAs (Decidable (∀ p ∈ ps, ∀ q ∈ ps, ∀ k < p.length, q <+: p.drop k → k = 0 ∧ q = p))

omit [DecidableEq α] in
theorem Apart.subset {ps qs : List (List α)} (h : Apart ps) (hsub : qs ⊆ ps) : Apart qs :=
  fun p hp q hq => h p (hsub hp) q (hsub hq)

variable {best : Option (Nat × τ)}

theorem keepEarlier_eq_none_iff {found : Option (Nat × τ)} :
    keepEarlier best found = none ↔ best = none ∧ found = none := by
  cases found with
  | none => simp [keepEarlier]
  | some f =>
    cases best with
    | none => simp [keepEarlier]
    | some b =>
      rw [keepEarlier]
      split <;> simp

theorem keepEarlier_some {found : Option (Nat × τ)} {r : Nat × τ}
    (h : keepEarlier best found = some r) : (best = some r ∨ found = some r) ∧
      (∀ b, best = some b → r.1 ≤ b.1) ∧ ∀ f, found = some f → r.1 ≤ f.1 := by
  cases found with
  | none =>
    have h : best = some r := by cases best <;> exact h
    exact ⟨.inl h, fun b hb => by simp_all, fun f hf => nomatch hf⟩
  | some f =>
    cases best with
    | none =>
      cases h
      exact ⟨.inr rfl, fun b hb => (nomatch hb), fun g hg => by simp_all⟩
    | some b =>
      rw [keepEarlier] at h
      split at h
      · cases h
        exact ⟨.inr rfl, fun b' hb => by cases hb; omega, fun g hg => by simp_all⟩
      · cases h
        exact ⟨.inl rfl, fun b' hb => by simp_all, fun g hg => by cases hg; omega⟩

variable {cs : List (List α × τ)} {s : List α}

theorem earliest_foldl {r : Nat × τ}
    (h : cs.foldl (fun best c => keepEarlier best ((find c.1 s).map fun i => (i, c.2))) best =
      some r) :
    (best = some r ∨ ∃ c ∈ cs, find c.1 s = some r.1 ∧ c.2 = r.2) ∧
      (∀ b, best = some b → r.1 ≤ b.1) ∧ ∀ c ∈ cs, ∀ j, find c.1 s = some j → r.1 ≤ j := by
  induction cs generalizing best with
  | nil => exact ⟨.inl h, fun b hb => by simp_all, fun c hc => nomatch hc⟩
  | cons c cs ih =>
    obtain ⟨hfrom, hle, hall⟩ := ih h
    cases hnow : keepEarlier best ((find c.1 s).map fun i => (i, c.2)) with
    | none =>
      obtain ⟨hbest, hfound⟩ := keepEarlier_eq_none_iff.1 hnow
      refine ⟨.inr ?_, fun b hb => by simp_all, fun d hd j hj => ?_⟩
      · rcases hfrom with hbad | ⟨d, hd, h⟩
        · cases hnow.symm.trans hbad
        · exact ⟨d, mem_cons_of_mem _ hd, h⟩
      · rcases mem_cons.1 hd with rfl | hd
        · simp [hj] at hfound
        · exact hall d hd j hj
    | some k =>
      obtain ⟨hkfrom, hkbest, hkfound⟩ := keepEarlier_some hnow
      have hrk := hle k hnow
      refine ⟨?_, fun b hb => Nat.le_trans hrk (hkbest b hb), fun d hd j hj => ?_⟩
      · rcases hfrom with hr | ⟨d, hd, h⟩
        · have hkr : k = r := Option.some.inj (hnow.symm.trans hr)
          subst hkr
          refine hkfrom.imp_right fun hfound => ?_
          obtain ⟨i, hi, rfl⟩ := Option.map_eq_some_iff.1 hfound
          exact ⟨c, mem_cons_self, hi, rfl⟩
        · exact .inr ⟨d, mem_cons_of_mem _ hd, h⟩
      · rcases mem_cons.1 hd with rfl | hd
        · exact Nat.le_trans hrk (hkfound (j, d.2) (by rw [hj]; rfl))
        · exact hall d hd j hj

theorem earliest_foldl_none
    (h : cs.foldl (fun best c => keepEarlier best ((find c.1 s).map fun i => (i, c.2))) best =
      none) : best = none ∧ ∀ c ∈ cs, find c.1 s = none := by
  induction cs generalizing best with
  | nil => exact ⟨h, fun c hc => nomatch hc⟩
  | cons c cs ih =>
    obtain ⟨hnow, hall⟩ := ih h
    obtain ⟨hbest, hfound⟩ := keepEarlier_eq_none_iff.1 hnow
    refine ⟨hbest, fun d hd => ?_⟩
    rcases mem_cons.1 hd with rfl | hd
    · exact Option.map_eq_none_iff.1 hfound
    · exact hall d hd

/-- Where nothing has been found, no pattern stands anywhere. -/
theorem earliest_none (hne : ∀ c ∈ cs, c.1 ≠ []) (h : earliest cs s = none) (j : Nat)
    {c : List α × τ} (hc : c ∈ cs) : ¬ c.1 <+: s.drop j :=
  (find_eq_none_iff (hne c hc)).1 ((earliest_foldl_none h).2 c hc) j

/-- What has been found stands there, and nothing stands before it. -/
theorem earliest_some {i : Nat} {x : τ} (h : earliest cs s = some (i, x)) :
    (∃ c ∈ cs, c.2 = x ∧ c.1 <+: s.drop i ∧ i + c.1.length ≤ s.length) ∧
      ∀ j < i, ∀ c ∈ cs, ¬ c.1 <+: s.drop j := by
  obtain ⟨hfrom, -, hall⟩ := earliest_foldl h
  rcases hfrom with hnone | ⟨c, hc, hi, hx⟩
  · cases hnone
  refine ⟨⟨c, hc, hx, (find_eq_some_iff.1 hi).2.1, find_le hi⟩, fun j hj d hd hpre => ?_⟩
  cases hd' : find d.1 s with
  | none =>
    have hne : d.1 ≠ [] := by
      intro hnil
      rw [hnil] at hd'
      cases s <;> simp [find] at hd'
    exact (find_eq_none_iff hne).1 hd' j hpre
  | some k =>
    have hik := hall d hd k hd'
    exact (find_eq_some_iff.1 hd').2.2 j (by omega) hpre

theorem earliest_foldl_first {r : Nat × τ}
    (h : cs.foldl (fun best c => keepEarlier best ((find c.1 s).map fun i => (i, c.2))) best =
      some r) :
    best = some r ∨ (∀ b, best = some b → r.1 < b.1) ∧
      ∃ before c after, cs = before ++ c :: after ∧ find c.1 s = some r.1 ∧ c.2 = r.2 ∧
        ∀ d ∈ before, find d.1 s ≠ some r.1 := by
  induction cs generalizing best with
  | nil => exact .inl h
  | cons c cs ih =>
    rw [foldl_cons] at h
    rcases ih h with hnow | ⟨hlt, before, d, after, hcs, hfind, hd, hbefore⟩
    · -- what is found now is kept to the end
      cases hc : find c.1 s with
      | none =>
        rw [hc, Option.map_none, keepEarlier] at hnow
        exact .inl hnow
      | some i =>
        rw [hc, Option.map_some] at hnow
        cases best with
        | none =>
          cases hnow
          exact .inr ⟨fun b hb => (nomatch hb), [], c, cs, rfl, hc, rfl, by simp⟩
        | some b =>
          rw [keepEarlier] at hnow
          split at hnow
          next hib =>
            cases hnow
            refine .inr ⟨fun b' hb => ?_, [], c, cs, rfl, hc, rfl, by simp⟩
            cases hb
            exact hib
          · exact .inl hnow
    · refine .inr ⟨fun b hb => ?_, c :: before, d, after, by rw [hcs]; rfl, hfind, hd, ?_⟩
      · cases hk : keepEarlier best ((find c.1 s).map fun i => (i, c.2)) with
        | none => cases hb.symm.trans (keepEarlier_eq_none_iff.1 hk).1
        | some k => exact Nat.lt_of_lt_of_le (hlt k hk) ((keepEarlier_some hk).2.1 b hb)
      intro e he
      rcases mem_cons.1 he with rfl | he
      · intro hfound
        cases hk : keepEarlier best ((find e.1 s).map fun i => (i, e.2)) with
        | none =>
          have hnone := (keepEarlier_eq_none_iff.1 hk).2
          rw [hfound] at hnone
          cases hnone
        | some k =>
          have hle := (keepEarlier_some hk).2.2 (r.1, e.2) (by rw [hfound]; rfl)
          exact absurd (hlt k hk) (Nat.not_lt.2 hle)
      · exact hbefore e he

/-- **What has been found is the first that stands there** of those that are looked for. -/
theorem earliest_find? {i : Nat} {x : τ} (h : earliest cs s = some (i, x)) :
    ∃ c, cs.find? (fun c => c.1.isPrefixOf (s.drop i)) = some c ∧ c.2 = x := by
  obtain ⟨-, hmin⟩ := earliest_some h
  rcases earliest_foldl_first h with hnone | ⟨-, before, c, after, hcs, hfind, hx, hbefore⟩
  · cases hnone
  obtain ⟨hle, hpre, -⟩ := find_eq_some_iff.1 hfind
  refine ⟨c, find?_eq_some_iff_append.2 ⟨ isPrefixOf_iff_prefix.2 hpre, before, after,
    hcs, fun d hd => ?_⟩, hx⟩
  have hmem : d ∈ cs := hcs ▸ mem_append_left _ hd
  rw [Bool.not_eq_true', ← Bool.not_eq_true, isPrefixOf_iff_prefix]
  exact fun hstands => hbefore d hd (find_eq_some_iff.2 ⟨hle, hstands,
    fun j hj => hmin j hj d hmem⟩)

/-- Where patterns are apart, **the first place settles what is found**. -/
theorem earliest_eq_some_iff (hne : ∀ c ∈ cs, c.1 ≠ []) (hapart : Apart (cs.map Prod.fst))
    (hinj : ∀ c ∈ cs, ∀ d ∈ cs, c.1 = d.1 → c.2 = d.2) {i : Nat} {x : τ} :
    earliest cs s = some (i, x) ↔
      (∃ c ∈ cs, c.2 = x ∧ c.1 <+: s.drop i) ∧ ∀ j < i, ∀ c ∈ cs, ¬ c.1 <+: s.drop j := by
  constructor
  · intro h
    obtain ⟨⟨c, hc, hx, hpre, -⟩, hmin⟩ := earliest_some h
    exact ⟨⟨c, hc, hx, hpre⟩, hmin⟩
  rintro ⟨⟨c, hc, hx, hpre⟩, hmin⟩
  cases h : earliest cs s with
  | none => exact absurd hpre (earliest_none hne h i hc)
  | some r =>
    obtain ⟨k, y⟩ := r
    obtain ⟨⟨d, hd, hy, hdpre, -⟩, hkmin⟩ := earliest_some h
    have hki : k = i := by
      rcases Nat.lt_trichotomy k i with hlt | heq | hgt
      · exact absurd hdpre (hmin k hlt d hd)
      · exact heq
      · exact absurd hpre (hkmin i hgt c hc)
    subst hki
    have hcd : c.1 = d.1 := by
      have hcmem := mem_map_of_mem (f := Prod.fst) hc
      have hdmem := mem_map_of_mem (f := Prod.fst) hd
      rcases prefix_or_prefix_of_prefix hpre hdpre with hcd | hdc
      · exact (hapart d.1 hdmem c.1 hcmem 0 (length_pos_iff.2 (hne d hd)) hcd).2
      · exact (hapart c.1 hcmem d.1 hdmem 0 (length_pos_iff.2 (hne c hc)) hdc).2.symm
    rw [← hx, ← hy, hinj c hc d hd hcd]

end

/-! ## Places where no pattern can begin -/

section
variable {α : Type u}

/-- At none of the first `n` places does a pattern stand, and at none of them could it come to
stand. -/
def Clear (ps : List (List α)) (n : Nat) (s : List α) : Prop :=
  ∀ j < n, ∀ p ∈ ps, ¬ p <+: s.drop j ∧ ¬ s.drop j <+: p

variable {ps : List (List α)} {s : List α}

theorem Clear.mono {m n : Nat} (h : Clear ps n s) (hmn : m ≤ n) : Clear ps m s :=
  fun j hj => h j (Nat.lt_of_lt_of_le hj hmn)

theorem Clear.subset {qs : List (List α)} {n : Nat} (h : Clear ps n s) (hsub : qs ⊆ ps) :
    Clear qs n s :=
  fun j hj q hq => h j hj q (hsub hq)

/-- Behind clear places, clear places of the rest. -/
theorem Clear.concat {n : Nat} {b : List α} (hb : Clear ps b.length (b ++ s)) (hs : Clear ps n s) :
    Clear ps (b.length + n) (b ++ s) := by
  intro j hj
  rcases Nat.lt_or_ge j b.length with hlt | hge
  · exact hb j hlt
  · rw [drop_append, drop_eq_nil_of_le hge, nil_append]
    exact hs _ (by omega)

/-- **Clear places stay clear.** -/
theorem Clear.append {n : Nat} (h : Clear ps n s) (hn : n ≤ s.length) (t : List α) :
    Clear ps n (s ++ t) := by
  intro j hj p hp
  obtain ⟨hstands, hmay⟩ := h j hj p hp
  rw [drop_append_of_le_length (by omega)]
  refine ⟨fun hpre => ?_, fun hpre => hmay ((prefix_append _ _).trans hpre)⟩
  rcases prefix_or_prefix_of_prefix hpre (prefix_append (s.drop j) t) with hps | hsp
  · exact hstands hps
  · exact hmay hsp

/-- What has been found first, the places before it are clear. -/
theorem clear_before (hapart : Apart ps) {q : List α} (hq : q ∈ ps) (hne : q ≠ []) {i : Nat}
    (hi : i + q.length ≤ s.length) (hpre : q <+: s.drop i)
    (hmin : ∀ j < i, ∀ p ∈ ps, ¬ p <+: s.drop j) : Clear ps i s := by
  intro j hj p hp
  refine ⟨hmin j hj p hp, fun hsp => ?_⟩
  have hqlen := length_pos_iff.2 hne
  have hlen := hsp.length_le
  rw [length_drop] at hlen
  have hdrop : s.drop i <+: p.drop (i - j) := by
    obtain ⟨rest, rfl⟩ := hsp
    rw [drop_append_of_le_length (by rw [length_drop]; omega), drop_drop,
      show j + (i - j) = i by omega]
    exact prefix_append _ _
  have := (hapart p hp q hq (i - j) (by omega) (hpre.trans hdrop)).1
  omega

end

/-! ## Holding back -/

/-- The longest end of `s`, of at most `k`, that `p` begins with. -/
def longestHold (p s : List α) : Nat → Nat
  | 0 => 0
  | k + 1 => if (s.drop (s.length - (k + 1))).isPrefixOf p then k + 1 else longestHold p s k

/-- How much of the end of `s` could become one of the patterns. -/
def holdLen (ps : List (List α)) (s : List α) : Nat :=
  ps.foldl (fun best p => max best (longestHold p s (min (p.length - 1) s.length))) 0

theorem longestHold_le (p s : List α) (k : Nat) : longestHold p s k ≤ k := by
  induction k with
  | zero => exact Nat.le_refl _
  | succ k ih =>
    rw [longestHold]
    split
    · exact Nat.le_refl _
    · exact Nat.le_succ_of_le ih

theorem longestHold_lt {k m : Nat} (h : longestHold p s k < m) (hm : m ≤ k) :
    ¬ s.drop (s.length - m) <+: p := by
  induction k with
  | zero => omega
  | succ k ih =>
    rw [longestHold] at h
    split at h
    · omega
    rcases Nat.lt_or_ge k m with hlt | hge
    · obtain rfl : m = k + 1 := by omega
      rw [← isPrefixOf_iff_prefix]
      assumption
    · exact ih h hge

theorem holdLen_spec (ps : List (List α)) (s : List α) :
    holdLen ps s ≤ s.length ∧
      ∀ p ∈ ps, longestHold p s (min (p.length - 1) s.length) ≤ holdLen ps s := by
  have hfold : ∀ (ps : List (List α)) (best : Nat), best ≤ s.length →
      best ≤ ps.foldl (fun best p => max best (longestHold p s (min (p.length - 1) s.length))) best ∧
      ps.foldl (fun best p => max best (longestHold p s (min (p.length - 1) s.length))) best
        ≤ s.length ∧
      ∀ p ∈ ps, longestHold p s (min (p.length - 1) s.length) ≤
        ps.foldl (fun best p => max best (longestHold p s (min (p.length - 1) s.length))) best := by
    intro ps
    induction ps with
    | nil => exact fun best hbest => ⟨Nat.le_refl _, hbest, fun p hp => nomatch hp⟩
    | cons p ps ih =>
      intro best hbest
      have hp := longestHold_le p s (min (p.length - 1) s.length)
      obtain ⟨hge, hle, hall⟩ :=
        ih (max best (longestHold p s (min (p.length - 1) s.length))) (by omega)
      refine ⟨Nat.le_trans (Nat.le_max_left ..) hge, hle, fun q hq => ?_⟩
      rcases mem_cons.1 hq with rfl | hq
      · exact Nat.le_trans (Nat.le_max_right ..) hge
      · exact hall q hq
  obtain ⟨-, hle, hall⟩ := hfold ps 0 (Nat.zero_le _)
  exact ⟨hle, hall⟩

/-- **What is not held back is clear** of those of the patterns that do not stand there. -/
theorem clear_of_holdLen {qs : List (List α)} {n : Nat} (hsub : qs ⊆ ps)
    (hn : n ≤ s.length - holdLen ps s) (h : ∀ j < n, ∀ q ∈ qs, ¬ q <+: s.drop j) :
    Clear qs n s := by
  intro j hj p hp
  refine ⟨h j hj p hp, fun hsp => ?_⟩
  have hall := (holdLen_spec ps s).2 p (hsub hp)
  have hlen := hsp.length_le
  rw [length_drop] at hlen
  have hlt : s.length - j < p.length := by
    rcases Nat.lt_or_ge (s.length - j) p.length with hlt | hge
    · exact hlt
    · have heq := hsp.eq_of_length_le (by rw [length_drop]; exact hge)
      exact absurd (heq ▸ prefix_refl _) (h j hj p hp)
  have hshort : longestHold p s (min (p.length - 1) s.length) < s.length - j := by omega
  refine longestHold_lt hshort (by omega) ?_
  rw [show s.length - (s.length - j) = j by omega]
  exact hsp

end Gen2.Lib
