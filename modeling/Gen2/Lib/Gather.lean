import Mathlib.Data.Finset.Sort

/-!
# Gathering under keys

A map in the order of its keys, as the list of its entries, and what comes of folding a list into
one: each element into the entry of its key.

* `entryOr` updates an entry, or puts one in that is made from the default.
* `Ascending.ext`: two maps with the same entries are the same list.
* `gather_eq`: gathering makes one entry for every key, in the order of the keys, from the elements
  that have it, in their order.
-/

namespace Gen2.Lib

open List

universe u v w

variable {κ : Type u} {ν : Type v} {α : Type w} [LinearOrder κ]

/-- The keys ascend. -/
def Ascending (m : List (κ × ν)) : Prop := (m.map Prod.fst).Pairwise (· < ·)

/-- `f` of the entry at `k`, of `default` where there is none. -/
def entryOr (k : κ) (default : ν) (f : ν → ν) : List (κ × ν) → List (κ × ν)
  | [] => [(k, f default)]
  | (k', v) :: m =>
    if k < k' then (k, f default) :: (k', v) :: m
    else if k = k' then (k', f v) :: m
    else (k', v) :: entryOr k default f m

/-- Fold the elements of a list into the entries of their keys. -/
def gather (key : α → κ) (default : ν) (absorb : ν → α → ν) (m : List (κ × ν)) (l : List α) :
    List (κ × ν) :=
  l.foldl (fun m a => entryOr (key a) default (absorb · a) m) m

variable {m : List (κ × ν)}

theorem Ascending.of_cons {e : κ × ν} (h : Ascending (e :: m)) :
    Ascending m ∧ ∀ e' ∈ m, e.1 < e'.1 := by
  rw [Ascending, map_cons, pairwise_cons] at h
  exact ⟨h.2, fun e' he' => h.1 e'.1 (mem_map_of_mem he')⟩

theorem lookup_cons_ite (k j : κ) (v : ν) (m : List (κ × ν)) :
    ((j, v) :: m).lookup k = if k = j then some v else m.lookup k := by
  rw [lookup_cons]
  by_cases h : k = j
  · subst h; simp
  · simp [h, beq_eq_false_iff_ne.mpr h]

theorem lookup_eq_none_of_lt {k : κ} (h : ∀ e ∈ m, k < e.1) : m.lookup k = none := by
  rw [lookup_eq_none_iff]
  intro e he
  simpa using (h e he).ne

/-- There is no entry below the first. -/
theorem Ascending.lookup_eq_none {e : κ × ν} (h : Ascending (e :: m)) {k : κ} (hk : k < e.1) :
    (e :: m).lookup k = none := by
  refine lookup_eq_none_of_lt fun e' he' => ?_
  rcases mem_cons.mp he' with rfl | he'
  · exact hk
  · exact hk.trans (h.of_cons.2 e' he')

theorem mem_keys_entryOr {k k' : κ} {default : ν} {f : ν → ν}
    (h : k' ∈ (entryOr k default f m).map Prod.fst) : k' = k ∨ k' ∈ m.map Prod.fst := by
  induction m with
  | nil => simpa [entryOr] using h
  | cons e m ih =>
    rw [entryOr] at h
    split at h
    · simpa using h
    split at h
    · simp only [map_cons, mem_cons] at h ⊢
      exact .inr h
    · simp only [map_cons, mem_cons] at h ⊢
      rcases h with h | h
      · exact .inr (.inl h)
      · exact (ih h).imp_right .inr

theorem Ascending.entryOr (h : Ascending m) (k : κ) (default : ν) (f : ν → ν) :
    Ascending (entryOr k default f m) := by
  induction m with
  | nil => exact pairwise_singleton _ _
  | cons e m ih =>
    obtain ⟨hm, hlt⟩ := h.of_cons
    rw [Lib.entryOr]
    split
    case isTrue hk =>
      refine pairwise_cons.mpr ⟨fun k' hk' => ?_, h⟩
      rcases mem_cons.mp hk' with rfl | hk'
      · exact hk
      · obtain ⟨e', he', rfl⟩ := mem_map.mp hk'
        exact hk.trans (hlt e' he')
    case isFalse hk =>
      split
      case isTrue => exact h
      case isFalse hne =>
        refine pairwise_cons.mpr ⟨fun k' hk' => ?_, ih hm⟩
        rcases mem_keys_entryOr hk' with rfl | hk'
        · exact lt_of_le_of_ne (not_lt.mp hk) (Ne.symm hne)
        · obtain ⟨e', he', rfl⟩ := mem_map.mp hk'
          exact hlt e' he'

theorem lookup_entryOr (h : Ascending m) (k k' : κ) (default : ν) (f : ν → ν) :
    (entryOr k default f m).lookup k' =
      if k' = k then some (f ((m.lookup k).getD default)) else m.lookup k' := by
  induction m with
  | nil => simp [entryOr, lookup_cons_ite]
  | cons e m ih =>
    obtain ⟨hm, hlt⟩ := h.of_cons
    obtain ⟨j, v⟩ := e
    rw [entryOr]
    split
    case isTrue hk =>
      rw [lookup_cons_ite, h.lookup_eq_none hk]
      rfl
    case isFalse hk =>
      split
      case isTrue heq =>
        subst heq
        rw [lookup_cons_ite, lookup_cons_ite, lookup_cons_ite, if_pos rfl]
        by_cases hk' : k' = k <;> simp [hk']
      case isFalse hne =>
        rw [lookup_cons_ite, ih hm, lookup_cons_ite, lookup_cons_ite, if_neg hne]
        by_cases hj : k' = j
        · have hk' : k' ≠ k := by rintro rfl; exact hne hj
          simp [hj, Ne.symm hne]
        · simp [hj]

/-- Two maps with the same entries are the same list. -/
theorem Ascending.ext {m' : List (κ × ν)} (h : Ascending m) (h' : Ascending m')
    (hlookup : ∀ k, m.lookup k = m'.lookup k) : m = m' := by
  induction m generalizing m' with
  | nil =>
    cases m' with
    | nil => rfl
    | cons e m' =>
      have hfirst := hlookup e.1
      rw [lookup_nil, lookup_cons_ite, if_pos rfl] at hfirst
      cases hfirst
  | cons e m ih =>
    obtain ⟨j, v⟩ := e
    cases m' with
    | nil => simpa [lookup_cons_ite] using hlookup j
    | cons e' m' =>
      obtain ⟨j', v'⟩ := e'
      obtain ⟨hm, hlt⟩ := h.of_cons
      obtain ⟨hm', hlt'⟩ := h'.of_cons
      have hj : j = j' := by
        rcases lt_trichotomy j j' with hjj' | heq | hj'j
        · have hnone := h'.lookup_eq_none hjj'
          rw [← hlookup, lookup_cons_ite, if_pos rfl] at hnone
          cases hnone
        · exact heq
        · have hnone := h.lookup_eq_none hj'j
          rw [hlookup, lookup_cons_ite, if_pos rfl] at hnone
          cases hnone
      subst hj
      have hv : v = v' := by simpa using hlookup j
      subst hv
      congr 1
      refine ih hm hm' fun k => ?_
      have hk := hlookup k
      rw [lookup_cons_ite, lookup_cons_ite] at hk
      by_cases hkj : k = j
      · subst hkj
        rw [lookup_eq_none_of_lt hlt, lookup_eq_none_of_lt hlt']
      · simpa [hkj] using hk

/-! ## Gathering -/

section
variable (key : α → κ) (default : ν) (absorb : ν → α → ν)

theorem Ascending.gather {m : List (κ × ν)} (h : Ascending m) (l : List α) :
    Ascending (gather key default absorb m l) := by
  induction l generalizing m with
  | nil => exact h
  | cons a l ih => exact ih (h.entryOr _ _ _)

theorem gather_append (m : List (κ × ν)) (l l' : List α) :
    gather key default absorb m (l ++ l') =
      gather key default absorb (gather key default absorb m l) l' :=
  foldl_append

/-- The entry at a key: what the elements with the key make of the one that was there. -/
theorem lookup_gather {m : List (κ × ν)} (h : Ascending m) (l : List α) (k : κ) :
    (gather key default absorb m l).lookup k =
      if k ∈ l.map key then
        some ((l.filter (key · = k)).foldl absorb ((m.lookup k).getD default))
      else m.lookup k := by
  induction l generalizing m with
  | nil => simp [gather]
  | cons a l ih =>
    have hstep := ih (h.entryOr (key a) default (absorb · a))
    rw [gather, foldl_cons, ← gather, hstep, lookup_entryOr h]
    by_cases hk : k = key a
    · subst hk
      by_cases hmem : key a ∈ l.map key
      · simp [hmem]
      have hnone : l.filter (key · = key a) = [] := by
        rw [filter_eq_nil_iff]
        intro b hb heq
        exact hmem (mem_map.mpr ⟨b, hb, of_decide_eq_true heq⟩)
      simp [hmem, hnone]
    · simp [hk, Ne.symm hk]

theorem lookup_map_prod (l : List κ) (f : κ → ν) (k : κ) :
    (l.map fun k => (k, f k)).lookup k = if k ∈ l then some (f k) else none := by
  induction l with
  | nil => rfl
  | cons j l ih =>
    rw [map_cons, lookup_cons_ite, ih]
    by_cases h : k = j
    · subst h; simp
    · simp [h]

/-- **Gathering makes one entry for every key**, in their order, of the elements that have it. -/
theorem gather_eq (l : List α) :
    gather key default absorb [] l =
      ((l.map key).toFinset.sort (· ≤ ·)).map fun k =>
        (k, (l.filter (key · = k)).foldl absorb default) := by
  have hnil : Ascending ([] : List (κ × ν)) := List.Pairwise.nil
  refine Ascending.ext (hnil.gather key default absorb l) ?_ fun k => ?_
  · rw [Ascending, map_map]
    have hid : (Prod.fst ∘ fun k => (k, (l.filter (key · = k)).foldl absorb default)) = id := rfl
    rw [hid, map_id]
    exact (Finset.sortedLT_sort _).pairwise
  · rw [lookup_gather key default absorb hnil, lookup_map_prod]
    simp

end

end Gen2.Lib
