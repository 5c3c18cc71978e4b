import Mathlib.Data.List.Destutter
import Mathlib.Data.List.Sort
import Mathlib.Data.Prod.Lex

/-!
# The first of a sorted list, and of a part of it

Picking the least element of a list by sorting it on a key and taking the head, and what becomes of
the pick when only a part of the list is there.  The sort is stable: `filter_sortOn` says that it
sorts a part as it sorts the whole.  `exists_mem_destutter` is about what follows a sort where each
key is wanted once.
-/

namespace Gen2
namespace Lib

open List

section
variable {α κ : Type} [LinearOrder κ]

/-- A stable sort on a key. -/
def sortOn (key : α → κ) (l : List α) : List α := l.insertionSort fun a b => key a ≤ key b

variable {key : α → κ} {l : List α}

theorem mem_sortOn {a : α} : a ∈ sortOn key l ↔ a ∈ l :=
  mem_insertionSort _

theorem sortOn_eq_nil : sortOn key l = [] ↔ l = [] := by
  rw [← length_eq_zero_iff, ← length_eq_zero_iff, sortOn, length_insertionSort]

theorem pairwise_sortOn (key : α → κ) (l : List α) :
    (sortOn key l).Pairwise fun a b => key a ≤ key b :=
  have : Std.Total fun a b : α => key a ≤ key b := ⟨fun a b => le_total (key a) (key b)⟩
  have : IsTrans α fun a b : α => key a ≤ key b := ⟨fun _ _ _ hab hbc => le_trans hab hbc⟩
  pairwise_insertionSort _ l

theorem perm_sortOn (key : α → κ) (l : List α) : (sortOn key l).Perm l :=
  perm_insertionSort _ l

/-- Where a key names its element, the order of a list does not matter to its sort. -/
theorem sortOn_perm {l' : List α} (hkey : ∀ a ∈ l, ∀ b ∈ l, key a = key b → a = b)
    (hperm : l'.Perm l) : sortOn key l' = sortOn key l := by
  refine List.Perm.eq_of_pairwise (fun a b ha hb hab hba => ?_) (pairwise_sortOn key l')
    (pairwise_sortOn key l)
    (((perm_sortOn key l').trans hperm).trans (perm_sortOn key l).symm)
  exact hkey a (hperm.mem_iff.1 (mem_sortOn.1 ha)) b (mem_sortOn.1 hb) (le_antisymm hab hba)

theorem filter_orderedInsert {r : α → α → Prop} [DecidableRel r] [IsTrans α r] {p : α → Bool}
    {a : α} (h : l.Pairwise r) :
    (l.orderedInsert r a).filter p =
      if p a then (l.filter p).orderedInsert r a else l.filter p := by
  induction l with
  | nil => cases hp : p a <;> simp [hp]
  | cons b l ih =>
    rw [pairwise_cons] at h
    by_cases hab : r a b
    · rw [orderedInsert_cons_of_le _ _ hab]
      have hfirst : ((b :: l).filter p).orderedInsert r a = a :: (b :: l).filter p := by
        cases hfilter : (b :: l).filter p with
        | nil => rfl
        | cons c rest =>
          have hc : c ∈ b :: l := mem_of_mem_filter (hfilter ▸ mem_cons_self)
          refine orderedInsert_cons_of_le _ _ ?_
          rcases mem_cons.1 hc with rfl | hc
          · exact hab
          · exact trans_of r hab (h.1 c hc)
      rw [hfirst, filter_cons]
    · rw [orderedInsert_of_not_le _ _ hab]
      cases hb : p b with
      | true =>
        rw [filter_cons_of_pos hb, filter_cons_of_pos hb, ih h.2]
        split
        · rw [orderedInsert_of_not_le _ _ hab]
        · rfl
      | false =>
        rw [filter_cons_of_neg (by simp [hb]), filter_cons_of_neg (by simp [hb]), ih h.2]

/-- A stable sort keeps the order of a part. -/
theorem filter_sortOn (key : α → κ) (p : α → Bool) (l : List α) :
    (sortOn key l).filter p = sortOn key (l.filter p) := by
  induction l with
  | nil => rfl
  | cons a l ih =>
    have : IsTrans α fun a b : α => key a ≤ key b := ⟨fun _ _ _ hab hbc => le_trans hab hbc⟩
    have hinsert := filter_orderedInsert (p := p) (a := a) (pairwise_sortOn key l)
    rw [ih] at hinsert
    cases ha : p a with
    | true =>
      rw [filter_cons_of_pos ha]
      rw [if_pos ha] at hinsert
      exact hinsert
    | false =>
      rw [filter_cons_of_neg (by simp [ha])]
      rw [if_neg (by simp [ha])] at hinsert
      exact hinsert

/-- The head of the sorted list is in the list, and nothing in it is less. -/
theorem head_sortOn {m : α} (h : (sortOn key l).head? = some m) :
    m ∈ l ∧ ∀ x ∈ l, key m ≤ key x := by
  obtain ⟨rest, heq⟩ := head?_eq_some_iff.1 h
  have hsorted := pairwise_sortOn key l
  rw [heq, pairwise_cons] at hsorted
  refine ⟨mem_sortOn.1 (by rw [heq]; exact mem_cons_self ..), fun x hx => ?_⟩
  have hx' : x ∈ sortOn key l := mem_sortOn.2 hx
  rw [heq] at hx'
  rcases mem_cons.1 hx' with rfl | hx'
  · exact le_refl _
  · exact hsorted.1 x hx'

/-- Where a key names its element, the least element is the head. -/
theorem head_sortOn_eq {m : α} (hkey : ∀ a ∈ l, ∀ b ∈ l, key a = key b → a = b) (hm : m ∈ l)
    (hleast : ∀ x ∈ l, key m ≤ key x) : (sortOn key l).head? = some m := by
  cases hhead : (sortOn key l).head? with
  | none =>
    rw [head?_eq_none_iff, sortOn_eq_nil] at hhead
    rw [hhead] at hm
    cases hm
  | some m' =>
    obtain ⟨hm', hleast'⟩ := head_sortOn hhead
    rw [hkey m' hm' m hm (le_antisymm (hleast' m hm) (hleast m' hm'))]

/-- **The pick from a part is the pick from the whole** exactly when nothing outside the part comes
before everything in it. -/
theorem head_sortOn_part {part : List α} (hkey : ∀ a ∈ l, ∀ b ∈ l, key a = key b → a = b)
    (hsub : part ⊆ l) :
    (sortOn key l).head? = (sortOn key part).head? ↔
      ∀ x ∈ l, x ∉ part → ∃ y ∈ part, key y ≤ key x := by
  cases hhead : (sortOn key part).head? with
  | none =>
    rw [head?_eq_none_iff, sortOn_eq_nil] at hhead
    subst hhead
    rw [head?_eq_none_iff, sortOn_eq_nil]
    constructor
    · rintro rfl x hx
      cases hx
    · intro h
      refine eq_nil_iff_forall_not_mem.2 fun x hx => ?_
      obtain ⟨y, hy, -⟩ := h x hx not_mem_nil
      cases hy
  | some m =>
    obtain ⟨hmem, hleast⟩ := head_sortOn hhead
    constructor
    · intro h x hx _
      exact ⟨m, hmem, (head_sortOn h).2 x hx⟩
    intro h
    refine head_sortOn_eq hkey (hsub hmem) fun x hx => ?_
    by_cases hpart : x ∈ part
    · exact hleast x hpart
    · obtain ⟨y, hy, hle⟩ := h x hx hpart
      exact le_trans (hleast y hy) hle

/-- Lists with the same elements have the same pick. -/
theorem head_sortOn_congr {l' : List α} (hkey : ∀ a ∈ l, ∀ b ∈ l, key a = key b → a = b)
    (hmem : ∀ a, a ∈ l' ↔ a ∈ l) : (sortOn key l).head? = (sortOn key l').head? :=
  (head_sortOn_part hkey fun a ha => (hmem a).1 ha).2
    fun x hx hno => absurd ((hmem x).2 hx) hno

/-- The first of the sorted list that passes a test, else the first: the least element, when passing
the test comes before the key. -/
theorem find_or_head_sortOn (p : α → Bool) (hkey : ∀ a ∈ l, ∀ b ∈ l, key a = key b → a = b) :
    ((sortOn key l).find? p).or (sortOn key l).head? =
      (sortOn (fun a => toLex (!p a, key a)) l).head? := by
  have hkey' : ∀ a ∈ l, ∀ b ∈ l, toLex (!p a, key a) = toLex (!p b, key b) → a = b :=
    fun a ha b hb heq => hkey a ha b hb (Prod.mk.inj (toLex.injective heq)).2
  have hsorted := pairwise_sortOn key l
  cases hfind : (sortOn key l).find? p with
  | some m =>
    rw [Option.some_or]
    obtain ⟨hpm, before, after, heq, hbefore⟩ := find?_eq_some_iff_append.1 hfind
    rw [heq, pairwise_append, pairwise_cons] at hsorted
    have hm : m ∈ l := mem_sortOn.1 (by rw [heq]; simp)
    refine (head_sortOn_eq hkey' hm fun x hx => ?_).symm
    have hx' : x ∈ sortOn key l := mem_sortOn.2 hx
    rw [heq, mem_append, mem_cons] at hx'
    rw [Prod.Lex.toLex_le_toLex]
    rcases hx' with hx' | rfl | hx'
    · have hno : p x = false := by simpa using hbefore x hx'
      exact .inl (by simp [hpm, hno])
    · exact .inr ⟨rfl, le_refl _⟩
    · have hle := hsorted.2.1.1 x hx'
      cases hpx : p x with
      | true => exact .inr ⟨by simp [hpm], hle⟩
      | false => exact .inl (by simp [hpm])
  | none =>
    rw [Option.none_or]
    cases hhead : (sortOn key l).head? with
    | none =>
      rw [head?_eq_none_iff, sortOn_eq_nil] at hhead
      rw [hhead]
      rfl
    | some m =>
      obtain ⟨hm, hleast⟩ := head_sortOn hhead
      have hno : ∀ x ∈ l, p x = false := fun x hx => by
        simpa using find?_eq_none.1 hfind x (mem_sortOn.2 hx)
      refine (head_sortOn_eq hkey' hm fun x hx => ?_).symm
      rw [Prod.Lex.toLex_le_toLex]
      exact .inr ⟨by simp [hno m hm, hno x hx], hleast x hx⟩

end

theorem exists_mem_destutter' {α κ : Type} [DecidableEq κ] (key : α → κ) (first : α) {l : List α}
    {a : α} (h : a ∈ first :: l) :
    ∃ kept ∈ l.destutter' (fun a b => key a ≠ key b) first, key kept = key a := by
  induction l generalizing first a with
  | nil =>
    obtain rfl := mem_singleton.1 h
    exact ⟨a, mem_singleton_self a, rfl⟩
  | cons second l ih =>
    rw [destutter'_cons]
    split
    · rcases mem_cons.1 h with rfl | h
      · exact ⟨a, mem_cons_self, rfl⟩
      · obtain ⟨kept, hkept, hkey⟩ := ih second h
        exact ⟨kept, mem_cons_of_mem first hkept, hkey⟩
    · rename_i hsame
      rw [not_not] at hsame
      rcases mem_cons.1 h with rfl | h
      · exact ih a mem_cons_self
      rcases mem_cons.1 h with rfl | h
      · -- the second is left out, for the one before it
        obtain ⟨kept, hkept, hkey⟩ := ih first mem_cons_self
        exact ⟨kept, hkept, hkey.trans hsame⟩
      · exact ih first (mem_cons_of_mem first h)

/-- A list without its repetitions keeps one of each key. -/
theorem exists_mem_destutter {α κ : Type} [DecidableEq κ] (key : α → κ) {l : List α} {a : α}
    (h : a ∈ l) : ∃ kept ∈ l.destutter (fun a b => key a ≠ key b), key kept = key a := by
  cases l with
  | nil => cases h
  | cons first l => exact exists_mem_destutter' key first h

end Lib
end Gen2
