import Mathlib.Data.List.Basic

/-!
# Greedy packing

Items are put into the group that is open for as long as they fit there; one that does not fit
opens the next group.

* `packs fits group items` are the groups, `group` being the one that is open.
* `flatten_packs`: the groups one after another are the items, in their order.
* `forall_packs`: what an item by itself satisfies, and a group keeps when an item that fits is put
  to it, every group satisfies.
-/

namespace Gen2.Lib

open List

universe u

variable {α : Type u} {fits : List α → α → Bool} {group items : List α}

def packs (fits : List α → α → Bool) (group : List α) : List α → List (List α)
  | [] => if group.isEmpty then [] else [group]
  | x :: items =>
    if !group.isEmpty && !fits group x then group :: packs fits [x] items
    else packs fits (group ++ [x]) items

theorem flatten_packs (fits : List α → α → Bool) (group items : List α) :
    (packs fits group items).flatten = group ++ items := by
  induction items generalizing group with
  | nil =>
    rw [packs]
    split
    · next h => rw [isEmpty_iff.1 h]; rfl
    · simp
  | cons x items ih =>
    rw [packs]
    split
    · rw [flatten_cons, ih]
      rfl
    · rw [ih, append_assoc]
      rfl

/-- **What holds of the open group holds of every group.** -/
theorem forall_packs {P : List α → Prop} (hsingle : ∀ x ∈ items, P [x])
    (hput : ∀ g x, P g → x ∈ items → fits g x = true → P (g ++ [x]))
    (hgroup : group ≠ [] → P group) : ∀ g ∈ packs fits group items, P g := by
  induction items generalizing group with
  | nil =>
    rw [packs]
    split
    · exact fun g hg => absurd hg not_mem_nil
    · next h =>
      exact fun g hg => mem_singleton.1 hg ▸ hgroup fun h' => h (isEmpty_iff.2 h')
  | cons x items ih =>
    have hrest := fun {group : List α} (h : group ≠ [] → P group) =>
      @ih group (fun y hy => hsingle y (.tail x hy))
        (fun g y hg hy => hput g y hg (.tail x hy)) h
    rw [packs]
    split
    · next hopen =>
      rw [Bool.and_eq_true, Bool.not_eq_true', isEmpty_eq_false_iff] at hopen
      rintro g (_ | ⟨_, hg⟩)
      · exact hgroup hopen.1
      · exact hrest (fun _ => hsingle x mem_cons_self) g hg
    · next hopen =>
      refine hrest fun _ => ?_
      cases group with
      | nil => exact hsingle x mem_cons_self
      | cons y group =>
        refine hput _ x (hgroup (cons_ne_nil y group)) mem_cons_self ?_
        simpa using hopen

end Gen2.Lib
