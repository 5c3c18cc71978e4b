import Mathlib.Data.List.Forall2

/-!
# Programs that may fail

What it means for a program in `Except` to succeed: each of its steps does.

* `bind_eq_ok` and `ite_error_eq_ok` are for the steps of a block.
* `mapM_eq_ok` is for a loop over a list: it succeeds when the step does at every element.
* `forall₂_getElem?` reads such a loop at one index.
* `mapM_bind_zip` and `mapM_flatten`: loops that are one loop, up to what they fail with.
-/

namespace Gen2.Lib

open List

variable {ε α β : Type}

theorem bind_eq_ok {x : Except ε α} {f : α → Except ε β} {b : β} :
    x >>= f = .ok b ↔ ∃ a, x = .ok a ∧ f a = .ok b := by
  cases x with
  | error e => exact ⟨nofun, fun ⟨_, h, _⟩ => (nomatch h)⟩
  | ok a => exact ⟨fun h => ⟨a, rfl, h⟩, fun ⟨a', h, h'⟩ => Except.ok.inj h ▸ h'⟩

/-- A step that refuses something, before the rest. -/
theorem ite_error_eq_ok {p : Prop} [Decidable p] {e : ε} {x : Except ε α} {a : α} :
    (if p then .error e else x) = .ok a ↔ ¬ p ∧ x = .ok a := by
  split
  next h => exact ⟨nofun, fun ⟨hnot, _⟩ => absurd h hnot⟩
  next h => exact (and_iff_right h).symm

theorem mapM_eq_ok {f : α → Except ε β} {xs : List α} {ys : List β} :
    xs.mapM f = .ok ys ↔ List.Forall₂ (fun x y => f x = .ok y) xs ys := by
  induction xs generalizing ys with
  | nil =>
    rw [mapM_nil]
    exact ⟨fun h => Except.ok.inj h ▸ .nil, fun h => by cases h; rfl⟩
  | cons x xs ih =>
    rw [mapM_cons, bind_eq_ok]
    constructor
    · rintro ⟨y, hy, h⟩
      obtain ⟨ys', hys', h⟩ := bind_eq_ok.1 h
      cases h
      exact .cons hy (ih.1 hys')
    · rintro (_ | ⟨hy, hys⟩)
      exact ⟨_, hy, bind_eq_ok.2 ⟨_, ih.2 hys, rfl⟩⟩

/-- What is at an index on the left has its partner on the right. -/
theorem forall₂_getElem? {γ δ : Type} {R : γ → δ → Prop} {xs : List γ} {ys : List δ}
    (h : List.Forall₂ R xs ys) {s : Nat} {x : γ} (hx : xs[s]? = some x) :
    ∃ y, ys[s]? = some y ∧ R x y := by
  induction h generalizing s with
  | nil => cases hx
  | cons hxy _ ih =>
    cases s with
    | zero =>
      cases hx
      exact ⟨_, rfl, hxy⟩
    | succ s => exact ih hx

theorem map_eq_of_forall₂ {γ δ κ : Type} {f : γ → κ} {g : δ → κ} {xs : List γ} {ys : List δ}
    (h : List.Forall₂ (fun x y => f x = g y) xs ys) : xs.map f = ys.map g := by
  induction h with
  | nil => rfl
  | cons hxy _ ih => rw [map_cons, map_cons, hxy, ih]

/-! ## Whether they succeed -/

theorem toOption_bind (x : Except ε α) (f : α → Except ε β) :
    (x >>= f).toOption = x.toOption.bind fun a => (f a).toOption := by
  cases x <;> rfl

theorem toOption_mapM (f : α → Except ε β) (xs : List α) :
    (xs.mapM f).toOption = xs.mapM fun x => (f x).toOption := by
  induction xs with
  | nil => rfl
  | cons x xs ih =>
    rw [mapM_cons, mapM_cons, toOption_bind, ← ih]
    cases f x <;> cases xs.mapM f <;> rfl

/-- Two loops over a list succeed where one that does both does. -/
theorem mapM_bind_zip {γ : Type} (f : α → Option β) (g : α × β → Option γ) (xs : List α) :
    (xs.mapM f).bind (fun ys => (xs.zip ys).mapM g) =
      xs.mapM fun x => (f x).bind fun y => g (x, y) := by
  induction xs with
  | nil => rfl
  | cons x xs ih =>
    rw [mapM_cons, mapM_cons, ← ih]
    cases hf : f x with
    | none => rfl
    | some y => cases hg : g (x, y) <;> cases hfs : xs.mapM f <;> simp [hg]

theorem mapM_bind {γ : Type} (f : α → Option β) (g : β → Option γ) (xs : List α) :
    (xs.mapM f).bind (·.mapM g) = xs.mapM fun x => (f x).bind g := by
  induction xs with
  | nil => rfl
  | cons x xs ih =>
    rw [mapM_cons, mapM_cons, ← ih]
    cases hf : f x with
    | none => rfl
    | some y => cases hg : g y <;> cases hfs : xs.mapM f <;> simp [hg]

theorem mapM_option_map {γ : Type} (f : α → Option β) (k : β → γ) (xs : List α) :
    (xs.mapM fun x => (f x).map k) = (xs.mapM f).map (map k) := by
  induction xs with
  | nil => rfl
  | cons x xs ih =>
    rw [mapM_cons, mapM_cons, ih]
    cases f x <;> cases xs.mapM f <;> rfl

/-- A loop over the pieces of a list is a loop over the list. -/
theorem mapM_flatten (f : α → Option β) (xss : List (List α)) :
    (xss.mapM fun xs : List α => xs.mapM f).map flatten = xss.flatten.mapM f := by
  induction xss with
  | nil => rfl
  | cons xs xss ih =>
    rw [mapM_cons, flatten_cons, mapM_append, ← ih]
    cases xs.mapM f <;> cases xss.mapM fun xs : List α => xs.mapM f <;> rfl

end Gen2.Lib
