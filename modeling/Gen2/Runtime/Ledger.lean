import Gen2.Runtime.Defs

/-!
# The ledger as it is read

How a reading of the ledger, made counter by counter while reservations are dropped, compares with
the ledger itself, and what the operations on entries do to it.

* `residentMb_eq`: the checked sum over the models is their sum, where that is a `u64`.
* `fits_iff` and `fits_mono`: what an admission comes to; what fits over more fits over less.
* `ReadOk`: a reading in progress lies between what is charged now and what was charged when it
  began.  `ReadOk.opened`, `ReadOk.next` and `ReadOk.bounds` are
  its beginning, its step and its end.
* `chargedMb_setEntry`: what a change of one entry does to the sum.
-/

namespace Gen2.Runtime

open Controller List

variable {ρ : Type}

/-! ## Checked sums -/

theorem checkedAdd_of_lt {a b : Nat} (h : a + b < 2 ^ 64) : checkedAdd a b = some (a + b) := by
  rw [checkedAdd, if_pos h]

/-- `try_fold` with `checked_add`. -/
theorem foldlM_checkedAdd (l : List Nat) {a : Nat} (ha : a < 2 ^ 64) :
    l.foldlM checkedAdd a = if a + l.sum < 2 ^ 64 then some (a + l.sum) else none := by
  induction l generalizing a with
  | nil => rw [sum_nil, Nat.add_zero, if_pos ha]; rfl
  | cons x l ih =>
    rw [foldlM_cons, sum_cons, ← Nat.add_assoc]
    by_cases hx : a + x < 2 ^ 64
    · rw [checkedAdd_of_lt hx]
      exact ih hx
    · rw [checkedAdd, if_neg hx, if_neg (by omega)]
      rfl

/-- What is admitted over a sum. -/
theorem fits_iff {g : MemoryGovernor} {t mb : Nat} :
    fits g (some t) mb = true ↔
      (t + mb < 2 ^ 64 ∧ t + mb ≤ g.inferenceResidentMb) ∧
        (g.estimatedProcessMb + mb < 2 ^ 64 ∧ g.estimatedProcessMb + mb < g.processSoftLimitMb) ∧
          g.atLeast .severe = false := by
  unfold fits AdmissionChecks.allows checkAdmission checkedAdd
  generalize 2 ^ 64 = word
  by_cases h₁ : t + mb < word <;> by_cases h₂ : g.estimatedProcessMb + mb < word <;>
    simp [h₁, h₂, and_assoc]

theorem fits_mono {g : MemoryGovernor} {t t' mb : Nat} (hle : t ≤ t')
    (h : fits g (some t') mb = true) : fits g (some t) mb = true := by
  rw [fits_iff] at h ⊢
  exact ⟨⟨by omega, by omega⟩, h.2⟩

namespace RuntimeInner

variable {s s' : RuntimeInner ρ} {id : ModelId}

theorem sum_filterMap_cons {α : Type} (f : α → Option Nat) (x : α) (l : List α) :
    ((x :: l).filterMap f).sum = (f x).getD 0 + (l.filterMap f).sum := by
  rw [filterMap_cons]
  cases f x with
  | none => exact (Nat.zero_add _).symm
  | some n => rfl

theorem chargeMb_eq (e : Entry ρ) : e.chargeMb = e.textMb.getD 0 + e.imageMb.getD 0 := by
  rcases e with ⟨_, isLocal, _, resident, _⟩ | ⟨totalMb, resident, _, _⟩
  · cases isLocal <;> cases resident <;> rfl
  · cases resident
    · rfl
    · exact (Nat.zero_add totalMb).symm

/-- The two loops of the ledger go through every entry once. -/
theorem sum_texts_add_sum_images (entries : List (Entry ρ)) :
    (entries.filterMap Entry.textMb).sum + (entries.filterMap Entry.imageMb).sum =
      (entries.map Entry.chargeMb).sum := by
  induction entries with
  | nil => rfl
  | cons e entries ih =>
    rw [map_cons, sum_cons, ← ih, sum_filterMap_cons, sum_filterMap_cons, chargeMb_eq]
    omega

/-- **The checked sum over the resident models is their sum**, where that is a `u64`. -/
theorem residentMb_eq (s : RuntimeInner ρ) :
    s.residentMb = if s.chargedMb < 2 ^ 64 then some s.chargedMb else none := by
  have hsum := sum_texts_add_sum_images s.entries
  unfold residentMb chargedMb
  rw [← hsum, foldlM_checkedAdd _ (by decide), Nat.zero_add]
  split
  · next h => exact foldlM_checkedAdd _ h
  · next h =>
    rw [if_neg (by omega)]
    rfl

/-! ## A reading in progress -/

theorem reservedMb_cons (s : RuntimeInner ρ) (kind : Auxiliary) (kinds : List Auxiliary) :
    s.reservedMb (kind :: kinds) = s.reserved kind + s.reservedMb kinds := rfl

theorem reservedMb_append (s : RuntimeInner ρ) (kinds kinds' : List Auxiliary) :
    s.reservedMb (kinds ++ kinds') = s.reservedMb kinds + s.reservedMb kinds' := by
  rw [reservedMb, map_append, sum_append, reservedMb, reservedMb]

theorem reservedMb_le_of_le (h : ∀ kind, s'.reserved kind ≤ s.reserved kind)
    (kinds : List Auxiliary) : s'.reservedMb kinds ≤ s.reservedMb kinds := by
  induction kinds with
  | nil => exact Nat.le_refl _
  | cons kind kinds ih => exact Nat.add_le_add (h kind) ih

/-- Where a reading stands: what it has so far covers the models and the counters it has loaded, and
with the counters still to be loaded it does not exceed what the ledger was when it began. -/
structure ReadOk (s : RuntimeInner ρ) (r : Reading) (t : Nat) (done : List Auxiliary) : Prop where
  total : r.total = some t
  all : done ++ r.left = Auxiliary.all
  covers : s.chargedMb + s.reservedMb done ≤ t
  within : t + s.reservedMb r.left ≤ r.opened
  word : r.opened < 2 ^ 64

theorem ReadOk.opened (h : s.totalMb < 2 ^ 64) : ReadOk s s.openReading s.chargedMb [] where
  total := by
    have hle : s.chargedMb ≤ s.totalMb := Nat.le_add_right _ _
    rw [openReading, residentMb_eq, if_pos (by omega)]
  all := rfl
  covers := Nat.le_refl _
  within := Nat.le_refl _
  word := h

/-- One more counter. -/
theorem ReadOk.next {r : Reading} {t : Nat} {done left : List Auxiliary} {kind : Auxiliary}
    (h : ReadOk s r t done) (hleft : r.left = kind :: left) :
    ReadOk s (s.readNext kind left r) (t + s.reserved kind) (done ++ [kind]) := by
  have hwithin := h.within
  rw [hleft, reservedMb_cons] at hwithin
  have hword := h.word
  refine ⟨?_, ?_, ?_, ?_, hword⟩
  · rw [readNext, h.total]
    exact checkedAdd_of_lt (by omega)
  · have hall := h.all
    rw [hleft] at hall
    rw [← hall, readNext, append_assoc]
    rfl
  · have hcovers := h.covers
    have hsplit := s.reservedMb_append done [kind]
    have hone : s.reservedMb [kind] = s.reserved kind := Nat.add_zero _
    omega
  · rw [readNext]
    dsimp only
    omega

/-- A finished reading is no less than what is charged, and no more than what was. -/
theorem ReadOk.bounds {r : Reading} {t : Nat} {done : List Auxiliary} (h : ReadOk s r t done)
    (hleft : r.left = []) : s.totalMb ≤ t ∧ t ≤ r.opened := by
  have hall := h.all
  have hcovers := h.covers
  have hwithin := h.within
  rw [hleft, append_nil] at hall
  rw [hall] at hcovers
  exact ⟨hcovers, (Nat.le_add_right _ _).trans hwithin⟩

/-! ## Entries -/

theorem sum_map_set {α : Type} (f : α → Nat) {l : List α} {k : Nat} {x y : α}
    (h : l[k]? = some x) : ((l.set k y).map f).sum + f x = (l.map f).sum + f y := by
  induction l generalizing k with
  | nil => exact nomatch h
  | cons z l ih =>
    cases k with
    | zero =>
      obtain rfl := Option.some.inj h
      simp only [set_cons_zero, map_cons, sum_cons]
      omega
    | succ k =>
      have hrest := ih h
      simp only [set_cons_succ, map_cons, sum_cons]
      omega

/-- An entry changed in place changes the ledger by what it is charged. -/
theorem chargedMb_setEntry {e₀ e : Entry ρ} (h : s.entries[id]? = some e₀) :
    (s.setEntry id e).chargedMb + e₀.chargeMb = s.chargedMb + e.chargeMb :=
  sum_map_set Entry.chargeMb h

@[simp] theorem chargedMb_register (e : Entry ρ) (s : RuntimeInner ρ) :
    (s.register e).chargedMb = s.chargedMb + e.chargeMb := by
  simp [chargedMb, register]

theorem text?_eq_some {m : Loaded ρ} : s.text? id = some m ↔ s.entries[id]? = some (.text m) := by
  unfold text?
  rcases s.entries[id]? with _ | (m' | e) <;> simp

theorem image?_eq_some {e : ImageEntry} :
    s.image? id = some e ↔ s.entries[id]? = some (.image e) := by
  unfold image?
  rcases s.entries[id]? with _ | (m | e') <;> simp

theorem getElem?_setEntry {e₀ e : Entry ρ} (h : s.entries[id]? = some e₀) (id' : ModelId) :
    (s.setEntry id e).entries[id']? = if id' = id then some e else s.entries[id']? := by
  have hlt : id < s.entries.length := (List.getElem?_eq_some_iff.1 h).1
  unfold setEntry
  dsimp only
  by_cases heq : id' = id
  · rw [heq, if_pos rfl, getElem?_set_self hlt]
  · rw [if_neg heq, getElem?_set_ne (Ne.symm heq)]

end RuntimeInner

end Gen2.Runtime
