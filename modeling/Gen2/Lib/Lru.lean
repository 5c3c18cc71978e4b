import Mathlib.Algebra.GroupWithZero.Nat
import Mathlib.Data.List.Nodup

/-!
# A small least-recently-used cache

A list of keyed values, the most recently used in front, with room for so many of them.

* `Lru.touch` looks a key up and moves its entry to the front; `mem_touch` says that nothing else
  happens.
* `Lru.insert` puts an entry in front, for the one under its key or, without one, for the last when
  there is no room.  `mem_insert` says where an entry comes from.
-/

namespace Gen2.Lib

open List

universe u v

/-- No key twice, and not more entries than there is room for. -/
structure Lru (κ : Type u) (α : Type v) (cap : Nat) where
  entries : List (κ × α)
  nodup : (entries.map Prod.fst).Nodup
  length_le : entries.length ≤ cap

namespace Lru

variable {κ : Type u} {α : Type v} {cap : Nat} [DecidableEq κ]

def empty : Lru κ α cap := ⟨[], List.nodup_nil, Nat.zero_le _⟩

/-- The entries but the one under a key. -/
def without (l : List (κ × α)) (key : κ) : List (κ × α) := l.eraseP fun e => e.1 = key

variable {key : κ} {e : κ × α}

theorem mem_of_mem_without {l : List (κ × α)} (h : e ∈ without l key) :
    e ∈ l := mem_of_mem_eraseP h

theorem nodup_without {l : List (κ × α)} (h : (l.map Prod.fst).Nodup) (key : κ) :
    ((without l key).map Prod.fst).Nodup :=
  h.sublist (eraseP_sublist.map Prod.fst)

theorem key_notMem_without {l : List (κ × α)} (h : (l.map Prod.fst).Nodup) (key : κ) :
    key ∉ (without l key).map Prod.fst := by
  induction l with
  | nil => simp [without]
  | cons e l ih =>
    rw [map_cons, nodup_cons] at h
    rw [without, eraseP_cons]
    by_cases hkey : e.1 = key
    · subst hkey
      simpa using h.1
    · simp only [hkey, decide_false, cond_false, map_cons, mem_cons, not_or]
      exact ⟨fun heq => hkey heq.symm, ih h.2⟩

theorem nodup_cons_without {l : List (κ × α)} (h : (l.map Prod.fst).Nodup) (e : κ × α) :
    ((e :: without l e.1).map Prod.fst).Nodup := by
  rw [map_cons, nodup_cons]
  exact ⟨key_notMem_without h e.1, nodup_without h e.1⟩

/-- The entry under a key. -/
def find? (l : Lru κ α cap) (key : κ) : Option (κ × α) := l.entries.find? fun e => e.1 = key

variable {l : Lru κ α cap}

theorem find?_some (h : l.find? key = some e) : e ∈ l.entries ∧ e.1 = key :=
  ⟨mem_of_find?_eq_some h,
    of_decide_eq_true (List.find?_some (p := fun e : κ × α => e.1 = key) h)⟩

theorem length_cons_without (h : l.find? key = some e) (e' : κ × α) :
    (e' :: without l.entries key).length ≤ cap := by
  obtain ⟨hmem, hkey⟩ := find?_some h
  have hpos := length_pos_of_mem hmem
  have hle := l.length_le
  rw [length_cons, without, length_eraseP_of_mem hmem (decide_eq_true hkey)]
  omega

/-- Look a key up, and move what is found to the front. -/
def touch (l : Lru κ α cap) (key : κ) : Option α × Lru κ α cap :=
  match h : l.find? key with
  | none => (none, l)
  | some e =>
    (some e.2, ⟨e :: without l.entries e.1, nodup_cons_without l.nodup e, by
      rw [(find?_some h).2]
      exact length_cons_without h e⟩)

/-- Put an entry in front: for the one under its key, or for the last if there is no room. -/
def insert [NeZero cap] (l : Lru κ α cap) (e : κ × α) : Lru κ α cap :=
  match h : l.find? e.1 with
  | some _ => ⟨e :: without l.entries e.1, nodup_cons_without l.nodup e, length_cons_without h e⟩
  | none =>
    have hnew : e.1 ∉ l.entries.map Prod.fst := by
      intro hmem
      obtain ⟨e', hmem', hkey⟩ := List.mem_map.1 hmem
      have hne := List.find?_eq_none.1 h e' hmem'
      exact hne (decide_eq_true hkey)
    if hfull : cap ≤ l.entries.length then
      ⟨e :: l.entries.dropLast, List.nodup_cons.2
          ⟨fun hmem => hnew ((l.entries.dropLast_sublist.map Prod.fst).mem hmem),
            l.nodup.sublist (l.entries.dropLast_sublist.map Prod.fst)⟩, by
        have hle := l.length_le
        have hcap : cap ≠ 0 := NeZero.ne cap
        rw [List.length_cons, List.length_dropLast]
        omega⟩
    else ⟨e :: l.entries, List.nodup_cons.2 ⟨hnew, l.nodup⟩, Nat.lt_of_not_le hfull⟩

/-- What is found under a key is there, under that key. -/
theorem mem_of_touch {l' : Lru κ α cap} {value : α} (h : l.touch key = (some value, l')) :
    (key, value) ∈ l.entries := by
  rw [touch] at h
  split at h
  · cases h
  next e hfind =>
    obtain ⟨hmem, rfl⟩ := find?_some hfind
    cases h
    exact hmem

/-- Looking up leaves no entry that was not there. -/
theorem mem_touch (h : e ∈ (l.touch key).2.entries) : e ∈ l.entries := by
  rw [touch] at h
  split at h
  · exact h
  next e' hfind =>
    rcases mem_cons.1 h with rfl | hmem
    · exact (find?_some hfind).1
    · exact mem_of_mem_without hmem

/-- An entry is the one that was put in, or was there. -/
theorem mem_insert [NeZero cap] {e' : κ × α} (h : e' ∈ (l.insert e).entries) :
    e' = e ∨ e' ∈ l.entries := by
  rw [insert] at h
  split at h
  · exact (mem_cons.1 h).imp_right mem_of_mem_without
  · split at h
    · exact (mem_cons.1 h).imp_right l.entries.dropLast_sublist.mem
    · exact mem_cons.1 h

/-- What was put in last is found. -/
theorem touch_insert [NeZero cap] (l : Lru κ α cap) (e : κ × α) :
    ((l.insert e).touch e.1).1 = some e.2 := by
  have hfront : (l.insert e).find? e.1 = some e := by
    rw [find?, insert]
    split
    · exact find?_cons_of_pos (decide_eq_true rfl)
    · split <;> exact find?_cons_of_pos (decide_eq_true rfl)
  rw [touch]
  split
  next hnone => rw [hfront] at hnone; cases hnone
  next e' hfind =>
    rw [hfront] at hfind
    cases hfind
    rfl

end Lru
end Gen2.Lib
