import Mathlib.Data.List.AList

/-!
# The entries of a map, as a list

An association list counts its entries up to their order: taking one out and putting one in.

* `entries_perm_of_lookup`: an entry that is found comes first, and the rest is what erasing leaves.
* `entries_insert_eq`: an insertion puts its entry before what erasing leaves.
-/

namespace Gen2.Lib

open List

universe u v

variable {α : Type u} {β : α → Type v} [DecidableEq α]

theorem erase_of_notMem {m : AList β} {a : α} (h : a ∉ m) : m.erase a = m :=
  AList.ext (kerase_of_notMem_keys h)

theorem entries_insert_eq (m : AList β) (a : α) (b : β a) :
    (m.insert a b).entries = ⟨a, b⟩ :: (m.erase a).entries := by
  rw [AList.entries_insert]
  rfl

@[simp] theorem erase_insert (m : AList β) (a : α) (b : β a) :
    (m.insert a b).erase a = m.erase a := by
  apply AList.ext
  have h : ((m.insert a b).erase a).entries = kerase a (m.insert a b).entries := rfl
  rw [h, entries_insert_eq]
  exact kerase_cons_eq (s := ⟨a, b⟩) rfl

theorem entries_perm_of_lookup {m : AList β} {a : α} {b : β a} (h : m.lookup a = some b) :
    m.entries.Perm (⟨a, b⟩ :: (m.erase a).entries) := by
  have hmem : a ∈ m := AList.lookup_isSome.1 (by rw [h]; rfl)
  obtain ⟨b', l₁, l₂, -, heq, herase⟩ := exists_of_kerase hmem
  have hb : b' = b := by
    have hin : (⟨a, b'⟩ : Sigma β) ∈ m.entries := by simp [heq]
    exact Option.some.inj ((AList.mem_lookup_iff.2 hin).symm.trans h)
  have hrest : (m.erase a).entries = l₁ ++ l₂ := herase
  rw [hrest, heq, hb]
  exact perm_middle

theorem length_erase_of_lookup {m : AList β} {a : α} {b : β a} (h : m.lookup a = some b) :
    m.entries.length = (m.erase a).entries.length + 1 :=
  (entries_perm_of_lookup h).length_eq

theorem length_erase_le (m : AList β) (a : α) : (m.erase a).entries.length ≤ m.entries.length :=
  (kerase_sublist a m.entries).length_le

/-- An insertion adds an entry, or takes the place of one. -/
theorem length_insert (m : AList β) (a : α) (b : β a) :
    (m.insert a b).entries.length = m.entries.length + if a ∈ m then 0 else 1 := by
  rw [entries_insert_eq, length_cons]
  split
  · next h =>
    obtain ⟨b', hb'⟩ := Option.isSome_iff_exists.1 (AList.lookup_isSome.2 h)
    rw [length_erase_of_lookup hb']
  · next h => rw [erase_of_notMem h]

theorem mem_entries_iff {m : AList β} {x : Sigma β} : x ∈ m.entries ↔ m.lookup x.1 = some x.2 :=
  AList.mem_lookup_iff.symm

end Gen2.Lib
