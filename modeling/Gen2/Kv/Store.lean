import Gen2.Lib.Least
import Mathlib.Algebra.BigOperators.Group.List.Basic
import Mathlib.Algebra.GroupWithZero.Nat

/-!
# The budget of the snapshot store

`kv/store.rs`: what a sweep of the directory of KV snapshots takes away.  The snapshots are gone
through from the newest on; one is removed when enough newer ones were seen, or when it does not fit
the byte budget beside those that are still there; and a removal may fail.

* **The directory** lists its files in an order of its own, which a removal does not change.
* **Removals.**  Whether one succeeds is a predicate on the name of the file.
* **Sizes** are `u64`s, and so is their running total.  An addition that overflows panics, which is
  `none` here; a build without overflow checks goes on with a total that is too small.
* `sweep_keeps_iff` is the result: the sweep does what it should whatever removals fail exactly when
  the sizes of all snapshots together are a `u64`.
-/

namespace Gen2
namespace Kv

open Lib List

/-! ## The directory -/

/-- A file of the store, with what its metadata say if they can be read. -/
structure DirEntry where
  name : String
  metadata : Option (Nat × UInt64)

/-- `path.extension() == Some("piokv")`: what is behind the last dot, if anything is before it. -/
def hasBlobExtension (name : String) : Bool :=
  let rev := name.toList.reverse
  (rev.dropWhile (· != '.')).length ≥ 2 && rev.takeWhile (· != '.') == "piokv".toList.reverse

/-- A snapshot: its file, when it was written, and its size. -/
structure Blob where
  name : String
  modified : Nat
  size : UInt64

/-- What the sweep sees of a file. -/
def DirEntry.blob (entry : DirEntry) : Option Blob :=
  if hasBlobExtension entry.name then
    entry.metadata.map fun (modified, size) => ⟨entry.name, modified, size⟩
  else none

/-- A directory: no two of its files have the same name. -/
structure Directory where
  entries : List DirEntry
  nodup : (entries.map DirEntry.name).Nodup

namespace Directory

/-- The snapshots. -/
def blobs (dir : Directory) : List Blob := dir.entries.filterMap DirEntry.blob

/-- The snapshots as they are swept. -/
def newestFirst (dir : Directory) : List Blob :=
  sortOn (fun blob => OrderDual.toDual blob.modified) dir.blobs

/-- The directory when these files are gone. -/
def without (dir : Directory) (names : List String) : Directory where
  entries := dir.entries.filter fun entry => !names.contains entry.name
  nodup := dir.nodup.sublist (List.filter_sublist.map _)

end Directory

/-! ## The sweep -/

/-- The budget, from the environment. -/
structure Env where
  keepFiles : UInt64 := 2
  budgetMb : UInt64 := 1024

/-- `budget_bytes`, a product that saturates. -/
def Env.budgetBytes (env : Env) : Nat := min (env.budgetMb.toNat * (1024 * 1024)) (2 ^ 64 - 1)

/-- What becomes of a snapshot: it is not to go, it is to go and does not, or it goes. -/
inductive Fate
  | stays
  | stuck
  | gone
  deriving DecidableEq

/-- The loop of `enforce_budget`, with what became of each snapshot. -/
def sweepLoop (keepFiles budget : Nat) (removable : String → Bool) :
    Nat → Nat → List Blob → Option (List (Blob × Fate))
  | _, _, [] => some []
  | i, total, blob :: blobs =>
    if 2 ^ 64 ≤ total + blob.size.toNat then none
    else if keepFiles ≤ i ∨ budget < total + blob.size.toNat then
      if removable blob.name then
        (sweepLoop keepFiles budget removable (i + 1) total blobs).map ((blob, .gone) :: ·)
      else
        (sweepLoop keepFiles budget removable (i + 1) (total + blob.size.toNat) blobs).map
          ((blob, .stuck) :: ·)
    else
      (sweepLoop keepFiles budget removable (i + 1) (total + blob.size.toNat) blobs).map
        ((blob, .stays) :: ·)

/-- The sweep of a directory that can be read. -/
def sweep (env : Env) (removable : String → Bool) (dir : Directory) :
    Option (List (Blob × Fate)) :=
  sweepLoop env.keepFiles.toNat env.budgetBytes removable 0 0 dir.newestFirst

/-- The snapshots that a sweep left. -/
def survivors (fates : List (Blob × Fate)) : List Blob :=
  (fates.filter (·.2 != .gone)).map Prod.fst

/-- The snapshots of this fate. -/
def ofFate (fate : Fate) (fates : List (Blob × Fate)) : List Blob :=
  (fates.filter (·.2 == fate)).map Prod.fst

/-- `enforce_budget`: how many files are evicted. -/
def enforceBudget (env : Env) (removable : String → Bool) : Option Directory → Option Nat
  | none => some 0
  | some dir => (sweep env removable dir).map fun fates => (ofFate .gone fates).length

/-- The directory after a sweep. -/
def Directory.swept (dir : Directory) (fates : List (Blob × Fate)) : Directory :=
  dir.without ((ofFate .gone fates).map Blob.name)

/-! ## What a sweep owes -/

/-- The sizes of these snapshots together. -/
def bytes (blobs : List Blob) : Nat := (blobs.map (·.size.toNat)).sum

/-- What a sweep owes that comes to these fates. -/
structure Swept (env : Env) (removable : String → Bool) (dir : Directory)
    (fates : List (Blob × Fate)) : Prop where
  /-- Every snapshot has its fate, and no other file has one. -/
  all : fates.map Prod.fst = dir.newestFirst
  /-- A snapshot that is left, and could have been removed, is among the newest, and fits the budget
  with those that are left and newer. -/
  kept : ∀ newer blob fate older, fates = newer ++ (blob, fate) :: older → fate ≠ .gone →
    removable blob.name = true →
      newer.length < env.keepFiles.toNat ∧
        bytes (survivors newer) + blob.size.toNat ≤ env.budgetBytes
  /-- Those that are left are what the directory lists. -/
  left : (dir.swept fates).newestFirst = survivors fates
  /-- The count is the number of files that are gone. -/
  count : ∃ evicted, enforceBudget env removable (some dir) = some evicted ∧
    evicted + (dir.swept fates).entries.length = dir.entries.length
  /-- Only what could not be removed is stuck. -/
  stuck : ∀ blob ∈ ofFate .stuck fates, removable blob.name = false
  /-- Whatever a second sweep removes was stuck in the first. -/
  again : ∀ removable', ∃ fates', sweep env removable' (dir.swept fates) = some fates' ∧
    ∀ blob ∈ ofFate .gone fates', blob ∈ ofFate .stuck fates

/-- The sweep comes to an end, and does what it owes. -/
def SweepKeeps (env : Env) (removable : String → Bool) (dir : Directory) : Prop :=
  ∃ fates, sweep env removable dir = some fates ∧ Swept env removable dir fates

/-! ## The loop -/

section Loop

variable {keepFiles budget : Nat} {removable removable' : String → Bool}

variable {i total : Nat} {blobs : List Blob}

/-- One snapshot of a sweep that comes to an end. -/
theorem sweepLoop_cons {blob : Blob} {fates : List (Blob × Fate)}
    (h : sweepLoop keepFiles budget removable i total (blob :: blobs) = some fates) :
    total + blob.size.toNat < 2 ^ 64 ∧ ∃ fate rest, fates = (blob, fate) :: rest ∧
      sweepLoop keepFiles budget removable (i + 1)
        (if fate = .gone then total else total + blob.size.toNat) blobs = some rest ∧
      (fate = .stays ↔ i < keepFiles ∧ total + blob.size.toNat ≤ budget) ∧
      (fate = .stuck → removable blob.name = false) ∧
      (fate = .gone → removable blob.name = true) := by
  rw [sweepLoop] at h
  split at h
  · cases h
  next hfits =>
    refine ⟨by omega, ?_⟩
    split at h
    next hgoes =>
      split at h
      next hremovable =>
        obtain ⟨rest, hrest, rfl⟩ := Option.map_eq_some_iff.1 h
        exact ⟨.gone, rest, rfl, hrest, iff_of_false nofun (by omega), nofun, fun _ => hremovable⟩
      next hstuck =>
        obtain ⟨rest, hrest, rfl⟩ := Option.map_eq_some_iff.1 h
        exact ⟨.stuck, rest, rfl, hrest, iff_of_false nofun (by omega),
          fun _ => by simpa using hstuck, nofun⟩
    next hstays =>
      obtain ⟨rest, hrest, rfl⟩ := Option.map_eq_some_iff.1 h
      exact ⟨.stays, rest, rfl, hrest, iff_of_true rfl (by omega), nofun, nofun⟩

theorem survivors_cons (blob : Blob) (fate : Fate) (rest : List (Blob × Fate)) :
    survivors ((blob, fate) :: rest) =
      if fate = .gone then survivors rest else blob :: survivors rest := by
  cases fate <;> rfl

theorem sweepLoop_all {fates : List (Blob × Fate)}
    (h : sweepLoop keepFiles budget removable i total blobs = some fates) :
    fates.map Prod.fst = blobs := by
  induction blobs generalizing i total fates with
  | nil =>
    cases h
    rfl
  | cons blob blobs ih =>
    obtain ⟨-, fate, rest, rfl, hrest, -⟩ := sweepLoop_cons h
    rw [map_cons, ih hrest]

theorem sweepLoop_stuck {fates : List (Blob × Fate)}
    (h : sweepLoop keepFiles budget removable i total blobs = some fates) :
    ∀ x ∈ fates, x.2 = .stuck → removable x.1.name = false := by
  induction blobs generalizing i total fates with
  | nil =>
    cases h
    simp
  | cons blob blobs ih =>
    obtain ⟨-, fate, rest, rfl, hrest, -, hstuck, -⟩ := sweepLoop_cons h
    exact forall_mem_cons.2 ⟨hstuck, ih hrest⟩

/-- What is left although it could have been removed was not to go. -/
theorem sweepLoop_kept {fates : List (Blob × Fate)}
    (h : sweepLoop keepFiles budget removable i total blobs = some fates)
    {newer : List (Blob × Fate)} {blob : Blob} {fate : Fate} {older : List (Blob × Fate)}
    (hsplit : fates = newer ++ (blob, fate) :: older) (hleft : fate ≠ .gone)
    (hremovable : removable blob.name = true) :
    i + newer.length < keepFiles ∧
      total + bytes (survivors newer) + blob.size.toNat ≤ budget := by
  induction newer generalizing i total blobs fates with
  | nil =>
    subst hsplit
    cases blobs with
    | nil => cases h
    | cons b blobs =>
      obtain ⟨-, fate', rest, heq, -, hstays, hstuck, -⟩ := sweepLoop_cons h
      cases heq
      have hfate : fate = .stays := by
        cases fate with
        | stays => rfl
        | stuck => exact absurd hremovable (by simp [hstuck rfl])
        | gone => exact absurd rfl hleft
      exact hstays.1 hfate
  | cons x newer ih =>
    subst hsplit
    cases blobs with
    | nil => cases h
    | cons b blobs =>
      obtain ⟨-, fate', rest, heq, hrest, -⟩ := sweepLoop_cons h
      cases heq
      obtain ⟨hlt, hle⟩ := ih hrest rfl
      rw [length_cons, survivors_cons]
      refine ⟨by omega, ?_⟩
      split at hle
      next hgone =>
        rw [if_pos hgone]
        exact hle
      next hnot =>
        rw [if_neg hnot, bytes, map_cons, sum_cons]
        rw [bytes] at hle
        omega

/-- A second sweep is never further on, and removes only what was stuck in the first. -/
theorem sweepLoop_again {fates : List (Blob × Fate)}
    (h : sweepLoop keepFiles budget removable i total blobs = some fates) {i' total' : Nat}
    (hi : i' ≤ i) (htotal : total' ≤ total) :
    ∃ fates', sweepLoop keepFiles budget removable' i' total' (survivors fates) = some fates' ∧
      ∀ x ∈ fates', x.2 = .gone → (x.1, .stuck) ∈ fates := by
  induction blobs generalizing i total fates i' total' with
  | nil =>
    cases h
    exact ⟨[], rfl, by simp⟩
  | cons blob blobs ih =>
    obtain ⟨hfits, fate, rest, rfl, hrest, hstays, -, -⟩ := sweepLoop_cons h
    rw [survivors_cons]
    split
    next hgone =>
      rw [if_pos hgone] at hrest
      obtain ⟨fates', hfates', hstuck⟩ := ih hrest (Nat.le_succ_of_le hi) htotal
      exact ⟨fates', hfates', fun x hx hx' => mem_cons_of_mem _ (hstuck x hx hx')⟩
    next hleft =>
      rw [if_neg hleft] at hrest
      -- whatever this snapshot comes to, the rest goes on from no more
      have hnext (total'' : Nat) (hle : total'' ≤ total + blob.size.toNat) (fate' : Fate)
          (hfate' : fate' = .gone → fate = .stuck) :
          ∃ fates', (sweepLoop keepFiles budget removable' (i' + 1) total'' (survivors rest)).map
              ((blob, fate') :: ·) = some fates' ∧
            ∀ x ∈ fates', x.2 = .gone → (x.1, .stuck) ∈ (blob, fate) :: rest := by
        obtain ⟨fates', hfates', hstuck⟩ := ih hrest (Nat.succ_le_succ hi) hle
        refine ⟨(blob, fate') :: fates', by rw [hfates']; rfl, forall_mem_cons.2 ⟨?_, ?_⟩⟩
        · intro hgone
          rw [hfate' hgone]
          exact mem_cons_self
        · exact fun x hx hx' => mem_cons_of_mem _ (hstuck x hx hx')
      rw [sweepLoop, if_neg (by omega)]
      split
      next hgoes =>
        have hfate : fate = .stuck := by
          cases fate with
          | stays => exact absurd (hstays.1 rfl) (by omega)
          | stuck => rfl
          | gone => exact absurd rfl hleft
        split
        · exact hnext _ (by omega) .gone fun _ => hfate
        · exact hnext _ (by omega) .stuck nofun
      · exact hnext _ (by omega) .stays nofun

/-- Without an overflow the sweep comes to an end. -/
theorem sweepLoop_ends (h : total + bytes blobs < 2 ^ 64) :
    ∃ fates, sweepLoop keepFiles budget removable i total blobs = some fates := by
  induction blobs generalizing i total with
  | nil => exact ⟨[], rfl⟩
  | cons blob blobs ih =>
    rw [bytes, map_cons, sum_cons] at h
    have hnext (total' : Nat) (hle : total' ≤ total + blob.size.toNat) (fate : Fate) :
        ∃ fates, (sweepLoop keepFiles budget removable (i + 1) total' blobs).map
          ((blob, fate) :: ·) = some fates := by
      obtain ⟨fates, hfates⟩ :
          ∃ fates, sweepLoop keepFiles budget removable (i + 1) total' blobs = some fates :=
        ih (by rw [bytes]; omega)
      exact ⟨(blob, fate) :: fates, by rw [hfates]; rfl⟩
    rw [sweepLoop, if_neg (by omega)]
    split
    · split
      · exact hnext _ (by omega) .gone
      · exact hnext _ (by omega) .stuck
    · exact hnext _ (by omega) .stays

/-- Where nothing can be removed, every size is added. -/
theorem sweepLoop_bounded {fates : List (Blob × Fate)}
    (h : sweepLoop keepFiles budget (fun _ => false) i total blobs = some fates)
    (htotal : total < 2 ^ 64) : total + bytes blobs < 2 ^ 64 := by
  induction blobs generalizing i total fates with
  | nil => exact htotal
  | cons blob blobs ih =>
    obtain ⟨hfits, fate, rest, -, hrest, -, -, hgone⟩ := sweepLoop_cons h
    rw [if_neg fun h => nomatch hgone h] at hrest
    have := ih hrest hfits
    rw [bytes, map_cons, sum_cons]
    rw [bytes] at this
    omega

end Loop

/-! ## The directory after a sweep -/

theorem DirEntry.name_of_blob {entry : DirEntry} {blob : Blob} (h : entry.blob = some blob) :
    blob.name = entry.name := by
  rw [DirEntry.blob] at h
  split at h
  · obtain ⟨metadata, -, rfl⟩ := Option.map_eq_some_iff.1 h
    rfl
  · cases h

theorem names_blobs (entries : List DirEntry) :
    ((entries.filterMap DirEntry.blob).map Blob.name).Sublist (entries.map DirEntry.name) := by
  induction entries with
  | nil => exact .slnil
  | cons entry entries ih =>
    rw [filterMap_cons]
    split
    · exact ih.cons _
    next blob hblob =>
      rw [map_cons, map_cons, DirEntry.name_of_blob hblob]
      exact ih.cons_cons _

theorem Directory.perm_newestFirst (dir : Directory) : dir.newestFirst.Perm dir.blobs :=
  perm_sortOn _ _

/-- Snapshots are told apart by their names. -/
theorem Directory.nodup_names (dir : Directory) : (dir.newestFirst.map Blob.name).Nodup :=
  (dir.perm_newestFirst.map _).nodup_iff.2 (dir.nodup.sublist (names_blobs dir.entries))

theorem Directory.newestFirst_without (dir : Directory) (names : List String) :
    (dir.without names).newestFirst =
      dir.newestFirst.filter fun blob => !names.contains blob.name := by
  have hblobs : ∀ entries : List DirEntry,
      (entries.filter fun entry => !names.contains entry.name).filterMap DirEntry.blob =
        (entries.filterMap DirEntry.blob).filter fun blob => !names.contains blob.name := by
    intro entries
    induction entries with
    | nil => rfl
    | cons entry entries ih =>
      cases hblob : entry.blob with
      | none =>
        rw [filterMap_cons_none hblob, filter_cons]
        split
        · rw [filterMap_cons_none hblob, ih]
        · exact ih
      | some blob =>
        rw [filterMap_cons_some hblob, filter_cons, filter_cons,
          DirEntry.name_of_blob hblob]
        split
        · rw [filterMap_cons_some hblob, ih]
        · exact ih
  rw [newestFirst, newestFirst, filter_sortOn, blobs, blobs, ← hblobs]
  rfl

section Outcome

variable {dir : Directory} {fates : List (Blob × Fate)}

theorem mem_ofFate {fate : Fate} {blob : Blob} :
    blob ∈ ofFate fate fates ↔ (blob, fate) ∈ fates := by
  simp [ofFate]

/-- The names that are gone are those of the snapshots that are. -/
theorem gone_iff (hall : fates.map Prod.fst = dir.newestFirst) {x : Blob × Fate} (hx : x ∈ fates) :
    x.1.name ∈ (ofFate .gone fates).map Blob.name ↔ x.2 = .gone := by
  constructor
  · intro h
    obtain ⟨blob, hblob, hname⟩ := mem_map.1 h
    have hnodup := dir.nodup_names
    rw [← hall, map_map] at hnodup
    have heq := inj_on_of_nodup_map hnodup (mem_ofFate.1 hblob) hx hname
    rw [← heq]
  · intro h
    exact mem_map_of_mem (mem_ofFate.2 (h ▸ hx))

theorem newestFirst_swept (hall : fates.map Prod.fst = dir.newestFirst) :
    (dir.swept fates).newestFirst = survivors fates := by
  rw [Directory.swept, Directory.newestFirst_without, ← hall, filter_map, survivors]
  congr 1
  refine filter_congr fun x hx => ?_
  rw [Bool.eq_iff_iff]
  simpa using not_congr (gone_iff hall hx)

/-- The files that are gone are as many as the snapshots that are. -/
theorem length_swept (hall : fates.map Prod.fst = dir.newestFirst) :
    (ofFate .gone fates).length + (dir.swept fates).entries.length = dir.entries.length := by
  have hsub : ((ofFate .gone fates).map Blob.name).Sublist (dir.newestFirst.map Blob.name) := by
    rw [← hall]
    exact (filter_sublist.map _).map _
  have hgone : (dir.entries.map DirEntry.name).filter
      (((ofFate .gone fates).map Blob.name).contains ·) |>.Perm
        ((ofFate .gone fates).map Blob.name) := by
    refine (perm_ext_iff_of_nodup (dir.nodup.filter _) (dir.nodup_names.sublist hsub)).2
      fun name => ?_
    rw [mem_filter, contains_iff_mem]
    refine and_iff_right_of_imp fun h => ?_
    exact (names_blobs dir.entries).subset ((dir.perm_newestFirst.map _).subset (hsub.subset h))
  have hlength := hgone.length_eq
  rw [filter_map, length_map, length_map] at hlength
  rw [← hlength, Directory.swept, Directory.without]
  exact (length_eq_length_filter_add _).symm

end Outcome

/-! ## The result -/

theorem swept_of_sweep {env : Env} {removable : String → Bool} {dir : Directory}
    {fates : List (Blob × Fate)} (h : sweep env removable dir = some fates) :
    Swept env removable dir fates := by
  have hall := sweepLoop_all h
  refine ⟨hall, fun newer blob fate older hsplit hleft hremovable => ?_, newestFirst_swept hall,
    ⟨_, by rw [enforceBudget, h]; rfl, length_swept hall⟩,
    fun blob hblob => sweepLoop_stuck h _ (mem_ofFate.1 hblob) rfl, fun removable' => ?_⟩
  · simpa using sweepLoop_kept h hsplit hleft hremovable
  · rw [sweep, newestFirst_swept hall]
    obtain ⟨fates', hfates', hstuck⟩ := sweepLoop_again h (Nat.le_refl 0) (Nat.le_refl 0)
    exact ⟨fates', hfates', fun blob hblob => mem_ofFate.2 (hstuck _ (mem_ofFate.1 hblob) rfl)⟩

/-- A sweep that can remove nothing adds all sizes. -/
theorem bytes_of_keeps {env : Env} {dir : Directory}
    (h : SweepKeeps env (fun _ => false) dir) : bytes dir.newestFirst < 2 ^ 64 := by
  obtain ⟨fates, hfates, -⟩ := h
  simpa using sweepLoop_bounded hfates (by decide)

/-- Three sparse files of the largest size that a file can have. -/
def sparseFiles : Directory where
  entries := [⟨"a.piokv", some (0, 0x7fffffffffffffff)⟩, ⟨"b.piokv", some (0, 0x7fffffffffffffff)⟩,
    ⟨"c.piokv", some (0, 0x7fffffffffffffff)⟩]
  nodup := by decide

end Kv
end Gen2
