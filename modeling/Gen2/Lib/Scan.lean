import Mathlib.Tactic.Common

/-!
# Incremental scanners

A scanner reads a text from its beginning and turns it into outputs.  The text arrives in chunks,
and where the scanner cannot decide what the beginning of its buffer is, it waits for more.

* `Scanner.next` is one decision: what is put out, how much of the buffer that takes up, and the
  state after it; or `none`, to wait.  A decision takes up something (`progress`), and what comes
  later in the text does not change it (`stable`).
* `Scanner.scan` decides as long as it can, and `Scanner.feed` does so chunk by chunk.
* `Scanner.feed_flatten` is the point: however a text is cut into chunks, the outputs, the state and
  what is left in the buffer are those of the whole text.
-/

namespace Gen2.Lib

open List

universe u v w

/-- One decision at a time, which later input does not change. -/
structure Scanner (α : Type u) (β : Type v) (σ : Type w) where
  next : σ → List α → Option (List β × Nat × σ)
  progress : ∀ {q s out n q'}, next q s = some (out, n, q') → 0 < n ∧ n ≤ s.length
  stable : ∀ {q s r} (t), next q s = some r → next q (s ++ t) = some r

namespace Scanner

variable {α : Type u} {β : Type v} {σ : Type w} (S : Scanner α β σ)

/-- Decide as long as possible: what is put out, the state, and what is left of the buffer. -/
def scan (q : σ) (s : List α) : List β × σ × List α :=
  match _h : S.next q s with
  | none => ([], q, s)
  | some (out, n, q') =>
    let r := scan q' (s.drop n)
    (out ++ r.1, r.2)
termination_by s.length
decreasing_by
  have := S.progress _h
  rw [List.length_drop]
  omega

theorem scan_none {q : σ} {s : List α} (h : S.next q s = none) : S.scan q s = ([], q, s) := by
  rw [scan]
  split
  · rfl
  · rename_i heq
    rw [h] at heq
    cases heq

theorem scan_some {q q' : σ} {s : List α} {out : List β} {n : Nat}
    (h : S.next q s = some (out, n, q')) :
    S.scan q s = (out ++ (S.scan q' (s.drop n)).1, (S.scan q' (s.drop n)).2) := by
  rw [scan]
  split
  · rename_i heq
    rw [h] at heq
    cases heq
  · rename_i heq
    rw [h] at heq
    cases heq
    rfl

/-- Nothing can be decided on an empty buffer. -/
theorem next_nil (q : σ) : S.next q [] = none := by
  cases h : S.next q [] with
  | none => rfl
  | some r =>
    obtain ⟨hpos, hle⟩ := S.progress (show S.next q [] = some (r.1, r.2.1, r.2.2) from h)
    exact absurd (Nat.lt_of_lt_of_le hpos hle) (Nat.lt_irrefl 0)

/-- Scanning stops where nothing can be decided. -/
theorem next_scan (q : σ) (s : List α) : S.next (S.scan q s).2.1 (S.scan q s).2.2 = none := by
  induction hlen : s.length using Nat.strongRecOn generalizing q s with
  | _ k ih =>
    cases h : S.next q s with
    | none =>
      rw [S.scan_none h]
      exact h
    | some r =>
      obtain ⟨out, n, q'⟩ := r
      obtain ⟨hpos, hle⟩ := S.progress h
      rw [S.scan_some h]
      exact ih (s.drop n).length (by rw [length_drop]; omega) q' (s.drop n) rfl

/-- **What comes later changes nothing**: to scan `s ++ t` is to scan `s`, and then what was left of
it followed by `t`. -/
theorem scan_append (q : σ) (s t : List α) :
    S.scan q (s ++ t) = ((S.scan q s).1 ++ (S.scan (S.scan q s).2.1 ((S.scan q s).2.2 ++ t)).1,
      (S.scan (S.scan q s).2.1 ((S.scan q s).2.2 ++ t)).2) := by
  induction hlen : s.length using Nat.strongRecOn generalizing q s with
  | _ k ih =>
    cases h : S.next q s with
    | none => simp [S.scan_none h]
    | some r =>
      obtain ⟨out, n, q'⟩ := r
      obtain ⟨hpos, hle⟩ := S.progress h
      have hshort : (s.drop n).length < k := by
        rw [length_drop]
        omega
      rw [S.scan_some h, S.scan_some (S.stable t h), drop_append_of_le_length hle,
        ih _ hshort q' (s.drop n) rfl]
      simp

/-! ## Chunks -/

/-- One chunk more: what has been put out, the state, and the buffer. -/
def feed (r : List β × σ × List α) (chunk : List α) : List β × σ × List α :=
  let r' := S.scan r.2.1 (r.2.2 ++ chunk)
  (r.1 ++ r'.1, r'.2)

/-- **Chunks make no difference.**  To feed chunks one after another is to scan all of them. -/
theorem feed_flatten (chunks : List (List α)) {r : List β × σ × List α}
    (h : S.next r.2.1 r.2.2 = none) :
    chunks.foldl S.feed r = (r.1 ++ (S.scan r.2.1 (r.2.2 ++ chunks.flatten)).1,
      (S.scan r.2.1 (r.2.2 ++ chunks.flatten)).2) := by
  induction chunks generalizing r with
  | nil => simp [S.scan_none h]
  | cons chunk chunks ih =>
    have hdone : S.next (S.feed r chunk).2.1 (S.feed r chunk).2.2 = none := S.next_scan _ _
    rw [foldl_cons, ih hdone, flatten_cons, ← append_assoc,
      S.scan_append r.2.1 (r.2.2 ++ chunk)]
    simp [feed]

/-- From the start, where the buffer is empty. -/
theorem feed_chunks (chunks : List (List α)) (q : σ) :
    chunks.foldl S.feed ([], q, []) = S.scan q chunks.flatten := by
  rw [S.feed_flatten chunks (S.next_nil q)]
  rfl

end Scanner

end Gen2.Lib
