import Gen2.Lib.Majority
import Mathlib.Algebra.GroupWithZero.Nat
import Mathlib.Data.List.Infix
import Mathlib.Logic.Function.Basic

/-!
# What the trigram predictor drafts

`backend/common/speculative.rs`: `NgramPredictor` says what a model may answer next, by a ring of the
newest tokens and a table of what follows a pair.  A history is the tokens it has observed, the
newest first.

* `NgramPredictor.Tells` says that the ring holds the newest tokens of a history, and the table the
  majority of what followed each pair; `observe` keeps it.
* `ngram_drafts_majority` is what a draft is.
-/

namespace Gen2.Speculative

open Lib List

/-- `NGRAM_HISTORY`. -/
def ngramHistory : Nat := 1024

structure NgramPredictor where
  buf : List Nat
  head : Nat
  len : Nat
  table : Nat × Nat → Option (Nat × Nat)

/-- What followed a pair of tokens in a history. -/
def followers (key : Nat × Nat) : List Nat → List Nat
  | c :: b :: a :: past =>
    if (a, b) = key then c :: followers key (b :: a :: past) else followers key (b :: a :: past)
  | _ => []

/-- The last two tokens of a history. -/
def lastPair : List Nat → Option (Nat × Nat)
  | b :: a :: _ => some (a, b)
  | _ => none

theorem followers_cons (key : Nat × Nat) (c : Nat) (past : List Nat) :
    followers key (c :: past) =
      if lastPair past = some key then c :: followers key past else followers key past := by
  match past with
  | [] | [_] => rfl
  | b :: a :: past => simp only [followers, lastPair, Option.some.injEq]

namespace NgramPredictor

/-- `NgramPredictor::new`. -/
def new : NgramPredictor := ⟨replicate ngramHistory 0, 0, 0, fun _ => none⟩

/-- `last_two`. -/
def lastTwo (p : NgramPredictor) : Option (Nat × Nat) :=
  if p.len < 2 then none
  else
    let avail := min p.len ngramHistory
    let read i := p.buf.getD ((p.head + ngramHistory - avail + (avail - 2 + i)) % ngramHistory) 0
    some (read 0, read 1)

/-- The loop of `draft`. -/
def chain (table : Nat × Nat → Option (Nat × Nat)) : Nat → Nat × Nat → List Nat
  | 0, _ => []
  | max + 1, key =>
    match table key with
    | some (next, _) => next :: chain table max (key.2, next)
    | none => []

/-- `NgramPredictor::draft`. -/
def draft (p : NgramPredictor) (max : Nat) : List Nat :=
  match p.lastTwo with
  | some key => chain p.table max key
  | none => []

/-- The entry of a pair that `token` follows; its count is a `u32`. -/
def counted (token : Nat) (entry : Option (Nat × Nat)) : Nat × Nat :=
  let (next, count) := entry.getD (token, 0)
  if next = token then (next, (count + 1) % 2 ^ 32)
  else if count = 0 then (token, 1)
  else (next, count - 1)

/-- `NgramPredictor::observe`. -/
def observe (p : NgramPredictor) (token : Nat) : NgramPredictor where
  table :=
    match p.lastTwo with
    | some key => Function.update p.table key (some (counted token (p.table key)))
    | none => p.table
  buf := p.buf.set p.head token
  head := (p.head + 1) % ngramHistory
  len := if p.len < ngramHistory then p.len + 1 else p.len

/-- An entry of the table is the majority of what followed its pair. -/
def Counts (votes : List Nat) : Option (Nat × Nat) → Prop
  | none => votes = []
  | some (next, count) => Elected votes next count

/-- The predictor has observed a history. -/
structure Tells (p : NgramPredictor) (past : List Nat) : Prop where
  size : p.buf.length = ngramHistory
  head_lt : p.head < ngramHistory
  len_eq : p.len = min past.length ngramHistory
  ring : ∀ i < p.len, p.buf[(p.head + (ngramHistory - 1 - i)) % ngramHistory]? = past[i]?
  counts : ∀ key, Counts (followers key past) (p.table key)

theorem tells_new : new.Tells [] where
  size := length_replicate
  head_lt := by decide
  len_eq := rfl
  ring _ h := absurd h (Nat.not_lt_zero _)
  counts _ := rfl

variable {p : NgramPredictor} {past : List Nat}

theorem Tells.lastTwo_eq (h : p.Tells past) : p.lastTwo = lastPair past := by
  have hlen := h.len_eq
  rw [lastTwo]
  match past with
  | [] | [_] => exact if_pos (by simp [hlen, ngramHistory])
  | b :: a :: past =>
    have h1024 : ngramHistory = 1024 := rfl
    rw [length_cons, length_cons] at hlen
    have h0 := h.ring 0 (by omega)
    have h1 := h.ring 1 (by omega)
    rw [if_neg (by omega)]
    simp only [getD_eq_getElem?_getD]
    rw [show p.head + ngramHistory - min p.len ngramHistory + (min p.len ngramHistory - 2 + 0) =
      p.head + (ngramHistory - 1 - 1) by omega, show p.head + ngramHistory - min p.len ngramHistory +
      (min p.len ngramHistory - 2 + 1) = p.head + (ngramHistory - 1 - 0) by omega, h0, h1]
    rfl

theorem counts_counted {votes : List Nat} {entry : Option (Nat × Nat)} (h : Counts votes entry)
    (hlen : votes.length + 1 < 2 ^ 32) (token : Nat) :
    Counts (token :: votes) (some (counted token entry)) := by
  match entry with
  | none =>
    rw [show votes = [] from h, counted]
    simpa [Counts] using Elected.first token
  | some (next, count) =>
    have h : Elected votes next count := h
    have hcount := h.margin_le
    simp only [counted, Option.getD_some]
    split
    next heq =>
      rw [Nat.mod_eq_of_lt (by omega)]
      exact heq ▸ h.again
    next hne =>
      split
      next hzero => exact (hzero ▸ h).replaced (Ne.symm hne)
      next hpos =>
        obtain ⟨k, rfl⟩ := Nat.exists_eq_succ_of_ne_zero hpos
        exact h.against (Ne.symm hne)

theorem length_followers_le (key : Nat × Nat) (past : List Nat) :
    (followers key past).length ≤ past.length := by
  fun_induction followers key past with
  | case1 c b a past _ ih => exact Nat.succ_le_succ ih
  | case2 c b a past _ ih => exact ih.trans (Nat.le_succ _)
  | case3 => exact Nat.zero_le _

theorem Tells.observe (h : p.Tells past) (hlen : past.length + 1 < 2 ^ 32) (token : Nat) :
    (p.observe token).Tells (token :: past) where
  size := (length_set ..).trans h.size
  head_lt := Nat.mod_lt _ (by decide)
  len_eq := by
    have := h.len_eq
    simp only [NgramPredictor.observe, length_cons]
    split <;> omega
  ring i hi := by
    have hsize := h.size
    have hhead := h.head_lt
    have hring := h.ring
    simp only [NgramPredictor.observe, getElem?_set, ngramHistory] at hi hsize hhead hring ⊢
    cases i with
    | zero => rw [if_pos (by omega), if_pos (by omega), getElem?_cons_zero]
    | succ i =>
      have hlen : p.len ≤ 1024 := h.len_eq ▸ Nat.min_le_right _ _
      have hi' : i < p.len ∧ i < 1023 := by grind
      rw [if_neg (by omega), getElem?_cons_succ, ← hring i hi'.1]
      congr 1
      omega
  counts key := by
    simp only [NgramPredictor.observe, followers_cons, h.lastTwo_eq]
    cases hpair : lastPair past with
    | none => exact h.counts key
    | some pair =>
      simp only [Option.some.injEq]
      by_cases hkey : pair = key
      · have := length_followers_le key past
        subst hkey
        rw [if_pos rfl, Function.update_self]
        exact counts_counted (h.counts pair) (by omega) token
      · rw [if_neg hkey, Function.update_of_ne (Ne.symm hkey)]
        exact h.counts key

theorem tells_observe (tokens : List Nat) (hlen : tokens.length < 2 ^ 32) :
    (tokens.foldl observe new).Tells tokens.reverse := by
  induction tokens using List.reverseRecOn with
  | nil => exact tells_new
  | append_singleton tokens token ih =>
    rw [length_append, length_singleton] at hlen
    rw [foldl_append, reverse_concat]
    exact (ih (by omega)).observe (by rwa [length_reverse]) token

end NgramPredictor

/-- What may be drafted after a pair, at most `max` tokens: each token has followed the two before
it, and is what mostly did where there is such; the draft ends early only where nothing did. -/
inductive Drafts (past : List Nat) : Option (Nat × Nat) → Nat → List Nat → Prop
  | full (key) : Drafts past key 0 []
  | unknown {key} (max) (h : ∀ pair, key = some pair → followers pair past = []) :
    Drafts past key max []
  | next {a b c max draft} (hmem : c ∈ followers (a, b) past)
    (hmost : ∀ x, (followers (a, b) past).length < 2 * (followers (a, b) past).count x → x = c)
    (h : Drafts past (some (b, c)) max draft) : Drafts past (some (a, b)) (max + 1) (c :: draft)

theorem NgramPredictor.Tells.drafts {p : NgramPredictor} {past : List Nat} (h : p.Tells past)
    (max : Nat) : Drafts past (lastPair past) max (p.draft max) := by
  rw [draft, h.lastTwo_eq]
  cases lastPair past with
  | none => exact .unknown max fun _ hpair => nomatch hpair
  | some key =>
    dsimp only
    fun_induction chain p.table max key with
    | case1 key => exact .full _
    | case2 max key next _ hentry ih =>
      have helected := h.counts key
      rw [hentry] at helected
      exact .next helected.mem (fun _ => helected.eq_of_majority) ih
    | case3 max key hentry =>
      refine .unknown _ fun pair hpair => ?_
      have hnone := h.counts key
      rw [hentry] at hnone
      exact Option.some.inj hpair ▸ hnone

/-- **Trigrams.**  Whatever has been observed, however far the ring has gone round: a draft goes on
from the last two tokens, by the majority of what followed each pair. -/
theorem ngram_drafts_majority (tokens : List Nat) (hlen : tokens.length < 2 ^ 32) (max : Nat) :
    Drafts tokens.reverse (lastPair tokens.reverse) max
      ((tokens.foldl NgramPredictor.observe .new).draft max) :=
  (NgramPredictor.tells_observe tokens hlen).drafts max

theorem ngram_drafts_repeating :
    Drafts [2, 1, 3, 2, 1] (some (1, 2)) 4
      (([1, 2, 3, 1, 2].foldl NgramPredictor.observe .new).draft 4) :=
  ngram_drafts_majority [1, 2, 3, 1, 2] (by decide) 4

end Gen2.Speculative
