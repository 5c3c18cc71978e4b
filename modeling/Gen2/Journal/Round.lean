import Gen2.Types.Message
import Mathlib.Data.List.Basic

/-!
# Tool rounds in a list of messages

`round_len` of `journal/turn.rs`: how many messages, from one on, are a tool round and so may only
be dropped together.  It decides from what it sees after the message: a message that makes calls
opens a round, further calls join it, and the round is closed by the result after which no call in
it is unanswered.

`Whole` is what the function is there to keep: a list in which each call is answered by a result
after it, before the round closes, and each result answers a call of the round it is in.  A whole
list falls apart into rounds and single messages, and what `round_len` measures at the front of one
is whole itself and leaves a whole list (`whole_roundLen`).
-/

namespace Gen2
namespace Journal

open List

/-- The loop of `round_len`, over what follows the first message: how many messages there are up to
the one that closes the round; `none` where it is never closed. -/
def roundScan : List String → List Message → Option Nat
  | _, [] => none
  | awaiting, message :: messages =>
    match message.body with
    | .tool toolCalls =>
      (roundScan (awaiting ++ toolCalls.map (·.id)) messages).map (· + 1)
    | .content _ =>
      match message.toolCallId with
      | some id =>
        let awaiting := awaiting.filter (· != id)
        if awaiting.isEmpty then some 1 else (roundScan awaiting messages).map (· + 1)
      | none => (roundScan awaiting messages).map (· + 1)

/-- `round_len`. -/
def roundLen (messages : List Message) («at» : Nat) : Nat :=
  match messages.drop «at» with
  | [] => 0
  | first :: rest =>
    match first.body with
    | .content _ => 1
    | .tool toolCalls => ((roundScan (toolCalls.map (·.id)) rest).map (· + 1)).getD 1

/-- The rounds of a list: the lengths that `round_len` finds one after the other. -/
def rounds (messages : List Message) : List Nat :=
  match messages with
  | [] => []
  | first :: rest =>
    let n := roundLen (first :: rest) 0
    n :: rounds (rest.drop (n - 1))
  termination_by messages.length
  decreasing_by
    simp only [List.length_drop, List.length_cons]
    omega

/-! ## Whole rounds -/

/-- From here on, with these calls unanswered, each call is answered and each result answers one of
the calls that wait for an answer.  A system message makes no calls. -/
def wholeFrom : List String → List Message → Bool
  | awaiting, [] => awaiting.isEmpty
  | awaiting, message :: messages =>
    match message.body with
    | .tool toolCalls =>
      message.role != "system" && wholeFrom (awaiting ++ toolCalls.map (·.id)) messages
    | .content _ =>
      match message.toolCallId with
      | some id => awaiting.contains id && wholeFrom (awaiting.filter (· != id)) messages
      | none => wholeFrom awaiting messages

/-- No half tool rounds. -/
def Whole (messages : List Message) : Prop := wholeFrom [] messages = true

instance (messages : List Message) : Decidable (Whole messages) :=
  inferInstanceAs (Decidable (_ = true))

theorem whole_nil : Whole [] := rfl

variable {awaiting : List String} {messages : List Message}

theorem wholeFrom_append (h : wholeFrom awaiting messages = true) (rest : List Message) :
    wholeFrom awaiting (messages ++ rest) = wholeFrom [] rest := by
  induction messages generalizing awaiting with
  | nil =>
    rw [wholeFrom, List.isEmpty_iff] at h
    rw [h, nil_append]
  | cons message messages ih =>
    rw [cons_append, wholeFrom]
    rw [wholeFrom] at h
    split
    next calls hbody =>
      simp only [hbody, Bool.and_eq_true] at h
      rw [h.1, Bool.true_and, ih h.2]
    next content hbody =>
      simp only [hbody] at h
      split
      next id hid =>
        simp only [hid, Bool.and_eq_true] at h
        rw [h.1, Bool.true_and, ih h.2]
      next hid =>
        simp only [hid] at h
        exact ih h

theorem Whole.append {rest : List Message} (h : Whole messages) (hrest : Whole rest) :
    Whole (messages ++ rest) := by
  rw [Whole, wholeFrom_append h]
  exact hrest

theorem Whole.right {rest : List Message} (h : Whole messages)
    (happend : Whole (messages ++ rest)) : Whole rest := by
  rwa [Whole, wholeFrom_append h] at happend

/-- Where a round that has begun in a whole list is closed, or that it is empty and never is. -/
theorem roundScan_whole (h : wholeFrom awaiting messages = true) :
    (roundScan awaiting messages = none ∧ awaiting = []) ∨
      ∃ n, roundScan awaiting messages = some n ∧ n ≤ messages.length ∧
        wholeFrom awaiting (messages.take n) = true ∧ Whole (messages.drop n) := by
  induction messages generalizing awaiting with
  | nil => exact .inl ⟨rfl, by simpa [wholeFrom] using h⟩
  | cons message messages ih =>
    rw [wholeFrom] at h
    rw [roundScan]
    split
    next calls hbody =>
      simp only [hbody, Bool.and_eq_true] at h
      rcases ih h.2 with ⟨hnone, hnil⟩ | ⟨n, hn, hle, htake, hdrop⟩
      · exact .inl ⟨by rw [hnone, Option.map_none], (append_eq_nil_iff.1 hnil).1⟩
      · refine .inr ⟨n + 1, by rw [hn, Option.map_some], Nat.succ_le_succ hle, ?_, hdrop⟩
        simp only [take_succ_cons, wholeFrom, hbody, h.1, htake, Bool.and_self]
    next content hbody =>
      simp only [hbody] at h
      split
      next id hid =>
        simp only [hid, Bool.and_eq_true] at h
        dsimp only
        split
        next hempty =>
          -- this result closes the round
          rw [List.isEmpty_iff] at hempty
          rw [hempty] at h
          refine .inr ⟨1, rfl, Nat.succ_le_succ (Nat.zero_le _), ?_, h.2⟩
          simp only [take_succ_cons, take_zero, wholeFrom, hbody, hid, h.1, hempty,
            isEmpty_nil, Bool.and_self]
        next hmore =>
          rcases ih h.2 with ⟨-, hnil⟩ | ⟨n, hn, hle, htake, hdrop⟩
          · exact absurd (isEmpty_iff.2 hnil) hmore
          · refine .inr ⟨n + 1, by rw [hn, Option.map_some], Nat.succ_le_succ hle, ?_, hdrop⟩
            simp only [take_succ_cons, wholeFrom, hbody, hid, h.1, htake, Bool.and_self]
      next hid =>
        simp only [hid] at h
        rcases ih h with ⟨hnone, hnil⟩ | ⟨n, hn, hle, htake, hdrop⟩
        · exact .inl ⟨by rw [hnone, Option.map_none], hnil⟩
        · refine .inr ⟨n + 1, by rw [hn, Option.map_some], Nat.succ_le_succ hle, ?_, hdrop⟩
          simp only [take_succ_cons, wholeFrom, hbody, hid, htake]

/-! ## What `round_len` measures -/

theorem roundScan_le {n : Nat} (h : roundScan awaiting messages = some n) :
    n ≤ messages.length := by
  induction messages generalizing awaiting n with
  | nil => cases h
  | cons message messages ih =>
    have hmap : ∀ {awaiting n}, (roundScan awaiting messages).map (· + 1) = some n →
        n ≤ (message :: messages).length := by
      intro awaiting n h
      obtain ⟨k, hk, rfl⟩ := Option.map_eq_some_iff.1 h
      exact Nat.succ_le_succ (ih hk)
    rw [roundScan] at h
    split at h
    · exact hmap h
    split at h
    · dsimp only at h
      split at h
      · obtain rfl := Option.some.inj h
        exact Nat.succ_le_succ (Nat.zero_le _)
      · exact hmap h
    · exact hmap h

theorem roundLen_drop (messages : List Message) (n m : Nat) :
    roundLen (messages.drop n) m = roundLen messages (n + m) := by
  rw [roundLen, roundLen, drop_drop]

theorem roundLen_pos (h : messages ≠ []) : 0 < roundLen messages 0 := by
  obtain ⟨first, rest, rfl⟩ := exists_cons_of_ne_nil h
  rw [roundLen, drop_zero]
  dsimp only
  split
  · exact Nat.one_pos
  next calls _ =>
    cases roundScan (calls.map (·.id)) rest with
    | none => exact Nat.one_pos
    | some n => exact Nat.succ_pos n

theorem roundLen_le (messages : List Message) : roundLen messages 0 ≤ messages.length := by
  cases messages with
  | nil => exact Nat.le_refl 0
  | cons first rest =>
    rw [roundLen, drop_zero]
    dsimp only
    split
    · exact Nat.succ_le_succ (Nat.zero_le _)
    next calls _ =>
      cases hscan : roundScan (calls.map (·.id)) rest with
      | none => exact Nat.succ_le_succ (Nat.zero_le _)
      | some n => exact Nat.succ_le_succ (roundScan_le hscan)

theorem roundLen_le_sub (messages : List Message) (n : Nat) :
    roundLen messages n ≤ messages.length - n := by
  rw [← Nat.add_zero n, ← roundLen_drop, Nat.add_zero, ← length_drop]
  exact roundLen_le _

/-- **The front of a whole list**: what `round_len` measures there is whole, and so is what comes
after it. -/
theorem whole_roundLen (h : Whole messages) :
    Whole (messages.take (roundLen messages 0)) ∧ Whole (messages.drop (roundLen messages 0)) := by
  cases messages with
  | nil => exact ⟨whole_nil, whole_nil⟩
  | cons first rest =>
    rw [Whole, wholeFrom] at h
    rw [roundLen, drop_zero]
    dsimp only
    split
    next content hbody =>
      simp only [hbody] at h
      split at h
      · simp at h
      next hid =>
        refine ⟨?_, h⟩
        simp only [Whole, take_succ_cons, take_zero, wholeFrom, hbody, hid,
          isEmpty_nil]
    next calls hbody =>
      simp only [hbody, Bool.and_eq_true, nil_append] at h
      rcases roundScan_whole h.2 with ⟨hnone, hnil⟩ | ⟨n, hn, -, htake, hdrop⟩
      · -- a message whose list of calls is empty
        rw [hnone, Option.map_none, Option.getD_none]
        refine ⟨?_, by simpa [Whole, hnil] using h.2⟩
        simp only [Whole, take_succ_cons, take_zero, wholeFrom, hbody, h.1, hnil,
          append_nil, isEmpty_nil, Bool.and_self]
      · rw [hn, Option.map_some, Option.getD_some]
        refine ⟨?_, hdrop⟩
        simp only [Whole, take_succ_cons, wholeFrom, hbody, h.1, htake, nil_append,
          Bool.and_self]

theorem rounds_eq (h : messages ≠ []) :
    rounds messages =
      roundLen messages 0 :: rounds (messages.drop (roundLen messages 0)) := by
  obtain ⟨first, rest, rfl⟩ := exists_cons_of_ne_nil h
  have hpos := roundLen_pos h
  rw [rounds]
  obtain ⟨n, hn⟩ : ∃ n, roundLen (first :: rest) 0 = n + 1 := ⟨_,
    (Nat.succ_pred_eq_of_pos hpos).symm⟩
  rw [hn, Nat.add_sub_cancel, drop_succ_cons]

end Journal
end Gen2
