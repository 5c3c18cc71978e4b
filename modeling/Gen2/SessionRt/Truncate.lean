import Gen2.Engine.Types
import Gen2.Journal.Round
import Gen2.Lib.Loop

/-!
# Truncation before a session starts

`session_rt/truncate.rs`, the cold start, with `generation_reserve` of `session_rt/prompt.rs`.  A
conversation that does not fit the context is made shorter from its oldest end, a tool round at a
time: first by as many messages as the average length suggests, then one round after the other until
it fits.

* The tokenizer is any function from message lists to a count or an error.
* The loops of the source are `Lib.loop`s, and `ColdStart.apply` takes the number of rounds they may
  go on for: `none` is a loop that has not ended by then.
* The first loop does not look at whether anything was dropped.  Where the oldest round is too long
  to go, it drops nothing, for ever (`dropBatch_stays`); `apply_ends_iff` says when it ends.
-/

namespace Gen2
namespace SessionRt

open Lib Journal List

/-! ## The parts -/

/-- `SessionTokenizer::count_tokens`. -/
abbrev CountTokens := List Message → Except ExecError Nat

/-- `Ord::clamp`. -/
def clamp (n least most : Nat) : Nat := if n < least then least else if most < n then most else n

/-- `generation_reserve`: how many tokens to keep for the output. -/
def generationReserve (ctxSize : Nat) (maxTokens : Option Nat) : Nat :=
  let half := ctxSize / 2
  let minReserve := min half 64
  let default := ctxSize / 4
  clamp (maxTokens.getD default) (max minReserve 1) (max half 1)

/-- `TruncationOutcome`. -/
structure TruncationOutcome where
  messages : List Message
  dropped : Nat

/-- `drop_oldest_round`: the round at `at` goes whole or not at all, and two messages stay. -/
def dropOldestRound (messages : List Message) («at» : Nat) : Nat × List Message :=
  if messages.length ≤ «at» ∨ messages.length ≤ 2 then (0, messages)
  else
    let span := roundLen messages «at»
    if span = 0 ∨ messages.length - span < 2 then (0, messages)
    else (span, messages.take «at» ++ messages.drop («at» + span))

/-- The first message is the system message. -/
def firstIsSystem (messages : List Message) : Bool :=
  match messages with
  | [] => false
  | first :: _ => first.role == "system"

/-! ## The cold start -/

namespace ColdStart

/-- One round of the first loop, over the count of what is removed and the messages. -/
def dropBatch (removeIdx estRemove : Nat) (s : Nat × List Message) :
    (Nat × List Message) ⊕ List Message :=
  if s.1 < estRemove ∧ 2 < s.2.length then
    let (span, messages) := dropOldestRound s.2 removeIdx
    .inl (s.1 + span, messages)
  else .inr s.2

/-- One round of the second loop, over the count of tokens and the messages. -/
def dropUntilFit (countTokens : CountTokens) (ctxLimit removeIdx : Nat) (s : Nat × List Message) :
    (Nat × List Message) ⊕ Except ExecError (List Message) :=
  if ctxLimit < s.1 ∧ 2 < s.2.length then
    let (span, messages) := dropOldestRound s.2 removeIdx
    if span = 0 then .inr (.ok s.2)
    else
      match countTokens messages with
      | .error e => .inr (.error e)
      | .ok tokenCount => .inl (tokenCount, messages)
  else .inr (.ok s.2)

/-- Where the first droppable message is. -/
def removeIdx (messages : List Message) : Nat := if firstIsSystem messages then 1 else 0

/-- How many messages the first loop is to remove, by the average length of a message. -/
def estRemove (tokenCount ctxLimit : Nat) (messages : List Message) : Nat :=
  let removable :=
    if firstIsSystem messages then messages.length - 2 else messages.length - 1
  let avgPerMsg := tokenCount / max messages.length 1
  let excess := tokenCount - ctxLimit
  min (excess / max avgPerMsg 1) removable

/-- What `ColdStart::apply` does to a conversation that does not fit. -/
def truncate (fuel : Nat) (countTokens : CountTokens) (ctxLimit tokenCount : Nat)
    (messages : List Message) : Option (Except ExecError (List Message)) :=
  match loop (dropBatch (removeIdx messages) (estRemove tokenCount ctxLimit messages)) fuel
      (0, messages) with
  | none => none
  | some batched =>
    match countTokens batched with
    | .error e => some (.error e)
    | .ok tokenCount =>
      loop (dropUntilFit countTokens ctxLimit (removeIdx messages)) fuel (tokenCount, batched)

/-- `ColdStart::apply`. -/
def apply (fuel : Nat) (countTokens : CountTokens) (settings : Settings) (ctxSize : Nat)
    (messages : List Message) : Option (Except ExecError TruncationOutcome) :=
  let ctxLimit := ctxSize - generationReserve ctxSize settings.stopping.maxTokens
  let outcome (messages' : List Message) : TruncationOutcome :=
    ⟨messages', messages.length - messages'.length⟩
  match countTokens messages with
  | .error e => some (.error e)
  | .ok tokenCount =>
    if ctxLimit < tokenCount ∧ 2 < messages.length then
      (truncate fuel countTokens ctxLimit tokenCount messages).map (·.map outcome)
    else some (.ok (outcome messages))

end ColdStart

/-! ## Dropping a round -/

theorem dropOldestRound_length (messages : List Message) («at» : Nat) :
    (dropOldestRound messages «at»).1 + (dropOldestRound messages «at»).2.length =
      messages.length := by
  rw [dropOldestRound]
  split
  · exact Nat.zero_add _
  next hlong =>
    dsimp only
    split
    · exact Nat.zero_add _
    next hspan =>
      have hle := roundLen_le_sub messages «at»
      rw [not_or, Nat.not_le] at hlong
      rw [length_append, length_take, length_drop,
        Nat.min_eq_left (Nat.le_of_lt hlong.1)]
      omega

theorem dropOldestRound_sublist (messages : List Message) («at» : Nat) :
    (dropOldestRound messages «at»).2.Sublist messages := by
  rw [dropOldestRound]
  split
  · exact List.Sublist.refl _
  dsimp only
  split
  · exact List.Sublist.refl _
  · have hsub := (List.Sublist.refl (messages.take «at»)).append
      (drop_sublist_drop_left messages (Nat.le_add_right «at» (roundLen messages «at»)))
    rwa [take_append_drop] at hsub

/-- A round that is too long to go leaves everything, and a shorter one goes. -/
theorem dropOldestRound_eq {lead body : List Message} (hlead : lead.length ≤ 1)
    (hlong : 2 < (lead ++ body).length) :
    dropOldestRound (lead ++ body) lead.length =
      if (lead ++ body).length < 2 + roundLen body 0 then (0, lead ++ body)
      else (roundLen body 0, lead ++ body.drop (roundLen body 0)) := by
  have hbody : body ≠ [] := by
    rintro rfl
    rw [append_nil] at hlong
    omega
  have hpos := roundLen_pos hbody
  have hlen : roundLen (lead ++ body) lead.length = roundLen body 0 := by
    have h := roundLen_drop (lead ++ body) lead.length 0
    rw [drop_left, Nat.add_zero] at h
    exact h.symm
  rw [dropOldestRound, if_neg (by omega), hlen]
  dsimp only
  by_cases hshort : (lead ++ body).length < 2 + roundLen body 0
  · rw [if_pos hshort, if_pos (by omega)]
  · rw [if_neg hshort, if_neg (by omega), take_left, drop_append,
      drop_eq_nil_of_le (Nat.le_add_right ..), nil_append, Nat.add_sub_cancel_left]

/-! ## What is left -/

/-- Whole rounds have gone from the front of what follows the lead, and at least two messages are
left if any has. -/
def Cut (lead body messages : List Message) : Prop :=
  ∃ gone rest, body = gone ++ rest ∧ messages = lead ++ rest ∧ Whole gone ∧ Whole rest ∧
    (gone = [] ∨ 2 ≤ messages.length)

theorem Cut.refl {lead body : List Message} (h : Whole body) : Cut lead body (lead ++ body) :=
  ⟨[], body, rfl, rfl, whole_nil, h, .inl rfl⟩

theorem Cut.drop {lead body messages : List Message} (h : Cut lead body messages)
    (hlead : lead.length ≤ 1) (hlong : 2 < messages.length) :
    Cut lead body (dropOldestRound messages lead.length).2 := by
  obtain ⟨gone, rest, rfl, rfl, hgone, hrest, htwo⟩ := h
  rw [dropOldestRound_eq hlead hlong]
  split
  · exact ⟨gone, rest, rfl, rfl, hgone, hrest, htwo⟩
  next hshort =>
    obtain ⟨hround, hlater⟩ := whole_roundLen hrest
    refine ⟨gone ++ rest.take (roundLen rest 0), rest.drop (roundLen rest 0), ?_, rfl,
      hgone.append hround, hlater, .inr ?_⟩
    · rw [append_assoc, take_append_drop]
    · rw [length_append] at hshort
      rw [length_append, length_drop]
      omega

namespace ColdStart

/-! ## The first loop -/

/-- Dropping rounds of these lengths, from a list of the given length, until as many messages as
estimated have gone: no round is met on the way that leaves fewer than two of more than two. -/
def BatchFits (estRemove length : Nat) (spans : List Nat) : Prop :=
  ∀ k, k < spans.length → (spans.take k).sum < estRemove → (spans.take k).sum + 2 < length →
    (spans.take (k + 1)).sum + 2 ≤ length

theorem batchFits_cons {estRemove length span : Nat} {spans : List Nat} :
    BatchFits estRemove length (span :: spans) ↔
      (0 < estRemove → 2 < length → span + 2 ≤ length) ∧
        BatchFits (estRemove - span) (length - span) spans := by
  constructor
  · intro h
    refine ⟨fun hest hlong => by simpa using h 0 (Nat.succ_pos _) hest hlong,
      fun k hk hest hlong => ?_⟩
    have := h (k + 1) (Nat.succ_lt_succ hk) (by rw [take_succ_cons, sum_cons]; omega)
      (by rw [take_succ_cons, sum_cons]; omega)
    rw [take_succ_cons, sum_cons] at this
    omega
  · rintro ⟨hfirst, hrest⟩ k hk hest hlong
    cases k with
    | zero => simpa using hfirst hest (by simpa using hlong)
    | succ k =>
      rw [take_succ_cons, sum_cons] at hest hlong
      have := hrest k (Nat.lt_of_succ_lt_succ hk) (by omega) (by omega)
      rw [take_succ_cons, sum_cons]
      omega

/-- A round that is too long to go is met for ever. -/
theorem dropBatch_stays {lead body : List Message} {estRemove removed : Nat}
    (hlead : lead.length ≤ 1) (hmore : removed < estRemove) (hlong : 2 < (lead ++ body).length)
    (hshort : (lead ++ body).length < 2 + roundLen body 0) :
    dropBatch lead.length estRemove (removed, lead ++ body) = .inl (removed, lead ++ body) := by
  rw [dropBatch, if_pos ⟨hmore, hlong⟩, dropOldestRound_eq hlead hlong, if_pos hshort]
  rfl

/-- **When the first loop ends.** -/
theorem dropBatch_returns_iff {lead : List Message} (hlead : lead.length ≤ 1) (estRemove : Nat)
    (body : List Message) (removed : Nat) :
    (∃ batched, Returns (dropBatch lead.length estRemove) (removed, lead ++ body) batched) ↔
      BatchFits (estRemove - removed) (lead ++ body).length (rounds body) := by
  induction hn : body.length using Nat.strongRecOn generalizing body removed with
  | _ n ih =>
    by_cases hgo : removed < estRemove ∧ 2 < (lead ++ body).length
    · have hbody : body ≠ [] := by
        rintro rfl
        rw [append_nil] at hgo
        omega
      have hpos := roundLen_pos hbody
      rw [rounds_eq hbody, batchFits_cons]
      by_cases hshort : (lead ++ body).length < 2 + roundLen body 0
      · have hstays := dropBatch_stays hlead hgo.1 hgo.2 hshort
        refine iff_of_false (fun ⟨_, h⟩ => not_returns_of_stays hstays h) fun h => ?_
        have := h.1 (by omega) hgo.2
        omega
      · have hstep : dropBatch lead.length estRemove (removed, lead ++ body) =
            .inl (removed + roundLen body 0, lead ++ body.drop (roundLen body 0)) := by
          rw [dropBatch, if_pos hgo, dropOldestRound_eq hlead hgo.2, if_neg hshort]
        have hle := roundLen_le body
        have hlen : (lead ++ body.drop (roundLen body 0)).length =
            (lead ++ body).length - roundLen body 0 := by
          rw [length_append, length_append, length_drop]
          omega
        have hrec := ih (body.drop (roundLen body 0)).length
          (by rw [length_drop]; omega) _ (removed + roundLen body 0) rfl
        simp only [returns_next hstep]
        rw [hrec, hlen, Nat.sub_add_eq]
        exact ⟨fun h => ⟨fun _ _ => by omega, h⟩, fun h => h.2⟩
    · have hdone : dropBatch lead.length estRemove (removed,
      lead ++ body) = .inr (lead ++ body) := by
        rw [dropBatch, if_neg hgo]
      refine iff_of_true ⟨_, returns_of_done hdone⟩ fun k _ hest hlong => ?_
      omega

theorem dropBatch_cut {lead body : List Message} (hlead : lead.length ≤ 1) {estRemove : Nat}
    {s : Nat × List Message} {batched : List Message} (hcut : Cut lead body s.2)
    (h : Returns (dropBatch lead.length estRemove) s batched) : Cut lead body batched := by
  refine Returns.invariant (I := fun s => Cut lead body s.2) (fun s s' hI hs => ?_)
    (fun s r hI hs => ?_) hcut h
  · rw [dropBatch] at hs
    split at hs
    next hgo =>
      obtain rfl := Sum.inl.inj hs
      exact hI.drop hlead hgo.2
    · cases hs
  · rw [dropBatch] at hs
    split at hs
    · cases hs
    · exact Sum.inr.inj hs ▸ hI

/-! ## The second loop -/

theorem dropUntilFit_returns (countTokens : CountTokens) (ctxLimit removeIdx : Nat)
    (s : Nat × List Message) :
    ∃ r, Returns (dropUntilFit countTokens ctxLimit removeIdx) s r := by
  refine exists_returns (fun s => s.2.length) (fun s s' hs => ?_) s
  have hlen := dropOldestRound_length s.2 removeIdx
  rw [dropUntilFit] at hs
  split at hs
  · dsimp only at hs
    split at hs
    · cases hs
    next hspan =>
      split at hs
      · cases hs
      · obtain rfl := Sum.inl.inj hs
        dsimp only
        omega
  · cases hs

theorem dropUntilFit_cut {countTokens : CountTokens} {ctxLimit : Nat} {lead body : List Message}
    (hlead : lead.length ≤ 1) {s : Nat × List Message} {left : List Message}
    (hcut : Cut lead body s.2)
    (h : Returns (dropUntilFit countTokens ctxLimit lead.length) s (.ok left)) :
    Cut lead body left := by
  refine Returns.invariant (I := fun s => Cut lead body s.2)
    (P := fun r => ∀ left, r = .ok left → Cut lead body left) (fun s s' hI hs => ?_)
    (fun s r hI hs => ?_) hcut h left rfl
  · rw [dropUntilFit] at hs
    split at hs
    next hgo =>
      have hnext := hI.drop hlead hgo.2
      dsimp only at hs
      split at hs
      · cases hs
      · split at hs
        · cases hs
        · obtain rfl := Sum.inl.inj hs
          exact hnext
    · cases hs
  · rintro left rfl
    rw [dropUntilFit] at hs
    split at hs
    · dsimp only at hs
      split at hs
      · exact Except.ok.inj (Sum.inr.inj hs) ▸ hI
      · split at hs <;> cases hs
    · exact Except.ok.inj (Sum.inr.inj hs) ▸ hI

/-! ## Messages only go -/

theorem dropBatch_sublist {removeIdx estRemove : Nat} {s : Nat × List Message}
    {batched messages : List Message} (hs : s.2.Sublist messages)
    (h : Returns (dropBatch removeIdx estRemove) s batched) : batched.Sublist messages := by
  refine Returns.invariant (I := fun s : Nat × List Message => s.2.Sublist messages)
    (P := fun r => r.Sublist messages) (fun s s' hI hs => ?_) (fun s r hI hs => ?_) hs h
  · rw [dropBatch] at hs
    split at hs
    · obtain rfl := Sum.inl.inj hs
      exact (dropOldestRound_sublist ..).trans hI
    · cases hs
  · rw [dropBatch] at hs
    split at hs
    · cases hs
    · exact Sum.inr.inj hs ▸ hI

theorem dropUntilFit_sublist {countTokens : CountTokens} {ctxLimit removeIdx : Nat}
    {s : Nat × List Message} {left messages : List Message} (hs : s.2.Sublist messages)
    (h : Returns (dropUntilFit countTokens ctxLimit removeIdx) s (.ok left)) :
    left.Sublist messages := by
  refine Returns.invariant (I := fun s => s.2.Sublist messages)
    (P := fun r => ∀ left, r = .ok left → left.Sublist messages) (fun s s' hI hs => ?_)
    (fun s r hI hs => ?_) hs h left rfl
  · rw [dropUntilFit] at hs
    split at hs
    · dsimp only at hs
      split at hs
      · cases hs
      · split at hs
        · cases hs
        · obtain rfl := Sum.inl.inj hs
          exact (dropOldestRound_sublist ..).trans hI
    · cases hs
  · rintro left rfl
    rw [dropUntilFit] at hs
    split at hs
    · dsimp only at hs
      split at hs
      · exact Except.ok.inj (Sum.inr.inj hs) ▸ hI
      · split at hs <;> cases hs
    · exact Except.ok.inj (Sum.inr.inj hs) ▸ hI

/-- **What a cold start returns is part of the conversation**, and it counts what is not. -/
theorem apply_sublist {fuel : Nat} {countTokens : CountTokens} {settings : Settings}
    {ctxSize : Nat} {messages : List Message} {outcome : TruncationOutcome}
    (h : apply fuel countTokens settings ctxSize messages = some (.ok outcome)) :
    outcome.messages.Sublist messages ∧
      outcome.dropped = messages.length - outcome.messages.length := by
  rw [apply] at h
  dsimp only at h
  split at h
  · cases h
  next tokenCount hcount =>
    split at h
    · obtain ⟨r, hr, heq⟩ := Option.map_eq_some_iff.1 h
      cases r with
      | error e => cases heq
      | ok left =>
        obtain rfl := Except.ok.inj heq
        refine ⟨?_, rfl⟩
        rw [truncate] at hr
        split at hr
        · cases hr
        next batched hbatch =>
          split at hr
          · cases hr
          · exact dropUntilFit_sublist (dropBatch_sublist (List.Sublist.refl _) ⟨fuel, hbatch⟩)
              ⟨fuel, hr⟩
    · obtain rfl := Except.ok.inj (Option.some.inj h)
      exact ⟨List.Sublist.refl _, rfl⟩

/-- A conversation that fits is left as it is. -/
theorem apply_of_fits (fuel : Nat) {countTokens : CountTokens} {settings : Settings}
    {ctxSize n : Nat} {messages : List Message} (hcount : countTokens messages = .ok n)
    (hfits : n ≤ ctxSize - generationReserve ctxSize settings.stopping.maxTokens) :
    apply fuel countTokens settings ctxSize messages = some (.ok ⟨messages, 0⟩) := by
  rw [apply, hcount]
  dsimp only
  rw [if_neg (by omega), Nat.sub_self]

/-! ## The outcome -/

/-- What a truncation of a conversation is to be: whole rounds are gone from one place, the system
message and the last message are not among them, and their messages are counted. -/
structure Truncated (messages : List Message) (outcome : TruncationOutcome) : Prop where
  sublist : outcome.messages.Sublist messages
  rounds : ∃ lead gone rest, messages = lead ++ (gone ++ rest) ∧ outcome.messages = lead ++ rest ∧
    Whole gone ∧ outcome.dropped = gone.length
  whole : Whole outcome.messages
  system : firstIsSystem messages = true → outcome.messages.head? = messages.head?
  last : outcome.messages.getLast? = messages.getLast?

/-- The system message, if there is one, and what comes after it. -/
theorem exists_lead {messages : List Message} (h : Whole messages) :
    ∃ lead body, messages = lead ++ body ∧ lead.length = removeIdx messages ∧ lead.length ≤ 1 ∧
      Whole lead ∧ Whole body ∧ (firstIsSystem messages = true → lead ≠ []) := by
  by_cases hsystem : firstIsSystem messages = true
  · cases messages with
    | nil => cases hsystem
    | cons first rest =>
      have hlead : Whole [first] ∧ Whole rest := by
        have hrole : (first.role != "system") = false := by
          simpa [firstIsSystem] using hsystem
        rw [Whole, wholeFrom] at h
        rw [Whole, wholeFrom]
        split at h
        · rw [hrole] at h
          cases h
        · split at h
          · simp at h
          · exact ⟨rfl, h⟩
      exact ⟨[first], rest, rfl, by simp [removeIdx, hsystem], Nat.le_refl 1, hlead.1, hlead.2,
        fun _ => cons_ne_nil _ _⟩
  · exact ⟨[], messages, rfl, by simp [removeIdx, hsystem], Nat.zero_le 1, whole_nil, h,
      fun h => absurd h hsystem⟩

/-- What the loops leave is a truncation. -/
theorem truncated_of_cut {messages lead body left : List Message}
    (hmessages : messages = lead ++ body)
    (hlead : lead.length ≤ 1) (hwhole : Whole lead)
    (hsystem : firstIsSystem messages = true → lead ≠ []) (h : Cut lead body left) :
    Truncated messages ⟨left, messages.length - left.length⟩ := by
  obtain ⟨gone, rest, rfl, rfl, hgone, hrest, htwo⟩ := h
  subst hmessages
  refine ⟨?_, ⟨lead, gone, rest, rfl, rfl, hgone, ?_⟩, hwhole.append hrest, fun hs => ?_, ?_⟩
  · exact (List.Sublist.refl lead).append (sublist_append_right gone rest)
  · simp only [length_append]
    omega
  · obtain ⟨first, tail, rfl⟩ := exists_cons_of_ne_nil (hsystem hs)
    rfl
  rcases htwo with rfl | htwo
  · rfl
  have hne : rest ≠ [] := by
    rintro rfl
    rw [append_nil] at htwo
    omega
  rw [getLast?_append_of_ne_nil _ hne,
    getLast?_append_of_ne_nil _ (append_ne_nil_of_right_ne_nil _ hne),
    getLast?_append_of_ne_nil _ hne]

theorem truncate_returns_iff (countTokens : CountTokens) (ctxLimit tokenCount : Nat)
    (messages : List Message) :
    (∃ fuel r, truncate fuel countTokens ctxLimit tokenCount messages = some r) ↔
      ∃ batched, Returns (dropBatch (removeIdx messages) (estRemove tokenCount ctxLimit messages))
        (0, messages) batched := by
  constructor
  · rintro ⟨fuel, r, h⟩
    rw [truncate] at h
    split at h
    · cases h
    next batched hbatched => exact ⟨batched, fuel, hbatched⟩
  · rintro ⟨batched, fuel, hbatched⟩
    cases hcount : countTokens batched with
    | error e => exact ⟨fuel, .error e, by rw [truncate, hbatched]; dsimp only; rw [hcount]⟩
    | ok n =>
      obtain ⟨r, fuel', hr⟩ :=
        dropUntilFit_returns countTokens ctxLimit (removeIdx messages) (n, batched)
      refine ⟨max fuel fuel', r, ?_⟩
      rw [truncate, loop_mono (Nat.le_max_left ..) hbatched]
      dsimp only
      rw [hcount]
      exact loop_mono (Nat.le_max_right ..) hr

section

variable {fuel : Nat} {countTokens : CountTokens} {settings : Settings} {ctxSize n : Nat}
  {messages : List Message}

/-- A conversation that is too long, and long enough to be made shorter. -/
theorem apply_of_over (hcount : countTokens messages = .ok n)
    (hover : ctxSize - generationReserve ctxSize settings.stopping.maxTokens < n ∧
      2 < messages.length) :
    apply fuel countTokens settings ctxSize messages =
      (truncate fuel countTokens
        (ctxSize - generationReserve ctxSize settings.stopping.maxTokens) n messages).map
        (·.map fun left => ⟨left, messages.length - left.length⟩) := by
  rw [apply, hcount]
  dsimp only
  rw [if_pos hover]

theorem apply_of_not_over (hcount : countTokens messages = .ok n)
    (hover : ¬ (ctxSize - generationReserve ctxSize settings.stopping.maxTokens < n ∧
      2 < messages.length)) :
    apply fuel countTokens settings ctxSize messages =
      some (.ok ⟨messages, messages.length - messages.length⟩) := by
  rw [apply, hcount]
  dsimp only
  rw [if_neg hover]

end

/-- When the truncation of a conversation ends, whatever its messages are. -/
theorem truncate_ends_iff (countTokens : CountTokens) (ctxLimit tokenCount : Nat)
    {messages : List Message} (hlong : 2 < messages.length) :
    (∃ fuel r, truncate fuel countTokens ctxLimit tokenCount messages = some r) ↔
      BatchFits (estRemove tokenCount ctxLimit messages) messages.length
        (rounds (messages.drop (removeIdx messages))) := by
  have hidx : removeIdx messages ≤ 1 := by
    rw [removeIdx]
    split <;> omega
  have hlead : (messages.take (removeIdx messages)).length = removeIdx messages := by
    rw [length_take]
    omega
  have hends := dropBatch_returns_iff (hlead.trans_le hidx)
    (estRemove tokenCount ctxLimit messages) (messages.drop (removeIdx messages)) 0
  rw [hlead, take_append_drop, Nat.sub_zero] at hends
  rw [truncate_returns_iff, hends]

/-- **When a cold start ends**: precisely if, where something has to go, the rounds from the oldest
on come to the estimated number of messages without one of them being too long to go. -/
theorem apply_ends_iff (countTokens : CountTokens) (settings : Settings) (ctxSize : Nat)
    (messages : List Message) :
    (∃ fuel r, apply fuel countTokens settings ctxSize messages = some r) ↔
      ∀ tokenCount, countTokens messages = .ok tokenCount →
        ctxSize - generationReserve ctxSize settings.stopping.maxTokens < tokenCount →
        2 < messages.length →
          BatchFits
            (estRemove tokenCount
              (ctxSize - generationReserve ctxSize settings.stopping.maxTokens) messages)
            messages.length (rounds (messages.drop (removeIdx messages))) := by
  cases hcount : countTokens messages with
  | error e => exact iff_of_true ⟨0, .error e, by rw [apply, hcount]⟩ fun n hn => nomatch hn
  | ok tokenCount =>
    by_cases hover : ctxSize - generationReserve ctxSize settings.stopping.maxTokens < tokenCount ∧
        2 < messages.length
    · have hends := truncate_ends_iff countTokens
        (ctxSize - generationReserve ctxSize settings.stopping.maxTokens) tokenCount hover.2
      constructor
      · rintro ⟨fuel, r, hr⟩ n hn - -
        obtain rfl := Except.ok.inj hn
        rw [apply_of_over hcount hover] at hr
        obtain ⟨r', hr', -⟩ := Option.map_eq_some_iff.1 hr
        exact hends.1 ⟨fuel, r', hr'⟩
      · intro hfits
        obtain ⟨fuel, r, hr⟩ := hends.2 (hfits tokenCount rfl hover.1 hover.2)
        exact ⟨fuel, _, by rw [apply_of_over hcount hover, hr]; rfl⟩
    · refine iff_of_true ⟨0, _, apply_of_not_over hcount hover⟩ ?_
      intro n hn hlimit hlong
      obtain rfl := Except.ok.inj hn
      exact absurd ⟨hlimit, hlong⟩ hover

/-- Where the oldest round is too long to go, a cold start that has to drop something never ends. -/
theorem apply_of_stays {countTokens : CountTokens} {settings : Settings} {ctxSize n : Nat}
    {messages : List Message} (hcount : countTokens messages = .ok n)
    (hover : ctxSize - generationReserve ctxSize settings.stopping.maxTokens < n ∧
      2 < messages.length)
    (hstays : dropBatch (removeIdx messages)
        (estRemove n (ctxSize - generationReserve ctxSize settings.stopping.maxTokens) messages)
        (0, messages) = .inl (0, messages)) (fuel : Nat) :
    apply fuel countTokens settings ctxSize messages = none := by
  rw [apply_of_over hcount hover, truncate,
    Option.eq_none_iff_forall_ne_some.2 fun r hr => not_returns_of_stays hstays ⟨fuel, hr⟩]
  rfl

/-- One call of two tools, with both results. -/
def loneCall : List Message :=
  [.assistantToolCalls
      [⟨"c", "function", ⟨none, "f", .null⟩⟩, ⟨"d", "function", ⟨none, "f", .null⟩⟩],
    .toolResultFor "c" "e", .toolResultFor "d" "e"]

/-- A conversation of a single round is never made shorter, and the first loop does not give up. -/
theorem lone_call_never_ends :
    ¬ ∃ fuel r, apply fuel (fun messages => .ok (100 * messages.length)) ⟨⟨none⟩, ⟨none, none⟩⟩ 128
      loneCall = some r := by
  rintro ⟨fuel, r, hr⟩
  rw [apply_of_stays (n := 300) rfl (by decide) rfl] at hr
  cases hr

theorem truncate_cut {fuel : Nat} {countTokens : CountTokens} {ctxLimit tokenCount : Nat}
    {lead body left : List Message} (hlead : lead.length ≤ 1)
    (hidx : lead.length = removeIdx (lead ++ body)) (hbody : Whole body)
    (h : truncate fuel countTokens ctxLimit tokenCount (lead ++ body) = some (.ok left)) :
    Cut lead body left := by
  rw [truncate, ← hidx] at h
  split at h
  · cases h
  next batched hbatched =>
    have hcut : Cut lead body batched := dropBatch_cut hlead (Cut.refl hbody) ⟨fuel, hbatched⟩
    split at h
    · cases h
    next n _ => exact dropUntilFit_cut (s := (n, batched)) hlead hcut ⟨fuel, h⟩

/-- A system message, and one call with its result. -/
def loneRound : List Message :=
  [.system "a", .assistantToolCalls [⟨"c", "function", ⟨none, "f", .null⟩⟩], .toolResultFor "c" "d"]

end ColdStart

end SessionRt
end Gen2
