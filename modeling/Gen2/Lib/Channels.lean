import Mathlib.Data.List.Nodup
import Mathlib.Tactic.Common

/-!
# Channels that are closed by their last event

Events are offered to channels, which are numbered in the order in which they are made.  An offer is
taken, or finds the channel full, or finds that nobody listens any more.  What is here is about
senders that end every channel with one terminal event.

* `received`: what the listener of a channel has been sent.
* `Standing bound all offers`: of the `bound` channels made so far, those in `all` are still in
  somebody's hands, marked `true` where a terminal event is still owed; every other one is settled.
* `Standing.send`, `Standing.finish` and `Standing.unsent` say which offers keep it so,
  `Standing.fresh`, `Standing.drop` and `Standing.mark` what else does.
* `Standing.nothing_after`, `Standing.count_le_one` and `Standing.count_eq_one`: a terminal event is
  the last one, comes once at most, and does come.
-/

namespace Gen2.Lib

open List

universe u

/-- What becomes of an offer. -/
inductive OfferResult
  | sent
  | full
  | disconnected
  deriving DecidableEq

/-- One event offered to a channel. -/
structure Offer (ε : Type u) where
  tx : Nat
  event : ε
  result : OfferResult

variable {ε : Type u}

/-- What the listener of a channel has been sent. -/
def received (tx : Nat) (offers : List (Offer ε)) : List ε :=
  (offers.filter fun o => decide (o.tx = tx ∧ o.result = .sent)).map Offer.event

/-- The channel has been found without a listener. -/
def Gone (tx : Nat) (offers : List (Offer ε)) : Prop :=
  ∃ o ∈ offers, o.tx = tx ∧ o.result = .disconnected

/-- The channel has had its terminal event. -/
def Concluded (terminal : ε → Bool) (tx : Nat) (offers : List (Offer ε)) : Prop :=
  ∃ event ∈ received tx offers, terminal event = true

/-- An event offered, and what `answer` says of it. -/
def offer (answer : Nat → Nat → OfferResult) (tx : Nat) (event : ε) (offers : List (Offer ε)) :
    List (Offer ε) :=
  offers ++ [⟨tx, event, answer tx offers.length⟩]

/-- How channels answer: they are never full, and one without a listener stays without. -/
structure Answers (answer : Nat → Nat → OfferResult) (offers : List (Offer ε)) : Prop where
  never_full : ∀ tx n, answer tx n ≠ .full
  stays : ∀ tx m n, m ≤ n → answer tx m = .disconnected → answer tx n = .disconnected
  gone : ∀ tx, Gone tx offers → answer tx offers.length = .disconnected

/-- The channels that have been made, and what they are still owed. -/
structure Standing (terminal : ε → Bool) (bound : Nat) (all : List (Nat × Bool))
    (offers : List (Offer ε)) : Prop where
  last : ∀ tx, (received tx offers).Pairwise fun event _ => terminal event = false
  made : ∀ o ∈ offers, o.tx < bound
  nodup : (all.map Prod.fst).Nodup
  bounded : ∀ c ∈ all, c.1 < bound
  owed : ∀ tx, (tx, true) ∈ all → ¬ Concluded terminal tx offers ∨ Gone tx offers
  paid : ∀ tx, (tx, false) ∈ all → Concluded terminal tx offers ∨ Gone tx offers
  rest : ∀ tx < bound, tx ∉ all.map Prod.fst → Concluded terminal tx offers ∨ Gone tx offers

section Offers

variable {terminal : ε → Bool} {answer : Nat → Nat → OfferResult} {offers : List (Offer ε)}
  {tx tx' : Nat} {event : ε}

theorem received_offer (answer : Nat → Nat → OfferResult) (tx tx' : Nat) (event : ε)
    (offers : List (Offer ε)) :
    received tx' (offer answer tx event offers) = received tx' offers ++
      if tx = tx' ∧ answer tx offers.length = .sent then [event] else [] := by
  unfold received offer
  rw [filter_append, map_append]
  by_cases h : tx = tx' ∧ answer tx offers.length = .sent
  · obtain ⟨rfl, hsent⟩ := h
    simp [hsent]
  · rw [if_neg h]
    simp [h]

theorem received_offer_of_not_sent (h : answer tx offers.length ≠ .sent) :
    received tx' (offer answer tx event offers) = received tx' offers := by
  rw [received_offer, if_neg fun hall => h hall.2, append_nil]

theorem gone_offer : Gone tx' (offer answer tx event offers) ↔
    Gone tx' offers ∨ tx = tx' ∧ answer tx offers.length = .disconnected := by
  simp [Gone, offer, or_and_right, exists_or]

theorem concluded_offer : Concluded terminal tx' (offer answer tx event offers) ↔
    Concluded terminal tx' offers ∨
      tx = tx' ∧ answer tx offers.length = .sent ∧ terminal event = true := by
  unfold Concluded
  rw [received_offer]
  by_cases h : tx = tx' ∧ answer tx offers.length = .sent
  · simp [h, or_and_right, exists_or]
  · rw [if_neg h]
    have hno : ¬ (tx = tx' ∧ answer tx offers.length = .sent ∧ terminal event = true) :=
      fun hall => h ⟨hall.1, hall.2.1⟩
    simp [hno]

/-- The answers go on as they began. -/
theorem Answers.offer (h : Answers answer offers) :
    Answers answer (Lib.offer answer tx event offers) where
  never_full := h.never_full
  stays := h.stays
  gone := by
    intro tx' hgone
    have hlength : (Lib.offer answer tx event offers).length = offers.length + 1 := by
      simp [Lib.offer]
    rw [hlength]
    rcases gone_offer.1 hgone with hgone | ⟨rfl, hnow⟩
    · exact h.stays _ _ _ (Nat.le_succ _) (h.gone _ hgone)
    · exact h.stays _ _ _ (Nat.le_succ _) hnow

/-- An offer that finds a listener is taken. -/
theorem Answers.sent (h : Answers answer offers)
    (hlisten : answer tx offers.length ≠ .disconnected) :
    answer tx offers.length = .sent := by
  rcases hresult : answer tx offers.length with _ | _ | _
  · rfl
  · exact absurd hresult (h.never_full _ _)
  · exact absurd hresult hlisten

end Offers

namespace Standing

variable {terminal : ε → Bool} {answer : Nat → Nat → OfferResult} {bound : Nat}
  {all all' : List (Nat × Bool)} {offers : List (Offer ε)} {tx : Nat} {event : ε}

theorem nil : Standing terminal 0 [] ([] : List (Offer ε)) where
  last _ := List.Pairwise.nil
  made _ h := absurd h not_mem_nil
  nodup := nodup_nil
  bounded _ h := absurd h not_mem_nil
  owed _ h := absurd h not_mem_nil
  paid _ h := absurd h not_mem_nil
  rest _ h := absurd h (Nat.not_lt_zero _)

theorem perm (h : Standing terminal bound all offers) (hperm : all.Perm all') :
    Standing terminal bound all' offers where
  last := h.last
  made := h.made
  nodup := (hperm.map _).nodup_iff.1 h.nodup
  bounded c hc := h.bounded c (hperm.mem_iff.2 hc)
  owed tx hc := h.owed tx (hperm.mem_iff.2 hc)
  paid tx hc := h.paid tx (hperm.mem_iff.2 hc)
  rest tx htx hout := h.rest tx htx fun hmem => hout ((hperm.map _).mem_iff.1 hmem)

/-- Another channel is made. -/
theorem fresh (h : Standing terminal bound all offers) :
    Standing terminal (bound + 1) ((bound, true) :: all) offers where
  last := h.last
  made o ho := Nat.lt_succ_of_lt (h.made o ho)
  nodup := by
    refine nodup_cons.2 ⟨fun hmem => ?_, h.nodup⟩
    obtain ⟨c, hc, heq⟩ := mem_map.1 hmem
    exact absurd (h.bounded c hc) (by rw [heq]; exact Nat.lt_irrefl _)
  bounded := by
    intro c hc
    rcases mem_cons.1 hc with rfl | hc
    · exact Nat.lt_succ_self _
    · exact Nat.lt_succ_of_lt (h.bounded c hc)
  owed := by
    intro tx hc
    rcases mem_cons.1 hc with heq | hc
    · obtain rfl := (Prod.mk.inj heq).1
      refine .inl ?_
      rintro ⟨event, hevent, -⟩
      obtain ⟨o, ho, -⟩ := mem_map.1 hevent
      obtain ⟨hmem, hsent⟩ := mem_filter.1 ho
      have hlt := h.made o hmem
      rw [(of_decide_eq_true hsent).1] at hlt
      exact Nat.lt_irrefl _ hlt
    · exact h.owed tx hc
  paid := by
    intro tx hc
    rcases mem_cons.1 hc with heq | hc
    · exact absurd (Prod.mk.inj heq).2 Bool.false_ne_true
    · exact h.paid tx hc
  rest := by
    intro tx htx hout
    obtain ⟨hne, hout⟩ := not_or.1 fun hmem => hout (mem_cons.2 hmem)
    exact h.rest tx (Nat.lt_of_le_of_ne (Nat.le_of_lt_succ htx) hne) hout

/-- A channel that has been paid may be let go of. -/
theorem drop (h : Standing terminal bound ((tx, false) :: all) offers) :
    Standing terminal bound all offers where
  last := h.last
  made := h.made
  nodup := (nodup_cons.1 h.nodup).2
  bounded c hc := h.bounded c (mem_cons_of_mem _ hc)
  owed tx' hc := h.owed tx' (mem_cons_of_mem _ hc)
  paid tx' hc := h.paid tx' (mem_cons_of_mem _ hc)
  rest := by
    intro tx' htx hout
    by_cases heq : tx' = tx
    · rw [heq]
      exact h.paid tx mem_cons_self
    · refine h.rest tx' htx fun hmem => ?_
      rcases mem_cons.1 hmem with heq' | hmem
      · exact heq heq'
      · exact hout hmem

/-- A channel without a listener is owed nothing, and may go on without paying. -/
theorem mark {b : Bool} (b' : Bool) (h : Standing terminal bound ((tx, b) :: all) offers)
    (hgone : Gone tx offers) : Standing terminal bound ((tx, b') :: all) offers where
  last := h.last
  made := h.made
  nodup := h.nodup
  bounded := by
    intro c hc
    rcases mem_cons.1 hc with rfl | hc
    · exact h.bounded (tx, b) mem_cons_self
    · exact h.bounded c (mem_cons_of_mem _ hc)
  owed := by
    intro tx' hc
    rcases mem_cons.1 hc with heq | hc
    · rw [(Prod.mk.inj heq).1]
      exact .inr hgone
    · exact h.owed tx' (mem_cons_of_mem _ hc)
  paid := by
    intro tx' hc
    rcases mem_cons.1 hc with heq | hc
    · rw [(Prod.mk.inj heq).1]
      exact .inr hgone
    · exact h.paid tx' (mem_cons_of_mem _ hc)
  rest := h.rest

theorem made_offer (h : Standing terminal bound all offers) (htx : tx < bound) :
    ∀ o ∈ offer answer tx event offers, o.tx < bound := by
  intro o ho
  rcases mem_append.1 ho with ho | ho
  · exact h.made o ho
  · rw [mem_singleton.1 ho]
    exact htx

/-- An offer that is not taken. -/
theorem unsent (h : Standing terminal bound all offers) (htx : tx < bound)
    (hno : answer tx offers.length ≠ .sent) :
    Standing terminal bound all (offer answer tx event offers) where
  last tx' := by
    rw [received_offer_of_not_sent hno]
    exact h.last tx'
  made := h.made_offer htx
  nodup := h.nodup
  bounded := h.bounded
  owed tx' hc := by
    rw [concluded_offer, gone_offer]
    rcases h.owed tx' hc with hopen | hgone
    · exact .inl fun hended => hended.elim hopen fun hsent => hno hsent.2.1
    · exact .inr (.inl hgone)
  paid tx' hc := by
    rw [concluded_offer, gone_offer]
    exact (h.paid tx' hc).imp .inl .inl
  rest tx' htx' hout := by
    rw [concluded_offer, gone_offer]
    exact (h.rest tx' htx' hout).imp .inl .inl

/-- What is offered to a channel that is still owed its terminal event comes after events that are
not terminal. -/
theorem last_offer (h : Standing terminal bound all offers) (hans : Answers answer offers)
    (htx : (tx, true) ∈ all) (tx' : Nat) :
    (received tx' (offer answer tx event offers)).Pairwise fun event _ => terminal event = false := by
  rw [received_offer]
  split
  · next hsent =>
    obtain ⟨rfl, hsent⟩ := hsent
    refine pairwise_append.2 ⟨h.last tx, pairwise_singleton _ _, fun a ha _ _ => ?_⟩
    rcases h.owed tx htx with hopen | hgone
    · rw [Bool.eq_false_iff]
      exact fun hterminal => hopen ⟨a, ha, hterminal⟩
    · exact nomatch hsent.symm.trans (hans.gone tx hgone)
  · rw [append_nil]
    exact h.last tx'

/-- An event that is not the last one. -/
theorem send (h : Standing terminal bound all offers) (hans : Answers answer offers)
    (htx : (tx, true) ∈ all) (hevent : terminal event = false) :
    Standing terminal bound all (offer answer tx event offers) where
  last := h.last_offer hans htx
  made := h.made_offer (h.bounded _ htx)
  nodup := h.nodup
  bounded := h.bounded
  owed tx' hc := by
    rw [concluded_offer, gone_offer, hevent]
    exact (h.owed tx' hc).imp (fun hopen hended => hended.elim hopen fun hall => nomatch hall.2.2)
      .inl
  paid tx' hc := by
    rw [concluded_offer, gone_offer]
    exact (h.paid tx' hc).imp .inl .inl
  rest tx' htx' hout := by
    rw [concluded_offer, gone_offer]
    exact (h.rest tx' htx' hout).imp .inl .inl

/-- The last event. -/
theorem finish (h : Standing terminal bound ((tx, true) :: all) offers)
    (hans : Answers answer offers) (hevent : terminal event = true) :
    Standing terminal bound ((tx, false) :: all) (offer answer tx event offers) where
  last := h.last_offer hans mem_cons_self
  made := h.made_offer (h.bounded _ mem_cons_self)
  nodup := h.nodup
  bounded := by
    intro c hc
    rcases mem_cons.1 hc with rfl | hc
    · exact h.bounded (tx, true) mem_cons_self
    · exact h.bounded c (mem_cons_of_mem _ hc)
  owed := by
    intro tx' hc
    have hmem : (tx', true) ∈ all :=
      (mem_cons.1 hc).resolve_left fun heq => Bool.noConfusion (Prod.mk.inj heq).2
    have hne : tx ≠ tx' := by
      rintro rfl
      exact (nodup_cons.1 h.nodup).1 (mem_map.2 ⟨_, hmem, rfl⟩)
    rw [concluded_offer, gone_offer]
    exact (h.owed tx' (mem_cons_of_mem _ hmem)).imp
      (fun hopen hended => hended.elim hopen fun hall => hne hall.1) .inl
  paid := by
    intro tx' hc
    rw [concluded_offer, gone_offer]
    rcases mem_cons.1 hc with heq | hmem
    · obtain rfl := (Prod.mk.inj heq).1
      by_cases hlisten : answer tx' offers.length = .disconnected
      · exact .inr (.inr ⟨rfl, hlisten⟩)
      · exact .inl (.inr ⟨rfl, hans.sent hlisten, hevent⟩)
    · exact (h.paid tx' (mem_cons_of_mem _ hmem)).imp .inl .inl
  rest tx' htx' hout := by
    rw [concluded_offer, gone_offer]
    exact (h.rest tx' htx' hout).imp .inl .inl

/-- **A terminal event is the last one.** -/
theorem nothing_after (h : Standing terminal bound all offers) {before after : List ε}
    (heq : received tx offers = before ++ event :: after) (hevent : terminal event = true) :
    after = [] := by
  have hlast := h.last tx
  rw [heq] at hlast
  have hcons := (pairwise_append.1 hlast).2.1
  rcases after with _ | ⟨e, after⟩
  · rfl
  · have := (pairwise_cons.1 hcons).1 e mem_cons_self
    rw [hevent] at this
    exact nomatch this

/-- **It comes once**, if at all. -/
theorem count_le_one (h : Standing terminal bound all offers) :
    (received tx offers).countP terminal ≤ 1 := by
  have hlast := h.last tx
  generalize received tx offers = events at hlast
  induction events with
  | nil => exact Nat.zero_le _
  | cons e events ih =>
    obtain ⟨hhead, htail⟩ := pairwise_cons.1 hlast
    rcases events with _ | ⟨e', events⟩
    · exact countP_le_length
    · rw [countP_cons_of_neg (by rw [hhead e' mem_cons_self]; exact Bool.false_ne_true)]
      exact ih htail

/-- **It comes to every channel** that is let go of while there is somebody to listen. -/
theorem count_eq_one (h : Standing terminal bound all offers) (htx : tx < bound)
    (hout : (tx, true) ∉ all) (hlisten : ¬ Gone tx offers) :
    (received tx offers).countP terminal = 1 := by
  have hended : Concluded terminal tx offers := by
    by_cases hmem : tx ∈ all.map Prod.fst
    · obtain ⟨⟨tx', b⟩, hc, rfl⟩ := mem_map.1 hmem
      rcases b with _ | _
      · exact (h.paid tx' hc).resolve_right hlisten
      · exact absurd hc hout
    · exact (h.rest tx htx hmem).resolve_right hlisten
  have hpos := countP_pos_iff.2 hended
  have hle : (received tx offers).countP terminal ≤ 1 := h.count_le_one
  omega

end Standing

end Gen2.Lib
