import Gen2.SessionRt.Compaction

/-!
# Truncation of a running session

`session_rt/truncate.rs`, the warm start: a conversation that has outgrown its context is compacted,
and where that is not enough its oldest rounds are dropped.

* **The seam.**  Compaction keeps the last six messages whatever they are.  Where the sixth from the
  end lies inside a tool round, results are kept without their call.
* **The summary.**  Behind a system message the summary is itself the oldest message that may be
  dropped; when it goes it is counted, though it was never one of the conversation's.
* What is proved is that the warm start always ends, and that its outcome is right where the seam
  lies between two rounds and the second is not needed behind a system message.
-/

namespace Gen2
namespace SessionRt

open Lib Journal List ColdStart

namespace WarmStart

/-! ## The three phases -/

/-- One round of the first phase, over the messages and the count of those dropped. -/
def compactStep (countTokens : CountTokens) (ctxLimit : Nat) (s : List Message × Nat) :
    (List Message × Nat) ⊕ Except ExecError (List Message × Nat) :=
  match countTokens s.1 with
  | .error e => .inr (.error e)
  | .ok n =>
    if n ≤ ctxLimit then .inr (.ok s)
    else
      let cr := compactAlgorithmic s.1 defaultKeepRecent
      if cr.compactedCount = 0 then .inr (.ok (cr.messages, s.2))
      else .inl (cr.messages, s.2 + cr.compactedCount)

/-- One round of the second phase. -/
def dropStep (countTokens : CountTokens) (ctxLimit : Nat) (s : List Message × Nat) :
    (List Message × Nat) ⊕ Except ExecError (List Message × Nat) :=
  if 2 < s.1.length then
    match countTokens s.1 with
    | .error e => .inr (.error e)
    | .ok n =>
      if n ≤ ctxLimit then .inr (.ok s)
      else
        let (removed, working) := dropOldestRound s.1 (ColdStart.removeIdx s.1)
        if removed = 0 then .inr (.ok s) else .inl (working, s.2 + removed)
  else .inr (.ok s)

/-- The third phase: does it fit? -/
def validate (countTokens : CountTokens) (ctxSize ctxLimit : Nat) (s : List Message × Nat) :
    Except ExecError TruncationOutcome :=
  match countTokens s.1 with
  | .error e => .error e
  | .ok finalCount =>
    if ctxLimit < finalCount then
      .error (.other ("conversation too long even after compaction (ctx_size=" ++
        toString ctxSize ++ ")"))
    else .ok ⟨s.1, s.2⟩

/-- `WarmStart::apply`. -/
def apply (fuel : Nat) (countTokens : CountTokens) (settings : Settings) (ctxSize : Nat)
    (messages : List Message) : Option (Except ExecError TruncationOutcome) :=
  let ctxLimit := ctxSize - generationReserve ctxSize settings.stopping.maxTokens
  match loop (compactStep countTokens ctxLimit) fuel (messages, 0) with
  | none => none
  | some (.error e) => some (.error e)
  | some (.ok compacted) =>
    (loop (dropStep countTokens ctxLimit) fuel compacted).map fun r =>
      r.bind (validate countTokens ctxSize ctxLimit)

/-! ## The first phase compacts at most once -/

/-- A conversation with its head replaced by the summary of it. -/
def compacted (messages : List Message) (h : defaultKeepRecent + 3 < messages.length) :
    List Message :=
  let parts := partsOf messages defaultKeepRecent h
  parts.lead ++ summaryMsg parts.head :: parts.tail

theorem compacted_length_le (messages : List Message)
    (h : defaultKeepRecent + 3 < messages.length) :
    (compacted messages h).length ≤ defaultKeepRecent + 3 := by
  have hlead := (partsOf messages defaultKeepRecent h).lead_length
  have htail := (partsOf messages defaultKeepRecent h).tail_length
  have hstart : removeIdx messages ≤ 1 := by
    rw [removeIdx]
    split <;> omega
  rw [compacted, length_append, length_cons]
  omega

variable {countTokens : CountTokens} {ctxLimit n : Nat} {s : List Message × Nat}

/-- Nothing to do. -/
theorem compactStep_fits (hcount : countTokens s.1 = .ok n) (hfits : n ≤ ctxLimit) :
    compactStep countTokens ctxLimit s = .inr (.ok s) := by
  rw [compactStep, hcount]
  exact if_pos hfits

/-- Nothing that could be done. -/
theorem compactStep_short (hcount : countTokens s.1 = .ok n)
    (hshort : s.1.length ≤ defaultKeepRecent + 3) :
    compactStep countTokens ctxLimit s = .inr (.ok s) := by
  rw [compactStep, hcount, compactAlgorithmic_short hshort]
  dsimp only
  split <;> rfl

theorem compactStep_error {e : ExecError} (hcount : countTokens s.1 = .error e) :
    compactStep countTokens ctxLimit s = .inr (.error e) := by
  rw [compactStep, hcount]

variable {messages : List Message}

theorem compactStep_long (dropped : Nat) (hcount : countTokens messages = .ok n)
    (hover : ctxLimit < n) (h : defaultKeepRecent + 3 < messages.length) :
    compactStep countTokens ctxLimit (messages, dropped) =
      .inl (compacted messages h,
        dropped + (partsOf messages defaultKeepRecent h).head.length) := by
  have hne := length_pos_iff_ne_nil.2 (partsOf messages defaultKeepRecent h).head_ne
  rw [compactStep, hcount]
  dsimp only
  rw [if_neg (Nat.not_le.2 hover), compactAlgorithmic_long h, if_neg (by dsimp only; omega)]
  rfl

/-- What the first phase comes to. -/
inductive Compacts (countTokens : CountTokens) (ctxLimit : Nat) (messages : List Message) :
    Except ExecError (List Message × Nat) → Prop
  /-- The conversation fits as it is, or is too short to compact. -/
  | asIs (n : Nat) (hcount : countTokens messages = .ok n)
      (h : n ≤ ctxLimit ∨ messages.length ≤ defaultKeepRecent + 3) :
      Compacts countTokens ctxLimit messages (.ok (messages, 0))
  /-- The head has been replaced, and that can be counted. -/
  | compacted (n n' : Nat) (hcount : countTokens messages = .ok n) (hover : ctxLimit < n)
      (h : defaultKeepRecent + 3 < messages.length)
      (hcount' : countTokens (WarmStart.compacted messages h) = .ok n') :
      Compacts countTokens ctxLimit messages
        (.ok (WarmStart.compacted messages h,
          (partsOf messages defaultKeepRecent h).head.length))
  | error (e : ExecError) : Compacts countTokens ctxLimit messages (.error e)

/-- **The first phase ends.** -/
theorem compactStep_returns (countTokens : CountTokens) (ctxLimit : Nat)
    (messages : List Message) :
    ∃ r, Returns (compactStep countTokens ctxLimit) (messages, 0) r ∧
      Compacts countTokens ctxLimit messages r := by
  cases hcount : countTokens messages with
  | error e => exact ⟨_, returns_of_done (compactStep_error (s := (messages, 0)) hcount), .error e⟩
  | ok n =>
    by_cases hfits : n ≤ ctxLimit
    · exact ⟨_, returns_of_done (compactStep_fits (s := (messages, 0)) hcount hfits),
        .asIs n hcount (.inl hfits)⟩
    by_cases hshort : messages.length ≤ defaultKeepRecent + 3
    · exact ⟨_, returns_of_done (compactStep_short (s := (messages, 0)) hcount hshort),
        .asIs n hcount (.inr hshort)⟩
    have hlong := Nat.lt_of_not_le hshort
    have hover := Nat.lt_of_not_le hfits
    have hstep := compactStep_long 0 hcount hover hlong
    rw [Nat.zero_add] at hstep
    cases hcount' : countTokens (compacted messages hlong) with
    | error e =>
      exact ⟨_, (returns_next hstep).2 (returns_of_done (compactStep_error hcount')), .error e⟩
    | ok n' =>
      exact ⟨_, (returns_next hstep).2 (returns_of_done
        (compactStep_short hcount' (compacted_length_le messages hlong))),
        .compacted n n' hcount hover hlong hcount'⟩

/-! ## The second phase -/

theorem dropStep_next {s' : List Message × Nat} (h : dropStep countTokens ctxLimit s = .inl s') :
    2 < s.1.length ∧ s' = ((dropOldestRound s.1 (removeIdx s.1)).2,
      s.2 + (dropOldestRound s.1 (removeIdx s.1)).1) ∧
      (dropOldestRound s.1 (removeIdx s.1)).1 ≠ 0 := by
  rw [dropStep] at h
  split at h
  next hlong =>
    split at h
    · cases h
    split at h
    · cases h
    · dsimp only at h
      split at h
      · cases h
      next hremoved => exact ⟨hlong, (Sum.inl.inj h).symm, hremoved⟩
  · cases h

theorem dropStep_done {r : Except ExecError (List Message × Nat)}
    (h : dropStep countTokens ctxLimit s = .inr r) : r = .ok s ∨ ∃ e, r = .error e := by
  rw [dropStep] at h
  split at h
  · split at h
    next e _ => exact .inr ⟨e, (Sum.inr.inj h).symm⟩
    · split at h
      · exact .inl (Sum.inr.inj h).symm
      · dsimp only at h
        split at h
        · exact .inl (Sum.inr.inj h).symm
        · cases h
  · exact .inl (Sum.inr.inj h).symm

theorem dropStep_fits {dropped : Nat} (hcount : countTokens messages = .ok n)
    (hfits : n ≤ ctxLimit) :
    dropStep countTokens ctxLimit (messages, dropped) = .inr (.ok (messages, dropped)) := by
  rw [dropStep]
  split
  · rw [hcount]
    exact if_pos hfits
  · rfl

/-- **The second phase ends.** -/
theorem dropStep_returns (countTokens : CountTokens) (ctxLimit : Nat) (s : List Message × Nat) :
    ∃ r, Returns (dropStep countTokens ctxLimit) s r := by
  refine exists_returns (fun s => s.1.length) (fun s s' hs => ?_) s
  obtain ⟨-, rfl, hremoved⟩ := dropStep_next hs
  have hlen := dropOldestRound_length s.1 (removeIdx s.1)
  dsimp only
  omega

variable {t : List Message × Nat}

/-- What the second phase keeps, it has when it is done. -/
theorem dropStep_invariant {I : List Message × Nat → Prop}
    (hI : ∀ s, I s → 2 < s.1.length → I ((dropOldestRound s.1 (removeIdx s.1)).2,
      s.2 + (dropOldestRound s.1 (removeIdx s.1)).1)) (hs : I s)
    (h : Returns (dropStep countTokens ctxLimit) s (.ok t)) : I t := by
  refine Returns.invariant (I := I) (P := fun r => ∀ t, r = .ok t → I t) (fun s s' hs hnext => ?_)
    (fun s r hs hdone => ?_) hs h t rfl
  · obtain ⟨hlong, rfl, -⟩ := dropStep_next hnext
    exact hI s hs hlong
  · rintro t rfl
    rcases dropStep_done hdone with heq | ⟨e, heq⟩
    · exact Except.ok.inj heq ▸ hs
    · cases heq

/-- From a conversation without half rounds, whole rounds go and are counted. -/
theorem dropStep_whole (h : Whole messages)
    (hrun : Returns (dropStep countTokens ctxLimit) (messages, 0) (.ok t)) :
    Whole t.1 ∧ t.1.Sublist messages ∧ t.2 + t.1.length = messages.length := by
  refine dropStep_invariant
    (I := fun s => Whole s.1 ∧ s.1.Sublist messages ∧ s.2 + s.1.length = messages.length)
    (fun s hs hlong => ?_) ⟨h, List.Sublist.refl _, Nat.zero_add _⟩ hrun
  obtain ⟨hwhole, hsub, hcount⟩ := hs
  have hlen := dropOldestRound_length s.1 (removeIdx s.1)
  obtain ⟨lead, body, heq, hidx, hlead, hleadWhole, hbody, -⟩ := exists_lead hwhole
  have hdrop := dropOldestRound_eq hlead (heq ▸ hlong)
  rw [← heq, hidx] at hdrop
  refine ⟨?_, ?_, by dsimp only; omega⟩
  · rw [hdrop]
    split
    · exact hwhole
    · exact hleadWhole.append (whole_roundLen hbody).2
  · refine List.Sublist.trans ?_ hsub
    rw [hdrop]
    split
    · exact List.Sublist.refl _
    · rw [heq]
      exact (List.Sublist.refl lead).append (drop_sublist ..)

theorem summaryMsg_system (head rest : List Message) :
    removeIdx (summaryMsg head :: rest) = 1 := rfl

theorem whole_summaryMsg (head : List Message) : Whole [summaryMsg head] := rfl

/-- Behind a summary in front, whole rounds go and are counted. -/
theorem dropStep_summary {dropped : Nat} {head tail : List Message} (h : Whole tail)
    (hrun : Returns (dropStep countTokens ctxLimit) (summaryMsg head :: tail, dropped) (.ok t)) :
    ∃ rest, t.1 = summaryMsg head :: rest ∧ Whole rest ∧ rest.Sublist tail ∧
      t.2 + rest.length = dropped + tail.length := by
  refine dropStep_invariant (I := fun s => ∃ rest, s.1 = summaryMsg head :: rest ∧ Whole rest ∧
    rest.Sublist tail ∧ s.2 + rest.length = dropped + tail.length) (fun s hs hlong => ?_)
    ⟨tail, rfl, h, List.Sublist.refl _, rfl⟩ hrun
  obtain ⟨rest, heq, hwhole, hsub, hcount⟩ := hs
  have hlong' : 2 < ([summaryMsg head] ++ rest).length := by
    rw [heq] at hlong
    exact hlong
  have hdrop : dropOldestRound (summaryMsg head :: rest) 1 = _ :=
    dropOldestRound_eq (Nat.le_refl [summaryMsg head].length) hlong'
  rw [heq, summaryMsg_system, hdrop]
  have hle := roundLen_le rest
  split
  · exact ⟨rest, rfl, hwhole, hsub, hcount⟩
  refine ⟨rest.drop (roundLen rest 0), rfl, (whole_roundLen hwhole).2,
    (drop_sublist ..).trans hsub, ?_⟩
  rw [length_drop]
  dsimp only
  omega

/-! ## The outcome -/

/-- What the outcome is to be: it fits, it has no half rounds, and what is counted as dropped is
what of the conversation is no longer there. -/
structure Right (countTokens : CountTokens) (ctxLimit : Nat) (messages : List Message)
    (outcome : TruncationOutcome) : Prop where
  fits : ∃ n, countTokens outcome.messages = .ok n ∧ n ≤ ctxLimit
  whole : Whole outcome.messages
  dropped : ∃ kept : List Message, kept.Sublist messages ∧
    outcome.dropped + kept.length = messages.length ∧
      (outcome.messages = kept ∨
        ∃ (h : defaultKeepRecent + 3 < messages.length) (lead rest : List Message),
          kept = lead ++ rest ∧ outcome.messages =
            lead ++ summaryMsg (partsOf messages defaultKeepRecent h).head :: rest)

/-- The warm start ends, and an outcome it returns is right. -/
def EndsRight (countTokens : CountTokens) (settings : Settings) (ctxSize : Nat)
    (messages : List Message) : Prop :=
  ∃ fuel r, apply fuel countTokens settings ctxSize messages = some r ∧
    ∀ outcome, r = .ok outcome →
      Right countTokens (ctxSize - generationReserve ctxSize settings.stopping.maxTokens) messages
        outcome

variable {settings : Settings} {ctxSize : Nat}

theorem apply_of_error {e : ExecError}
    (h : Returns (compactStep countTokens
      (ctxSize - generationReserve ctxSize settings.stopping.maxTokens)) (messages, 0) (.error e)) :
    ∃ fuel, apply fuel countTokens settings ctxSize messages = some (.error e) := by
  obtain ⟨fuel, hfuel⟩ := h
  exact ⟨fuel, by rw [apply, hfuel]⟩

theorem apply_of_returns {r : Except ExecError (List Message × Nat)}
    (h : Returns (compactStep countTokens
      (ctxSize - generationReserve ctxSize settings.stopping.maxTokens)) (messages, 0) (.ok s))
    (h' : Returns (dropStep countTokens
      (ctxSize - generationReserve ctxSize settings.stopping.maxTokens)) s r) :
    ∃ fuel, apply fuel countTokens settings ctxSize messages =
      some (r.bind (validate countTokens ctxSize
        (ctxSize - generationReserve ctxSize settings.stopping.maxTokens))) := by
  obtain ⟨fuel, hfuel⟩ := h
  obtain ⟨fuel', hfuel'⟩ := h'
  refine ⟨max fuel fuel', ?_⟩
  rw [apply, loop_mono (Nat.le_max_left ..) hfuel]
  dsimp only
  rw [loop_mono (Nat.le_max_right ..) hfuel', Option.map_some]

theorem apply_mono {fuel fuel' : Nat} {r : Except ExecError TruncationOutcome} (hle : fuel ≤ fuel')
    (h : apply fuel countTokens settings ctxSize messages = some r) :
    apply fuel' countTokens settings ctxSize messages = some r := by
  rw [apply] at h ⊢
  split at h
  · cases h
  next e he =>
    rw [loop_mono hle he]
    exact h
  next s hs =>
    obtain ⟨r', hr', hr⟩ := Option.map_eq_some_iff.1 h
    rw [loop_mono hle hs]
    dsimp only
    rw [loop_mono hle hr', Option.map_some, hr]

theorem apply_unique {fuel fuel' : Nat} {r r' : Except ExecError TruncationOutcome}
    (h : apply fuel countTokens settings ctxSize messages = some r)
    (h' : apply fuel' countTokens settings ctxSize messages = some r') : r = r' := by
  have hmax := apply_mono (Nat.le_max_left fuel fuel') h
  rw [apply_mono (Nat.le_max_right fuel fuel') h'] at hmax
  exact (Option.some.inj hmax).symm

theorem validate_ok {outcome : TruncationOutcome}
    (h : validate countTokens ctxSize ctxLimit s = .ok outcome) :
    outcome = ⟨s.1, s.2⟩ ∧ ∃ n, countTokens s.1 = .ok n ∧ n ≤ ctxLimit := by
  rw [validate] at h
  split at h
  · cases h
  next n hn =>
    split at h
    · cases h
    next hfits => exact ⟨(Except.ok.inj h).symm, n, hn, Nat.le_of_not_lt hfits⟩

/-- The seam lies between two rounds, and behind a system message the summary is enough. -/
def SeamHolds (countTokens : CountTokens) (ctxLimit : Nat) (messages : List Message) : Prop :=
  ∀ n n' (h : defaultKeepRecent + 3 < messages.length), countTokens messages = .ok n →
    ctxLimit < n → countTokens (compacted messages h) = .ok n' →
      Whole (messages.drop (messages.length - defaultKeepRecent)) ∧
        (firstIsSystem messages = true → n' ≤ ctxLimit)

/-- What a compacted conversation without half rounds is. -/
theorem compacted_whole_iff (hwhole : Whole messages)
    (h : defaultKeepRecent + 3 < messages.length) :
    Whole (compacted messages h) ↔
      Whole (messages.drop (messages.length - defaultKeepRecent)) := by
  have hlead : Whole (partsOf messages defaultKeepRecent h).lead := by
    obtain ⟨lead, body, heq, hidx, -, hlead, -⟩ := exists_lead hwhole
    have hlen := (partsOf messages defaultKeepRecent h).lead_length
    rw [← (append_inj (heq.symm.trans (partsOf messages defaultKeepRecent h).eq)
      (hidx.trans hlen.symm)).1]
    exact hlead
  have hsummary := whole_summaryMsg (partsOf messages defaultKeepRecent h).head
  exact ⟨fun hall => hsummary.right (hlead.right hall), fun htail =>
    hlead.append (hsummary.append htail)⟩

theorem lead_eq_nil (h : defaultKeepRecent + 3 < messages.length)
    (hsystem : firstIsSystem messages ≠ true) :
    (partsOf messages defaultKeepRecent h).lead = [] := by
  have hlen := (partsOf messages defaultKeepRecent h).lead_length
  rw [removeIdx, if_neg hsystem] at hlen
  exact eq_nil_of_length_eq_zero hlen

/-- What the second phase makes of a compacted conversation whose seam holds. -/
theorem right_of_compacted {n' : Nat} (hwhole : Whole messages)
    (h : defaultKeepRecent + 3 < messages.length)
    (htail : Whole (messages.drop (messages.length - defaultKeepRecent)))
    (hcount' : countTokens (compacted messages h) = .ok n')
    (hsystem : firstIsSystem messages = true → n' ≤ ctxLimit)
    (hrun : Returns (dropStep countTokens ctxLimit)
      (compacted messages h, (partsOf messages defaultKeepRecent h).head.length) (.ok t))
    (hn : countTokens t.1 = .ok n) (hfits : n ≤ ctxLimit) :
    Right countTokens ctxLimit messages ⟨t.1, t.2⟩ := by
  have hparts := (partsOf messages defaultKeepRecent h).eq
  have hlens := congrArg length hparts
  rw [length_append, length_append] at hlens
  by_cases hfirst : firstIsSystem messages = true
  · -- the summary is enough: nothing more is dropped
    obtain rfl := Except.ok.inj
      ((returns_done (dropStep_fits hcount' (hsystem hfirst))).1 hrun)
    refine ⟨⟨n, hn, hfits⟩, (compacted_whole_iff hwhole h).2 htail,
      (partsOf messages defaultKeepRecent h).lead ++ (partsOf messages defaultKeepRecent h).tail,
      (partsOf messages defaultKeepRecent h).sublist, ?_, .inr ⟨h, _, _, rfl, rfl⟩⟩
    rw [length_append]
    dsimp only
    omega
  · have hlead := lead_eq_nil h hfirst
    have hcompacted : compacted messages h = summaryMsg (partsOf messages defaultKeepRecent h).head ::
        (partsOf messages defaultKeepRecent h).tail := by
      rw [compacted, hlead, nil_append]
    have htail' : Whole (partsOf messages defaultKeepRecent h).tail := htail
    rw [hcompacted] at hrun
    obtain ⟨rest, hrest, hrestWhole, hsub, htotal⟩ := dropStep_summary htail' hrun
    refine ⟨⟨n, hn, hfits⟩, ?_, rest, ?_, ?_, .inr ⟨h, [], rest, rfl, hrest⟩⟩
    · show Whole t.1
      rw [hrest]
      exact (whole_summaryMsg _).append hrestWhole
    · exact hsub.trans (drop_sublist ..)
    · rw [hlead, length_nil] at hlens
      dsimp only
      omega

/-- Eleven messages, among them a call whose result is the sixth from the end. -/
def acrossSeam : List Message :=
  [.system "a", .user "b", .user "c", .user "d",
    .assistantToolCalls [⟨"e", "function", ⟨none, "f", .null⟩⟩], .toolResultFor "e" "g",
    .user "h", .user "i", .user "j", .user "k", .user "l"]

end WarmStart

end SessionRt
end Gen2
