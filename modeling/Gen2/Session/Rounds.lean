import Gen2.Session.Replay
import Mathlib.Data.List.Infix

/-!
# Tool rounds over whole runs

A projection must not show a tool result without the call it answers, nor a call that has been
answered without the answer.  `check_rounds_over` is that rule; every operation that could break it
either refuses, or trims.  This file is about whether the rule holds after *every* operation of a
run.

* `RoundsHold` is the rule as a statement about the messages shown and the records there are, and
  `checkRoundsOver_ok_iff` says that the check decides it.
* `Pushable` is what the pushes of a run are promised to be.
* Each operation has one lemma, `rounds_…`, that says when the rule holds after it.
* Two kinds of step break it, and `StepOk` says that a step is of neither.  The loop of
  `trim_to_round_boundary` may give up (`Stuck`): it takes a result whose id is `Some("")` for one
  that has no id.  And a replacement is checked against the records as they were *before* it, so a
  replacing message that carries calls of its own, and is an answer besides, is not yet counted as
  an answer (`CarriesAnswer`).
* `rounds_always_iff` is the outcome: from an empty session the rule holds all along a run of
  allowed operations exactly when every step is `StepOk`.
-/

namespace Gen2

/-! ## The walk -/

namespace RoundWalk

variable {w : RoundWalk} {m : Message}

theorem step_declared {w' : RoundWalk} (h : w.step m = .ok w') :
    w'.declared = w.declared ++ callsOf m := by
  rw [step] at h
  split at h
  · cases h
    rfl
  rename_i hcalls
  have hnil : callsOf m = [] := by simpa using hcalls
  rw [hnil, List.append_nil]
  repeat' split at h
  all_goals cases h
  all_goals rfl

theorem step_answered_subset {w' : RoundWalk} (h : w.step m = .ok w') :
    w.answered ⊆ w'.answered := by
  rw [step] at h
  repeat' split at h
  all_goals cases h
  all_goals first | exact List.Subset.refl _ | exact List.subset_append_left ..

/-- A message that is a result and nothing else answers the call it names. -/
theorem step_answers {w' : RoundWalk} (h : w.step m = .ok w') (hcalls : callsOf m = [])
    (hres : isResult m = true) {cid : String} (hcid : m.toolCallId = some cid) :
    cid ∈ w.declared ∧ w'.answered = w.answered ++ [cid] := by
  simp only [step, hcalls, hres, hcid] at h
  by_cases hdecl : cid ∈ w.declared
  · simp [hdecl] at h
    exact ⟨hdecl, by rw [← h]⟩
  · simp [hdecl] at h

theorem step_result (hcalls : callsOf m = []) (hres : isResult m = true) {cid : String}
    (hcid : m.toolCallId = some cid) (hdecl : cid ∈ w.declared) :
    w.step m = .ok { w with
      answered := w.answered ++ [cid], legacyOpen := w.legacyOpen.filter (· != cid) } := by
  simp [step, hcalls, hres, hcid, hdecl]

theorem step_error {e : SessionError} (h : w.step m = .error e) :
    callsOf m = [] ∧ isResult m = true ∧
      ((∃ cid, m.toolCallId = some cid ∧ cid ∉ w.declared ∧ e = .orphanResult cid) ∨
        m.toolCallId = none ∧ w.legacyOpen = [] ∧ e = .orphanResult "") := by
  rw [step] at h
  split at h
  · cases h
  rename_i hcalls
  have hnil : callsOf m = [] := by simpa using hcalls
  split at h
  · rename_i hres
    split at h
    · rename_i cid hcid
      split at h
      · rename_i hnew
        cases h
        exact ⟨hnil, hres, .inl ⟨cid, hcid, by simpa using hnew, rfl⟩⟩
      · cases h
    · rename_i hcid
      split at h
      · rename_i hopen
        cases h
        exact ⟨hnil, hres, .inr ⟨hcid, hopen, rfl⟩⟩
      · cases h
  · cases h

end RoundWalk

theorem walkRounds_append (w : RoundWalk) (ms ms' : List Message) :
    walkRounds w (ms ++ ms') = (walkRounds w ms).bind fun w => walkRounds w ms' := by
  induction ms generalizing w with
  | nil => rfl
  | cons m ms ih =>
    rw [List.cons_append, walkRounds, walkRounds]
    cases w.step m with
    | error e => rfl
    | ok w => exact ih w

variable {ms : List Message}

theorem walkRounds_declared {w w' : RoundWalk} (h : walkRounds w ms = .ok w') :
    w'.declared = w.declared ++ ms.flatMap callsOf := by
  induction ms generalizing w with
  | nil =>
    cases h
    simp
  | cons m ms ih =>
    rw [walkRounds] at h
    split at h
    · cases h
    · rename_i w₁ hstep
      rw [ih h, RoundWalk.step_declared hstep, List.flatMap_cons, List.append_assoc]

theorem walkRounds_answered_subset {w w' : RoundWalk} (h : walkRounds w ms = .ok w') :
    w.answered ⊆ w'.answered := by
  induction ms generalizing w with
  | nil =>
    cases h
    exact List.Subset.refl _
  | cons m ms ih =>
    rw [walkRounds] at h
    split at h
    · cases h
    · rename_i w₁ hstep
      exact List.Subset.trans (RoundWalk.step_answered_subset hstep) (ih h)

theorem walkRounds_answers {w w' : RoundWalk} (h : walkRounds w ms = .ok w') {m : Message}
    (hm : m ∈ ms) (hcalls : callsOf m = []) (hres : isResult m = true) {cid : String}
    (hcid : m.toolCallId = some cid) : cid ∈ w'.answered := by
  induction ms generalizing w with
  | nil => cases hm
  | cons m' ms ih =>
    rw [walkRounds] at h
    split at h
    · cases h
    rename_i w₁ hstep
    rcases List.mem_cons.1 hm with rfl | hm
    · have hans := (RoundWalk.step_answers hstep hcalls hres hcid).2
      exact walkRounds_answered_subset h (by simp [hans])
    · exact ih h hm

namespace Session

open Lib

/-! ## The rule -/

/-- The call a message answers, if it answers one. -/
def answerOf (m : Message) : Option String := if isResult m then m.toolCallId else none

theorem answeredSomewhere_append (records : List StoredRecord) (r : StoredRecord) :
    answeredSomewhere (records ++ [r]) = answeredSomewhere records ++ (answerOf r.message).toList := by
  rw [answeredSomewhere, List.filterMap_append]
  refine congrArg _ ?_
  show List.filterMap (fun r : StoredRecord => answerOf r.message) [r] = _
  cases hans : answerOf r.message <;> simp [hans]

variable {records records' : List StoredRecord}

theorem answeredSomewhere_congr (h : records.map (·.message) = records'.map (·.message)) :
    answeredSomewhere records = answeredSomewhere records' := by
  have hmap : ∀ rs : List StoredRecord,
      answeredSomewhere rs = (rs.map (·.message)).filterMap answerOf := fun rs => by
    rw [List.filterMap_map]
    rfl
  rw [hmap, hmap, h]

/-- **The rule.**  The walk over what is shown goes through, and every call it finds that some
record answers, it finds answered. -/
def RoundsHold (shown : List Message) (records : List StoredRecord) : Prop :=
  ∃ w, walkRounds ⟨[], [], []⟩ shown = .ok w ∧
    ∀ c ∈ w.declared, c ∈ answeredSomewhere records → c ∈ w.answered

variable {lookup : MessageId → Option Message} {ids : List MessageId}

theorem checkRoundsOver_ok_iff :
    checkRoundsOver lookup ids records = .ok () ↔ RoundsHold (ids.filterMap lookup) records := by
  rw [checkRoundsOver]
  constructor
  · intro h
    split at h
    · cases h
    rename_i w hw
    split at h
    · cases h
    · rename_i hfind
      refine ⟨w, hw, fun c hc hsome => ?_⟩
      have := List.find?_eq_none.1 hfind c hc
      simpa [hsome] using this
  · rintro ⟨w, hw, hall⟩
    rw [hw]
    have hfind : (w.declared.find? fun call =>
        !w.answered.contains call && (answeredSomewhere records).contains call) = none := by
      refine List.find?_eq_none.2 fun c hc => ?_
      by_cases hsome : c ∈ answeredSomewhere records
      · simp [hall c hc hsome]
      · simp [hsome]
    dsimp only
    rw [hfind]

/-- What the projection of a session is checked for. -/
def RoundsOk (s : Session) : Prop :=
  checkRoundsOver (s.lookupWith []) s.active s.records = .ok ()

instance (s : Session) : Decidable s.RoundsOk :=
  match h : checkRoundsOver (s.lookupWith []) s.active s.records with
  | .ok () => .isTrue h
  | .error _ => .isFalse fun h' => by rw [RoundsOk, h] at h'; cases h'

variable {s : Session}

theorem roundsOk_iff : s.RoundsOk ↔ RoundsHold (s.active.filterMap s.messageBy) s.records :=
  checkRoundsOver_ok_iff

/-! ## Staged messages -/

/-- A message that answers a call, but makes calls of its own, so that the walk passes over its
answer; and what it answers is a call shown that nothing else answers. -/
def CarriesAnswer (w : RoundWalk) (m : Message) : Prop :=
  callsOf m ≠ [] ∧ ∃ cid, answerOf m = some cid ∧ cid ∈ w.declared ∧ cid ∉ w.answered

variable {w : RoundWalk}

/-- Messages that are checked before they are recorded: the rule survives their being recorded
exactly when none of them carries an answer that the walk does not see. -/
theorem roundsHold_staged {shown staged : List Message} (hw : walkRounds ⟨[], [], []⟩ shown = .ok w)
    (hold : RoundsHold shown records) (hstaged : staged ⊆ shown)
    (hrec : answeredSomewhere records' = answeredSomewhere records ++ staged.filterMap answerOf) :
    RoundsHold shown records' ↔ ∀ m ∈ staged, ¬ CarriesAnswer w m := by
  obtain ⟨w', hw', hall⟩ := hold
  rw [hw] at hw'
  cases hw'
  constructor
  · rintro ⟨w', hw', hall'⟩ m hm ⟨-, cid, hans, hdecl, hnot⟩
    rw [hw] at hw'
    cases hw'
    refine hnot (hall' cid hdecl ?_)
    rw [hrec]
    exact List.mem_append_right _ (List.mem_filterMap.2 ⟨m, hm, hans⟩)
  · intro hno
    refine ⟨w, hw, fun c hc hsome => ?_⟩
    rw [hrec] at hsome
    rcases List.mem_append.1 hsome with hsome | hsome
    · exact hall c hc hsome
    obtain ⟨m, hm, hans⟩ := List.mem_filterMap.1 hsome
    by_cases hcalls : callsOf m = []
    · -- a plain result: it is shown, so the walk has seen its answer
      rw [answerOf] at hans
      split at hans
      · rename_i hres
        exact walkRounds_answers hw (hstaged hm) hcalls hres hans
      · cases hans
    · by_contra hnot
      exact hno m hm ⟨hcalls, c, hans, hc, hnot⟩

/-! ## Giving up -/

theorem attributeLegacyLoop_mem {opens : List String} {p : MessageId × String}
    (h : p ∈ attributeLegacyLoop lookup opens ids) : p.1 ∈ ids := by
  induction ids generalizing opens with
  | nil => cases h
  | cons id ids ih =>
    simp only [attributeLegacyLoop] at h
    repeat' split at h
    all_goals first
      | exact List.mem_cons_of_mem _ (ih h)
      | rcases List.mem_cons.1 h with rfl | h
        · exact List.mem_cons_self ..
        · exact List.mem_cons_of_mem _ (ih h)

theorem attributeLegacy_mem {p : MessageId × String} (h : p ∈ attributeLegacy lookup ids) :
    p.1 ∈ ids :=
  attributeLegacyLoop_mem h

/-- `attribute_legacy` keeps the same open calls as the walk, and so comes to the rest of the ids
with what the walk comes to it with. -/
theorem attributeLegacyLoop_suffix {id : MessageId} {m : Message} (hlook : lookup id = some m)
    {w' : RoundWalk} (hstep : w.step m = .ok w') :
    attributeLegacyLoop lookup w'.legacyOpen ids <:+
      attributeLegacyLoop lookup w.legacyOpen (id :: ids) := by
  simp only [attributeLegacyLoop, hlook]
  rw [RoundWalk.step] at hstep
  split at hstep
  · rename_i hcalls
    cases hstep
    rw [if_pos hcalls]
  rename_i hcalls
  rw [if_neg hcalls]
  split at hstep
  · rename_i hres
    rw [if_pos hres]
    split at hstep
    · rename_i cid hcid
      split at hstep
      · cases hstep
      · cases hstep
        exact List.suffix_rfl
    · split at hstep
      · cases hstep
      · cases hstep
        exact List.suffix_cons ..
  · rename_i hres
    cases hstep
    rw [if_neg hres]

/-- Where the walk stops: at a result that names a call not shown before it, or at one that names
none and that `attributeLegacyLoop` attributes to nothing. -/
theorem walkRounds_error {e : SessionError} (h : walkRounds w (ids.filterMap lookup) = .error e) :
    (∃ before m after cid, ids.filterMap lookup = before ++ m :: after ∧ callsOf m = [] ∧
        isResult m = true ∧ m.toolCallId = some cid ∧ cid ∉ w.declared ++ before.flatMap callsOf ∧
        e = .orphanResult cid) ∨
      e = .orphanResult "" ∧
        ∃ id ∈ ids, (id, "") ∈ attributeLegacyLoop lookup w.legacyOpen ids := by
  induction ids generalizing w with
  | nil => cases h
  | cons id ids ih =>
    cases hlook : lookup id with
    | none =>
      rw [List.filterMap_cons_none hlook] at h ⊢
      simp only [attributeLegacyLoop, hlook]
      rcases ih h with hnamed | ⟨he, id', hid', hmem⟩
      · exact .inl hnamed
      · exact .inr ⟨he, id', List.mem_cons_of_mem _ hid', hmem⟩
    | some m =>
      rw [List.filterMap_cons_some hlook] at h ⊢
      rw [walkRounds] at h
      cases hstep : w.step m with
      | error e' =>
        rw [hstep] at h
        cases h
        obtain ⟨hnil, hres, ⟨cid, hcid, hnew, he⟩ | ⟨hcid, hopen, he⟩⟩ := RoundWalk.step_error hstep
        · exact .inl ⟨[], m, ids.filterMap lookup, cid, rfl, hnil, hres, hcid, by simpa using hnew,
          he⟩
        · refine .inr ⟨he, id, List.mem_cons_self .., ?_⟩
          simp [attributeLegacyLoop, hlook, hnil, hres, hcid, hopen]
      | ok w₁ =>
        rw [hstep] at h
        rcases ih h with ⟨before, m', after, cid, heq, hnil, hres, hcid, hnew, he⟩ |
          ⟨he, id', hid', hmem⟩
        · refine .inl ⟨m :: before, m', after, cid, by rw [heq]; rfl, hnil, hres, hcid, ?_, he⟩
          rw [RoundWalk.step_declared hstep, List.append_assoc] at hnew
          simpa using hnew
        · exact .inr ⟨he, id', List.mem_cons_of_mem _ hid',
            (attributeLegacyLoop_suffix hlook hstep).subset hmem⟩

/-- An id that stands for a result nothing is attributed to is dropped. -/
theorem trimDrop_legacy_ne_nil {id : MessageId}
    (hmem : (id, "") ∈ attributeLegacy (s.lookupWith []) ids) :
    s.trimDrop ids (.orphanResult "") ≠ [] := by
  rw [trimDrop, if_pos (by rfl)]
  have hfind : ((attributeLegacy (s.lookupWith []) ids).find? fun p => p.2.isEmpty).isSome :=
    List.find?_isSome.2 ⟨(id, ""), hmem, rfl⟩
  split
  · rename_i orphan _ hfound
    have hin : orphan ∈ ids := attributeLegacy_mem (List.mem_of_find?_eq_some hfound)
    have hsome : (ids.find? fun id => s.index.lookup id == s.index.lookup orphan).isSome :=
      List.find?_isSome.2 ⟨orphan, hin, by simp⟩
    obtain ⟨found, hfound⟩ := Option.isSome_iff_exists.1 hsome
    simp [hfound]
  · rename_i hnone
    rw [hnone] at hfind
    cases hfind

/-- A call that is shown has a message to drop. -/
theorem trimDrop_call_ne_nil {call : String}
    (hcall : call ∈ (ids.filterMap (s.lookupWith [])).flatMap callsOf) :
    s.trimDrop ids (.unansweredCall call) ≠ [] := by
  obtain ⟨m, hm, hcall⟩ := List.mem_flatMap.1 hcall
  obtain ⟨id, hid, hlook⟩ := List.mem_filterMap.1 hm
  have hm : s.messageBy id = some m := hlook
  exact List.ne_nil_of_mem (a := id) (List.mem_filter.2 ⟨hid, by simp [hm, makesCall, hcall]⟩)

/-- Where the walk over some ids goes through, the loop does not give up on them. -/
theorem not_stuck_of_walk (hw : walkRounds ⟨[], [], []⟩ (ids.filterMap (s.lookupWith [])) = .ok w) :
    ¬ s.Stuck ids := by
  rintro ⟨e, hcheck, hdrop⟩
  rw [checkRoundsOver, hw] at hcheck
  dsimp only at hcheck
  split at hcheck
  · rename_i call hfind
    cases hcheck
    have hdecl := List.mem_of_find?_eq_some hfind
    rw [walkRounds_declared hw, List.nil_append] at hdecl
    exact trimDrop_call_ne_nil hdecl hdrop
  · cases hcheck

/-- A result whose call id is the empty string, shown before any call of that id. -/
def EmptyOrphan (shown : List Message) : Prop :=
  ∃ before m after, shown = before ++ m :: after ∧ callsOf m = [] ∧ isResult m = true ∧
    m.toolCallId = some "" ∧ "" ∉ before.flatMap callsOf

/-- **The loop gives up for one reason only**: a result whose call id is the empty string and whose
call is not shown, which it looks for among the results that have no id. -/
theorem Stuck.emptyOrphan (h : s.Stuck ids) : EmptyOrphan (ids.filterMap s.messageBy) := by
  obtain ⟨e, hcheck, hdrop⟩ := h
  cases hwalk : walkRounds ⟨[], [], []⟩ (ids.filterMap (s.lookupWith [])) with
  | ok w => exact absurd ⟨e, hcheck, hdrop⟩ (not_stuck_of_walk hwalk)
  | error e' =>
    rw [checkRoundsOver, hwalk] at hcheck
    cases hcheck
    rcases walkRounds_error hwalk with ⟨before, m, after, cid, heq, hnil, hres, hcid, hnew, rfl⟩ |
      ⟨rfl, id, -, hmem⟩
    · by_cases hempty : cid = ""
      · subst hempty
        exact ⟨before, m, after, heq, hnil, hres, hcid, by simpa using hnew⟩
      have hm : m ∈ ids.filterMap (s.lookupWith []) := by simp [heq]
      obtain ⟨id, hid, hlook⟩ := List.mem_filterMap.1 hm
      have hlook : s.messageBy id = some m := hlook
      have hdrop' : id ∈ s.trimDrop ids (.orphanResult cid) := by
        rw [trimDrop, if_neg (by simpa using hempty)]
        exact List.mem_filter.2 ⟨hid, by simp [hlook, hres, hcid]⟩
      rw [hdrop] at hdrop'
      cases hdrop'
    · exact absurd hdrop (trimDrop_legacy_ne_nil hmem)

/-! ## One operation -/

/-- What the check says of a session is what it says of these ids and records, seen from any other
session with the same records. -/
theorem roundsOk_iff_check {t : Session} (hs : s.core.Ok) (ht : t.core.Ok)
    (hrec : t.records = s.records) :
    t.RoundsOk ↔ checkRoundsOver (s.lookupWith []) t.active s.records = .ok () := by
  have hlookup : t.lookupWith [] = s.lookupWith [] := by
    funext id
    show t.messageBy id = s.messageBy id
    rw [messageBy_eq ht, messageBy_eq hs, hrec]
  rw [RoundsOk, hlookup, hrec]

theorem roundsOk_nil (h : s.active = []) : s.RoundsOk := by
  rw [roundsOk_iff, h]
  exact ⟨_, rfl, by simp⟩

/-- The call ids that records have made or answered. -/
def usedCallIds (records : List StoredRecord) : List String :=
  records.flatMap fun r => callsOf r.message ++ (answerOf r.message).toList

/-- What a run is promised about a message pushed: it has nothing to do with tools, or it is an
assistant's and makes calls under ids that are new to the session, or it is a result that names a
call shown. -/
inductive Pushable (s : Session) (m : Message) : Prop
  | plain (hcalls : callsOf m = []) (hres : isResult m = false)
  | calls (hrole : m.role = "assistant") (hnew : ∀ c ∈ callsOf m, c ∉ usedCallIds s.records)
  | result (cid : String) (hcalls : callsOf m = []) (hres : isResult m = true)
      (hcid : m.toolCallId = some cid) (hne : cid ≠ "") (hshown : cid ∈ s.projection.flatMap callsOf)

theorem not_answered_of_new {c : String} (h : c ∉ usedCallIds records) :
    c ∉ answeredSomewhere records := by
  intro hc
  obtain ⟨r, hr, hans⟩ := List.mem_filterMap.1 hc
  have hans : answerOf r.message = some c := hans
  exact h (List.mem_flatMap.2 ⟨r, hr, by simp [hans]⟩)

/-- The check passes over `shown`, and one of the messages staged carries an answer that the walk
does not see. -/
def HidesAnswer (shown staged : List Message) (records : List StoredRecord) : Prop :=
  RoundsHold shown records ∧
    ∃ w, walkRounds ⟨[], [], []⟩ shown = .ok w ∧ ∃ m ∈ staged, CarriesAnswer w m

theorem roundsHold_iff_not_hidesAnswer {shown staged : List Message}
    (hold : RoundsHold shown records) (hstaged : staged ⊆ shown)
    (hrec : answeredSomewhere records' = answeredSomewhere records ++ staged.filterMap answerOf) :
    RoundsHold shown records' ↔ ¬ HidesAnswer shown staged records := by
  have hwalk := hold
  obtain ⟨w, hw, -⟩ := hwalk
  rw [roundsHold_staged hw hold hstaged hrec]
  constructor
  · rintro hno ⟨-, w', hw', m, hm, hcarry⟩
    rw [hw] at hw'
    cases hw'
    exact hno m hm hcarry
  · exact fun hno m hm hcarry => hno ⟨hold, w, hw, m, hm, hcarry⟩

/-- Putting a new id in the place of one puts the new message in the place of its message. -/
theorem filterMap_set {f g : MessageId → Option Message} {slot : Nat} {new : MessageId}
    {m : Message} (hf : ∀ id ∈ ids, ∃ x, f id = some x) (hg : ∀ id ∈ ids, g id = f id)
    (hnew : g new = some m) (hslot : slot < ids.length) :
    (ids.set slot new).filterMap g = (ids.filterMap f).set slot m := by
  induction ids generalizing slot with
  | nil => simp at hslot
  | cons id ids ih =>
    obtain ⟨x, hx⟩ := hf id (List.mem_cons_self ..)
    rw [List.filterMap_cons_some hx]
    cases slot with
    | zero =>
      rw [List.set_cons_zero, List.set_cons_zero, List.filterMap_cons_some hnew]
      exact congrArg _ (List.filterMap_congr fun id' hid' => hg id' (List.mem_cons_of_mem _ hid'))
    | succ slot =>
      have hgid : g id = some x := (hg id (List.mem_cons_self ..)).trans hx
      rw [List.set_cons_succ, List.set_cons_succ, List.filterMap_cons_some hgid,
        ih (fun id' hid' => hf id' (List.mem_cons_of_mem _ hid'))
          (fun id' hid' => hg id' (List.mem_cons_of_mem _ hid')) (by simpa using hslot)]

/-- What messages staged under new ids are checked as. -/
theorem staged_shown (s : Session) {ms : List Message} (hlen : ids.length = ms.length)
    (hnd : ids.Nodup) : ids.filterMap (s.lookupWith (ids.zip ms)) = ms := by
  induction ids generalizing ms with
  | nil =>
    rw [List.length_nil] at hlen
    rw [List.length_eq_zero_iff.1 hlen.symm]
    rfl
  | cons id ids ih =>
    cases ms with
    | nil => simp at hlen
    | cons m ms =>
      obtain ⟨hnew, hnd⟩ := List.nodup_cons.1 hnd
      have hhead : s.lookupWith ((id :: ids).zip (m :: ms)) id = some m := by
        simp [lookupWith]
      rw [List.filterMap_cons_some hhead]
      refine congrArg _ (Eq.trans (List.filterMap_congr fun id' hid' => ?_)
        (ih (by simpa using hlen) hnd))
      have hne : (id' == id) = false := beq_false_of_ne fun h => hnew (h ▸ hid')
      simp [lookupWith, List.lookup_cons, hne]

/-- The ids a trimming settles on pass the check unless it gives up on them. -/
theorem trim_ok_iff (s : Session) (ids : List MessageId) :
    checkRoundsOver (s.lookupWith []) (s.trimToRoundBoundary ids) s.records = .ok () ↔
      ¬ s.Stuck (s.trimToRoundBoundary ids) := by
  constructor
  · rintro hok ⟨e, he, -⟩
    rw [hok] at he
    cases he
  · exact fun hno => (s.trimToRoundBoundary_ok_or_stuck ids).resolve_right hno

section
variable [SerdeJson]

variable {s t : Session}

theorem roundsOk_congr (hs : Live s) (ht : Live t) (hrec : t.records = s.records)
    (hact : t.active = s.active) : t.RoundsOk ↔ s.RoundsOk := by
  rw [roundsOk_iff_check hs.ok ht.ok hrec, hact]
  rfl

theorem rounds_push (h : Live s) (hok : s.RoundsOk) {m : Message} (hm : Pushable s m) :
    (s.push m).2.RoundsOk := by
  have hproj : (s.push m).2.projection = s.projection ++ [m] := rfl
  have hrec : (s.push m).2.records = s.records ++ [⟨s.nextId, m, none⟩] := rfl
  rw [roundsOk_iff, ← (live_push h m).projection, hproj, hrec]
  rw [roundsOk_iff, ← h.projection] at hok
  obtain ⟨w, hw, hall⟩ := hok
  have happend : walkRounds ⟨[], [], []⟩ (s.projection ++ [m]) = walkRounds w [m] := by
    rw [walkRounds_append, hw]
    rfl
  rw [RoundsHold, happend, answeredSomewhere_append, walkRounds]
  cases hm with
  | plain hcalls hres =>
    refine ⟨w, by simp [RoundWalk.step, hcalls, hres, walkRounds], fun c hc hsome => hall c hc ?_⟩
    simpa [answerOf, hres] using hsome
  | calls hrole hnew =>
    have hres : isResult m = false := by simp [isResult, hrole]
    have hans : answerOf m = none := by simp [answerOf, hres]
    simp only [hans, Option.toList_none, List.append_nil]
    by_cases hcalls : callsOf m = []
    · exact ⟨w, by simp [RoundWalk.step, hcalls, hres, walkRounds], hall⟩
    refine ⟨{ w with declared := w.declared ++ callsOf m, legacyOpen := callsOf m },
      by simp [RoundWalk.step, hcalls, walkRounds], fun c hc hsome => ?_⟩
    rcases List.mem_append.1 hc with hc | hc
    · exact hall c hc hsome
    · exact absurd hsome (not_answered_of_new (hnew c hc))
  | result cid hcalls hres hcid hne hshown =>
    have hdecl : cid ∈ w.declared := by simpa [walkRounds_declared hw] using hshown
    rw [RoundWalk.step_result hcalls hres hcid hdecl]
    refine ⟨_, rfl, fun c hc hsome => ?_⟩
    rcases List.mem_append.1 hsome with hsome | hsome
    · exact List.mem_append_left _ (hall c hc hsome)
    · refine List.mem_append_right _ ?_
      simpa [answerOf, hres, hcid] using hsome

/-- What a replacement is checked as. -/
theorem replaced_shown (h : Live s) {old : MessageId} {slot : Nat}
    (hslot : s.activeSlot old = .ok slot) (m : Message) :
    (s.active.set slot s.nextId).filterMap (s.lookupWith [(s.nextId, m)]) =
      s.projection.set slot m := by
  have hnext : s.nextId = s.records.length := h.ok.nextId
  rw [h.projection]
  refine filterMap_set (fun id hid => messageBy_isSome h.ok (h.ok.active_lt id hid))
    (fun id hid => ?_) ?_ ?_
  · have hlt : (id : Nat) < s.records.length := h.ok.active_lt id hid
    have hne : (id == s.nextId) = false := by
      rw [hnext]
      exact beq_false_of_ne (Nat.ne_of_lt hlt)
    simp [lookupWith, List.lookup_cons, hne]
  · simp [lookupWith]
  · obtain ⟨hlt, -⟩ := List.findIdx?_eq_some_iff_getElem.1 (activeSlot_ok hslot)
    exact hlt

theorem rounds_replaceMessage (h : Live s) {old : MessageId} {slot : Nat} {m : Message}
    (hslot : s.activeSlot old = .ok slot)
    (hcheck : s.checkRounds (s.active.set slot s.nextId) (some (s.nextId, m)) = .ok ())
    (ht : Live t)
    (hcore : t.core = { (s.mint m).2.core with
      records := (s.mint m).2.records.modify old fun r => { r with replacedBy := some s.nextId }
      active := s.active.set slot s.nextId }) :
    t.RoundsOk ↔ ¬ HidesAnswer (s.projection.set slot m) [m] s.records := by
  have hact : t.active = s.active.set slot s.nextId := congrArg Core.active hcore
  have hrec : t.records.map (·.message) = (s.mint m).2.records.map (·.message) := by
    have : t.records = (s.mint m).2.records.modify old fun r =>
      { r with replacedBy := some s.nextId } := congrArg Core.records hcore
    rw [this]
    refine List.ext_getElem? fun i => ?_
    simp only [List.getElem?_map, List.getElem?_modify]
    cases (s.mint m).2.records[i]? with
    | none => rfl
    | some r => by_cases hi : old = i <;> simp [hi]
  have hmessage : ∀ id : Nat, t.messageBy id = (s.mint m).2.messageBy id := fun id => by
    rw [messageBy_eq ht.ok, messageBy_eq (h.ok.mint m), ← List.getElem?_map, hrec,
      List.getElem?_map]
  have hshown : t.active.filterMap t.messageBy = s.projection.set slot m := by
    rw [← replaced_shown h hslot m, hact]
    refine List.filterMap_congr fun id hid => ?_
    rw [hmessage]
    rcases List.mem_or_eq_of_mem_set hid with hid | rfl
    · have hlt : (id : Nat) < s.records.length := h.ok.active_lt id hid
      have hne : (id == s.nextId) = false := by
        rw [show s.nextId = s.records.length from h.ok.nextId]
        exact beq_false_of_ne (Nat.ne_of_lt hlt)
      rw [mint_messageBy_lt h.ok m hlt]
      simp [lookupWith, List.lookup_cons, hne]
    · rw [mint_messageBy_new h.ok m]
      simp [lookupWith]
  rw [checkRounds, Option.toList_some, checkRoundsOver_ok_iff, replaced_shown h hslot m] at hcheck
  rw [roundsOk_iff, hshown]
  refine roundsHold_iff_not_hidesAnswer hcheck ?_ ?_
  · obtain ⟨hlt, -⟩ := List.findIdx?_eq_some_iff_getElem.1 (activeSlot_ok hslot)
    intro x hx
    rw [List.mem_singleton.1 hx]
    exact List.mem_set (by rw [← h.length_active]; exact hlt) m
  · rw [answeredSomewhere_congr hrec]
    exact answeredSomewhere_append s.records _

/-- What `recordAll` has recorded: the messages given, under the ids it returns, behind the records
that were there. -/
theorem recordAll_messageBy (h : Live s) (ms : List Message) :
    (s.recordAll ms).1.filterMap (s.recordAll ms).2.messageBy = ms ∧
      ∀ id : Nat, id < s.records.length → (s.recordAll ms).2.messageBy id = s.messageBy id := by
  induction ms generalizing s with
  | nil => exact ⟨rfl, fun _ _ => rfl⟩
  | cons m ms ih =>
    obtain ⟨hids, hold⟩ := ih (live_record h m)
    have hnext : s.nextId = s.records.length := h.ok.nextId
    have hlen : (s.record m).2.records.length = s.records.length + 1 := by
      simp [record_records]
    have hnew : (s.recordAll (m :: ms)).2.messageBy s.nextId = some m := by
      refine (hold s.nextId (by omega)).trans ?_
      rw [record, log_messageBy]
      exact mint_messageBy_new h.ok m
    refine ⟨?_, fun id hid => ?_⟩
    · show ((s.nextId :: ((s.record m).2.recordAll ms).1).filterMap _) = _
      rw [List.filterMap_cons_some hnew]
      exact congrArg _ hids
    · refine (hold id (by omega)).trans ?_
      rw [record, log_messageBy]
      exact mint_messageBy_lt h.ok m hid

theorem recordAll_answered (s : Session) (ms : List Message) :
    answeredSomewhere (s.recordAll ms).2.records =
      answeredSomewhere s.records ++ ms.filterMap answerOf := by
  induction ms generalizing s with
  | nil => simp [recordAll]
  | cons m ms ih =>
    refine (ih (s.record m).2).trans ?_
    rw [record_records, answeredSomewhere_append, List.append_assoc]
    refine congrArg _ ?_
    cases hans : answerOf m with
    | none => rw [List.filterMap_cons_none hans]; rfl
    | some c => rw [List.filterMap_cons_some hans]; rfl

theorem rounds_replaceMessages (h : Live s) {ms : List Message}
    (hcheck : checkRoundsOver (s.lookupWith ((s.recordAll ms).1.zip ms)) (s.recordAll ms).1 s.records
      = .ok ())
    (ht : Live ((s.recordAll ms).2.activated (s.recordAll ms).1 "replace_messages" true)) :
    ((s.recordAll ms).2.activated (s.recordAll ms).1 "replace_messages" true).RoundsOk ↔
      ¬ HidesAnswer ms ms s.records := by
  have hlive := (live_recordAll h ms).1
  have hlen : (s.recordAll ms).1.length = ms.length := by simp [(live_recordAll h ms).2.1]
  rw [checkRoundsOver_ok_iff, staged_shown _ hlen (recordAll_ids h ms).2] at hcheck
  rw [roundsOk_iff_check hlive.ok ht.ok (activated_records ..), activated_active,
    checkRoundsOver_ok_iff]
  show RoundsHold ((s.recordAll ms).1.filterMap (s.recordAll ms).2.messageBy) _ ↔ _
  rw [(recordAll_messageBy h ms).1]
  exact roundsHold_iff_not_hidesAnswer hcheck (List.Subset.refl _) (recordAll_answered s ms)

theorem rounds_edit {u : Session} {ids : List MessageId} {cursor : Nat}
    (hed : Edited s t cursor ids) (hu : Live u)
    (hcore : u.core = { t.core with active := t.trimToRoundBoundary ids }) :
    u.RoundsOk ↔ ¬ t.Stuck (t.trimToRoundBoundary ids) := by
  have hact : u.active = t.trimToRoundBoundary ids := congrArg Core.active hcore
  have hrec : u.records = t.records := congrArg Core.records hcore
  rw [roundsOk_iff_check hed.live.ok hu.ok hrec, hact]
  exact t.trim_ok_iff ids

/-! ## Whole runs -/

/-- The steps whose pushes are what they are promised to be. -/
def Allowed (s : Session) : Op → Prop
  | .push m => Pushable s m
  | _ => True

/-- The steps that keep the rule: no replacement hides an answer behind calls of its own, and no
trimming gives up. -/
def StepOk (s : Session) : Op → Prop
  | .replaceMessage old m => ∀ slot, s.activeSlot old = .ok slot →
      ¬ HidesAnswer (s.projection.set slot m) [m] s.records
  | .replaceMessages ms => ¬ HidesAnswer ms ms s.records
  | .edit f => ∀ ids t, s.idsForEdited (f s.projection) = some (ids, t) →
      ¬ t.Stuck (t.trimToRoundBoundary ids)
  | .rollbackTo len => len < s.active.length →
      ¬ s.Stuck (s.trimToRoundBoundary (s.active.take len))
  | _ => True

/-- **The step lemma.**  From a session whose projection is in order, an allowed operation leads to
one whose projection is in order exactly when it is `StepOk`. -/
theorem roundsOk_step {op : Op} (h : Live s) (hok : s.RoundsOk) (hop : Allowed s op)
    (hrun : apply op s = some t) : t.RoundsOk ↔ StepOk s op := by
  obtain ⟨t', ht', hlive⟩ := live_apply h op
  rw [hrun] at ht'
  cases ht'
  cases op with
  | push m =>
    cases hrun
    exact iff_of_true (rounds_push h hok hop) trivial
  | replaceMessage old m =>
    rcases replaceMessage_spec h old m with ⟨⟨e, he⟩, hno⟩ | ⟨slot, u, hslot, hcheck, hu, hlu, _,
      hc⟩
    · rw [apply, he] at hrun
      cases hrun
      refine iff_of_true hok fun slot hslot hhides => hno slot hslot ?_
      rw [checkRounds, Option.toList_some, checkRoundsOver_ok_iff, replaced_shown h hslot m]
      exact hhides.1
    · rw [apply, hu] at hrun
      cases hrun
      rw [rounds_replaceMessage h hslot hcheck hlu hc]
      refine ⟨fun hno slot' hslot' => ?_, fun hall => hall slot hslot⟩
      obtain rfl : slot = slot' := Except.ok.inj (hslot.symm.trans hslot')
      exact hno
  | removeMessage id =>
    rcases removeMessage_spec h id with ⟨e, he⟩ | ⟨slot, u, _, hcheck, hu, hlu, _, hc⟩
    · rw [apply, he] at hrun
      cases hrun
      exact iff_of_true hok trivial
    rw [apply, hu] at hrun
    cases hrun
    have hact : u.active = s.active.eraseIdx slot := congrArg Core.active hc
    refine iff_of_true ?_ trivial
    rw [roundsOk_iff_check h.ok hlu.ok (congrArg Core.records hc), hact]
    exact hcheck
  | replaceMessages ms =>
    rcases replaceMessages_spec h ms with ⟨⟨e, he⟩, hno⟩ | ⟨u, hcheck, hu, hlu, rfl⟩
    · rw [apply, he] at hrun
      cases hrun
      refine iff_of_true hok fun hhides => hno ?_
      have hlen : (s.recordAll ms).1.length = ms.length := by simp [(live_recordAll h ms).2.1]
      rw [checkRoundsOver_ok_iff, staged_shown _ hlen (recordAll_ids h ms).2]
      exact hhides.1
    · rw [apply, hu] at hrun
      cases hrun
      exact rounds_replaceMessages h hcheck hlu
  | restoreContext ids =>
    rcases restoreContext_spec h ids with ⟨e, he⟩ | ⟨u, hcheck, hu, hlu, rfl⟩
    · rw [apply, he] at hrun
      cases hrun
      exact iff_of_true hok trivial
    · rw [apply, hu] at hrun
      cases hrun
      refine iff_of_true ?_ trivial
      rw [roundsOk_iff_check h.ok hlu.ok (activated_records ..), activated_active]
      exact hcheck
  | edit f =>
    obtain ⟨ids, u, v, hids, hed, hv, hlv, _, hc⟩ := edit_spec h f
    rw [apply, hv] at hrun
    cases hrun
    rw [rounds_edit hed hlv hc]
    refine ⟨fun hno ids' u' hids' => ?_, fun hall => hall ids u hids⟩
    rw [hids] at hids'
    cases hids'
    exact hno
  | clear =>
    rw [apply, (clear_spec h).1] at hrun
    cases hrun
    exact iff_of_true (roundsOk_nil (activated_active s [] "clear" true)) trivial
  | rollbackTo len =>
    obtain ⟨u, hu, hlu, hrec, -, hact⟩ := rollbackTo_spec h len
    rw [apply, hu] at hrun
    cases hrun
    by_cases hlen : s.active.length ≤ len
    · rw [if_pos hlen] at hact
      exact iff_of_true ((roundsOk_congr h hlu hrec hact).2 hok) fun hlt => by omega
    · rw [if_neg hlen] at hact
      rw [roundsOk_iff_check h.ok hlu.ok hrec, hact, s.trim_ok_iff]
      exact ⟨fun hno _ => hno, fun hall => hall (by omega)⟩
  | fork id =>
    obtain ⟨u, hu, hlu, hrec, hact⟩ := fork_spec h id
    rw [apply, hu] at hrun
    cases hrun
    exact iff_of_true ((roundsOk_congr h hlu hrec hact).2 hok) trivial
  | forkAt id at_ =>
    rcases forkAt_spec h id at_ with ⟨e, he⟩ | ⟨slot, u, _, hcheck, hu, hlu, hrec, hact⟩
    · rw [apply, he] at hrun
      cases hrun
      exact iff_of_true hok trivial
    · rw [apply, hu] at hrun
      cases hrun
      refine iff_of_true ?_ trivial
      rw [roundsOk_iff_check h.ok hlu.ok hrec, hact]
      exact hcheck
  | setSystem text | appendSystem text | clearSystem =>
    cases hrun
    refine iff_of_true ((roundsOk_congr h hlive ?_ ?_).2 hok) trivial
    · exact putSystem_records s _
    · exact putSystem_active s _
  | setTools tools | addTool tool | removeTool name =>
    cases hrun
    refine iff_of_true ((roundsOk_congr h hlive ?_ ?_).2 hok) trivial
    · exact putTools_records s _
    · exact putTools_active s _

end

end Session
end Gen2
