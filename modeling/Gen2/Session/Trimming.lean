import Gen2.Session.Rounds
import Mathlib.Logic.Relation

/-!
# What trimming leaves, and what a withdrawal takes with it

`edit` and `rollback_to` cannot refuse, so what they leave is trimmed: messages are dropped, round
after round, until the projection passes `check_rounds_over` or a round finds nothing to drop.

* `trimRound` is one round, and `trims_trimToRoundBoundary` says that the loop is a run of rounds
  that ends where no round goes on.
* `edit_wellFormed_iff` — when an edit leaves a projection that passes the check.  A round looks for
  a result with an *empty* call id among the results that have none, so such a result is never
  dropped (`EmptyOrphan.of_round`), and where its call is not shown the loop gives up.
* `rollback_exact_iff` — when withdrawing pushed messages gives back the projection there was
  before. The rollback trims against all the records there are, the withdrawn ones included: a call
  that was waiting for its answer, and that a withdrawn message answers, goes too.
-/

namespace Gen2
namespace Session

open Relation List

/-! ## Rounds of trimming -/

/-- One round of `trim_to_round_boundary`: what is left for the next one, or nothing where the loop
returns. -/
def trimRound (s : Session) (ids : List MessageId) : Option (List MessageId) :=
  match checkRoundsOver (s.lookupWith []) ids s.records with
  | .ok () => none
  | .error e =>
    let drop := s.trimDrop ids e
    if drop.isEmpty then none else some (ids.filter fun id => !drop.contains id)

/-- The projections that trimming goes through. -/
def Trims (s : Session) : List MessageId → List MessageId → Prop :=
  ReflTransGen fun ids ids' => s.trimRound ids = some ids'

theorem trimLoop_succ (s : Session) (fuel : Nat) (ids : List MessageId) :
    s.trimLoop (fuel + 1) ids = match s.trimRound ids with
      | some ids' => s.trimLoop fuel ids'
      | none => ids := by
  rw [trimLoop, trimRound]
  cases checkRoundsOver (s.lookupWith []) ids s.records with
  | ok u => rfl
  | error e =>
    dsimp only
    cases (s.trimDrop ids e).isEmpty <;> rfl

variable {s : Session} {ids ids' : List MessageId}

/-- What a round does: the check refuses, and some of what it complains about is dropped. -/
theorem trimRound_some (h : s.trimRound ids = some ids') :
    ∃ e, checkRoundsOver (s.lookupWith []) ids s.records = .error e ∧ s.trimDrop ids e ≠ [] ∧
      ids' = ids.filter fun id => !(s.trimDrop ids e).contains id := by
  rw [trimRound] at h
  split at h
  · cases h
  rename_i e hcheck
  dsimp only at h
  split at h
  · cases h
  · rename_i hdrop
    cases h
    exact ⟨e, hcheck, fun hnil => hdrop (isEmpty_iff.2 hnil), rfl⟩

theorem trimRound_length (h : s.trimRound ids = some ids') : ids'.length < ids.length := by
  obtain ⟨e, -, hne, rfl⟩ := trimRound_some h
  exact length_filter_drop_lt (s.trimDrop_subset ids e) hne

/-- The loop is a run of rounds, and it ends where no round goes on. -/
theorem trims_trimLoop (s : Session) {fuel : Nat} (hfuel : ids.length < fuel) :
    s.Trims ids (s.trimLoop fuel ids) ∧ s.trimRound (s.trimLoop fuel ids) = none := by
  induction fuel generalizing ids with
  | zero => omega
  | succ fuel ih =>
    rw [trimLoop_succ]
    cases hround : s.trimRound ids with
    | none => exact ⟨ReflTransGen.refl, hround⟩
    | some ids' =>
      have hlt := trimRound_length hround
      have hfuel' : ids'.length < fuel := by omega
      obtain ⟨hrun, hend⟩ := ih hfuel'
      exact ⟨ReflTransGen.head hround hrun, hend⟩

theorem trims_trimToRoundBoundary (s : Session) (ids : List MessageId) :
    s.Trims ids (s.trimToRoundBoundary ids) ∧ s.trimRound (s.trimToRoundBoundary ids) = none :=
  trims_trimLoop s (Nat.lt_succ_self _)

/-- Every run of rounds is a beginning of the one the loop makes. -/
theorem Trims.of_end {last : List MessageId} (h : s.Trims ids ids') (hrun : s.Trims ids last)
    (hend : s.trimRound last = none) : s.Trims ids' last := by
  induction h with
  | refl => exact hrun
  | tail _ hround ih =>
    rcases ReflTransGen.cases_head ih with rfl | ⟨next, hnext, hrest⟩
    · rw [hend] at hround
      cases hround
    · rw [hround] at hnext
      cases hnext
      exact hrest

/-! ## The result that is never dropped -/

/-- Two ids at one record are read as one message. -/
theorem messageBy_congr {id id' : MessageId} (h : s.index.lookup id = s.index.lookup id') :
    s.messageBy id = s.messageBy id' := by
  rw [messageBy, messageBy, h]

/-- What an id-less complaint drops is an id-less result. -/
theorem attributeLegacyLoop_idless {lookup : MessageId → Option Message} {opens : List String}
    {p : MessageId × String} (h : p ∈ attributeLegacyLoop lookup opens ids) :
    ∃ m, lookup p.1 = some m ∧
      m.toolCallId = none := by
  induction ids generalizing opens with
  | nil => cases h
  | cons id ids ih =>
    simp only [attributeLegacyLoop] at h
    split at h
    · exact ih h
    rename_i m hlook
    repeat' split at h
    all_goals first
      | exact ih h
      | rcases mem_cons.1 h with rfl | h
        · exact ⟨m, hlook, by assumption⟩
        · exact ih h

/-- A round never drops a result whose call id is the empty string. -/
theorem not_mem_trimDrop_of_empty {e : SessionError} {id : MessageId} {m : Message}
    (hlook : s.messageBy id = some m) (hcalls : callsOf m = []) (hcid : m.toolCallId = some "") :
    id ∉ s.trimDrop ids e := by
  intro hid
  cases e with
  | orphanResult callId =>
    rw [trimDrop] at hid
    split at hid
    · split at hid
      · -- it looks among the results that have no id at all
        rename_i orphan _ hfound
        have hsame := find?_some (Option.mem_toList.1 hid)
        have hread : s.messageBy id = s.messageBy orphan := messageBy_congr (by simpa using hsame)
        obtain ⟨m', hm', hnone⟩ := attributeLegacyLoop_idless (mem_of_find?_eq_some hfound)
        have hm' : s.messageBy orphan = some m' := hm'
        rw [hlook, hm'] at hread
        cases hread
        rw [hcid] at hnone
        cases hnone
      · cases hid
    · rename_i hne
      have hkeep := of_mem_filter hid
      simp only [hlook, hcid, Bool.and_eq_true, beq_iff_eq, Option.some.injEq] at hkeep
      exact hne (by rw [← hkeep.2]; rfl)
  | unansweredCall callId =>
    have hkeep := of_mem_filter hid
    simp [hlook, makesCall, hcalls] at hkeep
  | unknownMessage id' | notActive id' | duplicate id' => cases hid

/-- **Once it is an orphan it stays one**: the result itself is never dropped, and what is shown
before it only shrinks. -/
theorem EmptyOrphan.of_round (h : EmptyOrphan (ids.filterMap s.messageBy))
    (hround : s.trimRound ids = some ids') : EmptyOrphan (ids'.filterMap s.messageBy) := by
  obtain ⟨before, m, after, heq, hcalls, hres, hcid, hnew⟩ := h
  obtain ⟨e, -, -, rfl⟩ := trimRound_some hround
  obtain ⟨ids₁, ids₂, rfl, hbefore, hrest⟩ := filterMap_eq_append_iff.1 heq
  obtain ⟨skipped, id, ids₃, rfl, hskipped, hlook, hafter⟩ := filterMap_eq_cons_iff.1 hrest
  have hkept : id ∉ s.trimDrop (ids₁ ++ (skipped ++ id :: ids₃)) e :=
    not_mem_trimDrop_of_empty hlook hcalls hcid
  generalize s.trimDrop (ids₁ ++ (skipped ++ id :: ids₃)) e = drop at hkept ⊢
  let keep : MessageId → Bool := fun id => !drop.contains id
  have hkeep : keep id = true := by simpa [keep] using hkept
  refine ⟨(ids₁.filter keep ++ skipped.filter keep).filterMap s.messageBy, m,
    (ids₃.filter keep).filterMap s.messageBy, ?_, hcalls, hres, hcid, ?_⟩
  · show filterMap s.messageBy ((ids₁ ++ (skipped ++ id :: ids₃)).filter keep) = _
    rw [filter_append, filter_append, filter_cons_of_pos hkeep, ← append_assoc,
      filterMap_append, filterMap_cons_some hlook]
  intro hmem
  obtain ⟨m', hm', hcall⟩ := mem_flatMap.1 hmem
  obtain ⟨id', hid', hlook'⟩ := mem_filterMap.1 hm'
  rcases mem_append.1 hid' with hid' | hid'
  · refine hnew (mem_flatMap.2 ⟨m', ?_, hcall⟩)
    rw [← hbefore]
    exact mem_filterMap.2 ⟨id', mem_of_mem_filter hid', hlook'⟩
  · have := hskipped id' (mem_of_mem_filter hid')
    rw [this] at hlook'
    cases hlook'

theorem EmptyOrphan.of_trims (h : EmptyOrphan (ids.filterMap s.messageBy))
    (hrun : s.Trims ids ids') : EmptyOrphan (ids'.filterMap s.messageBy) := by
  induction hrun with
  | refl => exact h
  | tail _ hround ih => exact ih.of_round hround

/-- Such a projection does not pass. -/
theorem EmptyOrphan.not_roundsHold {shown : List Message} {records : List StoredRecord}
    (h : EmptyOrphan shown) : ¬ RoundsHold shown records := by
  rintro ⟨w, hw, -⟩
  obtain ⟨before, m, after, rfl, hcalls, hres, hcid, hnew⟩ := h
  rw [walkRounds_append] at hw
  cases hbefore : walkRounds ⟨[], [], []⟩ before with
  | error e =>
    rw [hbefore] at hw
    cases hw
  | ok w₁ =>
    rw [hbefore] at hw
    have hw : walkRounds w₁ (m :: after) = .ok w := hw
    rw [walkRounds] at hw
    split at hw
    · cases hw
    · rename_i hstep
      have hdecl := (RoundWalk.step_answers hstep hcalls hres hcid).1
      rw [walkRounds_declared hbefore] at hdecl
      exact hnew (by simpa using hdecl)

/-- **When trimming leaves a projection that passes**: exactly when none of the projections it goes
through shows a result with an empty call id before any call of that id. -/
theorem trim_passes_iff (s : Session) (ids : List MessageId) :
    checkRoundsOver (s.lookupWith []) (s.trimToRoundBoundary ids) s.records = .ok () ↔
      ∀ ids', s.Trims ids ids' → ¬ EmptyOrphan (ids'.filterMap s.messageBy) := by
  obtain ⟨hrun, hend⟩ := s.trims_trimToRoundBoundary ids
  constructor
  · intro hok ids' hrun' horphan
    have hlast := horphan.of_trims (hrun'.of_end hrun hend)
    exact hlast.not_roundsHold (checkRoundsOver_ok_iff.1 hok)
  · intro hno
    rcases s.trimToRoundBoundary_ok_or_stuck ids with hok | hstuck
    · exact hok
    · exact absurd hstuck.emptyOrphan (hno _ hrun)

section
variable [SerdeJson]

end

/-- The calls that are shown and that nothing shown answers. -/
def pendingCalls (s : Session) : List String :=
  match walkRounds ⟨[], [], []⟩ s.projection with
  | .ok w => w.declared.filter fun c => !w.answered.contains c
  | .error _ => []

/-- A projection in order stays in order, as more is answered, exactly as long as what is answered
was not waiting. -/
theorem roundsHold_answered {records : List StoredRecord} {answers : List String}
    (hok : RoundsHold s.projection s.records)
    (hrec : answeredSomewhere records = answeredSomewhere s.records ++ answers) :
    RoundsHold s.projection records ↔ ∀ c ∈ answers, c ∉ s.pendingCalls := by
  obtain ⟨w, hw, hall⟩ := hok
  have hpending : s.pendingCalls = w.declared.filter fun c => !w.answered.contains c := by
    rw [pendingCalls, hw]
  rw [hpending]
  constructor
  · rintro ⟨w', hw', hall'⟩ c hc hmem
    rw [hw] at hw'
    cases hw'
    have hans := hall' c (mem_of_mem_filter hmem)
      (by rw [hrec]; exact mem_append_right _ hc)
    simpa [hans] using of_mem_filter hmem
  · intro hno
    refine ⟨w, hw, fun c hc hsome => ?_⟩
    rw [hrec] at hsome
    rcases mem_append.1 hsome with hsome | hsome
    · exact hall c hc hsome
    · by_contra hans
      exact hno c hsome (mem_filter.2 ⟨hc, by simpa using hans⟩)

/-- Where the walk goes through, trimming changes nothing exactly when the check passes. -/
theorem trim_eq_self_iff {w : RoundWalk}
    (hw : walkRounds ⟨[], [], []⟩ (ids.filterMap (s.lookupWith [])) = .ok w) :
    s.trimToRoundBoundary ids = ids ↔
      checkRoundsOver (s.lookupWith []) ids s.records = .ok () := by
  constructor
  · intro hsame
    rcases s.trimToRoundBoundary_ok_or_stuck ids with hok | hstuck
    · rwa [hsame] at hok
    · rw [hsame] at hstuck
      exact absurd hstuck (not_stuck_of_walk hw)
  · intro hok
    rw [trimToRoundBoundary, trimLoop, hok]

section
variable [SerdeJson]

/-- Push each message in turn. -/
def pushAll (s : Session) : List Message → Session
  | [] => s
  | m :: ms => (s.push m).2.pushAll ms

/-- What a list of pushes leaves: the projection has grown, the messages it showed are the ones it
shows, and the records answer whatever the pushed messages answer. -/
structure Pushed (s t : Session) (ms : List Message) : Prop where
  live : Live t
  active : ∃ new, t.active = s.active ++ new ∧ new.length = ms.length
  shown : ∀ id ∈ s.active, t.messageBy id = s.messageBy id
  answered : answeredSomewhere t.records = answeredSomewhere s.records ++ ms.filterMap answerOf

theorem pushed_pushAll {s : Session} (h : Live s) (ms : List Message) :
    Pushed s (s.pushAll ms) ms := by
  induction ms generalizing s with
  | nil => exact ⟨h, ⟨[], (append_nil _).symm, rfl⟩, fun _ _ => rfl, (append_nil _).symm⟩
  | cons m ms ih =>
    have hrest := ih (live_push h m)
    have hact : (s.push m).2.active = s.active ++ [s.nextId] := rfl
    have hrec : (s.push m).2.records = s.records ++ [⟨s.nextId, m, none⟩] := rfl
    obtain ⟨new, hnew, hlen⟩ := hrest.active
    refine ⟨hrest.live, ⟨s.nextId :: new, ?_, by simp [hlen]⟩, fun id hid => ?_, ?_⟩
    · rw [pushAll, hnew, hact, append_assoc]
      rfl
    · have hkept : (s.push m).2.messageBy id = s.messageBy id :=
        mint_messageBy_lt h.ok m (h.ok.active_lt id hid)
      rw [pushAll, hrest.shown id (by rw [hact]; exact mem_append_left _ hid), hkept]
    · rw [pushAll, hrest.answered, hrec, answeredSomewhere_append, append_assoc]
      cases hans : answerOf m <;> simp [hans]

/-- **`rollback_to`.**  On every session that can be reached and whose projection is in order,
withdrawing whatever was pushed after it gives back the projection there was, the same ids in the
same order, exactly when nothing that was pushed answers a call that is still waiting in it. -/
theorem rollback_exact_iff {s : Session} (h : FromNew s) (hok : s.RoundsOk) (ms : List Message) :
    ∃ u, (s.pushAll ms).rollbackTo s.active.length = some u ∧
      (u.active = s.active ↔ ∀ m ∈ ms, ∀ c, answerOf m = some c → c ∉ s.pendingCalls) := by
  have hpushed := pushed_pushAll h.live ms
  obtain ⟨new, hnew, hlen⟩ := hpushed.active
  obtain ⟨u, hu, -, -, -, hact⟩ := rollbackTo_spec hpushed.live s.active.length
  refine ⟨u, hu, ?_⟩
  rw [hact]
  by_cases hnil : ms = []
  · subst hnil
    have hsame : (s.pushAll []).active = s.active := rfl
    rw [hsame, if_pos (Nat.le_refl _)]
    exact iff_of_true rfl fun m hm => by cases hm
  · have hpos : 0 < new.length := by
      rw [hlen]
      exact List.length_pos_iff.2 hnil
    have hgrown : ¬ (s.pushAll ms).active.length ≤ s.active.length := by
      rw [hnew, List.length_append]
      omega
    -- the ids that stay are read as they were
    have hread : s.active.filterMap ((s.pushAll ms).lookupWith []) = s.projection := by
      rw [h.live.projection]
      exact List.filterMap_congr fun id hid => hpushed.shown id hid
    rw [roundsOk_iff, ← h.live.projection] at hok
    have hwalk := hok
    obtain ⟨w, hw, -⟩ := hwalk
    rw [if_neg hgrown, hnew, List.take_left', trim_eq_self_iff (by rw [hread]; exact hw),
      checkRoundsOver_ok_iff, hread, roundsHold_answered hok hpushed.answered]
    · simp only [List.mem_filterMap]
      exact ⟨fun hall m hm c hc => hall c ⟨m, hm, hc⟩, fun hall c ⟨m, hm, hc⟩ => hall m hm c hc⟩
    · rfl

end

/-- A call is waiting, and what is pushed and withdrawn is a question. -/
theorem rollback_exact_question :
    letI := SerdeJson.plain
    let call := Message.assistantToolCalls [⟨"a", "function", ⟨none, "f", .object []⟩⟩]
    let s := ((blank "s").push call).2
    ∃ u, (s.pushAll [.user "hi"]).rollbackTo s.active.length = some u ∧
      (u.active = s.active ↔ ∀ m ∈ [Message.user "hi"], ∀ c, answerOf m = some c →
        c ∉ s.pendingCalls) := by
  let _ := SerdeJson.plain
  let call := Message.assistantToolCalls [⟨"a", "function", ⟨none, "f", .object []⟩⟩]
  exact rollback_exact_iff (s := ((blank "s").push call).2)
    ⟨blank "s", [.push call], ⟨"s", rfl⟩, rfl⟩ (by decide) [.user "hi"]

/-- A call is waiting, and what is pushed and withdrawn is its answer: the call goes too. -/
theorem rollback_takes_the_call :
    letI := SerdeJson.plain
    let call := Message.assistantToolCalls [⟨"a", "function", ⟨none, "f", .object []⟩⟩]
    let s := ((blank "s").push call).2
    FromNew s ∧ s.RoundsOk ∧ s.active = [0] ∧
      ∃ u, (s.pushAll [.toolResultFor "a" "x"]).rollbackTo s.active.length = some u ∧
        u.active = [] := by
  let _ := SerdeJson.plain
  let call := Message.assistantToolCalls [⟨"a", "function", ⟨none, "f", .object []⟩⟩]
  exact ⟨⟨blank "s", [.push call], ⟨"s", rfl⟩, rfl⟩, by decide, rfl, _, rfl, by decide⟩

end Session
end Gen2
