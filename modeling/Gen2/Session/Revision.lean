import Gen2.Session.Replay

/-!
# What the revision counts

The revision of a session is the number of its events that change what the model sees, and it moves
by one exactly when the system prompt, the tools or the active projection does.  An operation that
is refused leaves everything as it was.

Nothing here asks that the session was only ever changed by its own operations: it may also have
been replayed from an event log, and from any log at all.  What is needed of it is little: that the
ids of the projection and of the index are below the next one to be handed out, so that a new
message is never one that is shown already.
-/

namespace Gen2

open Lib List

namespace Session

/-! ## What is kept of a session -/

/-- The revision counts the events that move it, and the ids in use are below the next one. -/
structure Numbered (s : Session) : Prop where
  revision : s.revision = s.events.countP SessionEvent.movesRevision
  active_lt : ∀ id : Nat, id ∈ s.active → id < s.nextId
  index_lt : ∀ id : Nat, (s.index.lookup id).isSome → id < s.nextId

/-- The model sees the same system prompt, tools and messages. -/
def SameView (s t : Session) : Prop :=
  t.system = s.system ∧ t.tools = s.tools ∧ t.active = s.active

/-- The system prompt, the tools or the active projection has changed. -/
def ViewChanged (s t : Session) : Prop :=
  t.system ≠ s.system ∨ (s.tools == t.tools) = false ∨ t.active ≠ s.active

/-- The revision stays where it is, or moves by one for a change of what the model sees. -/
def Accounted (s t : Session) : Prop :=
  t.revision = s.revision ∧ SameView s t ∨ t.revision = s.revision + 1 ∧ ViewChanged s t

theorem Accounted.refl (s : Session) : Accounted s s := .inl ⟨rfl, rfl, rfl, rfl⟩

/-- Messages have been recorded, and nothing else has changed. -/
structure Recorded (s t : Session) : Prop where
  numbered : Numbered t
  revision : t.revision = s.revision
  view : SameView s t
  nextId : s.nextId ≤ t.nextId

variable {s : Session}

theorem Recorded.refl (h : Numbered s) : Recorded s s :=
  ⟨h, rfl, ⟨rfl, rfl, rfl⟩, Nat.le_refl _⟩

theorem Recorded.trans {t u : Session} (hst : Recorded s t) (htu : Recorded t u) : Recorded s u :=
  ⟨htu.numbered, htu.revision.trans hst.revision,
    ⟨htu.view.1.trans hst.view.1, htu.view.2.1.trans hst.view.2.1,
      htu.view.2.2.trans hst.view.2.2⟩, hst.nextId.trans htu.nextId⟩

theorem Recorded.accounted {t u : Session} (hst : Recorded s t) (htu : Accounted t u) :
    Accounted s u := by
  obtain ⟨hsys, htools, hact⟩ := hst.view
  simpa only [Accounted, SameView, ViewChanged, hsys, htools, hact, hst.revision] using htu

/-! ## Recording -/

theorem lookup_insert_lt {index : AList fun _ : MessageId => Nat} {n i : Nat}
    (h : ∀ id : Nat, (index.lookup id).isSome → id < n) (id : Nat)
    (hid : ((index.insert n i).lookup id).isSome) : id < n + 1 := by
  by_cases heq : id = n
  · omega
  · rw [AList.lookup_insert_ne heq] at hid
    exact Nat.lt_succ_of_lt (h id hid)

theorem validateIds_isSome {seen ids : List MessageId} (h : s.validateIds seen ids = .ok ()) :
    ∀ id : Nat, id ∈ ids → (s.index.lookup id).isSome := by
  induction ids generalizing seen with
  | nil => simp
  | cons id ids ih =>
    rw [validateIds] at h
    split at h
    · cases h
    next hsome =>
      split at h
      · cases h
      · intro j hj
        rcases mem_cons.1 hj with rfl | hj
        · exact Option.isSome_iff_ne_none.2 (by simpa using hsome)
        · exact ih h j hj

/-! ## Replaying any log -/

/-- The ids in use are below the next one. -/
structure Below (s : Session) : Prop where
  active_lt : ∀ id : Nat, id ∈ s.active → id < s.nextId
  index_lt : ∀ id : Nat, (s.index.lookup id).isSome → id < s.nextId

theorem lt_store (s : Session) (id : MessageId) (m : Message) : id < (s.store id m).nextId :=
  Nat.lt_of_lt_of_le (Nat.lt_succ_self id) (Nat.le_max_right ..)

theorem Below.store (h : Below s) (id : MessageId) (m : Message) :
    Below (s.store id m) where
  active_lt i hi := Nat.lt_of_lt_of_le (h.active_lt i hi) (Nat.le_max_left ..)
  index_lt i hi := by
    by_cases heq : i = id
    · rw [heq]
      exact lt_store s id m
    · have hi' : (s.index.lookup i).isSome := by
        rwa [show (s.store id m).index = s.index.insert id s.records.length from rfl,
          AList.lookup_insert_ne heq] at hi
      exact Nat.lt_of_lt_of_le (h.index_lt i hi') (Nat.le_max_left ..)

theorem Below.set (h : Below s) {new : MessageId} (hnew : new < s.nextId) (slot : Nat) :
    Below { s with active := s.active.set slot new } := by
  refine ⟨fun i hi => ?_, h.index_lt⟩
  rcases mem_or_eq_of_mem_set hi with hi | rfl
  · exact h.active_lt i hi
  · exact hnew

theorem Below.append (h : Below s) {new : MessageId} (hnew : new < s.nextId) :
    Below { s with active := s.active ++ [new] } := by
  refine ⟨fun i hi => ?_, h.index_lt⟩
  rcases mem_append.1 hi with hi | hi
  · exact h.active_lt i hi
  · obtain rfl := mem_singleton.1 hi
    exact hnew

theorem Below.replayEvent (h : Below s) (e : SessionEvent) : Below (s.replayEvent e) := by
  cases e with
  | systemSet system => exact ⟨h.active_lt, h.index_lt⟩
  | toolsSet tools => exact ⟨h.active_lt, h.index_lt⟩
  | messageAdded id m =>
    exact (h.store id m).append (lt_store s id m)
  | messageReplaced old new m =>
    have hs := h.store new m
    have hnew := lt_store s new m
    rw [Session.replayEvent]
    cases (s.store new m).index.lookup old with
    | some i =>
      have hmarked : Below { s.store new m with
          records := (s.store new m).records.modify i fun r => { r with replacedBy := some new } } :=
        ⟨hs.active_lt, hs.index_lt⟩
      dsimp only
      split
      · exact hmarked.set hnew _
      · exact hmarked.append hnew
    | none =>
      dsimp only
      split
      · exact hs.set hnew _
      · exact hs.append hnew
  | messageRemoved id =>
    exact ⟨fun i hi => h.active_lt i (mem_of_mem_filter hi), h.index_lt⟩
  | messageRecorded id m => exact h.store id m
  | contextReplaced active reason =>
    exact ⟨fun i hi => h.index_lt i (mem_filter.1 hi).2, h.index_lt⟩
  | forked parent at_ =>
    cases at_ with
    | none => exact h
    | some at_ =>
      rw [Session.replayEvent]
      split
      · exact ⟨fun i hi => h.active_lt i (mem_of_mem_take hi), h.index_lt⟩
      · exact h

theorem below_foldl (h : Below s) (events : List SessionEvent) :
    Below (events.foldl Session.replayEvent s) := by
  induction events generalizing s with
  | nil => exact h
  | cons e events ih => exact ih (h.replayEvent e)

section
variable [SerdeJson]

variable {s : Session}

theorem recorded_record (h : Numbered s) (m : Message) :
    Recorded s (s.record m).2 where
  numbered :=
    { revision := by simp [record, mint, h.revision, SessionEvent.movesRevision]
      active_lt := fun id hid => Nat.lt_succ_of_lt (h.active_lt id hid)
      index_lt := lookup_insert_lt h.index_lt }
  revision := rfl
  view := ⟨rfl, rfl, rfl⟩
  nextId := Nat.le_succ _

theorem recorded_recordAll (h : Numbered s) (ms : List Message) :
    Recorded s (s.recordAll ms).2 ∧ ∀ id : Nat, id ∈ (s.recordAll ms).1 →
      id < (s.recordAll ms).2.nextId := by
  induction ms generalizing s with
  | nil => exact ⟨.refl h, by simp [recordAll]⟩
  | cons m ms ih =>
    have hone := recorded_record h m
    obtain ⟨hrest, hlt⟩ := ih hone.numbered
    refine ⟨hone.trans hrest, fun id hid => ?_⟩
    rcases mem_cons.1 hid with heq | hid
    · have hnew : id < (s.record m).2.nextId := heq ▸ Nat.lt_succ_self s.nextId
      exact Nat.lt_of_lt_of_le hnew hrest.nextId
    · exact hlt id hid

variable {t : Session} {ms : List Message} {ids : List MessageId}

theorem recorded_idsForEdited (h : Numbered s) {cursor : Nat}
    (hrun : s.idsForEditedLoop cursor ms = some (ids, t)) :
    Recorded s t ∧ ∀ id : Nat, id ∈ ids → id < t.nextId := by
  induction ms generalizing s cursor ids with
  | nil =>
    obtain ⟨rfl, rfl⟩ : [] = ids ∧ s = t := by simpa [idsForEditedLoop] using hrun
    exact ⟨.refl h, by simp⟩
  | cons m ms ih =>
    rw [idsForEditedLoop] at hrun
    simp only [Option.bind_eq_bind, Option.bind_eq_some_iff] at hrun
    obtain ⟨o, -, hrun⟩ := hrun
    cases o with
    | some offset =>
      simp only [Option.bind_eq_some_iff, Option.pure_def, Option.some.injEq, Prod.mk.injEq,
        Prod.exists] at hrun
      obtain ⟨id, hid, rest, u, hrest, rfl, rfl⟩ := hrun
      obtain ⟨hrec, hlt⟩ := ih h hrest
      refine ⟨hrec, fun j hj => ?_⟩
      rcases mem_cons.1 hj with rfl | hj
      · exact Nat.lt_of_lt_of_le (h.active_lt j (mem_of_getElem? hid)) hrec.nextId
      · exact hlt j hj
    | none =>
      simp only [Option.bind_eq_some_iff, Option.pure_def, Option.some.injEq, Prod.mk.injEq,
        Prod.exists] at hrun
      obtain ⟨rest, u, hrest, rfl, rfl⟩ := hrun
      have hone := recorded_record h m
      obtain ⟨hrec, hlt⟩ := ih hone.numbered hrest
      refine ⟨hone.trans hrec, fun j hj => ?_⟩
      rcases mem_cons.1 hj with heq | hj
      · have hnew : j < (s.record m).2.nextId := heq ▸ Nat.lt_succ_self s.nextId
        exact Nat.lt_of_lt_of_le hnew hrec.nextId
      · exact hlt j hj

/-! ## Changing the projection -/

/-- The projection and the fingerprint have been computed anew, and nothing else has changed. -/
structure Rebuilt (s t : Session) : Prop where
  core : t.core = s.core
  events : t.events = s.events
  revision : t.revision = s.revision

theorem rebuilt_of_rebuildProjection (h : s.rebuildProjection = some t) : Rebuilt s t := by
  simp only [rebuildProjection, Option.bind_eq_bind, Option.bind_eq_some_iff, Option.pure_def,
    Option.some.injEq] at h
  obtain ⟨projection, -, rfl⟩ := h
  exact ⟨rfl, rfl, rfl⟩

theorem rebuilt_of_afterProjectionChange (h : s.afterProjectionChange = some t) : Rebuilt s t := by
  simp only [afterProjectionChange, Option.bind_eq_bind, Option.bind_eq_some_iff, Option.pure_def,
    Option.some.injEq] at h
  obtain ⟨u, hu, rfl⟩ := h
  obtain ⟨hcore, hevents, hrev⟩ := rebuilt_of_rebuildProjection hu
  exact ⟨hcore, hevents, hrev⟩

/-- An event that moves the revision is logged on a session that shows something else. -/
theorem committed {u : Session} {e : SessionEvent} (h : Numbered s) (he : e.movesRevision = true)
    (hevents : u.events = s.events) (hrev : u.revision = s.revision)
    (hactive : ∀ id : Nat, id ∈ u.active → id < u.nextId)
    (hindex : ∀ id : Nat, (u.index.lookup id).isSome → id < u.nextId) (hview : ViewChanged s u)
    (ht : Rebuilt (u.log e) t) : Numbered t ∧ Accounted s t := by
  have hcore : t.core = u.core := ht.core.trans (log_core u e)
  have hact : t.active = u.active := congrArg Core.active hcore
  have hnext : t.nextId = u.nextId := congrArg Core.nextId hcore
  have hidx : t.index = u.index := congrArg Core.index hcore
  have hsys : t.system = u.system := congrArg Core.system hcore
  have htools : t.tools = u.tools := congrArg Core.tools hcore
  have hmoved : t.revision = s.revision + 1 := by simp [ht.revision, he, hrev]
  refine ⟨⟨?_, ?_, ?_⟩, .inr ⟨hmoved, ?_⟩⟩
  · rw [hmoved, ht.events, log_events, countP_append, hevents, h.revision]
    simp [he]
  · rw [hact, hnext]
    exact hactive
  · rw [hidx, hnext]
    exact hindex
  · rw [ViewChanged, hsys, htools, hact]
    exact hview

theorem setActive_accounted (h : Numbered s) {active : List MessageId}
    (hlt : ∀ id : Nat, id ∈ active → id < s.nextId) {reason : String} {close : Bool}
    (hrun : s.setActive active reason close = some t) : Numbered t ∧ Accounted s t := by
  rw [setActive] at hrun
  split at hrun
  · obtain rfl := Option.some.inj hrun
    exact ⟨h, .refl s⟩
  next hne =>
    refine committed (u := { s with active }) (e := .contextReplaced active (some reason)) h rfl rfl
      rfl hlt h.index_lt (.inr (.inr hne)) ?_
    cases close with
    | true => exact rebuilt_of_afterProjectionChange hrun
    | false => exact rebuilt_of_rebuildProjection hrun

theorem putSystem_accounted (h : Numbered s) (system : Option String) :
    Numbered (s.putSystem system) ∧ Accounted s (s.putSystem system) := by
  rw [putSystem]
  split
  · exact ⟨h, .refl s⟩
  next hne =>
    exact committed (u := { s with system }) (e := .systemSet system) h rfl rfl rfl h.active_lt
      h.index_lt (.inl fun heq => hne heq.symm) ⟨rfl, rfl, rfl⟩

theorem putTools_accounted (h : Numbered s) (tools : ToolSet) :
    Numbered (s.putTools tools) ∧ Accounted s (s.putTools tools) := by
  rw [putTools]
  split
  · exact ⟨h, .refl s⟩
  next hne =>
    exact committed (u := { s with tools }) (e := .toolsSet tools) h rfl rfl rfl h.active_lt
      h.index_lt (.inr (.inl (by simpa using hne))) ⟨rfl, rfl, rfl⟩

theorem push_accounted (h : Numbered s) (m : Message) :
    Numbered (s.push m).2 ∧ Accounted s (s.push m).2 := by
  refine committed (u := { (s.mint m).2 with
    active := s.active ++ [s.nextId], projection := s.projection ++ [m] })
    (e := .messageAdded s.nextId m) h rfl rfl rfl (fun id hid => ?_) (lookup_insert_lt h.index_lt)
    (.inr (.inr (by simp))) ⟨rfl, rfl, rfl⟩
  rcases mem_append.1 hid with hid | hid
  · exact Nat.lt_succ_of_lt (h.active_lt id hid)
  · obtain rfl := mem_singleton.1 hid
    exact Nat.lt_succ_self _

/-! ## Every operation -/

theorem replaceMessage_accounted (h : Numbered s) {old : MessageId} {m : Message}
    {r : Except SessionError MessageId} (hrun : s.replaceMessage old m = some (r, t)) :
    Numbered t ∧ Accounted s t := by
  rw [replaceMessage] at hrun
  split at hrun
  · cases hrun
    exact ⟨h, .refl s⟩
  next slot hslot =>
    dsimp only at hrun
    split at hrun
    · cases hrun
      exact ⟨h, .refl s⟩
    simp only [Option.bind_eq_bind, Option.bind_eq_some_iff, Option.pure_def, Option.some.injEq,
      Prod.mk.injEq] at hrun
    obtain ⟨i, -, u, hu, -, rfl⟩ := hrun
    have hbelow : slot < s.active.length :=
      (findIdx?_eq_some_iff_getElem.1 (activeSlot_ok hslot)).1
    refine committed (u := { (s.mint m).2 with
      records := (s.mint m).2.records.modify i fun r => { r with replacedBy := some s.nextId }
      active := s.active.set slot s.nextId }) (e := .messageReplaced old s.nextId m) h rfl rfl rfl
      (fun id hid => ?_) (lookup_insert_lt h.index_lt) (.inr (.inr fun heq => ?_))
      (rebuilt_of_afterProjectionChange hu)
    · rcases mem_or_eq_of_mem_set hid with hid | rfl
      · exact Nat.lt_succ_of_lt (h.active_lt id hid)
      · exact Nat.lt_succ_self _
    · -- the new id is not among those shown before
      have hmem : s.nextId ∈ s.active.set slot s.nextId := mem_set hbelow _
      rw [show s.active.set slot s.nextId = s.active from heq] at hmem
      exact Nat.lt_irrefl _ (h.active_lt _ hmem)

variable {r : Except SessionError Unit}

theorem removeMessage_accounted (h : Numbered s) {id : MessageId}
    (hrun : s.removeMessage id = some (r, t)) : Numbered t ∧ Accounted s t := by
  rw [removeMessage] at hrun
  split at hrun
  · cases hrun
    exact ⟨h, .refl s⟩
  next slot hslot =>
    dsimp only at hrun
    split at hrun
    · cases hrun
      exact ⟨h, .refl s⟩
    simp only [Option.bind_eq_bind, Option.bind_eq_some_iff, Option.pure_def, Option.some.injEq,
      Prod.mk.injEq] at hrun
    obtain ⟨u, hu, -, rfl⟩ := hrun
    have hbelow : slot < s.active.length :=
      (findIdx?_eq_some_iff_getElem.1 (activeSlot_ok hslot)).1
    refine committed (u := { s with active := s.active.eraseIdx slot })
      (e := .messageRemoved id) h rfl rfl rfl
      (fun id hid => h.active_lt id ((eraseIdx_sublist ..).subset hid)) h.index_lt
      (.inr (.inr fun heq => ?_)) (rebuilt_of_afterProjectionChange hu)
    have hlen := congrArg length heq
    rw [length_eraseIdx_of_lt hbelow] at hlen
    omega

theorem replaceMessages_accounted (h : Numbered s) (hrun : s.replaceMessages ms = some (r, t)) :
    Numbered t ∧ Accounted s t := by
  rw [replaceMessages] at hrun
  dsimp only at hrun
  split at hrun
  · cases hrun
    exact ⟨h, .refl s⟩
  simp only [Option.bind_eq_bind, Option.bind_eq_some_iff, Option.pure_def, Option.some.injEq,
    Prod.mk.injEq] at hrun
  obtain ⟨u, hu, -, rfl⟩ := hrun
  obtain ⟨hrec, hlt⟩ := recorded_recordAll h ms
  obtain ⟨hnum, hacc⟩ := setActive_accounted hrec.numbered hlt hu
  exact ⟨hnum, hrec.accounted hacc⟩

theorem restoreContext_accounted (h : Numbered s) (hrun : s.restoreContext ids = some (r, t)) :
    Numbered t ∧ Accounted s t := by
  rw [restoreContext] at hrun
  split at hrun
  · cases hrun
    exact ⟨h, .refl s⟩
  next hvalid =>
    split at hrun
    · cases hrun
      exact ⟨h, .refl s⟩
    · simp only [Option.bind_eq_bind, Option.bind_eq_some_iff, Option.pure_def, Option.some.injEq,
        Prod.mk.injEq] at hrun
      obtain ⟨u, hu, -, rfl⟩ := hrun
      exact setActive_accounted h (fun id hid => h.index_lt id (validateIds_isSome hvalid id hid)) hu

theorem edit_accounted (h : Numbered s) {f : List Message → List Message}
    (hrun : s.edit f = some t) : Numbered t ∧ Accounted s t := by
  simp only [edit, idsForEdited, Option.bind_eq_bind, Option.bind_eq_some_iff, Prod.exists] at hrun
  obtain ⟨ids, u, hids, hrun⟩ := hrun
  obtain ⟨hrec, hlt⟩ := recorded_idsForEdited h hids
  split at hrun
  · obtain ⟨hnum, hacc⟩ := setActive_accounted hrec.numbered
      (fun id hid => hlt id ((u.trimToRoundBoundary_sublist ids).subset hid)) hrun
    exact ⟨hnum, hrec.accounted hacc⟩
  · obtain rfl := Option.some.inj hrun
    exact ⟨⟨hrec.numbered.revision, hrec.numbered.active_lt, hrec.numbered.index_lt⟩,
      .inl ⟨hrec.revision, hrec.view⟩⟩

theorem clear_accounted (h : Numbered s) (hrun : s.clear = some t) :
    Numbered t ∧ Accounted s t := by
  rw [clear] at hrun
  by_cases hempty : s.active.isEmpty = true
  · rw [if_pos hempty] at hrun
    obtain rfl := Option.some.inj hrun
    exact ⟨⟨h.revision, h.active_lt, h.index_lt⟩, .refl s⟩
  · rw [if_neg hempty] at hrun
    obtain ⟨u, hu, heq⟩ := Option.bind_eq_some_iff.1 hrun
    obtain rfl := Option.some.inj heq
    obtain ⟨hnum, hacc⟩ := setActive_accounted h (by simp) hu
    exact ⟨⟨hnum.revision, hnum.active_lt, hnum.index_lt⟩, hacc⟩

theorem rollbackTo_accounted (h : Numbered s) {len : Nat} (hrun : s.rollbackTo len = some t) :
    Numbered t ∧ Accounted s t := by
  rw [rollbackTo] at hrun
  split at hrun
  · obtain rfl := Option.some.inj hrun
    exact ⟨h, .refl s⟩
  · exact setActive_accounted h (fun id hid => h.active_lt id
      (((s.trimToRoundBoundary_sublist _).trans (take_sublist ..)).subset hid)) hrun

/-- A fork begins one revision on, with the parent's events and one more. -/
theorem forkWith_numbered (h : Numbered s) {id : SessionId} {active : List MessageId}
    {at_ : Option MessageId} (hsub : active ⊆ s.active) (hrun : s.forkWith id active at_ = some t) :
    Numbered t := by
  obtain ⟨hcore, hevents, hrev⟩ := rebuilt_of_rebuildProjection hrun
  have hfork : t.core = (s.forkBase id active).core :=
    hcore.trans (log_core (s.forkBase id active) _)
  refine ⟨?_, fun i hi => ?_, fun i hi => ?_⟩
  · rw [hrev, hevents, log_events, log_revision, countP_append]
    simp [h.revision, SessionEvent.movesRevision]
  · rw [show t.nextId = s.nextId from congrArg Core.nextId hfork]
    rw [show t.active = active from congrArg Core.active hfork] at hi
    exact h.active_lt i (hsub hi)
  · rw [show t.nextId = s.nextId from congrArg Core.nextId hfork]
    rw [show t.index = s.index from congrArg Core.index hfork] at hi
    exact h.index_lt i hi

/-- The operation leaves the session itself alone and makes another. -/
def Op.forks : Op → Bool
  | .fork _ | .forkAt _ _ => true
  | _ => false

/-- **The step lemma.** -/
theorem apply_accounted (h : Numbered s) {op : Op} (hrun : apply op s = some t) :
    Numbered t ∧ (op.forks = false → Accounted s t) := by
  have hboth : ∀ {t : Session}, Numbered t ∧ Accounted s t →
      Numbered t ∧ (op.forks = false → Accounted s t) := fun h => ⟨h.1, fun _ => h.2⟩
  cases op with
  | push m =>
    obtain rfl := Option.some.inj hrun
    exact hboth (push_accounted h m)
  | replaceMessage old m =>
    obtain ⟨⟨r, u⟩, hu, rfl⟩ := Option.map_eq_some_iff.1 hrun
    exact hboth (replaceMessage_accounted h hu)
  | removeMessage id =>
    obtain ⟨⟨r, u⟩, hu, rfl⟩ := Option.map_eq_some_iff.1 hrun
    exact hboth (removeMessage_accounted h hu)
  | replaceMessages ms =>
    obtain ⟨⟨r, u⟩, hu, rfl⟩ := Option.map_eq_some_iff.1 hrun
    exact hboth (replaceMessages_accounted h hu)
  | restoreContext ids =>
    obtain ⟨⟨r, u⟩, hu, rfl⟩ := Option.map_eq_some_iff.1 hrun
    exact hboth (restoreContext_accounted h hu)
  | edit f => exact hboth (edit_accounted h hrun)
  | clear => exact hboth (clear_accounted h hrun)
  | rollbackTo len => exact hboth (rollbackTo_accounted h hrun)
  | fork id => exact ⟨forkWith_numbered h (List.Subset.refl _) hrun, fun hforks => by cases hforks⟩
  | forkAt id at_ =>
    refine ⟨?_, fun hforks => by cases hforks⟩
    obtain ⟨r, hr, rfl⟩ := Option.map_eq_some_iff.1 hrun
    cases r with
    | error e => exact h
    | ok u =>
      rw [forkAt] at hr
      split at hr
      · cases hr
      dsimp only at hr
      split at hr
      · cases hr
      · obtain ⟨v, hv, heq⟩ := Option.map_eq_some_iff.1 hr
        obtain rfl := Except.ok.inj heq
        exact forkWith_numbered h (take_subset ..) hv
  | setSystem text | appendSystem text | clearSystem =>
    obtain rfl := Option.some.inj hrun
    exact hboth (putSystem_accounted h _)
  | setTools tools | addTool tool | removeTool name =>
    obtain rfl := Option.some.inj hrun
    exact hboth (putTools_accounted h _)

/-! ## Where sessions come from -/

theorem numbered_replay {id : SessionId} {events : List SessionEvent}
    (h : replay id events = some s) : Numbered s := by
  obtain ⟨hcore, hevents, hrev⟩ := rebuilt_of_rebuildProjection h
  have hblank : Below (blank id) := ⟨by simp [blank], by simp [blank]⟩
  have hbelow := below_foldl hblank events
  refine ⟨by rw [hrev, hevents], fun i hi => ?_, fun i hi => ?_⟩
  · rw [show s.active = _ from congrArg Core.active hcore] at hi
    rw [show s.nextId = _ from congrArg Core.nextId hcore]
    exact hbelow.active_lt i hi
  · rw [show s.index = _ from congrArg Core.index hcore] at hi
    rw [show s.nextId = _ from congrArg Core.nextId hcore]
    exact hbelow.index_lt i hi

/-- A session that a new one, or one replayed from any event log, can become. -/
def FromLog (s : Session) : Prop :=
  Reachable apply (fun s => (∃ id, s = blank id) ∨ ∃ id events, replay id events = some s) s

theorem FromLog.numbered (h : FromLog s) : Numbered s := by
  refine Reachable.preserved ?_ (fun s op t hs hrun => (apply_accounted hs hrun).1) h
  rintro s (⟨id, rfl⟩ | ⟨id, events, hreplay⟩)
  · exact ⟨rfl, by simp [blank], by simp [blank]⟩
  · exact numbered_replay hreplay

/-! ## Refusals -/

variable {e : SessionError}

theorem replaceMessage_refused {old : MessageId} {m : Message}
    (h : s.replaceMessage old m = some (.error e, t)) : t = s := by
  rw [replaceMessage] at h
  split at h
  · exact ((Prod.mk.inj (Option.some.inj h)).2).symm
  · dsimp only at h
    split at h
    · exact ((Prod.mk.inj (Option.some.inj h)).2).symm
    · simp [Option.bind_eq_some_iff] at h

theorem removeMessage_refused {id : MessageId} (h : s.removeMessage id = some (.error e, t)) :
    t = s := by
  rw [removeMessage] at h
  split at h
  · exact ((Prod.mk.inj (Option.some.inj h)).2).symm
  · dsimp only at h
    split at h
    · exact ((Prod.mk.inj (Option.some.inj h)).2).symm
    · simp [Option.bind_eq_some_iff] at h

theorem replaceMessages_refused (h : s.replaceMessages ms = some (.error e, t)) : t = s := by
  rw [replaceMessages] at h
  dsimp only at h
  split at h
  · exact ((Prod.mk.inj (Option.some.inj h)).2).symm
  · simp [Option.bind_eq_some_iff] at h

theorem restoreContext_refused (h : s.restoreContext ids = some (.error e, t)) : t = s := by
  rw [restoreContext] at h
  split at h
  · exact ((Prod.mk.inj (Option.some.inj h)).2).symm
  · split at h
    · exact ((Prod.mk.inj (Option.some.inj h)).2).symm
    · simp [Option.bind_eq_some_iff] at h

theorem forkAt_refused {id : SessionId} {at_ : MessageId} (h : s.forkAt id at_ = some (.error e)) :
    apply (.forkAt id at_) s = some s := by
  rw [apply, h]
  rfl

/-- **Refusals change nothing, and the revision counts the changes.**  A refused operation leaves
the session as it was; the revision is the number of events other than a recorded message; and it
moves, by one, exactly when the system prompt, the tools or the active projection changes. -/
theorem revision_counts {s : Session} (h : FromLog s) :
    (∀ old m e t, s.replaceMessage old m = some (.error e, t) → t = s) ∧
    (∀ id e t, s.removeMessage id = some (.error e, t) → t = s) ∧
    (∀ ms e t, s.replaceMessages ms = some (.error e, t) → t = s) ∧
    (∀ ids e t, s.restoreContext ids = some (.error e, t) → t = s) ∧
    (∀ id at_ e, s.forkAt id at_ = some (.error e) → apply (.forkAt id at_) s = some s) ∧
    s.revision = s.events.countP SessionEvent.movesRevision ∧
    ∀ op t, op.forks = false → apply op s = some t → Accounted s t :=
  ⟨fun _ _ _ _ => replaceMessage_refused, fun _ _ _ => removeMessage_refused,
    fun _ _ _ => replaceMessages_refused, fun _ _ _ => restoreContext_refused,
    fun _ _ _ => forkAt_refused, h.numbered.revision,
    fun _ _ hforks hrun => (apply_accounted h.numbered hrun).2 hforks⟩

end

/-- The revision of a session that holds two messages. -/
theorem revision_counts_pushed :
    letI := SerdeJson.plain
    (((blank "a").push (.user "x")).2.push (.user "y")).2.revision =
      (((blank "a").push (.user "x")).2.push (.user "y")).2.events.countP
        SessionEvent.movesRevision := by
  let _ := SerdeJson.plain
  exact (revision_counts ⟨blank "a", [.push (.user "x"), .push (.user "y")], .inl ⟨"a", rfl⟩,
    rfl⟩).2.2.2.2.2.1

end Session
end Gen2
