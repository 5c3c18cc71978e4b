import Gen2.Session.Defs
import Gen2.Lib.Run

/-!
# The log and the session it describes

Every operation of a session changes the records, the active list, the revision and the cached
fingerprint by hand, and appends an event that is supposed to say the same.  `Session::replay`
rebuilds all of it from the events alone.  This file is about whether the two agree.

* `Core` is the part of a session that the events determine one by one: `replayEvent` reads nothing
  else (`core_replayEvent_congr`).
* `Live` is the invariant of a session that has been reached by operations: its records and index
  line up (`Core.Ok`), replaying its events gives its core back, its projection shows the records
  its active list names, its revision counts its events, and its fingerprint is the digest of what
  the model can see — *except* that a session nothing has happened to yet carries `0`.
* Each operation has one lemma, `live_…`, which says that it does not panic and keeps `Live`;
  `live_apply` collects them.
* `replay_same_iff` is the outcome: the replay of a session's own log gives the session back, in
  every derived field, exactly when the session has a context-affecting event behind it.
-/

namespace Gen2
namespace Session

open Lib List

/-! ## What the events determine -/

/-- The fields an event changes one by one. -/
structure Core where
  system : Option String
  tools : ToolSet
  records : List StoredRecord
  index : AList (fun _ : MessageId => Nat)
  active : List MessageId
  nextId : Nat

def core (s : Session) : Core := ⟨s.system, s.tools, s.records, s.index, s.active, s.nextId⟩

/-- Who the session is and what it knows of the engines, which no event says anything about. -/
structure EngineView where
  id : SessionId
  opened : Bool
  toolsFingerprint : Option UInt64
  modelGeneration : Option Nat
  thinking : Option ThinkingMode
  prefixFingerprint : Option UInt64
  ownReplyFollows : Bool
  offeredFingerprint : UInt64
  boundEngine : Option Nat
  parked : AList (fun _ : Nat => Binding)

def engineView (s : Session) : EngineView :=
  ⟨s.id, s.opened, s.toolsFingerprint, s.modelGeneration, s.thinking, s.prefixFingerprint,
    s.ownReplyFollows, s.offeredFingerprint, s.boundEngine, s.parked⟩

/-- Records are numbered from zero, the index says where each one is, and the active list names
records, each once. -/
structure Core.Ok (c : Core) : Prop where
  slot : ∀ id : Nat, c.index.lookup id = if id < c.records.length then some id else none
  ids : ∀ (i : Nat) (h : i < c.records.length), c.records[i].id = i
  nextId : c.nextId = c.records.length
  active_lt : ∀ id : Nat, id ∈ c.active → id < c.records.length
  nodup : c.active.Nodup

theorem core_blank_ok (id : SessionId) : (blank id).core.Ok where
  slot := by simp [core, blank]
  ids := by simp [core, blank]
  nextId := rfl
  active_lt := by simp [core, blank]
  nodup := nodup_nil

/-- A new record at the end, and no change to what is active. -/
theorem Core.Ok.mint {c : Core} (h : c.Ok) (m : Message) :
    ({ c with
      records := c.records ++ [⟨c.nextId, m, none⟩]
      index := c.index.insert c.nextId c.records.length
      nextId := c.nextId + 1 } : Core).Ok where
  slot id := by
    simp only [length_append, length_singleton]
    rw [h.nextId]
    by_cases hid : id = c.records.length
    · subst hid
      rw [AList.lookup_insert, if_pos (by omega)]
    · rw [AList.lookup_insert_ne hid, h.slot]
      split <;> split <;> first | rfl | omega
  ids i hi := by
    simp only [length_append, length_singleton] at hi
    by_cases hlt : i < c.records.length
    · rw [getElem_append_left hlt]
      exact h.ids i hlt
    · have hieq : i = c.records.length := by omega
      subst hieq
      simp [h.nextId]
  nextId := by simp [h.nextId]
  active_lt id hid := by
    have := h.active_lt id hid
    simp only [length_append, length_singleton]
    omega
  nodup := h.nodup

/-- Marking a record as replaced moves nothing. -/
theorem Core.Ok.modify {c : Core} (h : c.Ok) (i : Nat) (r : Option MessageId) :
    ({ c with records := c.records.modify i fun x => { x with replacedBy := r } } : Core).Ok where
  slot id := by simpa using h.slot id
  ids j hj := by
    simp only [length_modify] at hj
    rw [getElem_modify]
    split
    · exact h.ids j hj
    · exact h.ids j hj
  nextId := by simpa using h.nextId
  active_lt id hid := by simpa using h.active_lt id hid
  nodup := h.nodup

/-- Another active list, of records, without repetition. -/
theorem Core.Ok.withActive {c : Core} (h : c.Ok) {active : List MessageId}
    (hlt : ∀ id : Nat, id ∈ active → id < c.records.length) (hnd : active.Nodup) :
    ({ c with active := active } : Core).Ok :=
  ⟨h.slot, h.ids, h.nextId, hlt, hnd⟩

variable {s : Session}

theorem messageBy_eq (h : s.core.Ok) (id : Nat) :
    s.messageBy id = s.records[id]?.map (·.message) := by
  have hslot : s.index.lookup id = if id < s.records.length then some id else none := h.slot id
  rw [messageBy, hslot]
  split
  · rfl
  · rw [getElem?_eq_none (by omega)]
    rfl

variable {id : Nat}

theorem messageBy_isSome (h : s.core.Ok) (hid : id < s.records.length) :
    ∃ m, s.messageBy id = some m :=
  ⟨s.records[id].message, by rw [messageBy_eq h, getElem?_eq_getElem hid]; rfl⟩

variable {ids : List MessageId}

theorem mapM_messageBy (h : ∀ id ∈ ids, ∃ m, s.messageBy id = some m) :
    ids.mapM s.messageBy = some (ids.filterMap s.messageBy) := by
  induction ids with
  | nil => rfl
  | cons id ids ih =>
    obtain ⟨m, hm⟩ := h id (mem_cons_self ..)
    rw [mapM_cons, hm, ih fun id' hid' => h id' (mem_cons_of_mem _ hid')]
    simp [hm]

theorem mint_messageBy_lt (h : s.core.Ok) (m : Message) (hid : id < s.records.length) :
    (s.mint m).2.messageBy id = s.messageBy id := by
  rw [messageBy_eq (h.mint m), messageBy_eq h]
  exact congrArg _ (getElem?_append_left hid)

theorem mint_messageBy_new (h : s.core.Ok) (m : Message) :
    (s.mint m).2.messageBy s.nextId = some m := by
  have hnext : s.nextId = s.records.length := h.nextId
  rw [messageBy_eq (h.mint m), hnext]
  simp [mint]

/-- Minting leaves the messages of older ids alone. -/
theorem filterMap_mint (h : s.core.Ok) (m : Message)
    (hids : ∀ id : Nat, id ∈ ids → id < s.records.length) :
    ids.filterMap (s.mint m).2.messageBy = ids.filterMap s.messageBy :=
  filterMap_congr fun id hid => mint_messageBy_lt h m (hids id hid)

theorem filterMap_mint_active (h : s.core.Ok) (m : Message) :
    s.active.filterMap (s.mint m).2.messageBy = s.active.filterMap s.messageBy :=
  filterMap_mint h m h.active_lt

theorem activeSlot_ok {slot : Nat} (h : s.activeSlot id = .ok slot) :
    s.active.findIdx? (· == id) = some slot := by
  rw [activeSlot] at h
  split at h
  · cases h
  split at h
  · rename_i i hi
    cases h
    exact hi
  · cases h

theorem mem_of_activeSlot_ok {slot : Nat} (h : s.activeSlot id = .ok slot) : id ∈ s.active := by
  obtain ⟨hlt, hp, -⟩ := findIdx?_eq_some_iff_getElem.1 (activeSlot_ok h)
  rw [← beq_iff_eq.1 hp]
  exact getElem_mem hlt

/-- Taking a slot out of a list without repetition takes out the id in it. -/
theorem eraseIdx_eq_filter {ids : List Nat} (hnd : ids.Nodup) {slot : Nat}
    (h : ids.findIdx? (· == id) = some slot) : ids.eraseIdx slot = ids.filter (· != id) := by
  obtain ⟨-, hidx⟩ := findIdx?_eq_some_iff_findIdx_eq.1 h
  rw [← hidx, ← hnd.erase_eq_filter id, ← eraseIdx_idxOf_eq_erase]
  rfl

/-- What one call of `validateIds` has accepted: known ids, each once, none of them seen before. -/
theorem validateIds_ok (h : s.core.Ok) {seen ids : List Nat}
    (hv : s.validateIds seen ids = .ok ()) :
    (∀ id : Nat, id ∈ ids → id < s.records.length) ∧ ids.Nodup ∧ ∀ id : Nat,
      id ∈ ids → id ∉ seen := by
  induction ids generalizing seen with
  | nil => simp
  | cons id ids ih =>
    rw [validateIds] at hv
    split at hv
    · cases hv
    rename_i hknown
    split at hv
    · cases hv
    rename_i hseen
    obtain ⟨hlt, hnd, hfresh⟩ := ih hv
    have hslot : s.index.lookup id = if id < s.records.length then some id else none := h.slot id
    refine ⟨?_, ?_, ?_⟩
    · intro j hj
      rcases mem_cons.1 hj with rfl | hj
      · by_contra hge
        rw [hslot, if_neg hge] at hknown
        simp at hknown
      · exact hlt j hj
    · exact nodup_cons.2 ⟨fun hmem => hfresh id hmem (mem_cons_self ..), hnd⟩
    · intro j hj
      rcases mem_cons.1 hj with rfl | hj
      · simpa using hseen
      · exact fun hmem => hfresh j hj (mem_cons_of_mem _ hmem)

/-- Looking a message up among records that exist does not panic, and finds a place in the list. -/
theorem position_spec (h : s.core.Ok) (m : Message)
    (hids : ∀ id : Nat, id ∈ ids → id < s.records.length) :
    ∃ o, s.position m ids = some o ∧ ∀ k : Nat, o = some k → k < ids.length := by
  induction ids with
  | nil => exact ⟨none, rfl, by simp⟩
  | cons id ids ih =>
    obtain ⟨x, hx⟩ := messageBy_isSome h (hids id (mem_cons_self ..))
    obtain ⟨o, ho, hlt⟩ := ih fun id' hid' => hids id' (mem_cons_of_mem _ hid')
    rw [position, hx]
    by_cases heq : (x == m) = true
    · exact ⟨some 0, by simp [heq], by simp⟩
    refine ⟨o.map (· + 1), by simp [heq, ho], fun k hk => ?_⟩
    obtain ⟨j, rfl, rfl⟩ := Option.map_eq_some_iff.1 hk
    have := hlt j rfl
    simp only [length_cons]
    omega

/-! ### Trimming -/

theorem trimDrop_subset (s : Session) (ids : List MessageId) (e : SessionError) :
    s.trimDrop ids e ⊆ ids := by
  intro id hid
  cases e with
  | orphanResult callId =>
    rw [trimDrop] at hid
    split at hid
    · split at hid
      · exact mem_of_find?_eq_some (Option.mem_toList.1 hid)
      · cases hid
    · exact mem_of_mem_filter hid
  | unansweredCall callId => exact mem_of_mem_filter hid
  | unknownMessage id' => cases hid
  | notActive id' => cases hid
  | duplicate id' => cases hid

theorem trimLoop_sublist (s : Session) (fuel : Nat) (ids : List MessageId) :
    List.Sublist (s.trimLoop fuel ids) ids := by
  induction fuel generalizing ids with
  | zero => exact List.Sublist.refl ids
  | succ fuel ih =>
    rw [trimLoop]
    split
    · exact List.Sublist.refl ids
    · dsimp only
      split
      · exact List.Sublist.refl ids
      · exact (ih _).trans filter_sublist

/-- The loop of `trim_to_round_boundary` gives up on these ids: they are refused, and the refusal
names nothing to drop. -/
def Stuck (s : Session) (ids : List MessageId) : Prop :=
  ∃ e, checkRoundsOver (s.lookupWith []) ids s.records = .error e ∧ s.trimDrop ids e = []

theorem length_filter_drop_lt {drop : List MessageId} (hsub : drop ⊆ ids) (hne : drop ≠ []) :
    (ids.filter fun id => !drop.contains id).length < ids.length := by
  obtain ⟨id, hid⟩ := exists_mem_of_ne_nil drop hne
  refine length_filter_lt_length_iff_exists.2 ⟨id, hsub hid, ?_⟩
  simpa using hid

/-- With one round more than there are ids the bound is never felt: the loop ends on ids that pass
the check, or on ids it gives up on. -/
theorem trimLoop_eq (s : Session) {fuel : Nat} (hfuel : ids.length < fuel) :
    checkRoundsOver (s.lookupWith []) (s.trimLoop fuel ids) s.records = .ok () ∨
      s.Stuck (s.trimLoop fuel ids) := by
  induction fuel generalizing ids with
  | zero => omega
  | succ fuel ih =>
    rw [trimLoop]
    split
    · rename_i hcheck
      exact .inl hcheck
    rename_i e hcheck
    dsimp only
    split
    · rename_i hdrop
      exact .inr ⟨e, hcheck, isEmpty_iff.1 hdrop⟩
    · rename_i hdrop
      have hne : s.trimDrop ids e ≠ [] := fun h => hdrop (isEmpty_iff.2 h)
      have := length_filter_drop_lt (s.trimDrop_subset ids e) hne
      exact ih (by omega)

theorem trimToRoundBoundary_sublist (s : Session) (ids : List MessageId) :
    List.Sublist (s.trimToRoundBoundary ids) ids :=
  trimLoop_sublist s _ ids

theorem trimToRoundBoundary_ok_or_stuck (s : Session) (ids : List MessageId) :
    checkRoundsOver (s.lookupWith []) (s.trimToRoundBoundary ids) s.records = .ok () ∨
      s.Stuck (s.trimToRoundBoundary ids) :=
  trimLoop_eq s (Nat.lt_succ_self _)

/-! ### One event -/

/-- An event reads and writes nothing outside the core. -/
theorem core_replayEvent_congr {t : Session} (h : s.core = t.core) (e : SessionEvent) :
    (replayEvent s e).core = (replayEvent t e).core := by
  simp only [core, Core.mk.injEq] at h
  obtain ⟨hsys, htools, hrec, hidx, hact, hnext⟩ := h
  cases e with
  | systemSet system => simp only [replayEvent, core, *]
  | toolsSet tools => simp only [replayEvent, core, *]
  | messageAdded id m => simp only [replayEvent, store, core, *]
  | messageReplaced old new m =>
    simp only [replayEvent, store, hsys, htools, hrec, hidx, hact, hnext]
    cases (t.index.insert new t.records.length).lookup old <;>
      cases t.active.findIdx? (· == old) <;> simp only [core, *]
  | messageRemoved id => simp only [replayEvent, core, *]
  | messageRecorded id m => simp only [replayEvent, store, core, *]
  | contextReplaced active reason => simp only [replayEvent, core, *]
  | forked parent «at» =>
    cases «at» with
    | none => simp only [replayEvent, core, *]
    | some a =>
      simp only [replayEvent, hact]
      cases t.active.findIdx? (· == a) <;> simp only [core, *]

theorem core_foldl_congr {t : Session} (h : s.core = t.core) (events : List SessionEvent) :
    (events.foldl replayEvent s).core = (events.foldl replayEvent t).core := by
  induction events generalizing s t with
  | nil => exact h
  | cons e es ih => exact ih (core_replayEvent_congr h e)

section
variable [SerdeJson]

/-! ### Logging -/

variable {s t : Session}

theorem computeFingerprint_congr (hsys : s.system = t.system) (htools : s.tools = t.tools)
    (hact : s.active = t.active) (hproj : s.projection = t.projection) :
    s.computeFingerprint = t.computeFingerprint := by
  simp only [computeFingerprint, hsys, htools, hact, hproj]

@[simp] theorem log_id (s : Session) (e : SessionEvent) : (s.log e).id = s.id := by
  unfold log; split <;> rfl

@[simp] theorem log_events (s : Session) (e : SessionEvent) :
    (s.log e).events = s.events ++ [e] := by
  unfold log; split <;> rfl

@[simp] theorem log_revision (s : Session) (e : SessionEvent) :
    (s.log e).revision = if e.movesRevision then s.revision + 1 else s.revision := by
  unfold log; split <;> rfl

@[simp] theorem log_core (s : Session) (e : SessionEvent) : (s.log e).core = s.core := by
  unfold log; split <;> rfl

@[simp] theorem log_engineView (s : Session) (e : SessionEvent) :
    (s.log e).engineView = s.engineView := by
  unfold log; split <;> rfl

@[simp] theorem log_active (s : Session) (e : SessionEvent) : (s.log e).active = s.active := by
  unfold log; split <;> rfl

@[simp] theorem log_records (s : Session) (e : SessionEvent) : (s.log e).records = s.records := by
  unfold log; split <;> rfl

@[simp] theorem log_messageBy (s : Session) (e : SessionEvent) (id : MessageId) :
    (s.log e).messageBy id = s.messageBy id := by
  unfold log; split <;> rfl

theorem log_fingerprint (s : Session) (e : SessionEvent) :
    (s.log e).fingerprint = if e.movesRevision then s.computeFingerprint else s.fingerprint := by
  unfold log; split <;> rfl

/-! ### Rebuilding the projection -/

/-- What `rebuildProjection` leaves when it does not panic. -/
def rebuilt (s : Session) : Session :=
  let s := { s with projection := s.active.filterMap s.messageBy }
  { s with fingerprint := s.computeFingerprint }

theorem rebuildProjection_eq (h : s.core.Ok) : s.rebuildProjection = some s.rebuilt := by
  have hm := mapM_messageBy fun id hid => messageBy_isSome h (h.active_lt id hid)
  rw [rebuildProjection]
  erw [hm]
  rfl

@[simp] theorem rebuilt_core (s : Session) : s.rebuilt.core = s.core := rfl

@[simp] theorem rebuilt_projection (s : Session) :
    s.rebuilt.projection = s.active.filterMap s.messageBy := rfl

/-! ## The invariant -/

/-- What is true of a session that operations have led to. -/
structure Live (s : Session) : Prop where
  ok : s.core.Ok
  replays : (s.events.foldl replayEvent (blank s.id)).core = s.core
  revision : s.revision = s.events.countP SessionEvent.movesRevision
  projection : s.projection = s.active.filterMap s.messageBy
  fingerprint : s.fingerprint = if s.revision = 0 then 0 else s.computeFingerprint
  /-- With no context-affecting event behind it, there is nothing for the model to see. -/
  fresh : s.revision = 0 → s.system = none ∧ s.tools = ToolSet.new ∧ s.active = []

theorem live_blank (id : SessionId) : Live (blank id) where
  ok := core_blank_ok id
  replays := rfl
  revision := rfl
  projection := rfl
  fingerprint := rfl
  fresh _ := ⟨rfl, rfl, rfl⟩

/-- The replay of one more event, from what the events before it replay to. -/
theorem replays_append (h : Live s) (id : SessionId) (e : SessionEvent) :
    ((s.events ++ [e]).foldl replayEvent (blank id)).core = (replayEvent s e).core := by
  rw [foldl_append]
  refine core_replayEvent_congr ?_ e
  rw [← h.replays]
  exact core_foldl_congr (s := blank id) (t := blank s.id) rfl s.events

/-- A session that has logged one context-affecting event, has the core that event describes, and
has refreshed its projection and fingerprint, is live again. -/
theorem live_of_commit {e : SessionEvent} (h : Live s) (he : e.movesRevision = true)
    (hok : t.core.Ok) (hcore : t.core = (replayEvent s e).core)
    (hevents : t.events = s.events ++ [e]) (hrev : t.revision = s.revision + 1)
    (hproj : t.projection = t.active.filterMap t.messageBy)
    (hfp : t.fingerprint = t.computeFingerprint) : Live t where
  ok := hok
  replays := by rw [hevents, replays_append h, hcore]
  revision := by
    rw [hevents, hrev, h.revision, countP_append]
    simp [he]
  projection := hproj
  fingerprint := by rw [hfp, if_neg (by omega)]
  fresh h0 := by omega

/-- Logging a context-affecting event on a changed core, then rebuilding. -/
theorem live_rebuilt {e : SessionEvent} (h : Live s) (he : e.movesRevision = true) (hok : t.core.Ok)
    (hcore : t.core = (replayEvent s e).core) (hevents : t.events = s.events)
    (hrev : t.revision = s.revision) : Live (t.log e).rebuilt := by
  refine live_of_commit h he ?_ ?_ ?_ ?_ ?_ rfl
  · simpa using hok
  · simpa using hcore
  · rw [← hevents]; exact log_events t e
  · have := log_revision t e
    rw [if_pos he, hrev] at this
    exact this
  · rfl

/-- The projection shows one message for every active id. -/
theorem Live.length_active (h : Live s) : s.active.length = s.projection.length := by
  rw [h.projection]
  refine (filterMap_length_eq_length.2 fun id hid => ?_).symm
  obtain ⟨x, hx⟩ := messageBy_isSome h.ok (h.ok.active_lt id hid)
  simp [hx]

theorem Live.closed (h : Live s) : Live { s with opened := false } :=
  ⟨h.ok, h.replays, h.revision, h.projection, h.fingerprint, h.fresh⟩

/-! ### System prompt and tools -/

theorem live_putSystem (h : Live s) (system : Option String) : Live (s.putSystem system) := by
  rw [putSystem]
  split
  · exact h
  · refine live_of_commit h (e := .systemSet system) rfl ⟨h.ok.slot, h.ok.ids, h.ok.nextId,
      h.ok.active_lt, h.ok.nodup⟩ rfl (log_events _ _) (log_revision _ _) h.projection ?_
    exact log_fingerprint { s with system := system } (.systemSet system)

theorem live_putTools (h : Live s) (tools : ToolSet) : Live (s.putTools tools) := by
  rw [putTools]
  split
  · exact h
  · refine live_of_commit h (e := .toolsSet tools) rfl ⟨h.ok.slot, h.ok.ids, h.ok.nextId,
      h.ok.active_lt, h.ok.nodup⟩ rfl (log_events _ _) (log_revision _ _) h.projection ?_
    exact log_fingerprint { s with tools := tools } (.toolsSet tools)

theorem putSystem_records (s : Session) (system : Option String) :
    (s.putSystem system).records = s.records := by
  rw [putSystem]
  split
  · rfl
  · exact log_records _ _

theorem putSystem_active (s : Session) (system : Option String) :
    (s.putSystem system).active = s.active := by
  rw [putSystem]
  split
  · rfl
  · exact log_active _ _

theorem putTools_records (s : Session) (tools : ToolSet) :
    (s.putTools tools).records = s.records := by
  rw [putTools]
  split
  · rfl
  · exact log_records _ _

theorem putTools_active (s : Session) (tools : ToolSet) :
    (s.putTools tools).active = s.active := by
  rw [putTools]
  split
  · rfl
  · exact log_active _ _

/-! ### Records -/

theorem live_push (h : Live s) (m : Message) : Live (s.push m).2 := by
  have hnext : s.nextId = s.records.length := h.ok.nextId
  have hmint := h.ok.mint m
  have hok : ({ (s.mint m).2 with
      active := s.active ++ [s.nextId], projection := s.projection ++ [m] } : Session).core.Ok := by
    refine Core.Ok.withActive hmint (?_ : ∀ id : Nat, id ∈ s.active ++ [s.nextId] → _) ?_
    · intro id hid
      simp only [length_append, length_singleton]
      rcases mem_append.1 hid with hid | hid
      · have := h.ok.active_lt id hid
        omega
      · rw [mem_singleton.1 hid, hnext]
        exact Nat.lt_succ_self _
    · refine nodup_append.2 ⟨h.ok.nodup, nodup_singleton _, ?_⟩
      intro id hid id' hid' heq
      rw [mem_singleton.1 hid', hnext] at heq
      have hlt : id < s.records.length := h.ok.active_lt id hid
      exact absurd hlt (by rw [heq]; exact Nat.lt_irrefl _)
  refine live_of_commit h (e := .messageAdded s.nextId m) rfl ?_ ?_ (log_events _ _)
    (log_revision _ _) ?_ ?_
  · exact hok
  · rw [push, log_core]
    simp [core, mint, replayEvent, store]
  · have hproj : s.projection ++ [m] =
        (s.active ++ [s.nextId]).filterMap (s.mint m).2.messageBy := by
      rw [filterMap_append, filterMap_mint_active h.ok m, h.projection]
      simp [mint_messageBy_new h.ok m]
    exact hproj
  · exact log_fingerprint _ _

theorem live_record (h : Live s) (m : Message) : Live (s.record m).2 where
  ok := by
    exact h.ok.mint m
  replays := by
    rw [record, log_events, log_id]
    exact (replays_append h _ _).trans (by simp [core, replayEvent, store, log, mint,
      SessionEvent.movesRevision])
  revision := by
    rw [record, log_events, log_revision, countP_append]
    simpa [SessionEvent.movesRevision, mint] using h.revision
  projection := by
    exact h.projection.trans (filterMap_mint_active h.ok m).symm
  fingerprint := h.fingerprint
  fresh := h.fresh

/-- `recordAll` as a list of ids and a live session: the ids are the next ones, in order, and
nothing but the records has moved. -/
theorem live_recordAll (h : Live s) (ms : List Message) :
    Live (s.recordAll ms).2 ∧
      (s.recordAll ms).1 = (range ms.length).map (s.nextId + ·) ∧
      (s.recordAll ms).2.records.length = s.records.length + ms.length ∧
      (s.recordAll ms).2.active = s.active := by
  induction ms generalizing s with
  | nil => exact ⟨h, rfl, rfl, rfl⟩
  | cons m ms ih =>
    obtain ⟨hlive, hids, hlen, hact⟩ := ih (live_record h m)
    have hlen1 : (s.record m).2.records.length = s.records.length + 1 := by
      simp [record, mint]
    refine ⟨hlive, ?_, ?_, hact⟩
    · rw [length_cons, range_succ_eq_map]
      simp only [recordAll, hids, map_cons, map_map]
      refine congrArg₂ cons rfl (map_congr_left fun i _ => ?_)
      show s.nextId + 1 + i = s.nextId + (i + 1)
      omega
    · rw [length_cons, ← Nat.add_assoc, Nat.add_right_comm, ← hlen1]
      exact hlen

/-! ### Changing the projection -/

/-- What `setActive` leaves when it does not panic. -/
def activated (s : Session) (active : List MessageId) (reason : String) (close : Bool) : Session :=
  if active = s.active then
    s
  else
    let t := (({ s with active := active } : Session).log
      (.contextReplaced active (some reason))).rebuilt
    if close then { t with opened := false } else t

variable {active : List MessageId}

theorem setActive_eq (h : s.core.Ok) (hlt : ∀ id : Nat, id ∈ active → id < s.records.length)
    (hnd : active.Nodup) (reason : String) (close : Bool) :
    s.setActive active reason close = some (s.activated active reason close) := by
  have hok : (({ s with active := active } : Session).log
      (.contextReplaced active (some reason))).core.Ok := by
    exact h.withActive hlt hnd
  rw [setActive, activated]
  split
  · rfl
  · cases close <;> simp [afterProjectionChange, rebuildProjection_eq hok]

theorem activated_active (s : Session) (active : List MessageId) (reason : String) (close : Bool) :
    (s.activated active reason close).active = active := by
  rw [activated]
  split
  · rename_i heq; exact heq.symm
  · cases close <;> rfl

theorem activated_records (s : Session) (active : List MessageId) (reason : String)
    (close : Bool) : (s.activated active reason close).records = s.records := by
  rw [activated]
  split
  · rfl
  · cases close <;> rfl

theorem activated_engineView (s : Session) (active : List MessageId) (reason : String)
    (close : Bool) : (s.activated active reason close).engineView = s.engineView ∨
      (s.activated active reason close).engineView = { s.engineView with opened := false } := by
  rw [activated]
  split
  · exact .inl rfl
  · cases close
    · exact .inl rfl
    · exact .inr rfl

theorem live_activated (h : Live s) (hlt : ∀ id : Nat, id ∈ active → id < s.records.length)
    (hnd : active.Nodup) (reason : String) (close : Bool) :
    Live (s.activated active reason close) := by
  have hfilter : active.filter (fun id => (s.index.lookup id).isSome) = active := by
    refine filter_eq_self.2 fun id hid => ?_
    have hslot : s.index.lookup id = if id < s.records.length then some id else none := h.ok.slot id
    rw [hslot, if_pos (hlt id hid)]
    rfl
  have hlive : Live (({ s with active := active } : Session).log
      (.contextReplaced active (some reason))).rebuilt := by
    refine live_rebuilt h rfl (h.ok.withActive hlt hnd) ?_ rfl rfl
    simp only [core, replayEvent, hfilter]
  rw [activated]
  split
  · exact h
  · cases close
    · exact hlive
    · exact hlive.closed

/-- **`replaceMessage`.**  Either it refuses and the session is untouched, or the new record is
minted, the old one points at it, and it stands in the old one's place. -/
theorem replaceMessage_spec (h : Live s) (old : MessageId) (m : Message) :
    ((∃ e, s.replaceMessage old m = some (.error e, s)) ∧ ∀ slot, s.activeSlot old = .ok slot →
      s.checkRounds (s.active.set slot s.nextId) (some (s.nextId, m)) ≠ .ok ()) ∨
    ∃ slot t, s.activeSlot old = .ok slot ∧
      s.checkRounds (s.active.set slot s.nextId) (some (s.nextId, m)) = .ok () ∧
      s.replaceMessage old m = some (.ok s.nextId, t) ∧ Live t ∧
      t.engineView = { s.engineView with opened := false } ∧
      t.core = { (s.mint m).2.core with
        records := (s.mint m).2.records.modify old fun r => { r with replacedBy := some s.nextId }
        active := s.active.set slot s.nextId } := by
  rw [replaceMessage]
  split
  · rename_i e he
    exact .inl ⟨⟨e, rfl⟩, fun slot hslot => by simp [he] at hslot⟩
  rename_i slot hslot
  dsimp only
  split
  · rename_i e he
    refine .inl ⟨⟨e, rfl⟩, fun slot' hslot' => ?_⟩
    obtain rfl : slot = slot' := Except.ok.inj (hslot.symm.trans hslot')
    simp [he]
  rename_i hcheck
  refine .inr ?_
  have hnext : s.nextId = s.records.length := h.ok.nextId
  have hold : old < s.records.length := h.ok.active_lt old (mem_of_activeSlot_ok hslot)
  have hfind := activeSlot_ok hslot
  have hlookup : (s.mint m).2.index.lookup old = some old := by
    have hs : (s.mint m).2.index.lookup old =
        if old < (s.records ++ [(⟨s.nextId, m, none⟩ : StoredRecord)]).length then some old
        else none := (h.ok.mint m).slot old
    rw [hs, if_pos (by rw [length_append]; exact Nat.lt_add_right _ hold)]
  have hlt : ∀ id : Nat, id ∈ s.active.set slot s.nextId → id < s.records.length + 1 := by
    intro id hid
    rcases mem_or_eq_of_mem_set hid with hid | hid
    · have : id < s.records.length := h.ok.active_lt id hid
      omega
    · rw [hid, hnext]
      exact Nat.lt_succ_self _
  have hnd : (s.active.set slot s.nextId).Nodup := by
    refine h.ok.nodup.set fun hmem => ?_
    have : s.nextId < s.records.length := h.ok.active_lt _ hmem
    omega
  -- the session just before its event is logged
  let u : Session := { (s.mint m).2 with
    records := (s.mint m).2.records.modify old fun r => { r with replacedBy := some s.nextId }
    active := s.active.set slot s.nextId }
  have hok : u.core.Ok := by
    refine ((h.ok.mint m).modify old (some s.nextId)).withActive (fun id hid => ?_) hnd
    simpa [core, mint] using hlt id hid
  have hlogged : (u.log (.messageReplaced old s.nextId m)).core.Ok := by
    exact hok
  have hcore : u.core = (replayEvent s (.messageReplaced old s.nextId m)).core := by
    have hl : (s.index.insert s.nextId s.records.length).lookup old = some old := hlookup
    simp only [replayEvent, store, hl, hfind, core, u, mint]
    simp
  refine ⟨slot, { (u.log (.messageReplaced old s.nextId m)).rebuilt with opened := false }, hslot,
    hcheck, ?_, (live_rebuilt h rfl hok hcore rfl rfl).closed, rfl, ?_⟩
  · have hu : (s.mint m).2.index.lookup old = some old := hlookup
    rw [hu]
    show Option.bind (afterProjectionChange (u.log (.messageReplaced old s.nextId m))) _ = _
    rw [afterProjectionChange, rebuildProjection_eq hlogged]
    rfl
  · exact log_core u _

/-- **`removeMessage`.**  Either it refuses and the session is untouched, or the id is gone from the
projection and nothing else has changed. -/
theorem removeMessage_spec (h : Live s) (id : MessageId) :
    (∃ e, s.removeMessage id = some (.error e, s)) ∨
    ∃ slot t, s.activeSlot id = .ok slot ∧ s.checkRounds (s.active.eraseIdx slot) none = .ok () ∧
      s.removeMessage id = some (.ok (), t) ∧ Live t ∧
      t.engineView = { s.engineView with opened := false } ∧
      t.core = { s.core with active := s.active.eraseIdx slot } := by
  rw [removeMessage]
  split
  · rename_i e _
    exact .inl ⟨e, rfl⟩
  rename_i slot hslot
  dsimp only
  split
  · rename_i e _
    exact .inl ⟨e, rfl⟩
  rename_i hcheck
  refine .inr ?_
  let u : Session := { s with active := s.active.eraseIdx slot }
  have hsub : List.Sublist (s.active.eraseIdx slot) s.active := eraseIdx_sublist ..
  have hok : u.core.Ok :=
    h.ok.withActive (fun i hi => h.ok.active_lt i (hsub.subset hi)) (h.ok.nodup.sublist hsub)
  have hlogged : (u.log (.messageRemoved id)).core.Ok := by
    exact hok
  have hcore : u.core = (replayEvent s (.messageRemoved id)).core := by
    have heq := eraseIdx_eq_filter (show List.Nodup s.active from h.ok.nodup) (activeSlot_ok hslot)
    simp only [replayEvent, core, u, heq]
  refine ⟨slot, { (u.log (.messageRemoved id)).rebuilt with opened := false }, hslot, hcheck, ?_,
    (live_rebuilt h rfl hok hcore rfl rfl).closed, rfl, log_core u _⟩
  rw [afterProjectionChange, rebuildProjection_eq hlogged]
  rfl

/-- **`restoreContext`.**  Either it refuses and the session is untouched, or the ids given are the
projection and nothing else has changed. -/
theorem restoreContext_spec (h : Live s) (ids : List MessageId) :
    (∃ e, s.restoreContext ids = some (.error e, s)) ∨
    ∃ t, s.checkRounds ids none = .ok () ∧ s.restoreContext ids = some (.ok (), t) ∧ Live t ∧
      t = s.activated ids "restore_context" true := by
  rw [restoreContext]
  split
  · rename_i e _
    exact .inl ⟨e, rfl⟩
  rename_i hvalid
  obtain ⟨hlt, hnd, -⟩ := validateIds_ok h.ok hvalid
  split
  · rename_i e _
    exact .inl ⟨e, rfl⟩
  rename_i hcheck
  refine .inr ⟨_, hcheck, ?_, live_activated h hlt hnd _ _, rfl⟩
  rw [setActive_eq h.ok hlt hnd]
  rfl

/-- The ids `replaceMessages` hands out, seen from the session that has recorded them. -/
theorem recordAll_ids (h : Live s) (ms : List Message) :
    (∀ id : Nat, id ∈ (s.recordAll ms).1 → id < (s.recordAll ms).2.records.length) ∧
      (s.recordAll ms).1.Nodup := by
  obtain ⟨-, hids, hlen, -⟩ := live_recordAll h ms
  have hnext : s.nextId = s.records.length := h.ok.nextId
  rw [hids]
  constructor
  · intro id hid
    obtain ⟨i, hi, rfl⟩ := mem_map.1 hid
    have hi : i < ms.length := mem_range.1 hi
    omega
  · exact nodup_range.map fun a b hab => Nat.add_left_cancel hab

/-- **`replaceMessages`.**  Either it refuses and the session is untouched, or every message given
has been recorded and the new records are the projection. -/
theorem replaceMessages_spec (h : Live s) (ms : List Message) :
    ((∃ e, s.replaceMessages ms = some (.error e, s)) ∧
      checkRoundsOver (s.lookupWith ((s.recordAll ms).1.zip ms)) (s.recordAll ms).1 s.records
        ≠ .ok ()) ∨
    ∃ t, checkRoundsOver (s.lookupWith ((s.recordAll ms).1.zip ms)) (s.recordAll ms).1 s.records
        = .ok () ∧
      s.replaceMessages ms = some (.ok (), t) ∧ Live t ∧
      t = (s.recordAll ms).2.activated (s.recordAll ms).1 "replace_messages" true := by
  obtain ⟨hlive, hids, -, -⟩ := live_recordAll h ms
  obtain ⟨hlt, hnd⟩ := recordAll_ids h ms
  rw [replaceMessages]
  rw [← hids]
  split
  · rename_i e he
    exact .inl ⟨⟨e, rfl⟩, by simp [he]⟩
  rename_i hcheck
  refine .inr ⟨_, hcheck, ?_, live_activated hlive hlt hnd _ _, rfl⟩
  show ((s.recordAll ms).2.setActive _ _ _).bind _ = _
  rw [setActive_eq hlive.ok hlt hnd]
  rfl

/-! ### Edits -/

/-- What `idsForEditedLoop` leaves: records have been added and nothing else has changed, and the
ids it hands out are active ones from the cursor on, or new ones, each once. -/
structure Edited (s t : Session) (cursor : Nat) (ids : List Nat) : Prop where
  live : Live t
  active : t.active = s.active
  engine : t.engineView = s.engineView
  grows : s.records <+: t.records
  mem : ∀ id ∈ ids, id ∈ s.active.drop cursor ∨ s.records.length ≤ id ∧ id < t.records.length
  nodup : ids.Nodup

theorem Edited.lt {cursor : Nat} {ids : List Nat} (h : Edited s t cursor ids) (id : Nat)
    (hid : id ∈ ids) : id < t.records.length := by
  rcases h.mem id hid with hact | ⟨-, hlt⟩
  · have hmem : id ∈ t.active := by
      rw [h.active]
      exact mem_of_mem_drop hact
    exact h.live.ok.active_lt id hmem
  · exact hlt

theorem record_records (s : Session) (m : Message) :
    (s.record m).2.records = s.records ++ [⟨s.nextId, m, none⟩] := by
  rfl

theorem idsForEditedLoop_spec (h : Live s) (cursor : Nat) (ms : List Message) :
    ∃ ids t, s.idsForEditedLoop cursor ms = some (ids, t) ∧ Edited s t cursor ids := by
  induction ms generalizing s cursor with
  | nil => exact ⟨[], s, rfl, h, rfl, rfl, prefix_rfl, by simp, nodup_nil⟩
  | cons m ms ih =>
    have hactive : ∀ id : Nat, id ∈ s.active.drop cursor → id < s.records.length :=
      fun id hid => h.ok.active_lt id (mem_of_mem_drop hid)
    obtain ⟨o, hpos, hlt⟩ := position_spec h.ok m hactive
    rw [idsForEditedLoop]
    cases o with
    | some k =>
      -- the message is still there: it keeps its record, and the cursor moves past it
      have hk : cursor + k < s.active.length := by
        have := hlt k rfl
        rw [length_drop] at this
        omega
      obtain ⟨ids, t, hrun, hed⟩ := ih h (cursor + (k + 1))
      have hget : s.active[cursor + k]? = some s.active[cursor + k] := getElem?_eq_getElem hk
      refine ⟨s.active[cursor + k] :: ids, t, by simp [hpos, hget, hrun], hed.live, hed.active,
        hed.engine, hed.grows, ?_, ?_⟩
      · intro id hid
        rcases mem_cons.1 hid with rfl | hid
        · refine .inl ?_
          rw [mem_drop_iff_getElem]
          exact ⟨k, by omega, rfl⟩
        · rcases hed.mem id hid with hmem | hnew
          · exact .inl ((drop_subset_drop_left _ (by omega)) hmem)
          · exact .inr hnew
      · refine nodup_cons.2 ⟨fun hmem => ?_, hed.nodup⟩
        rcases hed.mem _ hmem with hlater | ⟨hge, -⟩
        · obtain ⟨j, hj, heq⟩ := mem_drop_iff_getElem.1 hlater
          have := (List.Nodup.getElem_inj_iff h.ok.nodup).1 heq
          omega
        · have := h.ok.active_lt _ (getElem_mem hk)
          simp only [core] at this
          omega
    | none =>
      -- the message is new: it is recorded under the next id, and the cursor stays
      obtain ⟨ids, t, hrun, hed⟩ := ih (live_record h m) cursor
      have hnext : s.nextId = s.records.length := h.ok.nextId
      have hrec := record_records s m
      have hlen : (s.record m).2.records.length = s.records.length + 1 := by simp [hrec]
      have hid : (s.record m).1 = s.nextId := rfl
      have hgrows : s.records.length + 1 ≤ t.records.length := by
        rw [← hlen]
        exact hed.grows.length_le
      refine ⟨s.nextId :: ids, t, by simp [hpos, hrun, hid], hed.live, hed.active, ?_, ?_, ?_, ?_⟩
      · rw [hed.engine]
        simp [record, mint, engineView, log, SessionEvent.movesRevision]
      · exact List.IsPrefix.trans ⟨_, hrec.symm⟩ hed.grows
      · intro id hid
        rcases mem_cons.1 hid with rfl | hid
        · exact .inr ⟨by omega, by omega⟩
        · rcases hed.mem id hid with hmem | ⟨hge, hlt⟩
          · exact .inl hmem
          · exact .inr ⟨by omega, hlt⟩
      · refine nodup_cons.2 ⟨fun hmem => ?_, hed.nodup⟩
        rcases hed.mem _ hmem with hact | ⟨hge, -⟩
        · have := hactive _ hact
          omega
        · omega

/-- **`edit`.**  The ids it settles on are the trimmed ids of the edited messages, checked against
all the records there are then. -/
theorem edit_spec (h : Live s) (f : List Message → List Message) :
    ∃ ids t u, s.idsForEdited (f s.projection) = some (ids, t) ∧ Edited s t 0 ids ∧
      s.edit f = some u ∧ Live u ∧ u.engineView = { s.engineView with opened := false } ∧
      u.core = { t.core with active := t.trimToRoundBoundary ids } := by
  obtain ⟨ids, t, hrun, hed⟩ := idsForEditedLoop_spec h 0 (f s.projection)
  have hsub := t.trimToRoundBoundary_sublist ids
  have hlt : ∀ id : Nat, id ∈ t.trimToRoundBoundary ids → id < t.records.length :=
    fun id hid => hed.lt id (hsub.subset hid)
  have hnd : (t.trimToRoundBoundary ids).Nodup := hed.nodup.sublist hsub
  have hed' : s.edit f = if t.trimToRoundBoundary ids ≠ t.active then
      t.setActive (t.trimToRoundBoundary ids) "edit" true else some { t with opened := false } := by
    rw [edit, idsForEdited, hrun]
    rfl
  by_cases hsame : t.trimToRoundBoundary ids = t.active
  · refine ⟨ids, t, _, hrun, hed, by rw [hed', if_neg (by simpa using hsame)], hed.live.closed, ?_,
      ?_⟩
    · rw [← hed.engine]
      rfl
    · rw [hsame]
      rfl
  · refine ⟨ids, t, _, hrun, hed, by rw [hed', if_pos hsame, setActive_eq hed.live.ok hlt hnd],
      live_activated hed.live hlt hnd _ _, ?_, ?_⟩
    · rw [← hed.engine, activated, if_neg hsame]
      rfl
    · rw [activated, if_neg hsame]
      exact log_core { t with active := t.trimToRoundBoundary ids } _

/-- What every engine holds, forgotten. -/
def forgetEngines (s : Session) : Session :=
  { s with
    opened := false
    shed := 0
    toolsFingerprint := none
    modelGeneration := none
    prefixFingerprint := none
    ownReplyFollows := false
    parked := ∅ }

theorem Live.forgotten (h : Live s) : Live s.forgetEngines :=
  ⟨h.ok, h.replays, h.revision, h.projection, h.fingerprint, h.fresh⟩

/-- **`clear`.** -/
theorem clear_spec (h : Live s) :
    s.clear = some (s.activated [] "clear" true).forgetEngines ∧
      Live (s.activated [] "clear" true).forgetEngines := by
  have hlt : ∀ id : Nat, id ∈ ([] : List MessageId) → id < s.records.length := by simp
  refine ⟨?_, (live_activated h hlt nodup_nil _ _).forgotten⟩
  rw [clear]
  by_cases hempty : s.active = []
  · rw [if_pos (by rw [hempty]; rfl), activated, if_pos hempty.symm]
    rfl
  · rw [if_neg (by simpa using hempty), setActive_eq h.ok hlt nodup_nil]
    rfl

/-- **`rollbackTo`.** -/
theorem rollbackTo_spec (h : Live s) (len : Nat) :
    ∃ t, s.rollbackTo len = some t ∧ Live t ∧ t.records = s.records ∧
      (t.engineView = s.engineView ∨ t.engineView = { s.engineView with opened := false }) ∧
      t.active = if s.active.length ≤ len then s.active
        else s.trimToRoundBoundary (s.active.take len) := by
  rw [rollbackTo]
  split
  · exact ⟨s, rfl, h, rfl, .inl rfl, rfl⟩
  have hsub := (s.trimToRoundBoundary_sublist (s.active.take len)).trans (take_sublist ..)
  have hlt : ∀ id : Nat, id ∈ s.trimToRoundBoundary (s.active.take len) → id < s.records.length :=
    fun id hid => h.ok.active_lt id (hsub.subset hid)
  have hnd := h.ok.nodup.sublist hsub
  exact ⟨_, setActive_eq h.ok hlt hnd _ _, live_activated h hlt hnd _ _,
    activated_records .., activated_engineView .., activated_active ..⟩

/-! ### Forks -/

/-- The session that `forkWith` starts from, before its event. -/
def forkBase (s : Session) (id : SessionId) (active : List MessageId) : Session :=
  { blank id with
    events := s.events
    system := s.system
    tools := s.tools
    records := s.records
    index := s.index
    active := active
    nextId := s.nextId
    revision := s.revision }

/-- **`forkWith`**, where what it is given is what replaying its event leads to. -/
theorem forkWith_spec (h : Live s) (id : SessionId) {at_ : Option MessageId}
    (hsub : List.Sublist active s.active)
    (hcore : (s.forkBase id active).core = (replayEvent s (.forked s.id at_)).core) :
    ∃ t, s.forkWith id active at_ = some t ∧ Live t ∧ t.records = s.records ∧
      t.active = active := by
  have hok : (s.forkBase id active).core.Ok :=
    h.ok.withActive (fun i hi => h.ok.active_lt i (hsub.subset hi)) (h.ok.nodup.sublist hsub)
  have hlogged : ((s.forkBase id active).log (.forked s.id at_)).core.Ok := by
    exact hok
  refine ⟨_, rebuildProjection_eq hlogged, ?_, rfl, rfl⟩
  exact live_rebuilt h rfl hok hcore rfl rfl

theorem fork_spec (h : Live s) (id : SessionId) :
    ∃ t, s.fork id = some t ∧ Live t ∧ t.records = s.records ∧ t.active = s.active :=
  forkWith_spec h id (List.Sublist.refl _) rfl

/-- **`forkAt`.**  Either it refuses, or the fork shows the messages up to the one named. -/
theorem forkAt_spec (h : Live s) (id : SessionId) (at_ : MessageId) :
    (∃ e, s.forkAt id at_ = some (.error e)) ∨
    ∃ slot t, s.activeSlot at_ = .ok slot ∧
      s.checkRounds (s.active.take (slot + 1)) none = .ok () ∧
      s.forkAt id at_ = some (.ok t) ∧ Live t ∧ t.records = s.records ∧
      t.active = s.active.take (slot + 1) := by
  rw [forkAt]
  split
  · rename_i e _
    exact .inl ⟨e, rfl⟩
  rename_i slot hslot
  dsimp only
  split
  · rename_i e _
    exact .inl ⟨e, rfl⟩
  rename_i hcheck
  have hcore : (s.forkBase id (s.active.take (slot + 1))).core =
      (replayEvent s (.forked s.id (some at_))).core := by
    simp only [replayEvent, activeSlot_ok hslot, core, forkBase]
  obtain ⟨t, ht, hlive, hrec, hact⟩ := forkWith_spec h id (take_sublist ..) hcore
  exact .inr ⟨slot, t, hslot, hcheck, by rw [ht]; rfl, hlive, hrec, hact⟩

/-! ## Runs -/

/-- The public operations that change what is said. -/
inductive Op
  | push (message : Message)
  | replaceMessage (old : MessageId) (message : Message)
  | removeMessage (id : MessageId)
  | replaceMessages (messages : List Message)
  | restoreContext (ids : List MessageId)
  | edit (f : List Message → List Message)
  | clear
  | rollbackTo (len : Nat)
  | fork (id : SessionId)
  | forkAt (id : SessionId) («at» : MessageId)
  | setSystem (text : String)
  | appendSystem (text : String)
  | clearSystem
  | setTools (tools : ToolSet)
  | addTool (tool : ToolDefinition)
  | removeTool (name : String)

/-- One operation.  A refused one leaves the session it left; a fork goes on with the fork, and a
refused fork with the session itself.  `none` is a panic. -/
def apply : Op → Session → Option Session
  | .push m, s => some (s.push m).2
  | .replaceMessage old m, s => (s.replaceMessage old m).map (·.2)
  | .removeMessage id, s => (s.removeMessage id).map (·.2)
  | .replaceMessages ms, s => (s.replaceMessages ms).map (·.2)
  | .restoreContext ids, s => (s.restoreContext ids).map (·.2)
  | .edit f, s => s.edit f
  | .clear, s => s.clear
  | .rollbackTo len, s => s.rollbackTo len
  | .fork id, s => s.fork id
  | .forkAt id at_, s => (s.forkAt id at_).map fun
    | .ok t => t
    | .error _ => s
  | .setSystem text, s => some (s.setSystem text)
  | .appendSystem text, s => some (s.appendSystem text)
  | .clearSystem, s => some s.clearSystem
  | .setTools tools, s => some (s.setTools tools)
  | .addTool tool, s => some (s.addTool tool)
  | .removeTool name, s => some (s.removeTool name).2

/-- **The step lemma**: no operation panics on a live session, and every one leaves a live one. -/
theorem live_apply (h : Live s) (op : Op) : ∃ t, apply op s = some t ∧ Live t := by
  cases op with
  | push m => exact ⟨_, rfl, live_push h m⟩
  | replaceMessage old m =>
    rcases replaceMessage_spec h old m with ⟨⟨e, he⟩, -⟩ | ⟨_, t, _, _, ht, hlive, _⟩
    · exact ⟨s, by rw [apply, he]; rfl, h⟩
    · exact ⟨t, by rw [apply, ht]; rfl, hlive⟩
  | removeMessage id =>
    rcases removeMessage_spec h id with ⟨e, he⟩ | ⟨_, t, _, _, ht, hlive, _⟩
    · exact ⟨s, by rw [apply, he]; rfl, h⟩
    · exact ⟨t, by rw [apply, ht]; rfl, hlive⟩
  | replaceMessages ms =>
    rcases replaceMessages_spec h ms with ⟨⟨e, he⟩, -⟩ | ⟨t, _, ht, hlive, _⟩
    · exact ⟨s, by rw [apply, he]; rfl, h⟩
    · exact ⟨t, by rw [apply, ht]; rfl, hlive⟩
  | restoreContext ids =>
    rcases restoreContext_spec h ids with ⟨e, he⟩ | ⟨t, _, ht, hlive, _⟩
    · exact ⟨s, by rw [apply, he]; rfl, h⟩
    · exact ⟨t, by rw [apply, ht]; rfl, hlive⟩
  | edit f =>
    obtain ⟨_, _, u, _, _, hu, hlive, _⟩ := edit_spec h f
    exact ⟨u, hu, hlive⟩
  | clear =>
    obtain ⟨ht, hlive⟩ := clear_spec h
    exact ⟨_, ht, hlive⟩
  | rollbackTo len =>
    obtain ⟨t, ht, hlive, _⟩ := rollbackTo_spec h len
    exact ⟨t, ht, hlive⟩
  | fork id =>
    obtain ⟨t, ht, hlive, _⟩ := fork_spec h id
    exact ⟨t, ht, hlive⟩
  | forkAt id at_ =>
    rcases forkAt_spec h id at_ with ⟨e, he⟩ | ⟨_, t, _, _, ht, hlive, _⟩
    · exact ⟨s, by rw [apply, he]; rfl, h⟩
    · exact ⟨t, by rw [apply, ht]; rfl, hlive⟩
  | setSystem text => exact ⟨_, rfl, live_putSystem h _⟩
  | appendSystem text => exact ⟨_, rfl, live_putSystem h _⟩
  | clearSystem => exact ⟨_, rfl, live_putSystem h _⟩
  | setTools tools => exact ⟨_, rfl, live_putTools h _⟩
  | addTool tool => exact ⟨_, rfl, live_putTools h _⟩
  | removeTool name => exact ⟨_, rfl, live_putTools h _⟩

/-- **Records accrue**: no operation loses one. -/
theorem apply_records_le (h : Live s) {op : Op} (hrun : apply op s = some t) :
    s.records.length ≤ t.records.length := by
  cases op with
  | push m =>
    cases hrun
    rw [push, log_records]
    simp [mint]
  | replaceMessage old m =>
    rcases replaceMessage_spec h old m with ⟨⟨e, he⟩, -⟩ | ⟨_, u, _, _, hu, _, _, hcore⟩
    · rw [apply, he] at hrun
      cases hrun
      exact Nat.le_refl _
    · rw [apply, hu] at hrun
      cases hrun
      have hrec : u.records = (s.mint m).2.records.modify old fun r =>
        { r with replacedBy := some s.nextId } := congrArg Core.records hcore
      simp [hrec, mint]
  | removeMessage id =>
    rcases removeMessage_spec h id with ⟨e, he⟩ | ⟨_, u, _, _, hu, _, _, hcore⟩
    · rw [apply, he] at hrun
      cases hrun
      exact Nat.le_refl _
    · rw [apply, hu] at hrun
      cases hrun
      exact Nat.le_of_eq (congrArg length (congrArg Core.records hcore)).symm
  | replaceMessages ms =>
    rcases replaceMessages_spec h ms with ⟨⟨e, he⟩, -⟩ | ⟨u, _, hu, _, rfl⟩
    · rw [apply, he] at hrun
      cases hrun
      exact Nat.le_refl _
    · rw [apply, hu] at hrun
      cases hrun
      rw [activated_records, (live_recordAll h ms).2.2.1]
      exact Nat.le_add_right ..
  | restoreContext ids =>
    rcases restoreContext_spec h ids with ⟨e, he⟩ | ⟨u, _, hu, _, rfl⟩
    · rw [apply, he] at hrun
      cases hrun
      exact Nat.le_refl _
    · rw [apply, hu] at hrun
      cases hrun
      rw [activated_records]
  | edit f =>
    obtain ⟨_, u, v, _, hed, hv, _, _, hcore⟩ := edit_spec h f
    rw [apply, hv] at hrun
    cases hrun
    exact hed.grows.length_le.trans
      (Nat.le_of_eq (congrArg (fun c => c.records.length) hcore).symm)
  | clear =>
    rw [apply, (clear_spec h).1] at hrun
    cases hrun
    exact Nat.le_of_eq (congrArg length (activated_records s [] "clear" true)).symm
  | rollbackTo len =>
    obtain ⟨u, hu, _, hrec, _⟩ := rollbackTo_spec h len
    rw [apply, hu] at hrun
    cases hrun
    rw [hrec]
  | fork id =>
    obtain ⟨u, hu, _, hrec, _⟩ := fork_spec h id
    rw [apply, hu] at hrun
    cases hrun
    rw [hrec]
  | forkAt id at_ =>
    rcases forkAt_spec h id at_ with ⟨e, he⟩ | ⟨_, u, _, _, hu, _, hrec, _⟩
    · rw [apply, he] at hrun
      cases hrun
      exact Nat.le_refl _
    · rw [apply, hu] at hrun
      cases hrun
      rw [hrec]
  | setSystem text | appendSystem text | clearSystem =>
    cases hrun
    exact Nat.le_of_eq (congrArg length (putSystem_records s _)).symm
  | setTools tools | addTool tool | removeTool name =>
    cases hrun
    exact Nat.le_of_eq (congrArg length (putTools_records s _)).symm

/-- A session that a new one can become. -/
def FromNew (s : Session) : Prop := Reachable apply (fun s => ∃ id, s = blank id) s

theorem FromNew.live (h : FromNew s) : Live s := by
  refine Reachable.invariant (I := Live) ?_ (fun s op hs => live_apply hs op) h
  rintro _ ⟨id, rfl⟩
  exact live_blank id

/-! ## The outcome -/

/-- Two sessions with the same derived fields. -/
structure SameDerived (r s : Session) : Prop where
  system : r.system = s.system
  tools : r.tools = s.tools
  records : r.records = s.records
  active : r.active = s.active
  projection : r.projection = s.projection
  nextId : r.nextId = s.nextId
  revision : r.revision = s.revision
  fingerprint : r.fingerprint = s.fingerprint

/-- What the replay of a live session's log is: the session, but for the fingerprint, which the
replay always computes. -/
theorem replay_spec (h : Live s) :
    ∃ r, replay s.id s.events = some r ∧ r.core = s.core ∧ r.projection = s.projection ∧
      r.revision = s.revision ∧ r.fingerprint = s.computeFingerprint := by
  let t : Session := { s.events.foldl replayEvent (blank s.id) with
    revision := s.events.countP SessionEvent.movesRevision, events := s.events }
  have hcore : t.core = s.core := h.replays
  have hok : t.core.Ok := by
    rw [hcore]
    exact h.ok
  have hsys : t.system = s.system := congrArg Core.system hcore
  have htools : t.tools = s.tools := congrArg Core.tools hcore
  have hact : t.active = s.active := congrArg Core.active hcore
  have hrec : t.records = s.records := congrArg Core.records hcore
  have hproj : t.rebuilt.projection = s.projection := by
    rw [rebuilt_projection, h.projection, hact]
    refine filterMap_congr fun id _ => ?_
    rw [messageBy_eq hok, messageBy_eq h.ok, hrec]
  refine ⟨t.rebuilt, rebuildProjection_eq hok, hcore, hproj, h.revision.symm, ?_⟩
  exact computeFingerprint_congr hsys htools hact hproj

/-- The digest of a session with nothing in it is not the `0` that `blank` starts from. -/
theorem computeFingerprint_nothing (hsys : s.system = none) (htools : s.tools = ToolSet.new)
    (hact : s.active = []) : s.computeFingerprint ≠ 0 := by
  have hempty : s.computeFingerprint =
      ((Fnv.new.feedU64 0).feedU64 (0xcbf29ce484222325 : UInt64)).hash := by
    simp only [computeFingerprint, hsys, htools, hact]
    rfl
  rw [hempty]
  decide

/-- **The replay of a session's own log gives the session back**, in every derived field, exactly
when the log holds a context-affecting event.  Before the first one the session carries the
fingerprint `0`, and its replay the digest of an empty conversation. -/
theorem replay_same_iff {s : Session} (h : FromNew s) :
    (∃ r, replay s.id s.events = some r ∧ SameDerived r s) ↔
      ∃ e ∈ s.events, e.movesRevision = true := by
  have hlive := h.live
  rw [← List.countP_pos_iff, ← hlive.revision]
  obtain ⟨r, hr, hcore, hproj, hrev, hfp⟩ := replay_spec hlive
  constructor
  · rintro ⟨r', hr', hsame⟩
    rw [hr] at hr'
    cases hr'
    by_contra h0
    have hzero : s.revision = 0 := by omega
    obtain ⟨hsys, htools, hact⟩ := hlive.fresh hzero
    have h0 : s.computeFingerprint = 0 := by
      rw [← hfp, hsame.fingerprint, hlive.fingerprint, if_pos hzero]
    exact computeFingerprint_nothing hsys htools hact h0
  · intro hpos
    refine ⟨r, hr, congrArg Core.system hcore, congrArg Core.tools hcore,
      congrArg Core.records hcore, congrArg Core.active hcore, hproj, congrArg Core.nextId hcore,
      hrev, ?_⟩
    rw [hfp, hlive.fingerprint, if_neg (by omega)]

end

/-- After one push a new session's log replays to the session. -/
theorem replay_same_pushed :
    letI := SerdeJson.plain
    let s := ((blank "s").push (.user "hi")).2
    ∃ r, replay "s" s.events = some r ∧ SameDerived r s :=
  letI := SerdeJson.plain
  (replay_same_iff ⟨blank "s", [.push (.user "hi")], ⟨"s", rfl⟩, rfl⟩).2
    ⟨.messageAdded 0 (.user "hi"), List.mem_singleton.2 rfl, rfl⟩

/-- A new session's empty log replays to a session with another fingerprint. -/
theorem replay_new_differs :
    letI := SerdeJson.plain
    FromNew (blank "s") ∧
      ¬ ∃ r, replay "s" (blank "s").events = some r ∧ SameDerived r (blank "s") := by
  let _ := SerdeJson.plain
  refine ⟨⟨blank "s", [], ⟨"s", rfl⟩, rfl⟩, ?_⟩
  rintro ⟨r, hr, hsame⟩
  obtain ⟨r', hr', -, -, -, hfp⟩ := replay_spec (live_blank "s")
  have heq : r = r' := Option.some.inj (hr.symm.trans hr')
  have h0 : r'.fingerprint = 0 := heq ▸ hsame.fingerprint
  exact computeFingerprint_nothing rfl rfl rfl (hfp.symm.trans h0)

end Session
end Gen2
