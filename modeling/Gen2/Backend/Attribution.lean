import Gen2.Session.Defs
import Mathlib.Data.List.Induction

/-!
# Results without an id, in the backends

A tool result that does not say which call it answers is given one in three places besides the
session: `backend/mistralrs/convert.rs`, `backend/litertlm/convert.rs` and the `pull` of
`backend/litertlm/session.rs`.  The session counts the results of a round off its calls; the
backends look back for the nearest calls, and take the first or the last of them for every result.

* `Transcript`: complete rounds of calls, with anything between that is neither call nor result.
* `attributed_rounds` and `picked_rounds` read what the session and a backend say round by round.
* `attribution_agrees`: when they say the same.
-/

namespace Gen2.Attribution

open List

/-! ## The conversions -/

/-- A result that does not say which call it answers. -/
def isLegacy (m : Message) : Bool := (callsOf m).isEmpty && isResult m && m.toolCallId.isNone

/-- The search backwards: what `pick` takes of the nearest calls. -/
def nearestCall (pick : List String → Option String) (messages : List Message) : String :=
  (messages.reverse.findSome? fun m => pick (callsOf m)).getD ""

/-- The id of the call that the result at `index` answers: its own, or what the search finds. -/
def callIdWith (pick : List String → Option String) (messages : List Message) (index : Nat)
    : String :=
  match messages[index]?.bind Message.toolCallId with
  | some id => id
  | none => nearestCall pick (messages.take index)

/-- `last_call_id` of `mistralrs/convert.rs`. -/
def lastCallId (messages : List Message) (position : Nat) : String :=
  callIdWith List.head? messages position

/-- `call_id_for` of `litertlm/convert.rs`. -/
def callIdFor (messages : List Message) (index : Nat) : String :=
  callIdWith List.getLast? messages index

/-- The call id that `messages_into` puts on a message. -/
def messagesInto (messages : List Message) (position : Nat) : Option String :=
  match messages[position]? with
  | none => none
  | some m =>
    if !(callsOf m).isEmpty then
      none
    else if isResult m then
      some (lastCallId messages position)
    else
      none

/-- The call id that `message_json` puts on a message. -/
def messageJson (message : Message) (callId : String) : Option String :=
  match message.body with
  | .tool _ => none
  | .content _ => if message.role == "tool" then some callId else none

/-- The call id that `messages_json` puts on a message. -/
def messagesJson (messages : List Message) (index : Nat) : Option String :=
  messages[index]?.bind fun m => messageJson m (callIdFor messages index)

/-- The call id that `pull` puts on the last message of a turn. -/
def pull (delivered : List Message) (last : Message) : Option String :=
  messageJson last (last.toolCallId.getD (nearestCall List.getLast? delivered))

/-! ## Complete rounds -/

/-- The calls that the results of a round answer, in order, when none of them is an orphan. -/
def answers : List String → List Message → Option (List String)
  | _, [] => some []
  | opens, m :: ms =>
    if isResult m then
      match m.toolCallId, opens with
      | some cid, _ => (answers (opens.filter (· != cid)) ms).map (cid :: ·)
      | none, [] => none
      | none, call :: rest => (answers rest ms).map (call :: ·)
    else
      answers opens ms

/-- The ids that results carry themselves. -/
def carried (messages : List Message) : List String :=
  messages.filterMap fun m => if isResult m then m.toolCallId else none

/-- A round in which every call is answered once. -/
structure Round where
  calls : Message
  rest : List Message
  nonempty : callsOf calls ≠ []
  noCalls : ∀ m ∈ rest, callsOf m = []
  content : ∀ m ∈ rest, isResult m = true → ∃ content, m.body = .content content
  answered : ∃ given, answers (callsOf calls) rest = some given ∧ given.Perm (callsOf calls)

def Round.messages (r : Round) : List Message := r.calls :: r.rest

/-- A transcript of complete rounds. -/
structure Transcript where
  before : List Message
  rounds : List Round
  noCalls : ∀ m ∈ before, callsOf m = [] ∧ isResult m = false

def Transcript.messages (t : Transcript)
    : List Message := t.before ++ t.rounds.flatMap Round.messages

/-- Where the results without an id are. -/
def legacyPositions (messages : List Message) : List Nat :=
  (List.range messages.length).filter fun i => messages[i]?.any isLegacy

/-- The results of the round carry the ids of all its calls but `call`. -/
def Round.CarriesAllBut (r : Round) (call : Option String) : Prop :=
  ∀ c, some c ≠ call → (carried r.rest).count c = (callsOf r.calls).count c

/-! ## What the session says -/

/-- The calls that `attribute_legacy` gives the results without an id. -/
def attributed : List String → List Message → List String
  | _, [] => []
  | opens, m :: ms =>
    if !(callsOf m).isEmpty then
      attributed (callsOf m) ms
    else if isResult m then
      match m.toolCallId with
      | some cid => attributed (opens.filter (· != cid)) ms
      | none => opens.headD "" :: attributed opens.tail ms
    else
      attributed opens ms

theorem attributeLegacyLoop_eq (lookup : MessageId → Option Message) (opens : List String)
    (ids : List MessageId) :
    (attributeLegacyLoop lookup opens ids).map Prod.snd =
      attributed opens (ids.filterMap lookup) := by
  induction ids generalizing opens with
  | nil => rfl
  | cons id ids ih =>
    unfold attributeLegacyLoop
    rcases hm : lookup id with _ | m
    · rw [filterMap_cons_none hm]
      exact ih opens
    rw [filterMap_cons_some hm, attributed]
    dsimp only
    split
    · exact ih _
    split
    · rcases m.toolCallId with _ | cid
      · rcases opens with _ | ⟨call, rest⟩
        · exact congrArg ("" :: ·) (ih [])
        · exact congrArg (call :: ·) (ih rest)
      · exact ih _
    · exact ih _

theorem attributeLegacy_eq (lookup : MessageId → Option Message) (ids : List MessageId) :
    (attributeLegacy lookup ids).map Prod.snd = attributed [] (ids.filterMap lookup) :=
  attributeLegacyLoop_eq lookup [] ids

/-- The calls that the messages leave open. -/
def opensAfter : List String → List Message → List String
  | opens, [] => opens
  | opens, m :: ms =>
    if !(callsOf m).isEmpty then
      opensAfter (callsOf m) ms
    else if isResult m then
      match m.toolCallId with
      | some cid => opensAfter (opens.filter (· != cid)) ms
      | none => opensAfter opens.tail ms
    else
      opensAfter opens ms

/-- What comes after depends only on the calls that are left open. -/
theorem attributed_append (opens : List String) (ms more : List Message) :
    attributed opens (ms ++ more) = attributed opens ms ++ attributed (opensAfter opens ms) more := by
  induction ms generalizing opens with
  | nil => rfl
  | cons m ms ih =>
    rw [cons_append, attributed, attributed, opensAfter]
    by_cases hcalls : (!(callsOf m).isEmpty) = true
    · simp only [hcalls, if_true]
      exact ih (callsOf m)
    by_cases hresult : isResult m = true
    · simp only [hcalls, hresult, if_true]
      rcases m.toolCallId with _ | cid
      · exact congrArg (opens.headD "" :: ·) (ih opens.tail)
      · exact ih _
    · simp only [hcalls, hresult]
      exact ih opens

variable {ms : List Message}

theorem attributed_before (h : ∀ m ∈ ms, callsOf m = [] ∧ isResult m = false) (opens : List String)
    (more : List Message) : attributed opens (ms ++ more) = attributed opens more := by
  induction ms with
  | nil => rfl
  | cons m ms ih =>
    obtain ⟨hcalls, hresult⟩ := h m mem_cons_self
    rw [cons_append, attributed, hcalls, hresult]
    exact ih fun m hm => h m (mem_cons_of_mem _ hm)

/-- The session attributes round by round. -/
theorem attributed_rounds (opens : List String) (rounds : List Round) :
    attributed opens (rounds.flatMap Round.messages) =
      rounds.flatMap fun r => attributed (callsOf r.calls) r.rest := by
  induction rounds generalizing opens with
  | nil => rfl
  | cons r rounds ih =>
    have hcalls : (!(callsOf r.calls).isEmpty) = true := by simp [r.nonempty]
    rw [flatMap_cons, flatMap_cons, Round.messages, cons_append, attributed,
      if_pos hcalls, attributed_append, ih]

/-! ## What a backend says -/

/-- What the search finds for the results without an id, `current` being what it has found. -/
def picked (pick : List String → Option String) : String → List Message → List String
  | _, [] => []
  | current, m :: ms =>
    (if isLegacy m then [(pick (callsOf m)).getD current] else []) ++
      picked pick ((pick (callsOf m)).getD current) ms

theorem nearestCall_append (pick : List String → Option String) (before : List Message)
    (m : Message) :
    nearestCall pick (before ++ [m]) = (pick (callsOf m)).getD (nearestCall pick before) := by
  unfold nearestCall
  rw [reverse_append, reverse_singleton, singleton_append, findSome?_cons]
  rcases pick (callsOf m) with _ | call
  · rfl
  · rfl

theorem legacyPositions_cons (m : Message) (ms : List Message) :
    legacyPositions (m :: ms) =
      (if isLegacy m then [0] else []) ++ (legacyPositions ms).map Nat.succ := by
  unfold legacyPositions
  rw [length_cons, range_succ_eq_map, filter_cons, filter_map]
  by_cases h : isLegacy m = true
  · simp [h, Function.comp_def]
  · simp [h, Function.comp_def]

/-- The search at every result without an id. -/
theorem map_nearestCall (pick : List String → Option String) (hpick : pick [] = none)
    (before messages : List Message) :
    (legacyPositions messages).map (fun i => nearestCall pick (before ++ messages.take i)) =
      picked pick (nearestCall pick before) messages := by
  induction messages generalizing before with
  | nil => rfl
  | cons m ms ih =>
    have htail : ((legacyPositions ms).map Nat.succ).map
        (fun i => nearestCall pick (before ++ (m :: ms).take i)) =
          picked pick ((pick (callsOf m)).getD (nearestCall pick before)) ms := by
      rw [← nearestCall_append, ← ih (before ++ [m]), map_map]
      refine map_congr_left fun i _ => ?_
      simp
    rw [legacyPositions_cons, map_append, htail, picked]
    by_cases h : isLegacy m = true
    · have hcalls : callsOf m = [] := by
        simp only [isLegacy, Bool.and_eq_true] at h
        exact isEmpty_iff.1 h.1.1
      rw [if_pos h, if_pos h, hcalls, hpick]
      simp
    · rw [if_neg h, if_neg h]
      rfl

variable {pick : List String → Option String}

/-- The search looks no further than the round. -/
theorem picked_rest (hpick : pick [] = none) (current : String) (h : ∀ m ∈ ms, callsOf m = [])
    (more : List Message) :
    picked pick current (ms ++ more) =
      replicate (ms.countP isLegacy) current ++ picked pick current more := by
  induction ms with
  | nil => rfl
  | cons m ms ih =>
    have hcurrent : (pick (callsOf m)).getD current = current := by
      rw [h m mem_cons_self, hpick, Option.getD_none]
    rw [cons_append, picked, hcurrent, ih fun m hm => h m (mem_cons_of_mem _ hm),
      countP_cons]
    by_cases hlegacy : isLegacy m = true
    · rw [if_pos hlegacy, if_pos hlegacy, Nat.add_comm, replicate_add]
      rfl
    · rw [if_neg hlegacy, if_neg hlegacy]
      rfl

theorem picked_rounds (hpick : pick [] = none) (hsome : ∀ calls, calls ≠ [] → (pick calls).isSome)
    (current : String) (rounds : List Round) :
    picked pick current (rounds.flatMap Round.messages) =
      rounds.flatMap fun r =>
        replicate (r.rest.countP isLegacy) ((pick (callsOf r.calls)).getD "") := by
  induction rounds generalizing current with
  | nil => rfl
  | cons r rounds ih =>
    obtain ⟨call, hcall⟩ := Option.isSome_iff_exists.1 (hsome _ r.nonempty)
    have hlegacy : isLegacy r.calls = false := by simp [isLegacy, r.nonempty]
    rw [flatMap_cons, flatMap_cons, Round.messages, cons_append, picked, hcall,
      hlegacy, Option.getD_some, Option.getD_some, picked_rest hpick call r.noCalls, ih]
    rfl

/-! ## Round by round -/

theorem isLegacy_iff {m : Message} (h : callsOf m = []) :
    isLegacy m = (isResult m && m.toolCallId.isNone) := by
  simp [isLegacy, h]

variable {opens given : List String}

/-- The answers of a round are the ids that its results carry and those that the session gives. -/
theorem answers_perm (h : ∀ m ∈ ms, callsOf m = []) (hgiven : answers opens ms = some given) :
    given.Perm (carried ms ++ attributed opens ms) ∧
      (attributed opens ms).length = ms.countP isLegacy := by
  induction ms generalizing opens given with
  | nil =>
    obtain rfl := Option.some.inj hgiven
    exact ⟨.nil, rfl⟩
  | cons m ms ih =>
    have hcalls : callsOf m = [] := h m mem_cons_self
    have hrest : ∀ m ∈ ms, callsOf m = [] := fun m hm => h m (mem_cons_of_mem _ hm)
    unfold answers at hgiven
    rw [attributed, hcalls, countP_cons, isLegacy_iff hcalls, carried, filterMap_cons]
    by_cases hresult : isResult m = true
    · rw [if_pos hresult] at hgiven
      simp only [hresult, if_true, isEmpty_nil, Bool.not_true, Bool.false_eq_true, if_false,
        Bool.true_and]
      rcases hid : m.toolCallId with _ | cid
      · rw [hid] at hgiven
        rcases opens with _ | ⟨call, rest⟩
        · exact nomatch hgiven
        · obtain ⟨given', hgiven', rfl⟩ := Option.map_eq_some_iff.1 hgiven
          obtain ⟨hperm, hlength⟩ := ih hrest hgiven'
          exact ⟨(hperm.cons call).trans perm_middle.symm, by simpa using hlength⟩
      · rw [hid] at hgiven
        obtain ⟨given', hgiven', rfl⟩ := Option.map_eq_some_iff.1 hgiven
        obtain ⟨hperm, hlength⟩ := ih hrest hgiven'
        exact ⟨hperm.cons cid, by simpa using hlength⟩
    · rw [if_neg hresult] at hgiven
      simpa [hresult, carried] using ih hrest hgiven

theorem Round.length_attributed (r : Round) :
    (attributed (callsOf r.calls) r.rest).length = r.rest.countP isLegacy := by
  obtain ⟨given, hgiven, -⟩ := r.answered
  exact (answers_perm r.noCalls hgiven).2

/-- One call for all the results without an id is right where the others carry all the others. -/
theorem Round.attributed_eq_replicate (r : Round) (call : String) :
    attributed (callsOf r.calls) r.rest = replicate (r.rest.countP isLegacy) call ↔
      r.CarriesAllBut (some call) := by
  obtain ⟨given, hgiven, hperm⟩ := r.answered
  have hcount : ∀ c, (callsOf r.calls).count c =
      (carried r.rest).count c + (attributed (callsOf r.calls) r.rest).count c := fun c => by
    rw [← hperm.count_eq, (answers_perm r.noCalls hgiven).1.count_eq, count_append]
  rw [eq_replicate_iff, and_iff_right r.length_attributed]
  constructor
  · intro h c hne
    have hzero : (attributed (callsOf r.calls) r.rest).count c = 0 :=
      count_eq_zero_of_not_mem fun hmem => hne (congrArg some (h c hmem))
    rw [hcount, hzero]
    rfl
  · intro h c hmem
    by_contra hne
    have hpos := count_pos_iff.2 hmem
    have hsame := h c fun heq => hne (Option.some.inj heq)
    have := hcount c
    omega

theorem flatMap_eq_flatMap_iff {α β : Type} {f g : α → List β} {l : List α}
    (h : ∀ a ∈ l, (f a).length = (g a).length) :
    l.flatMap f = l.flatMap g ↔ ∀ a ∈ l, f a = g a := by
  induction l with
  | nil => simp
  | cons a l ih =>
    have ih := ih fun b hb => h b (mem_cons_of_mem _ hb)
    rw [flatMap_cons, flatMap_cons, forall_mem_cons, ← ih]
    constructor
    · intro heq
      exact append_inj heq (h a mem_cons_self)
    · rintro ⟨hhead, htail⟩
      rw [hhead, htail]

theorem picked_before (hpick : pick [] = none) (h : ∀ m ∈ ms, callsOf m = [] ∧ isResult m = false)
    (more : List Message) : picked pick "" (ms ++ more) = picked pick "" more := by
  have hcount : ms.countP isLegacy = 0 := countP_eq_zero.2 fun m hm => by
    simp [isLegacy, (h m hm).2]
  rw [picked_rest hpick "" (fun m hm => (h m hm).1), hcount]
  rfl

/-- A search agrees with the session exactly where each round's results carry all ids but the one
that it takes. -/
theorem Transcript.searched_eq_iff (t : Transcript) (hpick : pick [] = none)
    (hsome : ∀ calls, calls ≠ [] → (pick calls).isSome) :
    (legacyPositions t.messages).map (fun i => nearestCall pick (t.messages.take i)) =
        attributed [] t.messages ↔
      ∀ r ∈ t.rounds, r.CarriesAllBut (pick (callsOf r.calls)) := by
  have hsearch := map_nearestCall pick hpick [] t.messages
  simp only [nil_append] at hsearch
  rw [hsearch, Transcript.messages, attributed_before t.noCalls, attributed_rounds]
  show picked pick "" _ = _ ↔ _
  rw [picked_before hpick t.noCalls, picked_rounds hpick hsome, flatMap_eq_flatMap_iff]
  · refine forall₂_congr fun r _ => ?_
    obtain ⟨call, hcall⟩ := Option.isSome_iff_exists.1 (hsome _ r.nonempty)
    rw [hcall, Option.getD_some, eq_comm, r.attributed_eq_replicate]
  · intro r _
    rw [length_replicate, r.length_attributed]

/-! ## The last result of a turn -/

/-- What is left open is the end of what no result carries. -/
theorem opensAfter_suffix (opens : List String) (h : ∀ m ∈ ms, callsOf m = []) :
    opensAfter opens ms <:+ opens.filter fun c => !(carried ms).contains c := by
  induction ms generalizing opens with
  | nil => simp [opensAfter, carried]
  | cons m ms ih =>
    have ih := fun opens => ih opens fun m hm => h m (mem_cons_of_mem _ hm)
    rw [opensAfter, h m mem_cons_self, carried, filterMap_cons]
    by_cases hresult : isResult m = true
    · simp only [hresult, isEmpty_nil, Bool.not_true, Bool.false_eq_true, if_false, if_true]
      rcases m.toolCallId with _ | cid
      · refine (ih opens.tail).trans ?_
        rcases opens with _ | ⟨call, rest⟩
        · exact suffix_rfl
        · exact (suffix_cons call rest).filter _
      · have hboth : (opens.filter (· != cid)).filter (fun c => !(carried ms).contains c) =
            opens.filter fun c => !(cid :: carried ms).contains c := by
          rw [filter_filter]
          refine filter_congr fun c _ => ?_
          rw [contains_cons, Bool.not_or, Bool.and_comm]
          rfl
        exact hboth ▸ ih _
    · simpa [hresult, carried] using ih opens

/-- A call that no result carries is answered, or left open. -/
theorem count_answers (hms : ∀ m ∈ ms, callsOf m = []) (h : answers opens ms = some given)
    {c : String} (hc : c ∉ carried ms) :
    opens.count c = given.count c + (opensAfter opens ms).count c := by
  induction ms generalizing opens given with
  | nil =>
    obtain rfl := Option.some.inj h
    simp [opensAfter]
  | cons m ms ih =>
    have hrest : ∀ m ∈ ms, callsOf m = [] := fun m hm => hms m (mem_cons_of_mem _ hm)
    unfold answers at h
    rw [opensAfter, hms m mem_cons_self]
    rw [carried, filterMap_cons] at hc
    by_cases hresult : isResult m = true
    · simp only [hresult, if_true] at h hc
      simp only [hresult, isEmpty_nil, Bool.not_true, Bool.false_eq_true, if_false, if_true]
      rcases hid : m.toolCallId with _ | cid
      · rw [hid] at h hc
        rcases opens with _ | ⟨call, rest⟩
        · exact nomatch h
        · obtain ⟨given', hgiven', rfl⟩ := Option.map_eq_some_iff.1 h
          have ih := ih hrest hgiven' hc
          simp only [count_cons, ih, tail_cons]
          omega
      · rw [hid] at h hc
        obtain ⟨hne, hc⟩ := not_or.1 (mem_cons.not.1 hc)
        obtain ⟨given', hgiven', rfl⟩ := Option.map_eq_some_iff.1 h
        rw [count_cons_of_ne (Ne.symm hne), ← ih hrest hgiven' hc, count_filter]
        simpa using hne
    · rw [if_neg hresult] at h
      simp only [hresult, isEmpty_nil, Bool.not_true, Bool.false_eq_true, if_false] at hc ⊢
      exact ih hrest h (by simpa [carried] using hc)

theorem answers_append (hms : ∀ m ∈ ms, callsOf m = []) {last : Message}
    (hlast : isLegacy last = true) (h : answers opens (ms ++ [last]) = some given) :
    ∃ given' call rest, answers opens ms = some given' ∧ opensAfter opens ms = call :: rest ∧
      given = given' ++ [call] := by
  simp only [isLegacy, Bool.and_eq_true, Option.isNone_iff_eq_none] at hlast
  obtain ⟨⟨-, hresult⟩, hnone⟩ := hlast
  induction ms generalizing opens given with
  | nil =>
    rw [nil_append] at h
    unfold answers at h
    rw [if_pos hresult, hnone] at h
    rcases opens with _ | ⟨call, rest⟩
    · exact nomatch h
    · exact ⟨[], call, rest, rfl, rfl, (Option.some.inj h).symm⟩
  | cons m ms ih =>
    have hrest : ∀ m ∈ ms, callsOf m = [] := fun m hm => hms m (mem_cons_of_mem _ hm)
    rw [cons_append] at h
    unfold answers at h ⊢
    rw [opensAfter, hms m mem_cons_self]
    simp only [isEmpty_nil, Bool.not_true, Bool.false_eq_true, if_false]
    by_cases hm : isResult m = true
    · rw [if_pos hm] at h ⊢
      rw [if_pos hm]
      rcases hid : m.toolCallId with _ | cid
      · rw [hid] at h
        rcases opens with _ | ⟨first, opens⟩
        · exact nomatch h
        · obtain ⟨given₁, hgiven₁, rfl⟩ := Option.map_eq_some_iff.1 h
          obtain ⟨given', call, rest, hgiven', hopens, rfl⟩ := ih hrest hgiven₁
          exact ⟨first :: given', call, rest, congrArg (Option.map (first :: ·)) hgiven', hopens,
            rfl⟩
      · rw [hid] at h
        obtain ⟨given₁, hgiven₁, rfl⟩ := Option.map_eq_some_iff.1 h
        obtain ⟨given', call, rest, hgiven', hopens, rfl⟩ := ih hrest hgiven₁
        exact ⟨cid :: given', call, rest, congrArg (Option.map (cid :: ·)) hgiven', hopens, rfl⟩
    · rw [if_neg hm] at h ⊢
      rw [if_neg hm]
      exact ih hrest h

/-- The last result of a round answers the last call whose id no result carries. -/
theorem Round.last_attributed (r : Round) {last : Message} (hrest : r.rest = ms ++ [last])
    (hlast : isLegacy last = true) :
    (attributed (callsOf r.calls) r.rest).getLast? =
      ((callsOf r.calls).filter fun c => !(carried r.rest).contains c).getLast? := by
  have hms : ∀ m ∈ ms, callsOf m = [] := fun m hm =>
    r.noCalls m (hrest ▸ mem_append_left _ hm)
  obtain ⟨given, hgiven, hperm⟩ := r.answered
  rw [hrest] at hgiven
  obtain ⟨given', call, rest, hgiven', hopens, rfl⟩ := answers_append hms hlast hgiven
  simp only [isLegacy, Bool.and_eq_true, Option.isNone_iff_eq_none] at hlast
  obtain ⟨⟨hcalls, hresult⟩, hnone⟩ := hlast
  have hcarried : carried r.rest = carried ms := by
    rw [hrest, carried, filterMap_append]
    simp [carried, hresult, hnone]
  have hsuffix := opensAfter_suffix (callsOf r.calls) hms
  rw [hopens] at hsuffix
  -- nothing else is left open, since everything is answered in the end
  have hrest' : rest = [] := by
    refine eq_nil_iff_forall_not_mem.2 fun c hc => ?_
    have hmem := hsuffix.subset (mem_cons_of_mem call hc)
    have hnot : c ∉ carried ms := by simpa using (mem_filter.1 hmem).2
    have hcount := count_answers hms hgiven' hnot
    rw [hopens, ← hperm.count_eq, count_append] at hcount
    have hpos := count_pos_iff.2 hc
    simp only [count_cons, count_nil] at hcount
    omega
  subst hrest'
  have hlastOpen : ((callsOf r.calls).filter fun c => !(carried ms).contains c).getLast? =
      some call := by
    obtain ⟨front, hfront⟩ := hsuffix
    rw [← hfront, getLast?_concat]
  have hattributed : attributed (callsOf r.calls) r.rest =
      attributed (callsOf r.calls) ms ++ [call] := by
    rw [hrest, attributed_append, hopens]
    unfold attributed
    simp [hcalls, hresult, hnone, attributed]
  rw [hcarried, hlastOpen, hattributed, getLast?_concat]

/-! ## Agreement -/

/-- What is put on the results without an id is what the session attributes to them. -/
def Agrees (callId : List Message → Nat → Option String) (lookup : MessageId → Option Message)
    (ids : List MessageId) : Prop :=
  (legacyPositions (ids.filterMap lookup)).map (callId (ids.filterMap lookup)) =
    (attributeLegacy lookup ids).map fun p => some p.2

theorem getElem_legacyPositions {messages : List Message} {i : Nat}
    (h : i ∈ legacyPositions messages) : ∃ m, messages[i]? = some m ∧ isLegacy m = true :=
  Option.any_eq_true _ _ |>.1 (mem_filter.1 h).2

/-- A result without an id is a message with a text, in one of the rounds. -/
theorem Transcript.mem_rest (t : Transcript) {m : Message} (hm : m ∈ t.messages)
    (h : isLegacy m = true) : ∃ r ∈ t.rounds, m ∈ r.rest := by
  simp only [isLegacy, Bool.and_eq_true, List.isEmpty_iff] at h
  rcases List.mem_append.1 hm with hm | hm
  · rw [(t.noCalls m hm).2] at h
    exact nomatch h.1.2
  · obtain ⟨r, hr, hm⟩ := List.mem_flatMap.1 hm
    rcases List.mem_cons.1 hm with rfl | hm
    · exact absurd h.1.1 r.nonempty
    · exact ⟨r, hr, hm⟩

theorem Transcript.messageJson_legacy (t : Transcript) {m : Message} (hm : m ∈ t.messages)
    (h : isLegacy m = true) (callId : String) : messageJson m callId = some callId := by
  obtain ⟨r, -, hmem⟩ := t.mem_rest hm h
  simp only [isLegacy, Bool.and_eq_true] at h
  obtain ⟨content, hbody⟩ := r.content m hmem h.1.2
  rw [messageJson, hbody]
  exact if_pos h.1.2

/-- A conversion that puts on a result what its search finds. -/
theorem Transcript.agrees_iff (t : Transcript) {lookup : MessageId → Option Message}
    {ids : List MessageId} (h : ids.filterMap lookup = t.messages)
    {callId : List Message → Nat → Option String}
    (hcallId : ∀ i ∈ legacyPositions t.messages,
      callId t.messages i = some (nearestCall pick (t.messages.take i))) (hpick : pick [] = none)
    (hsome : ∀ calls, calls ≠ [] → (pick calls).isSome) :
    Agrees callId lookup ids ↔ ∀ r ∈ t.rounds, r.CarriesAllBut (pick (callsOf r.calls)) := by
  have hattributed : ((attributeLegacy lookup ids).map fun p => some p.2) =
      (attributed [] t.messages).map some := by
    rw [← h, ← attributeLegacy_eq, map_map]
    rfl
  have hsearched : (legacyPositions t.messages).map (callId t.messages) =
      ((legacyPositions t.messages).map fun i => nearestCall pick (t.messages.take i)).map some := by
    rw [map_map]
    exact map_congr_left hcallId
  rw [Agrees, h, hsearched, hattributed, ← t.searched_eq_iff hpick hsome]
  exact (map_injective_iff.2 (Option.some_injective _)).eq_iff

theorem nearestCall_getLast (messages : List Message) :
    nearestCall getLast? messages = (messages.flatMap callsOf).getLast?.getD "" := by
  induction messages using reverseRecOn with
  | nil => rfl
  | append_singleton before m ih =>
    rw [nearestCall_append, ih, flatMap_append, flatMap_singleton, getLast?_append]
    rcases (callsOf m).getLast? with _ | call
    · rfl
    · rfl

/-- Where a turn ends in a result without an id, that is the last of the last round. -/
theorem Transcript.last_rest (t : Transcript) {front : List Message} {last : Message}
    (hlast : t.messages = front ++ [last]) (h : isLegacy last = true) :
    ∃ rounds r ms, t.rounds = rounds ++ [r] ∧ r.rest = ms ++ [last] := by
  obtain ⟨r₀, hr₀, -⟩ := t.mem_rest (hlast ▸ List.mem_append_right _ List.mem_cons_self) h
  obtain ⟨rounds, r, hrounds⟩ : ∃ rounds r, t.rounds = rounds ++ [r] := by
    rcases List.eq_nil_or_concat t.rounds with hnil | ⟨rounds, r, hrounds⟩
    · rw [hnil] at hr₀
      exact absurd hr₀ List.not_mem_nil
    · exact ⟨rounds, r, by rw [hrounds, List.concat_eq_append]⟩
  refine ⟨rounds, r, r.rest.dropLast, hrounds, ?_⟩
  have hend := congrArg List.getLast? hlast
  rw [List.getLast?_concat, Transcript.messages, hrounds, List.flatMap_append,
    List.flatMap_singleton, Round.messages, ← List.append_assoc, List.getLast?_append] at hend
  rcases List.eq_nil_or_concat r.rest with hnil | ⟨ms, m, hms⟩
  · rw [hnil] at hend
    have heq : r.calls = last := Option.some.inj hend
    simp only [isLegacy, Bool.and_eq_true, List.isEmpty_iff] at h
    exact absurd (heq ▸ h.1.1) r.nonempty
  · rw [List.concat_eq_append] at hms
    rw [hms, ← List.singleton_append, ← List.append_assoc, List.getLast?_concat] at hend
    have heq : m = last := Option.some.inj hend
    rw [hms, heq, List.dropLast_concat]

/-- **When the backends tie a result without an id to the call that the session does.**  mistral.rs:
when the results of each round carry the ids of all its calls but the first.  LiteRT-LM: all but the
last; and where the last message of a turn is such a result, when the last call that was delivered
before the turn is the last call of the round whose id no result carries. -/
theorem attribution_agrees (t : Transcript) (lookup : MessageId → Option Message)
    (ids : List MessageId) (h : ids.filterMap lookup = t.messages) :
    (Agrees messagesInto lookup ids ↔
      ∀ r ∈ t.rounds, r.CarriesAllBut (callsOf r.calls).head?) ∧
    (Agrees messagesJson lookup ids ↔
      ∀ r ∈ t.rounds, r.CarriesAllBut (callsOf r.calls).getLast?) ∧
    ∀ delivered earlier last r, t.messages = delivered ++ earlier ++ [last] →
      isLegacy last = true → t.rounds.getLast? = some r →
      (pull delivered last = (attributeLegacy lookup ids).getLast?.map Prod.snd ↔
        (delivered.flatMap callsOf).getLast?.getD "" =
          ((callsOf r.calls).filter fun c => !(carried r.rest).contains c).getLast?.getD "") := by
  have hposition : ∀ {pick i}, i ∈ legacyPositions t.messages → ∃ m, t.messages[i]? = some m ∧
      isLegacy m = true ∧
        callIdWith pick t.messages i = nearestCall pick (t.messages.take i) := by
    intro pick i hi
    obtain ⟨m, hm, hlegacy⟩ := getElem_legacyPositions hi
    refine ⟨m, hm, hlegacy, ?_⟩
    simp only [isLegacy, Bool.and_eq_true, Option.isNone_iff_eq_none] at hlegacy
    rw [callIdWith, hm, Option.bind_some, hlegacy.2]
  refine ⟨t.agrees_iff h (fun i hi => ?_) rfl fun calls hne => by simpa using hne,
    t.agrees_iff h (fun i hi => ?_) rfl fun calls hne => by simpa using hne, ?_⟩
  · obtain ⟨m, hm, hlegacy, hid⟩ := hposition hi
    simp only [isLegacy, Bool.and_eq_true, List.isEmpty_iff] at hlegacy
    rw [messagesInto, hm, lastCallId, hid]
    simp [hlegacy.1.1, hlegacy.1.2]
  · obtain ⟨m, hm, hlegacy, hid⟩ := hposition hi
    rw [messagesJson, hm, Option.bind_some,
      t.messageJson_legacy (List.mem_of_getElem? hm) hlegacy, callIdFor, hid]
  intro delivered earlier last r hmessages hlast hr
  obtain ⟨rounds, r', ms, hrounds, hrest⟩ := t.last_rest hmessages hlast
  obtain rfl : r' = r := by
    rw [hrounds, List.getLast?_concat] at hr
    exact Option.some.inj hr
  have hmem : last ∈ t.messages := hmessages ▸ List.mem_append_right _ List.mem_cons_self
  have hnone : last.toolCallId = none := by
    simp only [isLegacy, Bool.and_eq_true, Option.isNone_iff_eq_none] at hlast
    exact hlast.2
  have hlegacy : 0 < r'.rest.countP isLegacy :=
    List.countP_pos_iff.2 ⟨last, hrest ▸ List.mem_append_right _ List.mem_cons_self, hlast⟩
  -- the session's last attribution is that of the last round
  have hattributed : (attributeLegacy lookup ids).getLast?.map Prod.snd =
      (attributed (callsOf r'.calls) r'.rest).getLast? := by
    rw [← List.getLast?_map, attributeLegacy_eq, h, Transcript.messages,
      attributed_before t.noCalls, attributed_rounds, hrounds, List.flatMap_append,
      List.flatMap_singleton, List.getLast?_append_of_ne_nil]
    intro hnil
    rw [← r'.length_attributed, hnil] at hlegacy
    exact Nat.lt_irrefl 0 hlegacy
  obtain ⟨call, hcall⟩ : ∃ call,
    (attributed (callsOf r'.calls) r'.rest).getLast? = some call := by
    refine Option.isSome_iff_exists.1 (List.getLast?_isSome.2 fun hnil => ?_)
    rw [← r'.length_attributed, hnil] at hlegacy
    exact Nat.lt_irrefl 0 hlegacy
  rw [pull, t.messageJson_legacy hmem hlast, hnone, Option.getD_none, nearestCall_getLast,
    hattributed, ← r'.last_attributed hrest hlast, hcall, Option.getD_some]
  exact Option.some_inj

/-! ## Two transcripts -/

/-- A call of a tool, by its id. -/
def callOf (id : String) : ToolCall := ⟨id, "function", ⟨none, "read", .null⟩⟩

/-- A round of one call, with a result that does not say so. -/
def oneCall : Transcript where
  before := [.user "read it"]
  rounds := [{
    calls := .assistantToolCalls [callOf "a"]
    rest := [.toolResult "x"]
    nonempty := by decide
    noCalls := by decide
    content := by simp [Message.toolResult]
    answered := ⟨["a"], rfl, .rfl⟩ }]
  noCalls := by decide

/-- A round of two, with two such results. -/
def twoCalls : Transcript where
  before := []
  rounds := [{
    calls := .assistantToolCalls [callOf "a", callOf "b"]
    rest := [.toolResult "x", .toolResult "y"]
    nonempty := by decide
    noCalls := by decide
    content := by simp [Message.toolResult]
    answered := ⟨["a", "b"], rfl, .rfl⟩ }]
  noCalls := nofun

/-- With one call everybody says the same. -/
theorem attribution_agrees_for_one :
    Agrees messagesInto (fun i => oneCall.messages[i]?) [0, 1, 2] ∧
      Agrees messagesJson (fun i => oneCall.messages[i]?) [0, 1, 2] ∧
      pull [.user "read it", .assistantToolCalls [callOf "a"]] (.toolResult "x") =
        (attributeLegacy (fun i => oneCall.messages[i]?) [0, 1, 2]).getLast?.map Prod.snd := by
  obtain ⟨hinto, hjson, hpull⟩ :=
    attribution_agrees oneCall (fun i => oneCall.messages[i]?) [0, 1, 2] rfl
  have hcarries : ∀ r ∈ oneCall.rounds, r.CarriesAllBut (some "a") := by
    intro r hr c hc
    rw [List.mem_singleton.1 hr]
    have hne : "a" ≠ c := fun heq => hc (congrArg some heq.symm)
    show 0 = ["a"].count c
    rw [List.count_cons_of_ne hne, List.count_nil]
  refine ⟨hinto.2 fun r hr => ?_, hjson.2 fun r hr => ?_,
    (hpull _ [] _ _ rfl (by decide) rfl).2 rfl⟩
  · have hcalls := hcarries r hr
    rw [List.mem_singleton.1 hr] at hcalls ⊢
    exact hcalls
  · have hcalls := hcarries r hr
    rw [List.mem_singleton.1 hr] at hcalls ⊢
    exact hcalls

/-- With two, mistral.rs gives both results the first call, and LiteRT-LM the second. -/
theorem attribution_differs :
    ¬ Agrees messagesInto (fun i => twoCalls.messages[i]?) [0, 1, 2] ∧
      ¬ Agrees messagesJson (fun i => twoCalls.messages[i]?) [0, 1, 2] := by
  unfold Agrees
  decide

end Gen2.Attribution
