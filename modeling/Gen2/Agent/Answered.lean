import Gen2.Agent.Defs
import Mathlib.Data.List.DropRight
import Mathlib.Data.List.Sort

/-!
# Half-answered rounds

The message of calls is recorded first, the results last, and between the two the round can be left:
by an interruption, by a call made for the third time, by a result that the model can do nothing
about.

* `Run.Whole`: every tool that was run has its result, and every round has a result for each of its
  calls, or none.
* `Took`: what a round has done, as a function of the calls that it has taken so far.
* `Settles`: a round that is not left halfway.
* `whole_runRound` says that these are the rounds that keep `Run.Whole`, and `whole_runWith` that a
  run keeps it exactly where all its rounds do.
-/

namespace Gen2.Agent

open List

/-- The entry is a result of this call. -/
def Entry.Answers (step index : Nat) : Entry → Prop
  | .result step' index' _ _ => step' = step ∧ index' = index
  | _ => False

/-- The call has a result. -/
def Answered (entries : List Entry) (step index : Nat) : Prop := ∃ e ∈ entries, e.Answers step index

/-- No round is half-answered. -/
structure Run.Whole (s : Run) : Prop where
  executed : ∀ x ∈ s.executed, Answered s.entries x.step x.index
  rounds : ∀ step calls, .calls step calls ∈ s.entries →
    (∀ i < calls.length, Answered s.entries step i) ∨ ∀ i < calls.length,
      ¬ Answered s.entries step i

section Round

variable (config : Config) (env : StepEnv) (step : Nat)

/-- What a call comes to when it is taken. -/
def settle (c : Nat × Call) : ToolResult :=
  if c.2.name = searchTool then
    match env.search c.1 with
    | .ok text => .ok text
    | .error message => .error (.invalidArguments message)
  else
    match denial config env c.1 c.2 with
    | some why => .error (.denied why)
    | none => runCall config env c.1 c.2

/-- A call that runs something when it is taken. -/
def runs (c : Nat × Call) : Bool :=
  decide (c.2.name = searchTool) ||
    (denial config env c.1 c.2).isNone && (config.registry c.2.name).isSome

/-- An outcome that the model can do nothing about. -/
def isFatal : ToolResult → Bool
  | .ok _ => false
  | .error e => !e.isModelActionable

/-- How many calls are taken, and why no more. -/
def stop : List (Nat × Call) → List Steer → List (Text × Text) → Nat × Cut
  | [], _, _ => (0, .done)
  | (i, call) :: calls, queue, recent =>
    if (queue ++ env.arrivals i).any Steer.interrupt then
      (0, .interrupted)
    else if repeats call (remember call recent) then
      (0, .repeating call.name)
    else
      let (n, cut) := stop calls (queue ++ env.arrivals i) (remember call recent)
      (n + 1, cut)

/-- The calls up to the last that shares no batch. -/
def flushed (calls : List (Nat × Call)) : List (Nat × Call) :=
  calls.rdropWhile fun c => !isSolo config c.2

/-- The calls after it. -/
def waiting (calls : List (Nat × Call)) : List (Nat × Call) :=
  calls.rtakeWhile fun c => !isSolo config c.2

/-- A round that is not left halfway: it comes to its end, and to nothing fatal; or it is left
before anything is run or recorded. -/
def Settles (calls : List Call) (queue : List Steer) (recent : List (Text × Text)) : Prop :=
  let stopped := stop env (indexed calls) queue recent
  let taken := (indexed calls).take stopped.1
  match stopped.2 with
  | .repeating _ => ∀ c ∈ flushed config taken, runs config env c = false
  | _ =>
    (stopped.1 = calls.length ∧ ∀ c ∈ indexed calls, isFatal (settle config env c) = false) ∨
      (∀ c ∈ taken.head?, isFatal (settle config env c) = true) ∧
        ∀ c ∈ taken, runs config env c = false

/-! ## What a round has done -/

/-- The round has answered these calls, and has those in its batch. -/
structure Took (answered batch : List (Nat × Call)) (r : Round) : Prop where
  batch : r.batch = batch
  results : r.results.Perm (answered.map fun c => (c.1, settle config env c))
  executed : ∀ i, (∃ x ∈ r.executed, x.index = i) ↔
    ∃ c ∈ answered, c.1 = i ∧ runs config env c = true
  step : ∀ x ∈ r.executed, x.step = step

end Round

section

variable {config : Config} {env : StepEnv} {step : Nat}

theorem Took.start : Took config env step [] [] ⟨[], [], [], []⟩ :=
  ⟨rfl, .nil, by simp, by simp⟩

theorem execution_eq_some {i : Nat} {call : Call} {x : Execution}
    (h : execution config step i call = some x) : x.step = step ∧ x.index = i := by
  obtain ⟨tool, -, rfl⟩ := Option.map_eq_some_iff.1 h
  exact ⟨rfl, rfl⟩

theorem execution_isSome (config : Config) (step i : Nat) (call : Call) :
    (execution config step i call).isSome = (config.registry call.name).isSome :=
  Option.isSome_map

/-- The calls of a batch come to the denials and then the runs, in another order. -/
theorem settle_batch_perm {batch : List (Nat × Call)} (h : ∀ c ∈ batch, c.2.name ≠ searchTool) :
    (batch.filterMap (fun c =>
        (denial config env c.1 c.2).map fun why => (c.1, (.error (.denied why) : ToolResult))) ++
      (batch.filter fun c => (denial config env c.1 c.2).isNone).map
        fun c => (c.1, runCall config env c.1 c.2)).Perm
      (batch.map fun c => (c.1, settle config env c)) := by
  induction batch with
  | nil => exact .nil
  | cons c batch ih =>
    have hsearch : c.2.name ≠ searchTool := h c mem_cons_self
    have ih := ih fun c hc => h c (mem_cons_of_mem _ hc)
    rcases hdenial : denial config env c.1 c.2 with _ | why
    · have hsettle : settle config env c = runCall config env c.1 c.2 := by
        rw [settle, if_neg hsearch, hdenial]
      simp only [filterMap_cons, filter_cons, hdenial, Option.map_none,
        Option.isNone_none,
        if_true, map_cons, hsettle]
      exact perm_middle.trans (ih.cons _)
    · have hsettle : settle config env c = .error (.denied why) := by
        rw [settle, if_neg hsearch, hdenial]
      simp only [filterMap_cons, filter_cons, hdenial, Option.map_some,
        Option.isNone_some, Bool.false_eq_true, if_false, map_cons, hsettle, cons_append]
      exact ih.cons _

variable {r : Round}

theorem Took.runBatch {answered batch : List (Nat × Call)}
    (h : Took config env step answered batch r) (hbatch : ∀ c ∈ batch, c.2.name ≠ searchTool) :
    Took config env step (answered ++ batch) [] (runBatch config env step r) := by
  obtain ⟨rfl, hresults, hexecuted, hstep⟩ := h
  refine ⟨rfl, ?_, fun i => ?_, fun x hx => ?_⟩
  · rw [map_append, Agent.runBatch, append_assoc]
    exact hresults.append (settle_batch_perm hbatch)
  · -- what the batch runs is what is not denied and has a tool
    have hmem : (∃ x ∈ (r.batch.filter fun c => (denial config env c.1 c.2).isNone).filterMap
          fun c => execution config step c.1 c.2, x.index = i) ↔
        ∃ c ∈ r.batch, c.1 = i ∧ runs config env c = true := by
      constructor
      · rintro ⟨x, hx, rfl⟩
        obtain ⟨c, hc, hexecution⟩ := mem_filterMap.1 hx
        obtain ⟨hc, hnone⟩ := mem_filter.1 hc
        have hsome : (config.registry c.2.name).isSome = true := by
          rw [← execution_isSome config step c.1, hexecution, Option.isSome_some]
        exact ⟨c, hc, (execution_eq_some hexecution).2.symm, by simp [runs, hnone, hsome]⟩
      · rintro ⟨c, hc, rfl, hruns⟩
        rw [runs, decide_eq_false (hbatch c hc), Bool.false_or, Bool.and_eq_true] at hruns
        obtain ⟨x, hx⟩ := Option.isSome_iff_exists.1
          (execution_isSome config step c.1 c.2 ▸ hruns.2)
        exact ⟨x, mem_filterMap.2 ⟨c, mem_filter.2 ⟨hc, hruns.1⟩, hx⟩,
          (execution_eq_some hx).2⟩
    simp only [Agent.runBatch, mem_append, or_and_right, exists_or, hexecuted i, hmem]
  · rcases mem_append.1 hx with hx | hx
    · exact hstep x hx
    · obtain ⟨c, -, hexecution⟩ := mem_filterMap.1 hx
      exact (execution_eq_some hexecution).1

theorem Took.runSolo {answered : List (Nat × Call)} (h : Took config env step answered [] r)
    (i : Nat) (call : Call) :
    Took config env step (answered ++ [(i, call)]) [] (runSolo config env step i call r) := by
  obtain ⟨hbatch, hresults, hexecuted, hstep⟩ := h
  -- one more result, and the executions that go with it
  have hmore : ∀ (outcome : ToolResult) (executed : List Execution),
      outcome = settle config env (i, call) →
      (∀ x ∈ executed, x.step = step ∧ x.index = i) →
      (executed ≠ [] ↔ runs config env (i, call) = true) → ∀ asked,
      Took config env step (answered ++ [(i, call)]) []
        ⟨r.batch, r.results ++ [(i, outcome)], r.executed ++ executed, asked⟩ := by
    rintro outcome executed rfl hx hruns asked
    refine ⟨hbatch, ?_, fun j => ?_, fun x hmem => ?_⟩
    · rw [map_append]
      exact hresults.append_right _
    · have hmem : (∃ x ∈ executed, x.index = j) ↔ i = j ∧ runs config env (i, call) = true := by
        rw [← hruns]
        constructor
        · rintro ⟨x, hmem, rfl⟩
          exact ⟨(hx x hmem).2.symm, ne_nil_of_mem hmem⟩
        · rintro ⟨rfl, hne⟩
          obtain ⟨x, hmem⟩ := exists_mem_of_ne_nil _ hne
          exact ⟨x, hmem, (hx x hmem).2⟩
      simp only [mem_append, or_and_right, exists_or, hexecuted j, hmem, mem_singleton,
        exists_eq_left]
    · rcases mem_append.1 hmem with hmem | hmem
      · exact hstep x hmem
      · exact (hx x hmem).1
  unfold Agent.runSolo
  split
  · next hsearch =>
    refine hmore _ _ ?_ ?_ ?_ _
    · cases hfound : env.search i with
      | ok text => simp only [settle, if_pos hsearch, hfound]
      | error message => simp only [settle, if_pos hsearch, hfound]
    · simp
    · simp [runs, hsearch]
  · next hsearch =>
    rcases hdenial : denial config env i call with _ | why
    · refine hmore _ _ ?_ (fun x hx => execution_eq_some (Option.mem_toList.1 hx)) ?_ _
      · simp only [settle, hsearch, if_false, hdenial]
      · rw [runs, decide_eq_false hsearch, hdenial, ← execution_isSome config step i]
        rcases execution config step i call with _ | x
        · simp
        · simp
    · have hdenied := hmore (.error (.denied why)) [] ?_ (by simp) ?_
        (r.asked ++ (question config env step i call).toList)
      · rwa [append_nil] at hdenied
      · simp only [settle, hsearch, if_false, hdenial]
      · simp [runs, hsearch, hdenial]

/-! ## The loop over the calls -/

theorem flushed_append_waiting (config : Config) (calls : List (Nat × Call)) :
    flushed config calls ++ waiting config calls = calls :=
  rdropWhile_append_rtakeWhile

theorem not_solo_of_waiting {calls : List (Nat × Call)} {c : Nat × Call}
    (h : c ∈ waiting config calls) : isSolo config c.2 = false := by
  simpa using mem_rtakeWhile_imp h

theorem name_of_not_solo {call : Call} (h : isSolo config call = false)
    : call.name ≠ searchTool := by
  intro heq
  simp [isSolo, heq] at h

theorem name_of_waiting {calls : List (Nat × Call)} :
    ∀ c ∈ waiting config calls, c.2.name ≠ searchTool :=
  fun _ hc => name_of_not_solo (not_solo_of_waiting hc)

theorem Took.flush {front : List (Nat × Call)}
    (h : Took config env step (flushed config front) (waiting config front) r) :
    Took config env step front [] (Agent.runBatch config env step r) := by
  have h := h.runBatch name_of_waiting
  rwa [flushed_append_waiting] at h

/-- The loop takes the calls that `stop` says, and leaves for the reason that it says. -/
theorem took_takeCalls (calls : List (Nat × Call)) (queue : List Steer)
    (recent : List (Text × Text)) {front : List (Nat × Call)}
    (h : Took config env step (flushed config front) (waiting config front) r) :
    (takeCalls config env step calls queue recent r).1 = (stop env calls queue recent).2 ∧
      Took config env step
        (flushed config (front ++ calls.take (stop env calls queue recent).1))
        (waiting config (front ++ calls.take (stop env calls queue recent).1))
        (takeCalls config env step calls queue recent r).2.2.2 := by
  induction calls generalizing queue recent r front with
  | nil => simpa [takeCalls, stop] using h
  | cons c calls ih =>
    obtain ⟨i, call⟩ := c
    by_cases hinterrupt : (queue ++ env.arrivals i).any Steer.interrupt = true
    · rw [takeCalls, stop, if_pos hinterrupt, if_pos hinterrupt]
      simpa using h
    by_cases hrepeats : repeats call (remember call recent) = true
    · rw [takeCalls, stop, if_neg hinterrupt, if_neg hinterrupt, if_pos hrepeats, if_pos hrepeats]
      simpa using h
    rw [takeCalls, stop, if_neg hinterrupt, if_neg hinterrupt, if_neg hrepeats, if_neg hrepeats]
    by_cases hsolo : isSolo config call = true
    · -- what waits is run first, so nothing waits afterwards
      have hnext : Took config env step (flushed config (front ++ [(i, call)]))
          (waiting config (front ++ [(i, call)]))
          (Agent.runSolo config env step i call (Agent.runBatch config env step r)) := by
        rw [flushed, waiting, rdropWhile_concat_neg _ _ _ (by simpa using hsolo),
          rtakeWhile_concat_neg _ _ _ (by simpa using hsolo)]
        exact h.flush.runSolo i call
      rw [if_pos hsolo]
      simpa [append_assoc] using ih _ _ hnext
    · have hnext : Took config env step (flushed config (front ++ [(i, call)]))
          (waiting config (front ++ [(i, call)])) { r with batch := r.batch ++ [(i, call)] } := by
        rw [flushed, waiting, rdropWhile_concat_pos _ _ _ (by simpa using hsolo),
          rtakeWhile_concat_pos _ _ _ (by simpa using hsolo)]
        exact ⟨congrArg (· ++ [(i, call)]) h.batch, h.results, h.executed, h.step⟩
      rw [if_neg hsolo]
      simpa [append_assoc] using ih _ _ hnext

variable {calls : List Call}

/-- The calls in their order, once more after the sort. -/
theorem sortResults_eq {k : Nat} {results : List (Nat × ToolResult)}
    (h : results.Perm (((indexed calls).take k).map fun c => (c.1, settle config env c))) :
    sortResults results = ((indexed calls).take k).map fun c => (c.1, settle config env c) := by
  have hlt : ((indexed calls).take k).Pairwise fun a b => a.1 < b.1 := by
    have hfst : ((indexed calls).map Prod.fst).Pairwise (· < ·) := by
      rw [indexed, map_fst_zip (by simp)]
      exact pairwise_lt_range
    exact (pairwise_map.1 hfst).sublist (take_sublist k _)
  have hle : (((indexed calls).take k).map fun c => (c.1, settle config env c)).Pairwise
      fun a b => a.1 < b.1 := pairwise_map.2 hlt
  have hperm := (mergeSort_perm results fun a b => decide (a.1 ≤ b.1)).trans h
  -- the places differ, so the order that they give is the only one
  have hnodup : (results.mergeSort fun a b => decide (a.1 ≤ b.1)).Pairwise
      fun a b => a.1 ≠ b.1 :=
    hperm.symm.pairwise (hle.imp fun h => Nat.ne_of_lt h) fun h => h.symm
  have hsorted : (results.mergeSort fun a b => decide (a.1 ≤ b.1)).Pairwise
      fun a b => a.1 < b.1 := by
    refine (hnodup.and (pairwise_mergeSort ?_ ?_ results)).imp fun ⟨hne, hle⟩ =>
      Nat.lt_of_le_of_ne (of_decide_eq_true hle) hne
    · intro a b c hab hbc
      simp only [decide_eq_true_eq] at hab hbc ⊢
      exact Nat.le_trans hab hbc
    · intro a b
      simpa using Nat.le_total a.1 b.1
  exact hperm.eq_of_pairwise (fun a b _ _ hab hba => absurd hab (Nat.lt_asymm hba)) hsorted hle

/-- What is recorded of the results: those before the first that is fatal. -/
theorem recordResults_spec (step : Nat) (calls : List Call) (results : List (Nat × ToolResult))
    (entries : List Entry) :
    ∃ recorded, (recordResults step calls results entries).2 = entries ++ recorded ∧
      (∀ e ∈ recorded, ∃ i callId content, e = .result step i callId content) ∧
      ∀ i, Answered recorded step i ↔ ∃ p ∈ results.takeWhile fun p => !isFatal p.2, p.1 = i := by
  have hmore : ∀ {i : Nat} {callId : Option Text} {content : String} {outcome : ToolResult}
      {results : List (Nat × ToolResult)} {recorded : List Entry}, isFatal outcome = false →
      (∀ j, Answered recorded step j ↔
        ∃ p ∈ results.takeWhile fun p => !isFatal p.2, p.1 = j) → ∀ j,
      Answered (.result step i callId content :: recorded) step j ↔
        ∃ p ∈ ((i, outcome) :: results).takeWhile fun p => !isFatal p.2, p.1 = j := by
    intro i callId content outcome results recorded hfatal h j
    have hcons : ∀ e, Answered (e :: recorded) step j ↔
        e.Answers step j ∨ Answered recorded step j := fun e => by simp [Answered]
    rw [hcons, h j, takeWhile_cons_of_pos (by simp [hfatal])]
    simp [Entry.Answers]
  fun_induction recordResults step calls results entries with
  | case1 entries => exact ⟨[], by simp, by simp, by simp [Answered]⟩
  | case2 i results entries callId content ih =>
    obtain ⟨recorded, hentries, hresults, hanswered⟩ := ih
    refine ⟨.result step i callId content :: recorded, ?_, ?_, hmore rfl hanswered⟩
    · rw [hentries, append_assoc, singleton_append]
    · intro e he
      rcases mem_cons.1 he with rfl | he
      · exact ⟨i, callId, content, rfl⟩
      · exact hresults e he
  | case3 i results entries callId e hactionable ih =>
    obtain ⟨recorded, hentries, hresults, hanswered⟩ := ih
    refine ⟨.result step i callId ("error: " ++ e.display) :: recorded, ?_, ?_,
      hmore (by simpa [isFatal] using hactionable) hanswered⟩
    · rw [hentries, append_assoc, singleton_append]
    · intro e he
      rcases mem_cons.1 he with rfl | he
      · exact ⟨i, callId, _, rfl⟩
      · exact hresults e he
  | case4 i results entries e hactionable =>
    refine ⟨[], by simp, by simp, fun j => ?_⟩
    rw [takeWhile_cons_of_neg (by simpa [isFatal] using hactionable)]
    simp [Answered]

/-! ## One round -/

/-- What is recorded about the calls of steps before this one. -/
def Entry.Before (step : Nat) : Entry → Prop
  | .calls step' _ => step' < step
  | .result step' _ _ _ => step' < step
  | _ => True

/-- The state at the start of a step. -/
structure Run.Fresh (step : Nat) (s : Run) : Prop where
  entries : ∀ e ∈ s.entries, e.Before step
  executed : ∀ x ∈ s.executed, x.step < step

theorem answered_append (entries more : List Entry) (step i : Nat) :
    Answered (entries ++ more) step i ↔ Answered entries step i ∨ Answered more step i := by
  simp only [Answered, mem_append, or_and_right, exists_or]

/-- A result of a step is not one of an earlier step. -/
theorem not_answered_of_before {entries : List Entry} {i : Nat}
    (h : ∀ e ∈ entries, e.Before step) : ¬ Answered entries step i := by
  rintro ⟨e, he, hanswers⟩
  cases e with
  | result step' index callId content => exact Nat.ne_of_lt (h _ he) hanswers.1
  | user text => exact hanswers
  | assistant text => exact hanswers
  | calls step' made => exact hanswers

theorem not_answered_of_other {recorded : List Entry} {step' i : Nat} (hne : step' ≠ step)
    (h : ∀ e ∈ recorded, ∃ i callId content, e = .result step i callId content) :
    ¬ Answered recorded step' i := by
  rintro ⟨e, he, hanswers⟩
  obtain ⟨j, callId, content, rfl⟩ := h e he
  exact hne hanswers.1.symm

variable {s : Run}

/-- A round added to a state: whether no round is half-answered is whether this one is not. -/
theorem whole_append {t : Run} (calls : List Call) (recorded : List Entry)
    {executed : List Execution} (hfresh : s.Fresh step) (hs : s.Whole)
    (hrecorded : ∀ e ∈ recorded, ∃ i callId content, e = .result step i callId content)
    (hexecuted : ∀ x ∈ executed, x.step = step)
    (hentries : t.entries = s.entries ++ [.calls step calls] ++ recorded)
    (hruns : t.executed = s.executed ++ executed) :
    t.Whole ↔ (∀ x ∈ executed, Answered recorded step x.index) ∧
      ((∀ i < calls.length, Answered recorded step i) ∨
        ∀ i < calls.length, ¬ Answered recorded step i) := by
  have hcalls : ∀ step' i, ¬ Answered [.calls step calls] step' i := by
    rintro step' i ⟨e, he, hanswers⟩
    rw [mem_singleton.1 he] at hanswers
    exact hanswers
  have hnow : ∀ i, Answered t.entries step i ↔ Answered recorded step i := fun i => by
    rw [hentries, answered_append, answered_append]
    simp only [not_answered_of_before hfresh.entries, hcalls, false_or]
  have hearlier : ∀ step' < step, ∀ i, Answered t.entries step' i ↔ Answered s.entries step' i :=
    fun step' hlt i => by
      rw [hentries, answered_append, answered_append]
      simp only [not_answered_of_other (Nat.ne_of_lt hlt) hrecorded, hcalls, or_false]
  constructor
  · intro h
    refine ⟨fun x hx => ?_, ?_⟩
    · rw [← hnow, ← hexecuted x hx]
      exact h.executed x (by rw [hruns]; exact mem_append_right _ hx)
    · have hround := h.rounds step calls (by rw [hentries]; simp)
      simpa only [hnow] using hround
  · rintro ⟨hnew, hround⟩
    refine ⟨fun x hx => ?_, fun step' made hmade => ?_⟩
    · rw [hruns] at hx
      rcases mem_append.1 hx with hx | hx
      · rw [hearlier x.step (hfresh.executed x hx)]
        exact hs.executed x hx
      · rw [hexecuted x hx, hnow]
        exact hnew x hx
    · rw [hentries, append_assoc, mem_append] at hmade
      rcases hmade with hmade | hmade
      · have hlt : step' < step := hfresh.entries _ hmade
        simpa only [hearlier step' hlt] using hs.rounds step' made hmade
      rcases mem_cons.1 hmade with heq | hmade
      · injection heq with hstep heq
        subst hstep heq
        simpa only [hnow] using hround
      · obtain ⟨i, callId, content, heq⟩ := hrecorded _ hmade
        exact nomatch heq

theorem mem_indexed {c : Nat × Call} (h : c ∈ indexed calls) : c.1 < calls.length :=
  mem_range.1 (of_mem_zip h).1

theorem length_indexed (calls : List Call) : (indexed calls).length = calls.length := by
  simp [indexed]

theorem exists_mem_indexed {i : Nat} (h : i < calls.length) : ∃ c ∈ indexed calls, c.1 = i := by
  have hfst : (indexed calls).map Prod.fst = range calls.length :=
    map_fst_zip (by simp)
  exact mem_map.1 (hfst ▸ mem_range.2 h)

theorem stop_le (env : StepEnv) (calls : List (Nat × Call)) (queue : List Steer)
    (recent : List (Text × Text)) :
    (stop env calls queue recent).1 ≤ calls.length := by
  induction calls generalizing queue recent with
  | nil => exact Nat.le_refl 0
  | cons c calls ih =>
    unfold stop
    split
    · exact Nat.zero_le _
    · split
      · exact Nat.zero_le _
      · exact Nat.succ_le_succ (ih _ _)

/-- As many answers as calls: then every call was taken, and came to nothing fatal. -/
theorem all_of_answered {k : Nat} (hk : k ≤ calls.length) {good : Nat × Call → Bool}
    (h : ∀ i < calls.length, ∃ c ∈ ((indexed calls).take k).takeWhile good, c.1 = i) :
    k = calls.length ∧ ∀ c ∈ indexed calls, good c = true := by
  have hsub : range calls.length ⊆ (((indexed calls).take k).takeWhile good).map Prod.fst :=
    fun i hi => mem_map.2 (h i (mem_range.1 hi))
  have hlength := (subperm_of_subset nodup_range hsub).length_le
  have hprefix := takeWhile_prefix good (l := (indexed calls).take k)
  have hle := hprefix.length_le
  rw [length_range, length_map] at hlength
  rw [length_take, length_indexed] at hle
  have hkeq : k = calls.length := by omega
  subst hkeq
  have htake : (indexed calls).take calls.length = indexed calls :=
    take_of_length_le (Nat.le_of_eq (length_indexed calls))
  rw [htake] at hlength hprefix
  have heq : (indexed calls).takeWhile good = indexed calls :=
    hprefix.eq_of_length_le (by rw [length_indexed]; exact hlength)
  refine ⟨rfl, fun c hc => ?_⟩
  rw [← heq] at hc
  exact mem_takeWhile_imp hc

/-- The recording of a round that has taken `k` calls leaves none half-answered where it took and
recorded all of them, or has run and recorded nothing. -/
theorem whole_recorded {k : Nat} (hk : k ≤ calls.length)
    (htook : Took config env step ((indexed calls).take k) [] r) {recorded : List Entry}
    (hrecorded : ∀ i, Answered recorded step i ↔
      ∃ p ∈ (sortResults r.results).takeWhile fun p => !isFatal p.2, p.1 = i) :
    ((∀ x ∈ r.executed, Answered recorded step x.index) ∧
        ((∀ i < calls.length, Answered recorded step i) ∨
          ∀ i < calls.length, ¬ Answered recorded step i)) ↔
      (k = calls.length ∧ ∀ c ∈ indexed calls, isFatal (settle config env c) = false) ∨
        (∀ c ∈ ((indexed calls).take k).head?, isFatal (settle config env c) = true) ∧
          ∀ c ∈ (indexed calls).take k, runs config env c = false := by
  have hanswered : ∀ i, Answered recorded step i ↔
      ∃ c ∈ ((indexed calls).take k).takeWhile fun c => !isFatal (settle config env c),
        c.1 = i := by
    intro i
    rw [hrecorded, sortResults_eq htook.results, takeWhile_map]
    simp only [mem_map, exists_exists_and_eq_and]
    rfl
  constructor
  · rintro ⟨hexecuted, hall | hnone⟩
    · obtain ⟨hkeq, hgood⟩ := all_of_answered hk fun i hi => (hanswered i).1 (hall i hi)
      exact .inl ⟨hkeq, fun c hc => by simpa using hgood c hc⟩
    refine .inr ⟨fun c hc => ?_, fun c hc => ?_⟩
    · -- a first call that is not fatal is recorded
      obtain ⟨rest, hrest⟩ := head?_eq_some_iff.1 (Option.mem_def.1 hc)
      by_contra hfatal
      refine hnone c.1 (mem_indexed (mem_of_mem_take (hrest ▸ mem_cons_self)))
        ((hanswered c.1).2 ⟨c, ?_, rfl⟩)
      rw [hrest, takeWhile_cons_of_pos (by simpa using hfatal)]
      exact mem_cons_self
    · by_contra hruns
      obtain ⟨x, hx, hindex⟩ := (htook.executed c.1).2 ⟨c, hc, rfl, by simpa using hruns⟩
      exact hnone c.1 (mem_indexed (mem_of_mem_take hc)) (hindex ▸ hexecuted x hx)
  · rintro (⟨rfl, hgood⟩ | ⟨hhead, hruns⟩)
    · have htake : (indexed calls).take calls.length = indexed calls :=
        take_of_length_le (Nat.le_of_eq (length_indexed calls))
      have hwhile : ((indexed calls).take calls.length).takeWhile
          (fun c => !isFatal (settle config env c)) = indexed calls := by
        rw [htake, takeWhile_eq_self_iff]
        exact fun c hc => by simpa using hgood c hc
      have hall : ∀ i < calls.length, Answered recorded step i := fun i hi => by
        rw [hanswered, hwhile]
        exact exists_mem_indexed hi
      refine ⟨fun x hx => ?_, .inl hall⟩
      obtain ⟨c, hc, hindex, -⟩ := (htook.executed x.index).1 ⟨x, hx, rfl⟩
      exact hall _ (hindex ▸ mem_indexed (mem_of_mem_take hc))
    · have hwhile : ((indexed calls).take k).takeWhile
          (fun c => !isFatal (settle config env c)) = [] := by
        rcases htaken : (indexed calls).take k with _ | ⟨c, rest⟩
        · rfl
        · have hfatal : isFatal (settle config env c) = true := hhead c (by rw [htaken]; rfl)
          rw [takeWhile_cons_of_neg (by simp [hfatal])]
      refine ⟨fun x hx => ?_, .inr fun i _ => ?_⟩
      · obtain ⟨c, hc, -, hyes⟩ := (htook.executed x.index).1 ⟨x, hx, rfl⟩
        exact absurd hyes (by simp [hruns c hc])
      · rw [hanswered, hwhile]
        rintro ⟨c, hc, -⟩
        exact not_mem_nil hc

/-- A round that is recorded. -/
theorem whole_finished {k : Nat} {queue : List Steer} {recent : List (Text × Text)}
    (hfresh : s.Fresh step) (hs : s.Whole) (hk : k ≤ calls.length)
    (htook : Took config env step ((indexed calls).take k) [] r) :
    Run.Whole { s with
        entries := (recordResults step calls (sortResults r.results)
          (s.entries ++ [.calls step calls])).2
        queue := queue, recent := recent
        executed := s.executed ++ r.executed, asked := s.asked ++ r.asked } ↔
      (k = calls.length ∧ ∀ c ∈ indexed calls, isFatal (settle config env c) = false) ∨
        (∀ c ∈ ((indexed calls).take k).head?, isFatal (settle config env c) = true) ∧
          ∀ c ∈ (indexed calls).take k, runs config env c = false := by
  obtain ⟨recorded, hentries, hresults, hanswered⟩ :=
    recordResults_spec step calls (sortResults r.results)
      (s.entries ++ [.calls step calls])
  exact (whole_append calls recorded hfresh hs hresults htook.step hentries rfl).trans
    (whole_recorded hk htook hanswered)

/-- The rounds that are not left halfway are those that leave no round half-answered. -/
theorem whole_runRound (hfresh : s.Fresh step) (hs : s.Whole) :
    (runRound config env step calls s).1.Whole ↔ Settles config env calls s.queue s.recent := by
  have hstart : Took config env step (flushed config []) (waiting config []) ⟨[], [], [], []⟩ :=
    Took.start
  obtain ⟨hcut, htook⟩ : _ ∧ _ :=
    took_takeCalls (indexed calls) s.queue s.recent hstart
  have hk := stop_le env (indexed calls) s.queue s.recent
  rw [length_indexed] at hk
  unfold runRound Settles
  rcases hround : takeCalls config env step (indexed calls) s.queue s.recent ⟨[], [], [], []⟩ with
    ⟨cut, queue, recent, r⟩
  rw [hround] at hcut htook
  dsimp only
  rw [← hcut]
  cases cut with
  | repeating tool =>
    -- nothing is recorded, so nothing may have run
    refine (whole_append calls [] hfresh hs (by simp) htook.step (by simp) rfl).trans ?_
    have hnone : ∀ i, ¬ Answered [] step i := by simp [Answered]
    constructor
    · rintro ⟨hexecuted, -⟩ c hc
      by_contra hruns
      obtain ⟨x, hx, -⟩ := (htook.executed c.1).2 ⟨c, hc, rfl, by simpa using hruns⟩
      exact hnone _ (hexecuted x hx)
    · refine fun hruns => ⟨fun x hx => ?_, .inr fun i _ => hnone i⟩
      obtain ⟨c, hc, -, hyes⟩ := (htook.executed x.index).1 ⟨x, hx, rfl⟩
      exact absurd hyes (by simp [hruns c hc])
  | done => exact whole_finished hfresh hs hk htook.flush
  | interrupted => exact whole_finished hfresh hs hk htook.flush

theorem fresh_runRound (hfresh : s.Fresh step) :
    (runRound config env step calls s).1.Fresh (step + 1) := by
  have hlater : ∀ e ∈ s.entries ++ [Entry.calls step calls], e.Before (step + 1) := by
    intro e he
    rcases mem_append.1 he with he | he
    · have h := hfresh.entries e he
      cases e with
      | calls step' made => exact Nat.lt_succ_of_lt h
      | result step' i callId content => exact Nat.lt_succ_of_lt h
      | user text => trivial
      | assistant text => trivial
    · rw [mem_singleton.1 he]
      exact Nat.lt_succ_self step
  have hruns : ∀ {executed : List Execution}, (∀ x ∈ executed, x.step = step) →
      ∀ x ∈ s.executed ++ executed, x.step < step + 1 := by
    intro executed h x hx
    rcases mem_append.1 hx with hx | hx
    · exact Nat.lt_succ_of_lt (hfresh.executed x hx)
    · exact Nat.lt_succ_of_le (Nat.le_of_eq (h x hx))
  have hstart : Took config env step (flushed config []) (waiting config []) ⟨[], [], [], []⟩ :=
    Took.start
  obtain ⟨-, htook⟩ : _ ∧ _ :=
    took_takeCalls (indexed calls) s.queue s.recent hstart
  have hfinished : ∀ (queue : List Steer) (recent : List (Text × Text)) (r : Round),
      (∀ x ∈ r.executed, x.step = step) → Run.Fresh (step + 1) { s with
        entries := (recordResults step calls (sortResults r.results)
          (s.entries ++ [.calls step calls])).2
        queue := queue, recent := recent
        executed := s.executed ++ r.executed, asked := s.asked ++ r.asked } := by
    intro queue recent r hstep
    obtain ⟨recorded, hentries, hresults, -⟩ := recordResults_spec step calls
      (sortResults r.results) (s.entries ++ [.calls step calls])
    refine ⟨fun e he => ?_, hruns hstep⟩
    rw [hentries] at he
    rcases mem_append.1 he with he | he
    · exact hlater e he
    · obtain ⟨i, callId, content, rfl⟩ := hresults e he
      exact Nat.lt_succ_self step
  unfold runRound
  rcases hround : takeCalls config env step (indexed calls) s.queue s.recent ⟨[], [], [], []⟩ with
    ⟨cut, queue, recent, r⟩
  rw [hround] at htook
  cases cut with
  | repeating tool => exact ⟨hlater, hruns htook.step⟩
  | done => exact hfinished queue recent _ htook.flush.step
  | interrupted => exact hfinished queue recent _ htook.flush.step

/-! ## The run -/

/-- What is recorded of the conversation itself. -/
def Entry.IsTalk : Entry → Prop
  | .user _ => True
  | .assistant _ => True
  | _ => False

/-- The second state is the first with more talk. -/
def Run.Talks (s t : Run) : Prop :=
  (∃ more, (∀ e ∈ more, Entry.IsTalk e) ∧ t.entries = s.entries ++ more) ∧ t.executed = s.executed

theorem Run.Talks.add {t : Run} (h : s.Talks t) {u : Run} {e : Entry} (he : e.IsTalk)
    (hentries : u.entries = t.entries ++ [e]) (hexecuted : u.executed = t.executed) :
    s.Talks u := by
  obtain ⟨⟨more, hmore, heq⟩, hruns⟩ := h
  refine ⟨⟨more ++ [e], fun e' he' => ?_, by rw [hentries, heq, append_assoc]⟩,
    hexecuted.trans hruns⟩
  rcases mem_append.1 he' with he' | he'
  · exact hmore e' he'
  · rw [mem_singleton.1 he']
    exact he

/-- Talk changes nothing of what the claim asks. -/
theorem Run.Talks.whole_iff {t : Run} (h : s.Talks t) : t.Whole ↔ s.Whole := by
  obtain ⟨⟨more, hmore, hentries⟩, hexecuted⟩ := h
  have hanswered : ∀ step i, Answered t.entries step i ↔ Answered s.entries step i := by
    intro step i
    have hnot : ¬ Answered more step i := by
      rintro ⟨e, he, hanswers⟩
      cases e with
      | result step' i callId content => exact hmore _ he
      | user text => exact hanswers
      | assistant text => exact hanswers
      | calls step' made => exact hanswers
    rw [hentries, answered_append]
    simp only [hnot, or_false]
  have hcalls : ∀ step calls, Entry.calls step calls ∈ t.entries ↔
      Entry.calls step calls ∈ s.entries := by
    intro step calls
    rw [hentries, mem_append]
    exact or_iff_left fun h => hmore _ h
  constructor
  · intro h
    refine ⟨fun x hx => (hanswered _ _).1 (h.executed x (hexecuted ▸ hx)),
      fun step calls hmem => ?_⟩
    simpa only [hanswered] using h.rounds step calls ((hcalls step calls).2 hmem)
  · intro h
    refine ⟨fun x hx => (hanswered _ _).2 (h.executed x (hexecuted ▸ hx)),
      fun step calls hmem => ?_⟩
    simpa only [hanswered] using h.rounds step calls ((hcalls step calls).1 hmem)

theorem Run.Talks.fresh {t : Run} {step : Nat} (h : s.Talks t) (hs : s.Fresh step) :
    t.Fresh step := by
  obtain ⟨⟨more, hmore, hentries⟩, hexecuted⟩ := h
  refine ⟨fun e he => ?_, fun x hx => hs.executed x (hexecuted ▸ hx)⟩
  rw [hentries] at he
  rcases mem_append.1 he with he | he
  · exact hs.entries e he
  have htalk := hmore e he
  cases e with
  | user text => trivial
  | assistant text => trivial
  | calls step' made => exact htalk.elim
  | result step' i callId content => exact htalk.elim

theorem Run.Fresh.succ {step : Nat} (h : s.Fresh step) : s.Fresh (step + 1) := by
  refine ⟨fun e he => ?_, fun x hx => Nat.lt_succ_of_lt (h.executed x hx)⟩
  have hbefore := h.entries e he
  cases e with
  | user text => trivial
  | assistant text => trivial
  | calls step' made => exact Nat.lt_succ_of_lt hbefore
  | result step' i callId content => exact Nat.lt_succ_of_lt hbefore

/-- The step comes to a round of calls. -/
def RoundStarts (config : Config) (env : StepEnv) (s : Run) (turn : Turn) : Prop :=
  env.overdue = false ∧ env.turn = .ok turn ∧
    (config.maxTokens.any fun limit => decide (limit ≤ s.spentTokens + turn.decodeTokens)) = false ∧
    turn.toolCalls.isEmpty = false

/-- The step comes to no round that is left halfway. -/
def StepSettles (config : Config) (env : StepEnv) (s : Run) : Prop :=
  ∀ turn, RoundStarts config env s turn → Settles config env turn.toolCalls [] s.recent

/-- What a step does: it talks, and then runs a round where one starts. -/
theorem agentStep_cases (config : Config) (env : StepEnv) (step : Nat) (s : Run) :
    (∀ t ∈ (agentStep config env step s).1, s.Talks t) ∧
      ((s.Talks (agentStep config env step s).2.1 ∧ ∀ turn, ¬ RoundStarts config env s turn) ∨
        ∃ turn t, RoundStarts config env s turn ∧ s.Talks t ∧ t.queue = [] ∧ t.recent = s.recent ∧
          (agentStep config env step s).2.1 = (runRound config env step turn.toolCalls t).1) := by
  have hself : s.Talks s := ⟨⟨[], by simp, by simp⟩, rfl⟩
  have hdrained : ∀ spent, s.Talks { s with
      entries := s.entries ++ (s.queue ++ env.boundary).map fun steer => Entry.user steer.message
      queue := [], spentTokens := spent } := by
    refine fun _ => ⟨⟨_, fun e he => ?_, rfl⟩, rfl⟩
    obtain ⟨steer, -, rfl⟩ := mem_map.1 he
    trivial
  unfold agentStep
  by_cases hoverdue : env.overdue = true
  · rw [if_pos hoverdue]
    refine ⟨by simp, .inl ⟨hself, fun turn h => ?_⟩⟩
    exact absurd hoverdue (by simp [h.1])
  rw [if_neg hoverdue]
  rcases hturn : env.turn with message | turn
  · refine ⟨by simpa using hdrained _, .inl ⟨hdrained _, fun turn h => ?_⟩⟩
    exact nomatch hturn.symm.trans h.2.1
  have hsame : ∀ {turn'}, RoundStarts config env s turn' → turn' = turn := fun h =>
    Except.ok.inj (h.2.1.symm.trans hturn)
  dsimp only
  by_cases hbudget : (config.maxTokens.any fun limit =>
      decide (limit ≤ s.spentTokens + turn.decodeTokens)) = true
  · rw [if_pos hbudget]
    refine ⟨by simpa using hdrained _, .inl ⟨hdrained _, fun turn' h => ?_⟩⟩
    obtain rfl := hsame h
    exact absurd hbudget (by simp [h.2.2.1])
  rw [if_neg hbudget]
  by_cases hempty : turn.toolCalls.isEmpty = true
  · rw [if_pos hempty]
    have hnone : ∀ turn', ¬ RoundStarts config env s turn' := fun turn' h => by
      obtain rfl := hsame h
      exact absurd hempty (by simp [h.2.2.2])
    have hanswer := (hdrained (s.spentTokens + turn.decodeTokens)).add (e := .assistant turn.text)
      (u := { s with
        entries := s.entries ++ ((s.queue ++ env.boundary).map fun steer =>
          Entry.user steer.message) ++ [.assistant turn.text]
        queue := [] ++ env.late, spentTokens := s.spentTokens + turn.decodeTokens }) trivial rfl rfl
    by_cases hlate : ([] ++ env.late).isEmpty = true
    · rw [if_pos hlate]
      rcases config.answerAs with _ | instruction
      · exact ⟨by simpa using hdrained _, .inl ⟨hanswer, hnone⟩⟩
      have hasked := hanswer.add (e := .user instruction) (u := { s with
        entries := s.entries ++ ((s.queue ++ env.boundary).map fun steer =>
          Entry.user steer.message) ++ [.assistant turn.text] ++ [.user instruction]
        queue := [] ++ env.late,
          spentTokens := s.spentTokens + turn.decodeTokens }) trivial rfl rfl
      have hboth : ∀ t ∈ [_, _], s.Talks t := forall_mem_cons.2
        ⟨hdrained s.spentTokens, forall_mem_singleton.2 hasked⟩
      rcases env.shaped with message | text
      · exact ⟨hboth, .inl ⟨hasked, hnone⟩⟩
      · exact ⟨hboth, .inl ⟨hasked.add (e := .assistant text) trivial rfl rfl, hnone⟩⟩
    · rw [if_neg hlate]
      exact ⟨by simpa using hdrained _, .inl ⟨hanswer, hnone⟩⟩
  · rw [if_neg hempty]
    exact ⟨by simpa using hdrained _, .inr ⟨turn, _,
      ⟨by simpa using hoverdue, hturn, by simpa using hbudget, by simpa using hempty⟩,
      hdrained _, rfl, rfl, rfl⟩⟩

/-- What one step keeps, and when. -/
theorem whole_agentStep (config : Config) (env : StepEnv) (hfresh : s.Fresh step) (hs : s.Whole) :
    (∀ t ∈ (agentStep config env step s).1, t.Whole) ∧
      (agentStep config env step s).2.1.Fresh (step + 1) ∧
      ((agentStep config env step s).2.1.Whole ↔ StepSettles config env s) := by
  obtain ⟨hseen, hnext⟩ := agentStep_cases config env step s
  refine ⟨fun t ht => (hseen t ht).whole_iff.2 hs, ?_⟩
  rcases hnext with ⟨htalks, hnone⟩ | ⟨turn, t, hstarts, htalks, hqueue, hrecent, heq⟩
  · refine ⟨(htalks.fresh hfresh).succ, iff_of_true (htalks.whole_iff.2 hs) fun turn h => ?_⟩
    exact absurd h (hnone turn)
  rw [heq, whole_runRound (htalks.fresh hfresh) (htalks.whole_iff.2 hs), hqueue, hrecent]
  refine ⟨fresh_runRound (htalks.fresh hfresh), fun h turn' hstarts' => ?_,
    fun h => h turn hstarts⟩
  obtain rfl : turn' = turn := Except.ok.inj (hstarts'.2.1.symm.trans hstarts.2.1)
  exact h

end

/-- The steps of a run come to no round that is left halfway. -/
def RunSettles (config : Config) (env : Nat → StepEnv) : Nat → Nat → Run → Prop
  | 0, _, _ => True
  | n + 1, step, s =>
    StepSettles config (env step) s ∧
      ((agentStep config (env step) step s).2.2.isNone →
        RunSettles config env n (step + 1) (agentStep config (env step) step s).2.1)

theorem runFrom_succ (config : Config) (env : Nat → StepEnv) (n step : Nat) (s : Run) :
    (runFrom config env (n + 1) step s).1 =
      (agentStep config (env step) step s).1 ++
        if (agentStep config (env step) step s).2.2.isNone then
          (runFrom config env n (step + 1) (agentStep config (env step) step s).2.1).1
        else
          [(agentStep config (env step) step s).2.1] := by
  rw [runFrom]
  rcases agentStep config (env step) step s with ⟨seen, next, _ | exit⟩
  · rfl
  · rfl

/-- A step that is in time shows a state, and one that is not ends the run where it is. -/
theorem agentStep_seen (config : Config) (env : StepEnv) (step : Nat) (s : Run) :
    (agentStep config env step s).1 ≠ [] ∨
      (agentStep config env step s).2.1 = s ∧ (agentStep config env step s).2.2.isNone = false := by
  unfold agentStep
  by_cases hoverdue : env.overdue = true
  · rw [if_pos hoverdue]
    exact .inr ⟨rfl, rfl⟩
  rw [if_neg hoverdue]
  refine .inl ?_
  rcases env.turn with message | turn
  · exact cons_ne_nil _ _
  dsimp only
  split_ifs
  · exact cons_ne_nil _ _
  · rcases config.answerAs with _ | instruction
    · exact cons_ne_nil _ _
    · rcases env.shaped with message | text
      · exact cons_ne_nil _ _
      · exact cons_ne_nil _ _
  · exact cons_ne_nil _ _
  · exact cons_ne_nil _ _

/-- The first state that a run shows is the one it starts in, with more talk. -/
theorem whole_of_runFrom {config : Config} {env : Nat → StepEnv} {n step : Nat} {s : Run}
    (h : ∀ t ∈ (runFrom config env n step s).1, t.Whole) : s.Whole := by
  cases n with
  | zero => exact h s (mem_singleton_self s)
  | succ n =>
    rw [runFrom_succ, forall_mem_append] at h
    rcases agentStep_seen config (env step) step s with hseen | ⟨hnext, hexit⟩
    · obtain ⟨t, ht⟩ := exists_mem_of_ne_nil _ hseen
      exact ((agentStep_cases config (env step) step s).1 t ht).whole_iff.1 (h.1 t ht)
    · rw [hexit, hnext] at h
      exact h.2 s (mem_singleton_self s)

/-- A run keeps what the claim asks where all its rounds do. -/
theorem whole_runFrom {config : Config} {env : Nat → StepEnv} {n step : Nat} {s : Run}
    (hfresh : s.Fresh step) (hs : s.Whole) :
    (∀ t ∈ (runFrom config env n step s).1, t.Whole) ↔ RunSettles config env n step s := by
  induction n generalizing step s with
  | zero => exact iff_of_true (fun t ht => mem_singleton.1 ht ▸ hs) trivial
  | succ n ih =>
    obtain ⟨hseen, hnext, hwhole⟩ := whole_agentStep config (env step) hfresh hs
    rw [runFrom_succ, RunSettles, forall_mem_append, and_iff_right hseen, ← hwhole]
    by_cases hexit : (agentStep config (env step) step s).2.2.isNone = true
    · rw [if_pos hexit]
      constructor
      · intro h
        have hwhole := whole_of_runFrom h
        exact ⟨hwhole, fun _ => (ih hnext hwhole).1 h⟩
      · rintro ⟨hwhole, hsettles⟩
        exact (ih hnext hwhole).2 (hsettles hexit)
    · rw [if_neg hexit, forall_mem_singleton]
      exact (and_iff_left fun h => absurd h hexit).symm

/-- No round of a run is left half-answered, where a model turn starts or the run returns, exactly
where no round is left halfway. -/
theorem whole_runWith (config : Config) (env : Nat → StepEnv) (goal : Option String)
    (queue : List Steer) :
    (∀ s ∈ (runWith config env goal queue).1, s.Whole) ↔
      RunSettles config env config.maxSteps 0 (.start goal queue) := by
  have hstart : ∀ e ∈ (Run.start goal queue).entries, ∃ text, e = .user text := by
    intro e he
    obtain ⟨text, -, rfl⟩ := Option.map_eq_some_iff.1 (Option.mem_toList.1 he)
    exact ⟨text, rfl⟩
  refine whole_runFrom ⟨fun e he => ?_, fun x hx => absurd hx List.not_mem_nil⟩
    ⟨fun x hx => absurd hx List.not_mem_nil, fun step calls hmem => ?_⟩
  · obtain ⟨text, rfl⟩ := hstart e he
    trivial
  · obtain ⟨text, heq⟩ := hstart _ hmem
    exact nomatch heq

/-- An agent with one tool, for one step. -/
def reader : Config :=
  ⟨fun _ => some ⟨.safe, false⟩, .auto, false, 1, none, none, fun _ => .null⟩

/-- Two calls, and an interruption that comes while the first is running. -/
def interrupting : StepEnv :=
  ⟨false, [], .ok ⟨"", [⟨none, "a".toList, []⟩, ⟨none, "b".toList, []⟩], 1, .eos⟩,
    fun i => if i = 1 then [⟨"stop", true⟩] else [], fun _ => .allow, fun _ => .ok "done",
    fun _ => .ok "", [], .ok ""⟩

/-- The first of the two has its result, and the second never gets one. -/
theorem interrupted_half_answered :
    ¬ ∀ s ∈ (runWith reader (fun _ => interrupting) none []).1, s.Whole := by
  intro h
  have hfresh : (Run.start none []).Fresh 0 := ⟨nofun, nofun⟩
  have hwhole : (Run.start none []).Whole := ⟨nofun, nofun⟩
  obtain ⟨hstep, -⟩ := (whole_runFrom hfresh hwhole).1 h
  rcases hstep _ ⟨rfl, rfl, rfl, rfl⟩ with ⟨hall, -⟩ | ⟨hnone, -⟩
  · exact absurd hall (by decide)
  · exact absurd (hnone (0, ⟨none, "a".toList, []⟩) rfl) (by decide)

end Gen2.Agent
