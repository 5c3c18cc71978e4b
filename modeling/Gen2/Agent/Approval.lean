import Gen2.Agent.Defs

/-!
# Risky tools and the approval callback

* `Covered`: every risky tool that was run was asked about, with these arguments, and allowed.
* `covered_call` is the one place where approval is decided; `runBatch` and `runSolo` both go
  through it.
* `risky_approved`: what a run keeps, as long as there is a callback to ask.

Without a callback there is nobody to say no, and the tool is run.
-/

namespace Gen2.Agent

open List

/-- The question is about this execution, and the answer was yes. -/
def Asked.Allows (q : Asked) (x : Execution) : Prop :=
  q.step = x.step ∧ q.index = x.index ∧ q.name = x.name ∧ q.args = x.args ∧ q.answer = .allow

/-- Every risky tool that was run was asked about and allowed. -/
def Covered (executed : List Execution) (asked : List Asked) : Prop :=
  ∀ x ∈ executed, ∀ tool, x.tool = some tool → tool.risk = .risky → ∃ q ∈ asked, q.Allows x

/-- What the claim asks of a state. -/
def Run.Approved (s : Run) : Prop := Covered s.executed s.asked

/-- There is a callback to ask, or nothing about the call to ask it. -/
def Gated (config : Config) (call : Call) : Prop :=
  config.onApproval = true ∨ call.name = searchTool ∨
    ∀ tool, config.registry call.name = some tool → tool.risk ≠ .risky

theorem Covered.nil (asked : List Asked) : Covered [] asked := fun _ h => absurd h not_mem_nil

theorem Covered.append {executed executed' : List Execution} {asked asked' : List Asked}
    (h : Covered executed asked) (h' : Covered executed' asked') :
    Covered (executed ++ executed') (asked ++ asked') := by
  intro x hx tool htool hrisk
  rcases mem_append.1 hx with hx | hx
  · obtain ⟨q, hq, hallows⟩ := h x hx tool htool hrisk
    exact ⟨q, mem_append_left _ hq, hallows⟩
  · obtain ⟨q, hq, hallows⟩ := h' x hx tool htool hrisk
    exact ⟨q, mem_append_right _ hq, hallows⟩

section

variable {config : Config} {env : StepEnv} {step : Nat}

/-- A call that is not denied is safe, or was allowed. -/
theorem covered_call (hask : config.approval = .askOnRisky) {i : Nat} {call : Call}
    (hgated : Gated config call) (hsearch : call.name ≠ searchTool)
    (hdenial : denial config env i call = none) :
    Covered (execution config step i call).toList (question config env step i call).toList := by
  intro x hx tool htool hrisk
  obtain ⟨tool', hregistered, rfl⟩ := Option.map_eq_some_iff.1 (Option.mem_toList.1 hx)
  obtain rfl := Option.some.inj htool
  -- the tool is risky, so there is a callback, and it is asked
  have hcallback : config.onApproval = true := by
    rcases hgated with hyes | hyes | hsafe
    · exact hyes
    · exact absurd hyes hsearch
    · exact absurd hrisk (hsafe _ hregistered)
  have hasks : asksAbout config call = true := by
    simp [asksAbout, hregistered, hask, hrisk, hcallback]
  have hallow : env.decide i = .allow := by
    rw [denial, if_pos hasks] at hdenial
    split at hdenial
    · exact nomatch hdenial
    · assumption
  refine ⟨⟨step, i, call.name, config.parse call.arguments, .allow⟩, ?_, rfl, rfl, rfl, rfl, rfl⟩
  rw [question, if_pos hasks, hallow]
  exact mem_cons_self

/-- A round in which the executions are covered, and what waits in the batch may be run. -/
structure Round.Safe (config : Config) (r : Round) : Prop where
  covered : Covered r.executed r.asked
  batch : ∀ c ∈ r.batch, Gated config c.2 ∧ c.2.name ≠ searchTool

theorem Round.Safe.runBatch (hask : config.approval = .askOnRisky) {r : Round}
    (h : r.Safe config) : (runBatch config env step r).Safe config := by
  refine ⟨h.covered.append fun x hx tool htool hrisk => ?_, fun _ hc => absurd hc not_mem_nil⟩
  obtain ⟨c, hc, hexecution⟩ := mem_filterMap.1 hx
  obtain ⟨hmem, hnone⟩ := mem_filter.1 hc
  obtain ⟨hgated, hsearch⟩ := h.batch c hmem
  obtain ⟨q, hq, hallows⟩ := covered_call hask hgated hsearch (Option.isNone_iff_eq_none.1 hnone) x
    (Option.mem_toList.2 hexecution) tool htool hrisk
  exact ⟨q, mem_filterMap.2 ⟨c, hmem, Option.mem_toList.1 hq⟩, hallows⟩

theorem Round.Safe.runSolo (hask : config.approval = .askOnRisky) {r : Round} {i : Nat}
    {call : Call}
    (hgated : Gated config call) (h : r.Safe config) :
    (runSolo config env step i call r).Safe config := by
  unfold Agent.runSolo
  split
  · -- a search runs no tool
    refine ⟨?_, h.batch⟩
    rw [← append_nil r.asked]
    refine h.covered.append fun x hx tool htool _ => ?_
    rw [mem_singleton.1 hx] at htool
    exact nomatch htool
  · next hsearch =>
    rcases hdenial : denial config env i call with _ | why
    · exact ⟨h.covered.append (covered_call hask hgated hsearch hdenial), h.batch⟩
    · refine ⟨?_, h.batch⟩
      rw [← append_nil r.executed]
      exact h.covered.append (Covered.nil _)

theorem Round.Safe.takeCalls (hask : config.approval = .askOnRisky) {calls : List (Nat × Call)}
    (hgated : ∀ c ∈ calls, Gated config c.2) {queue : List Steer} {recent : List (Text × Text)}
    {r : Round} (h : r.Safe config) :
    (takeCalls config env step calls queue recent r).2.2.2.Safe config := by
  fun_induction Agent.takeCalls config env step calls queue recent r with
  | case1 => exact h
  | case2 => exact h
  | case3 => exact h
  | case4 i call calls queue recent r _ _ _ _ _ ih =>
    exact ih (fun c hc => hgated c (mem_cons_of_mem _ hc))
      ((h.runBatch hask).runSolo hask (hgated _ mem_cons_self))
  | case5 i call calls queue recent r _ _ _ _ hsolo ih =>
    refine ih (fun c hc => hgated c (mem_cons_of_mem _ hc)) ⟨h.covered, fun c hc => ?_⟩
    rcases mem_append.1 hc with hc | hc
    · exact h.batch c hc
    · rw [mem_singleton.1 hc]
      refine ⟨hgated (i, call) mem_cons_self, fun heq => hsolo ?_⟩
      have heq : call.name = searchTool := heq
      simp [isSolo, heq]

theorem approved_runRound (hask : config.approval = .askOnRisky) {calls : List Call}
    (hgated : ∀ call ∈ calls, Gated config call) {s : Run} (h : s.Approved) :
    (runRound config env step calls s).1.Approved := by
  have hindexed : ∀ c ∈ indexed calls, Gated config c.2 := fun c hc =>
    hgated c.2 (of_mem_zip hc).2
  have hsafe : (takeCalls config env step (indexed calls) s.queue s.recent
      ⟨[], [], [], []⟩).2.2.2.Safe config :=
    Round.Safe.takeCalls hask hindexed ⟨Covered.nil _, fun _ hc => absurd hc not_mem_nil⟩
  unfold runRound
  rcases hround : takeCalls config env step (indexed calls) s.queue s.recent ⟨[], [], [], []⟩ with
    ⟨cut, queue, recent, r⟩
  rw [hround] at hsafe
  cases cut with
  | repeating tool => exact Covered.append h hsafe.covered
  | done => exact Covered.append h (hsafe.runBatch hask).covered
  | interrupted => exact Covered.append h (hsafe.runBatch hask).covered

/-- One step keeps what the claim asks, in every state it passes. -/
theorem approved_agentStep (hask : config.approval = .askOnRisky)
    (hgated : ∀ turn, env.turn = .ok turn → ∀ call ∈ turn.toolCalls, Gated config call) {s : Run}
    (h : s.Approved) :
    (∀ t ∈ (agentStep config env step s).1, t.Approved) ∧
      (agentStep config env step s).2.1.Approved := by
  -- away from the round of calls nothing is run
  have hseen : ∀ {seen : List Run},
      (∀ t ∈ seen, t.executed = s.executed ∧ t.asked = s.asked) → ∀ t ∈ seen, t.Approved := by
    intro seen hall t ht
    obtain ⟨hexecuted, hasked⟩ := hall t ht
    rw [Run.Approved, hexecuted, hasked]
    exact h
  unfold agentStep
  split
  · exact ⟨fun _ ht => absurd ht not_mem_nil, h⟩
  rcases hturn : env.turn with message | turn
  · exact ⟨hseen (by simp), h⟩
  dsimp only
  split
  · exact ⟨hseen (by simp), h⟩
  split
  · split
    · split
      · exact ⟨hseen (by simp), h⟩
      · split
        · exact ⟨hseen (by simp), h⟩
        · exact ⟨hseen (by simp), h⟩
    · exact ⟨hseen (by simp), h⟩
  · exact ⟨hseen (by simp), approved_runRound hask (hgated turn hturn) h⟩

end

/-- The whole of a run, from a state that keeps what the claim asks. -/
theorem approved_runFrom {config : Config} {env : Nat → StepEnv}
    (hask : config.approval = .askOnRisky)
    (hgated : ∀ step turn, (env step).turn = .ok turn → ∀ call ∈ turn.toolCalls, Gated config call)
    (n step : Nat) {s : Run} (h : s.Approved) :
    ∀ t ∈ (runFrom config env n step s).1, t.Approved := by
  induction n generalizing step s with
  | zero =>
    intro t ht
    rw [mem_singleton.1 ht]
    exact h
  | succ n ih =>
    obtain ⟨hseen, hnext⟩ : (∀ t ∈ (agentStep config (env step) step s).1, t.Approved) ∧
        (agentStep config (env step) step s).2.1.Approved :=
      approved_agentStep hask (hgated step) h
    unfold runFrom
    rcases hstep : agentStep config (env step) step s with ⟨seen, next, exit⟩
    rw [hstep] at hseen hnext
    cases exit with
    | some exit =>
      intro t ht
      rcases mem_append.1 ht with ht | ht
      · exact hseen t ht
      · rw [mem_singleton.1 ht]
        exact hnext
    | none =>
      intro t ht
      rcases mem_append.1 ht with ht | ht
      · exact hseen t ht
      · exact ih (step + 1) hnext t ht

/-- No turn calls a risky tool.  `search_tools` is the agent's own, and stands for no tool. -/
def Harmless (config : Config) (env : Nat → StepEnv) : Prop :=
  ∀ step turn, (env step).turn = .ok turn → ∀ call ∈ turn.toolCalls, call.name = searchTool ∨
    ∀ tool, config.registry call.name = some tool → tool.risk ≠ .risky

/-- Where there is a callback, and where no turn calls a risky tool, no risky tool is run but one
that the callback was asked about, with its arguments, and allowed. -/
theorem risky_approved (config : Config) (env : Nat → StepEnv) (goal : Option String)
    (queue : List Steer) (hask : config.approval = .askOnRisky)
    (h : config.onApproval = true ∨ Harmless config env) :
    ∀ s ∈ (runWith config env goal queue).1, s.Approved := by
  refine approved_runFrom hask (fun step turn hturn call hcall => ?_) _ _ (Covered.nil _)
  rcases h with hcallback | hharmless
  · exact .inl hcallback
  · exact .inr (hharmless step turn hturn call hcall)

/-- A turn that asks for one tool. -/
def removeTurn : Turn := ⟨"", [⟨none, "rm".toList, "x".toList⟩], 1, .eos⟩

/-- An agent in `AskOnRisky` whose one tool is risky, for one step. -/
def guarded (onApproval : Bool) : Config :=
  ⟨fun name => if name = "rm".toList then some ⟨.risky, true⟩ else none, .askOnRisky, onApproval, 1,
    none, none, fun _ => .null⟩

/-- A step in which the callback, where there is one, answers `decision`. -/
def removing (decision : Decision) : StepEnv :=
  ⟨false, [], .ok removeTurn, fun _ => [], fun _ => decision, fun _ => .ok "gone",
    fun _ => .ok "", [], .ok ""⟩

/-- With a callback the tool is run, and was asked about. -/
theorem risky_approved_for_rm :
    ((runWith (guarded true) (fun _ => removing .allow) none []).1.any fun s =>
      s.executed.any fun x => decide (x.tool = some ⟨.risky, true⟩)) = true ∧
    ∀ s ∈ (runWith (guarded true) (fun _ => removing .allow) none []).1, s.Approved :=
  ⟨by decide +kernel,
    risky_approved (guarded true) (fun _ => removing .allow) none [] rfl (.inl rfl)⟩

/-- Without one it is run, and nobody was asked. -/
theorem risky_unasked : ¬ ∀ s ∈ (runWith (guarded false) (fun _ => removing .allow) none []).1,
    s.Approved := by
  intro h
  have hrun : ((runWith (guarded false) (fun _ => removing .allow) none []).1.any fun s =>
      s.asked.isEmpty && s.executed.any fun x => decide (x.tool = some ⟨.risky, true⟩)) = true := by
    decide +kernel
  obtain ⟨s, hs, hstate⟩ := List.any_eq_true.1 hrun
  obtain ⟨hasked, hexecuted⟩ := Bool.and_eq_true_iff.1 hstate
  obtain ⟨x, hx, htool⟩ := List.any_eq_true.1 hexecuted
  obtain ⟨q, hq, -⟩ := h s hs x hx _ (of_decide_eq_true htool) rfl
  rw [List.isEmpty_iff.1 hasked] at hq
  exact List.not_mem_nil hq

end Gen2.Agent
