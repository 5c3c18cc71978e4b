import Gen2.Agent.Answered

/-!
# What a run keeps to

`run_with`, whatever the model, the tools and the user do meanwhile: what the user says while a run
goes on is recorded in the order in which it comes, or is still to be; and the run keeps to its
budgets, but for the turn that uses one up.
-/

namespace Gen2.Agent

open List

/-- What the user says in an entry. -/
def Entry.said : Entry → Option String
  | .user text => some text
  | _ => none

@[simp] theorem Entry.said_user (text : String) : (Entry.user text).said = some text := rfl
@[simp] theorem Entry.said_assistant (text : String) : (Entry.assistant text).said = none := rfl

/-- What the user has said, recorded first and then pending. -/
def Run.said (s : Run) : List String := s.entries.filterMap Entry.said ++ s.queue.map Steer.message

variable (config : Config) (step : Nat)

theorem takeCalls_queue (env : StepEnv) (calls : List (Nat × Call)) (queue : List Steer)
    (recent : List (Text × Text)) (r : Round) :
    queue <+: (takeCalls config env step calls queue recent r).2.1 := by
  fun_induction takeCalls config env step calls queue recent r with
  | case1 => exact prefix_rfl
  | case2 | case3 => exact prefix_append ..
  | case4 _ _ _ _ _ _ _ _ _ _ _ ih | case5 _ _ _ _ _ _ _ _ _ _ _ ih =>
    exact ( prefix_append ..).trans ih

theorem recordResults_said (calls : List Call) (results : List (Nat × ToolResult))
    (entries : List Entry) :
    (recordResults step calls results entries).2.filterMap Entry.said =
      entries.filterMap Entry.said := by
  fun_induction recordResults step calls results entries <;> simp_all [Entry.said]

theorem runRound_said (env : StepEnv) (calls : List Call) (s : Run) :
    s.said <+: (runRound config env step calls s).1.said := by
  have hqueue := takeCalls_queue config step env (indexed calls) s.queue s.recent ⟨[], [], [], []⟩
  rw [runRound]
  generalize takeCalls config env step _ _ _ _ = x at hqueue
  obtain ⟨cut, queue, recent, r⟩ := x
  have hcalls : (s.entries ++ [Entry.calls step calls]).filterMap Entry.said =
      s.entries.filterMap Entry.said := by simp [Entry.said]
  have hmap := ( prefix_append_right_inj (s.entries.filterMap Entry.said)).2
    (hqueue.map Steer.message)
  cases cut <;> simpa [Run.said, recordResults_said, hcalls] using hmap

/-- Some tokens are left where this many are spent, if any are. -/
def Funded (config : Config) (spentTokens : Nat) : Prop :=
  ∀ limit ∈ config.maxTokens, spentTokens = 0 ∨ spentTokens < limit

/-- What the user has said in a state stays said in a later one, and the first has tokens left. -/
def Run.Leads (config : Config) (s t : Run) : Prop :=
  s.said <+: t.said ∧ Funded config s.spentTokens

instance : Trans (Run.Leads config) (Run.Leads config) (Run.Leads config) :=
  ⟨fun h h' => ⟨h.1.trans h'.1, h.2⟩⟩

/-- What a step keeps to. -/
structure Keeps (config : Config) (s : Run) (seen : List Run) (next : Run) (exit : Option Exit) :
    Prop where
  leads : (s :: seen ++ [next]).IsChain (Run.Leads config)
  turns : seen.length ≤ if exit.isNone then 1 else 2
  funded : exit.isNone → Funded config next.spentTokens

theorem runRound_spentTokens (env : StepEnv) (calls : List Call) (s : Run) :
    (runRound config env step calls s).1.spentTokens = s.spentTokens := by
  rw [runRound]
  generalize takeCalls config env step _ _ _ _ = x
  obtain ⟨_ | _ | _, queue, recent, r⟩ := x <;> rfl

theorem keeps_agentStep (env : StepEnv) {s : Run} (hs : Funded config s.spentTokens) :
    Keeps config s (agentStep config env step s).1 (agentStep config env step s).2.1
      (agentStep config env step s).2.2 := by
  unfold agentStep
  have hsteers (steers : List Steer) :
      (steers.map fun steer => Entry.user steer.message).filterMap Entry.said =
        steers.map Steer.message := by simp [filterMap_map, Function.comp_def]
  split_ifs
  · exact ⟨by simp [Run.Leads, hs], by simp, by simp⟩
  cases env.turn with
  | error message => exact ⟨by simp [Run.Leads, Run.said, hsteers, hs], by simp, by simp⟩
  | ok turn =>
    dsimp only
    split_ifs with hlimit hcalls hlate
    · exact ⟨by simp [Run.Leads, Run.said, hsteers, hs], by simp, by simp⟩
    all_goals
      have hlow : Funded config (s.spentTokens + turn.decodeTokens) := fun limit h =>
        .inr (by simpa [Option.mem_def.1 h] using hlimit)
    · have hlate : env.late = [] := by simpa using hlate
      -- the answer is asked for once nothing is pending
      cases config.answerAs with
      | none => exact ⟨by simp [Run.Leads, Run.said, hsteers, hs], by simp, by simp⟩
      | some instruction =>
        cases env.shaped <;>
          exact ⟨by simp [Run.Leads, Run.said, filterMap_cons, *], by simp, by simp⟩
    · exact ⟨by simp [Run.Leads, Run.said, hsteers, hs], by simp, fun _ => hlow⟩
    · refine ⟨.cons_cons ⟨?_, hs⟩ (.cons_cons ⟨.trans ?_ (runRound_said ..), hs⟩ (.singleton _)), ?_,
        fun _ => (runRound_spentTokens ..).symm ▸ hlow⟩
      · simp [Run.said, hsteers]
      · exact prefix_rfl
      · rw [length_singleton]
        split <;> decide

/-- A run of at most `n` steps keeps to what its steps do. -/
theorem keeps_runFrom (env : Nat → StepEnv) (n : Nat) {s : Run}
    (hs : Funded config s.spentTokens) :
    (s :: (runFrom config env n step s).1).Pairwise (Run.Leads config) ∧
      (runFrom config env n step s).1.length ≤ n + 2 := by
  induction n generalizing step s with
  | zero => simp [runFrom, Run.Leads, hs]
  | succ n ih =>
    obtain ⟨hleads, hturns, hfunded⟩ := keeps_agentStep config step (env step) hs
    have hpairs := isChain_iff_pairwise.1 hleads
    rw [runFrom_succ]
    generalize agentStep config (env step) step s = x at *
    obtain ⟨seen, next, exit⟩ := x
    cases exit with
    | some exit =>
      refine ⟨hpairs, ?_⟩
      simp at hturns ⊢
      omega
    | none =>
      obtain ⟨ihpairs, ihturns⟩ := ih (step + 1) (hfunded rfl)
      simp only [Option.isNone_none, if_true] at hturns ⊢
      rw [pairwise_append] at hpairs
      rw [pairwise_cons] at ihpairs
      refine ⟨?_, ?_⟩
      · rw [← cons_append, pairwise_append]
        exact ⟨hpairs.1, ihpairs.2, fun a ha b hb =>
          Trans.trans (hpairs.2.2 a ha _ (mem_singleton_self _)) (ihpairs.1 b hb)⟩
      · simp at hturns ihturns ⊢
        omega

/-- **A run keeps to its order.**  Whatever comes meanwhile: from each state of a run on, all that
the user has said by then stays, once and in order, recorded or pending. -/
theorem steering_kept (config : Config) (env : Nat → StepEnv) (goal : Option String)
    (queue : List Steer) :
    (Run.start goal queue :: (runWith config env goal queue).1).Pairwise
      fun s t => s.said <+: t.said :=
  (keeps_runFrom config 0 env config.maxSteps fun _ _ => .inl rfl).1.imp And.left

end Gen2.Agent
