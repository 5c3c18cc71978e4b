import Gen2.Generation.Events

/-!
# The agent's loop

`Agent::run_with` of `api/agent.rs`: a model turn, the round of tool calls that it asks for, and
again, until the model answers, a limit is reached, or something fails.

What comes from outside is a `StepEnv` a step: what the model says, what the tools come to, what the
approval callback answers, and the steering messages that arrive between one look at their queue and
the next.  What the loop records is a list of `Entry`s, the session's messages with what each one is
about; and it keeps two logs that the source does not have, of the tools that were run and of the
questions that were asked.

Media, statistics other than the tokens spent, and the observer are left out, and so is how deferred
tools are found: a search never changes what a name stands for.
-/

namespace Gen2.Agent

/-- `generation::ToolCall`. -/
abbrev Call := Generation.ToolCall

/-- `REPEAT_LIMIT`. -/
def repeatLimit : Nat := 3

/-- `SEARCH_TOOL`. -/
def searchTool : Text := "search_tools".toList

/-- `Risk`. -/
inductive Risk
  | safe
  | risky
  deriving DecidableEq

/-- `ApprovalMode`. -/
inductive ApprovalMode
  | auto
  | askOnRisky
  deriving DecidableEq

/-- `Decision`. -/
inductive Decision
  | allow
  | deny (why : String)
  deriving DecidableEq

/-- `ToolError`. -/
inductive ToolError
  | invalidArguments (message : String)
  | failed (message : String)
  | unavailable (message : String)
  | timedOut (after : String)
  | denied (message : String)

namespace ToolError

/-- `ToolError::is_model_actionable`. -/
def isModelActionable : ToolError → Bool
  | invalidArguments _ | failed _ => true
  | _ => false

/-- `ToolError` as it is displayed. -/
def display : ToolError → String
  | invalidArguments message => "invalid arguments: " ++ message
  | failed message => message
  | unavailable message => "unavailable: " ++ message
  | timedOut after => "timed out after " ++ after
  | denied message => "denied: " ++ message

end ToolError

/-- What a tool comes to: the text for the model, or an error. -/
abbrev ToolResult := Except ToolError String

/-- A `Tool`, by what the agent asks of it. -/
structure Tool where
  risk : Risk
  parallelSafe : Bool
  deriving DecidableEq

/-- `Steer`. -/
structure Steer where
  message : String
  interrupt : Bool

/-- `Budget`. -/
inductive Budget
  | steps
  | tokens
  | deadline

/-- `Finish`. -/
inductive Finish
  | eos
  | stopped
  | outOfBudget (budget : Budget)
  | repeatingCall (tool : Text)

/-- A model turn. -/
structure Turn where
  text : String
  toolCalls : List Call
  decodeTokens : Nat
  finish : Finish

/-- How the agent was built.  `parse` reads the text of a call's arguments, and keeps what is not
JSON as a string. -/
structure Config where
  registry : Text → Option Tool
  approval : ApprovalMode
  /-- Whether a callback is installed. -/
  onApproval : Bool
  maxSteps : Nat
  maxTokens : Option Nat
  answerAs : Option String
  parse : Text → Json

/-- What comes from outside in one step. -/
structure StepEnv where
  overdue : Bool
  /-- The steering messages that have come before the step. -/
  boundary : List Steer
  turn : Except String Turn
  /-- Those that have come since, before a call is looked at. -/
  arrivals : Nat → List Steer
  /-- What the callback answers when it is asked about a call. -/
  decide : Nat → Decision
  /-- What the tool of a call comes to when it is run. -/
  outcome : Nat → ToolResult
  /-- The same for a search, which fails only for its arguments. -/
  search : Nat → Except String String
  /-- The steering messages that have come by the end of a turn without calls. -/
  late : List Steer
  shaped : Except String String

/-- A message that the loop has recorded, with the step and the call that it is about. -/
inductive Entry
  | user (text : String)
  | assistant (text : String)
  | calls (step : Nat) (calls : List Call)
  | result (step index : Nat) (callId : Option Text) (content : String)

/-- `as_wire_call`. -/
def asWireCall (config : Config) (call : Call) : ToolCall :=
  ⟨String.ofList (call.id.getD call.name), "function",
    ⟨none, String.ofList call.name, config.parse call.arguments⟩⟩

/-- `result_message`. -/
def resultMessage (callId : Option Text) (content : String) : Message :=
  match callId with
  | some id => .toolResultFor (String.ofList id) content
  | none => .toolResult content

/-- The message that is recorded. -/
def Entry.message (config : Config) : Entry → Message
  | .user text => .user text
  | .assistant text => .assistantStructured text none
  | .calls _ made => .assistantToolCalls (made.map (asWireCall config))
  | .result _ _ callId content => resultMessage callId content

/-- A tool that was run, `none` for a search. -/
structure Execution where
  step : Nat
  index : Nat
  name : Text
  args : Json
  tool : Option Tool

/-- A question that the callback was asked, and its answer. -/
structure Asked where
  step : Nat
  index : Nat
  name : Text
  args : Json
  answer : Decision

/-- A round of calls on its way. -/
structure Round where
  batch : List (Nat × Call)
  results : List (Nat × ToolResult)
  executed : List Execution
  asked : List Asked

/-- Where a run is. -/
structure Run where
  entries : List Entry
  queue : List Steer
  recent : List (Text × Text)
  spentTokens : Nat
  executed : List Execution
  asked : List Asked

/-- How a run ends. -/
inductive Exit
  | completed (finish : Finish)
  | failed (code message : String)

section Round

variable (config : Config) (env : StepEnv) (step : Nat)

/-- Whether the callback is asked about a call: the condition that `run_batch` and `dispatch` each
write out.  Without a callback it is not met. -/
def asksAbout (call : Call) : Bool :=
  match config.registry call.name with
  | some tool =>
    decide (config.approval = .askOnRisky) && decide (tool.risk = .risky) && config.onApproval
  | none => false

/-- The question about a call, with the answer. -/
def question (i : Nat) (call : Call) : Option Asked :=
  if asksAbout config call then
    some ⟨step, i, call.name, config.parse call.arguments, env.decide i⟩
  else
    none

/-- Why a call is denied. -/
def denial (i : Nat) (call : Call) : Option String :=
  if asksAbout config call then
    match env.decide i with
    | .deny why => some why
    | .allow => none
  else
    none

/-- What running a call comes to. -/
def runCall (i : Nat) (call : Call) : ToolResult :=
  match config.registry call.name with
  | some _ => env.outcome i
  | none => .error (.invalidArguments ("no tool named '" ++ String.ofList call.name ++ "'"))

/-- The tool that running a call runs. -/
def execution (i : Nat) (call : Call) : Option Execution :=
  (config.registry call.name).map fun tool =>
    ⟨step, i, call.name, config.parse call.arguments, some tool⟩

/-- `run_batch`: everybody is asked about first, and what is not denied is run together. -/
def runBatch (r : Round) : Round :=
  let approved := r.batch.filter fun c => (denial config env c.1 c.2).isNone
  { batch := []
    results := r.results ++
      r.batch.filterMap (fun c =>
        (denial config env c.1 c.2).map fun why => (c.1, .error (.denied why))) ++
      approved.map fun c => (c.1, runCall config env c.1 c.2)
    executed := r.executed ++ approved.filterMap fun c => execution config step c.1 c.2
    asked := r.asked ++ r.batch.filterMap fun c => question config env step c.1 c.2 }

/-- `dispatch`, or `run_search` where the call is one. -/
def runSolo (i : Nat) (call : Call) (r : Round) : Round :=
  if call.name = searchTool then
    { r with
      results := r.results ++ [(i, match env.search i with
        | .ok text => .ok text
        | .error message => .error (.invalidArguments message))]
      executed := r.executed ++ [⟨step, i, call.name, config.parse call.arguments, none⟩] }
  else
    let r := { r with asked := r.asked ++ (question config env step i call).toList }
    match denial config env i call with
    | some why => { r with results := r.results ++ [(i, .error (.denied why))] }
    | none =>
      { r with
        results := r.results ++ [(i, runCall config env i call)]
        executed := r.executed ++ (execution config step i call).toList }

/-- A call that shares no batch. -/
def isSolo (call : Call) : Bool :=
  decide (call.name = searchTool) ||
    match config.registry call.name with
    | some tool => !tool.parallelSafe
    | none => true

/-- Why the loop over the calls ends. -/
inductive Cut
  | done
  | interrupted
  | repeating (tool : Text)

/-- The last calls, with one more. -/
def remember (call : Call) (recent : List (Text × Text)) : List (Text × Text) :=
  let recent := recent ++ [(call.name, call.arguments)]
  if repeatLimit < recent.length then recent.drop 1 else recent

/-- The call has been made three times in a row. -/
def repeats (call : Call) (recent : List (Text × Text)) : Bool :=
  decide (recent.length = repeatLimit) &&
    recent.all fun key => decide (key = (call.name, call.arguments))

/-- The loop over the calls of a round. -/
def takeCalls : List (Nat × Call) → List Steer → List (Text × Text) → Round →
    Cut × List Steer × List (Text × Text) × Round
  | [], queue, recent, r => (.done, queue, recent, r)
  | (i, call) :: calls, queue, recent, r =>
    let queue := queue ++ env.arrivals i
    if queue.any Steer.interrupt then
      (.interrupted, queue, recent, r)
    else
      let recent := remember call recent
      if repeats call recent then
        (.repeating call.name, queue, recent, r)
      else if isSolo config call then
        takeCalls calls queue recent (runSolo config env step i call (runBatch config env step r))
      else
        takeCalls calls queue recent { r with batch := r.batch ++ [(i, call)] }

/-- The results recorded, up to the first that the model can do nothing about. -/
def recordResults (calls : List Call) : List (Nat × ToolResult) → List Entry →
    Option (String × String) × List Entry
  | [], entries => (none, entries)
  | (i, outcome) :: results, entries =>
    let callId := calls[i]?.bind Generation.ToolCall.id
    match outcome with
    | .ok content => recordResults calls results (entries ++ [.result step i callId content])
    | .error e =>
      if e.isModelActionable then
        recordResults calls results (entries ++ [.result step i callId ("error: " ++ e.display)])
      else
        (some ("tool_failed",
          ((calls[i]?.map fun call => String.ofList call.name).getD "") ++ ": " ++ e.display),
            entries)

/-- `results.sort_by_key`. -/
def sortResults (results : List (Nat × ToolResult)) : List (Nat × ToolResult) :=
  results.mergeSort fun a b => decide (a.1 ≤ b.1)

/-- The calls with their places. -/
def indexed (calls : List Call) : List (Nat × Call) := (List.range calls.length).zip calls

/-- A round of calls: the run after it, and how the run ends where it does. -/
def runRound (calls : List Call) (s : Run) : Run × Option Exit :=
  let entries := s.entries ++ [.calls step calls]
  let (cut, queue, recent, r) :=
    takeCalls config env step (indexed calls) s.queue s.recent ⟨[], [], [], []⟩
  match cut with
  | .repeating tool =>
    ({ s with
        entries := entries, queue := queue, recent := recent
        executed := s.executed ++ r.executed, asked := s.asked ++ r.asked },
      some (.completed (.repeatingCall tool)))
  | _ =>
    let r := runBatch config env step r
    let (failure, entries) := recordResults step calls (sortResults r.results) entries
    ({ s with
        entries := entries, queue := queue, recent := recent
        executed := s.executed ++ r.executed, asked := s.asked ++ r.asked },
      failure.map fun f => .failed f.1 f.2)

end Round

/-- One step of the loop: the states in which a model turn starts, the state after, and how the run
ends where it does. -/
def agentStep (config : Config) (env : StepEnv) (step : Nat) (s : Run) :
    List Run × Run × Option Exit :=
  if env.overdue then
    ([], s, some (.completed (.outOfBudget .deadline)))
  else
    let s := { s with
      entries := s.entries ++ (s.queue ++ env.boundary).map fun steer => Entry.user steer.message
      queue := [] }
    match env.turn with
    | .error message => ([s], s, some (.failed "generation" message))
    | .ok turn =>
      let t := { s with spentTokens := s.spentTokens + turn.decodeTokens }
      if config.maxTokens.any fun limit => decide (limit ≤ t.spentTokens) then
        ([s], t, some (.completed (.outOfBudget .tokens)))
      else if turn.toolCalls.isEmpty then
        let t := { t with
          entries := t.entries ++ [Entry.assistant turn.text]
          queue := t.queue ++ env.late }
        if t.queue.isEmpty then
          match config.answerAs with
          | none => ([s], t, some (.completed turn.finish))
          | some instruction =>
            let t := { t with entries := t.entries ++ [Entry.user instruction] }
            match env.shaped with
            | .error message => ([s, t], t, some (.failed "generation" message))
            | .ok text =>
              ([s, t], { t with entries := t.entries ++ [Entry.assistant text] },
                some (.completed turn.finish))
        else
          ([s], t, none)
      else
        let (t, exit) := runRound config env step turn.toolCalls t
        ([s], t, exit)

/-- `run_with`, with `n` steps left: the states in which a model turn starts or the run returns, and
how it ends. -/
def runFrom (config : Config) (env : Nat → StepEnv) : Nat → Nat → Run → List Run × Exit
  | 0, _, s => ([s], .completed (.outOfBudget .steps))
  | n + 1, step, s =>
    match agentStep config (env step) step s with
    | (seen, s, some exit) => (seen ++ [s], exit)
    | (seen, s, none) =>
      let (rest, exit) := runFrom config env n (step + 1) s
      (seen ++ rest, exit)

/-- A run that has recorded its goal and nothing else. -/
def Run.start (goal : Option String) (queue : List Steer) : Run :=
  ⟨(goal.map Entry.user).toList, queue, [], 0, [], []⟩

/-- `run_with`. -/
def runWith (config : Config) (env : Nat → StepEnv) (goal : Option String) (queue : List Steer) :
    List Run × Exit :=
  runFrom config env config.maxSteps 0 (.start goal queue)

end Gen2.Agent
