import Gen2.Controller.Commands
import Mathlib.Data.Prod.Lex
import Mathlib.Order.WithBot

/-!
# The runtime's memory ledger

`api/runtime.rs` and `api/runtime/admission.rs`: the models of a runtime, what each of them is
charged, and how something new is admitted.

Whatever adds a charge takes the admission lock, makes room (which may evict models), checks, and
only then charges.  The state is everything that threads share, with the place where the holder of
the lock is; a step is one access to it, so that between any two of the holder's steps other threads
may do whatever the lock does not forbid: drop a reservation, touch a model, send a chat to a
controller.

* A model's id is its place in the list of all that were ever registered: ids are handed out in that
  order, and no entry is ever removed.
* The controller of a local model is the one of `Gen2.Controller`, which goes on ticking by itself.
* The four counters of reservations are `u64` atomics and wrap around; so are the additions of the
  ledger, which are checked.
* The memory snapshot is fixed, and a lock is never poisoned.  What is only reported (the count of
  evictions, the names) is left out.
-/

namespace Gen2.Runtime

open Controller

variable {ρ : Type}

/-- `ModelId`. -/
abbrev ModelId := Nat

/-- `Option<Instant>`, in which never comes before any time. -/
abbrev Stamp := WithBot Nat

/-! ## What is charged -/

/-- `Loaded`. -/
structure Loaded (ρ : Type) where
  controller : ControllerState ρ
  isLocal : Bool
  estimatedMb : Nat
  /-- Whether the weights are resident, as this layer last left them. -/
  resident : Bool
  lastUsed : Stamp

/-- `Loaded::is_resident`. -/
def Loaded.isResident (m : Loaded ρ) : Bool := !m.isLocal || m.resident

/-- `image::Entry`, with `plan.total_mb`. -/
structure ImageEntry where
  totalMb : Nat
  resident : Bool
  busy : Bool
  lastUsed : Stamp

/-- What is registered under an id. -/
inductive Entry (ρ : Type)
  | text (m : Loaded ρ)
  | image (e : ImageEntry)

namespace Entry

def lastUsed : Entry ρ → Stamp
  | text m => m.lastUsed
  | image e => e.lastUsed

/-- `touch`. -/
def touch (now : Nat) : Entry ρ → Entry ρ
  | text m => text { m with lastUsed := (now : Stamp) }
  | image e => image { e with lastUsed := (now : Stamp) }

/-- What the first loop of `admission_ledger` adds for it. -/
def textMb : Entry ρ → Option Nat
  | text m => if m.isLocal && m.isResident then some m.estimatedMb else none
  | image _ => none

/-- What the second loop adds. -/
def imageMb : Entry ρ → Option Nat
  | text _ => none
  | image e => if e.resident then some e.totalMb else none

/-- What the ledger counts for it. -/
def chargeMb : Entry ρ → Nat
  | text m => if m.isLocal && m.resident then m.estimatedMb else 0
  | image e => if e.resident then e.totalMb else 0

/-- Whether `least_recently_used` considers it. -/
def evictable : Entry ρ → Bool
  | text m => m.isLocal && m.resident
  | image e => e.resident && !e.busy

end Entry

/-- What holds memory without being a model. -/
inductive Auxiliary
  | speech
  | decision
  | diarization
  | working
  deriving DecidableEq

/-- In the order in which the ledger adds them. -/
def Auxiliary.all : List Auxiliary := [speech, decision, diarization, working]

/-- `SpeechReservation` and its like: whoever has it owes the counter `mb`. -/
structure Reservation where
  kind : Auxiliary
  mb : Nat

/-- `u64::checked_add`. -/
def checkedAdd (a b : Nat) : Option Nat := if a + b < 2 ^ 64 then some (a + b) else none

/-- `AtomicU64::fetch_add`, which wraps around. -/
def fetchAdd (a b : Nat) : Nat := (a + b) % 2 ^ 64

/-- `AtomicU64::fetch_sub`, which wraps around. -/
def fetchSub (a b : Nat) : Nat := (a + 2 ^ 64 - b) % 2 ^ 64

/-- `AdmissionLedger` while it is read: the sum so far, which may have overflowed, and the counters
that are still to be loaded.  Nothing looks at `opened`, the ledger when the reading began. -/
structure Reading where
  total : Option Nat
  left : List Auxiliary
  opened : Nat

/-- `AdmissionChecks`. -/
structure AdmissionChecks where
  projectedLedgerMb : Option Nat
  projectedProcessMb : Option Nat
  quotaAllows : Bool
  processAllows : Bool
  pressureAllows : Bool
  overflowed : Bool

/-- `AdmissionChecks::allows`. -/
def AdmissionChecks.allows (c : AdmissionChecks) : Bool :=
  !c.overflowed && c.quotaAllows && c.processAllows && c.pressureAllows

/-- `check_admission`, with `model_load_conditions`. -/
def checkAdmission (total : Option Nat) (extraMb : Nat) (g : MemoryGovernor) : AdmissionChecks :=
  let projected := total.bind (checkedAdd · extraMb)
  let process := checkedAdd g.estimatedProcessMb extraMb
  { projectedLedgerMb := projected
    projectedProcessMb := process
    quotaAllows := projected.any (· ≤ g.inferenceResidentMb)
    processAllows := process.any (· < g.processSoftLimitMb)
    pressureAllows := !g.atLeast .severe
    overflowed := projected.isNone || process.isNone }

/-- What `can_admit` makes of a reading. -/
def fits (g : MemoryGovernor) (total : Option Nat) (extraMb : Nat) : Bool :=
  (checkAdmission total extraMb g).allows

/-- `AdmissionLedger::available_mb`. -/
def availableMb (g : MemoryGovernor) (total : Option Nat) : Nat :=
  total.elim 0 fun total => min (availableForModelMb g) (g.inferenceResidentMb - total)

/-! ## The holder of the admission lock -/

/-- What takes the admission lock. -/
inductive Op (ρ : Type)
  /-- `restore`, of a turn that did not get through on the fast path or of `preload`. -/
  | restore (id : ModelId) (turn : Bool)
  /-- `evict`. -/
  | evict (id : ModelId)
  /-- `load_local`, with the size of the weights, which is looked up before. -/
  | load (load : LoadModel ρ) (weightMb : Nat)
  /-- `load_diarizer`, `load_transcriber`, `load_whisper_profile`, `load_verified_decider` and
  `reserve_working_memory`, which are the same here but for the counter. -/
  | reserve (kind : Auxiliary) (mb : Nat)
  /-- `load_image_model`. -/
  | loadImage (totalMb : Nat)
  /-- `preload_image_model`. -/
  | preloadImage (id : ModelId)
  /-- `begin_image_job`. -/
  | beginJob (id : ModelId)
  /-- `finish_image_job`. -/
  | finishJob (id : ModelId)
  /-- `evict_image_model`. -/
  | evictImage (id : ModelId)

/-- The model that `make_room` is not to evict. -/
def Op.keep : Op ρ → Option ModelId
  | .restore id _ | .preloadImage id | .beginJob id => some id
  | _ => none

/-- An `EvictionCandidate`, with its `last_used` as it was read. -/
structure Candidate where
  lastUsed : Stamp
  id : ModelId

/-- `EvictionCandidate::order`: never used comes before used. -/
def Candidate.order (c : Candidate) : Stamp ×ₗ Nat := toLex (c.lastUsed, c.id)

/-- Where the holder of the lock is. -/
inductive Stage
  | entered
  /-- `restore` has found the flag set, and asks the controller. -/
  | asking
  /-- `restore` is about to clear the flag. -/
  | clearing
  /-- `make_room` is reading the ledger. -/
  | room (want : Nat) (reading : Reading)
  /-- `least_recently_used` is reading when its candidates were last used. -/
  | ranking (want : Nat) (reading : Reading) (left : List ModelId) (ranked : List Candidate)
  /-- `make_room` is about to unload its victim. -/
  | unloading (want : Nat) (reading : Reading) (victim : Candidate)
  /-- The victim's controller has unloaded, and its flag is still set. -/
  | unloaded (want : Nat) (victim : ModelId)
  /-- The same two places of `evict`. -/
  | evicting
  | evicted
  /-- `load_local` is reading what there is for its plan. -/
  | budget (reading : Reading)
  /-- `require_admission` is reading the ledger. -/
  | admission (mb : Nat) (reading : Reading)
  /-- Admitted, and about to load what was admitted, or to add it to its counter. -/
  | charging (mb : Nat)
  /-- `restore` has the weights back, and is about to set the flag. -/
  | marking

/-- Who has the admission lock, and where. -/
structure Holder (ρ : Type) where
  op : Op ρ
  stage : Stage

/-- An order in which a hash map of models is iterated. -/
structure HashOrder where
  arrange : List ModelId → List ModelId
  perm : ∀ ids, (arrange ids).Perm ids

/-- What the outside answers while the holder takes one step. -/
structure Outside (ρ : Type) where
  /-- What a controller, or the planner, meets. -/
  env : Env ρ
  order : HashOrder
  /-- What `EngineBuilder::build` finds before it loads, and the engine it starts with. -/
  preflight : Except String (Engine ρ)
  /-- Whether the factory of an image model makes a driver. -/
  factory : Bool
  /-- Whether the driver's lock is whole, for an image model to be torn down. -/
  teardown : Bool

/-! ## The state -/

/-- How far a turn is that has not sent its chat. -/
inductive TurnStage
  /-- The flag was set, and the controller is to be asked. -/
  | peeked
  /-- `ensure_resident` is through. -/
  | ready

/-- `RuntimeInner`, with the reservations that are out, the turns that are on their way, and the
clock. -/
structure RuntimeInner (ρ : Type) where
  entries : List (Entry ρ)
  reserved : Auxiliary → Nat
  live : List Reservation
  admission : Option (Holder ρ)
  turns : List (ModelId × TurnStage)
  clock : Nat

namespace RuntimeInner

/-- A runtime with nothing loaded. -/
def initial : RuntimeInner ρ := ⟨[], fun _ => 0, [], none, [], 0⟩

def text? (s : RuntimeInner ρ) (id : ModelId) : Option (Loaded ρ) :=
  match s.entries[id]? with
  | some (.text m) => some m
  | _ => none

def image? (s : RuntimeInner ρ) (id : ModelId) : Option ImageEntry :=
  match s.entries[id]? with
  | some (.image e) => some e
  | _ => none

def setEntry (id : ModelId) (e : Entry ρ) (s : RuntimeInner ρ) : RuntimeInner ρ :=
  { s with entries := s.entries.set id e }

def setText (id : ModelId) (m : Loaded ρ) (s : RuntimeInner ρ) : RuntimeInner ρ :=
  s.setEntry id (.text m)

def setImage (id : ModelId) (e : ImageEntry) (s : RuntimeInner ρ) : RuntimeInner ρ :=
  s.setEntry id (.image e)

/-- `touch`. -/
def touch (id : ModelId) (s : RuntimeInner ρ) : RuntimeInner ρ :=
  match s.entries[id]? with
  | none => s
  | some e => s.setEntry id (e.touch s.clock)

/-! ### The ledger -/

/-- The resident models as `admission_ledger` adds them up. -/
def residentMb (s : RuntimeInner ρ) : Option Nat :=
  ((s.entries.filterMap Entry.textMb).foldlM checkedAdd 0).bind fun resident =>
    (s.entries.filterMap Entry.imageMb).foldlM checkedAdd resident

/-- What the resident models are charged. -/
def chargedMb (s : RuntimeInner ρ) : Nat := (s.entries.map Entry.chargeMb).sum

/-- What some of the counters say together. -/
def reservedMb (s : RuntimeInner ρ) (kinds : List Auxiliary) : Nat := (kinds.map s.reserved).sum

/-- All that is charged: resident models, and the four counters. -/
def totalMb (s : RuntimeInner ρ) : Nat := s.chargedMb + s.reservedMb Auxiliary.all

/-- What the reservations of a kind that are out come to. -/
def liveMb (s : RuntimeInner ρ) (kind : Auxiliary) : Nat :=
  ((s.live.filter (·.kind = kind)).map Reservation.mb).sum

/-- `admission_ledger`, up to the counters. -/
def openReading (s : RuntimeInner ρ) : Reading := ⟨s.residentMb, Auxiliary.all, s.totalMb⟩

/-- One counter loaded. -/
def readNext (s : RuntimeInner ρ) (kind : Auxiliary) (left : List Auxiliary) (r : Reading) :
    Reading :=
  { r with total := r.total.bind (checkedAdd · (s.reserved kind)), left := left }

/-- The ids that `least_recently_used` considers. -/
def candidates (s : RuntimeInner ρ) (keep : Option ModelId) : List ModelId :=
  (List.range s.entries.length).filter fun id =>
    decide (some id ≠ keep) && s.entries[id]?.any Entry.evictable

/-! ### The steps of the holder -/

/-- The holder is somewhere else now. -/
def goto (op : Op ρ) (stage : Stage) (s : RuntimeInner ρ) : RuntimeInner ρ :=
  { s with admission := some ⟨op, stage⟩ }

/-- The lock is let go. -/
def unlock (s : RuntimeInner ρ) : RuntimeInner ρ := { s with admission := none }

/-- `restore` returns in order, and a turn goes on. -/
def restored (id : ModelId) (turn : Bool) (s : RuntimeInner ρ) : RuntimeInner ρ :=
  { s.unlock with turns := if turn then s.turns ++ [(id, .ready)] else s.turns }

/-- `make_room` comes round. -/
def makeRoom (op : Op ρ) (want : Nat) (s : RuntimeInner ρ) : RuntimeInner ρ :=
  s.goto op (.room want s.openReading)

/-- What follows `make_room`: a load reads what there is for its plan, and everything else asks for
the admission of what room was made for. -/
def afterRoom (op : Op ρ) (want : Nat) (s : RuntimeInner ρ) : RuntimeInner ρ :=
  match op with
  | .load .. => s.goto op (.budget s.openReading)
  | _ => s.goto op (.admission want s.openReading)

/-- The first step under the lock. -/
def enter (config : ControllerConfig ρ) (o : Outside ρ) (op : Op ρ) (s : RuntimeInner ρ) :
    RuntimeInner ρ :=
  match op with
  | .restore id _ =>
    match s.text? id with
    | none => s.unlock
    | some m =>
      if m.isLocal = false then s.unlock
      else if m.isResident then s.goto op .asking
      else s.goto op .clearing
  | .evict id =>
    match s.text? id with
    | none => s.unlock
    | some m => if m.isLocal && m.isResident then s.goto op .evicting else s.unlock
  | .load load weightMb =>
    match o.env.planGguf load.modelPath load.mmprojPath load.settings config.maxActiveChats
        (2 ^ 64 - 1) with
    | .error _ => s.unlock
    | .ok ideal => s.makeRoom op (ideal.elim weightMb ModelMemoryPlan.totalMb)
  | .reserve kind mb => if kind = .working ∧ mb = 0 then s.unlock else s.makeRoom op mb
  | .loadImage totalMb => s.makeRoom op totalMb
  | .preloadImage id =>
    match s.image? id with
    | none => s.unlock
    | some e => if e.resident then (s.touch id).unlock else s.makeRoom op e.totalMb
  | .beginJob id =>
    match s.image? id with
    | none => s.unlock
    | some e =>
      if e.busy then s.unlock
      -- the peak is already charged
      else if e.resident then s.makeRoom op 0
      else s.makeRoom op e.totalMb
  | .finishJob id =>
    match s.image? id with
    | none => s.unlock
    | some e => (s.setImage id { e with busy := false, lastUsed := (s.clock : Stamp) }).unlock
  | .evictImage id =>
    match s.image? id with
    | none => s.unlock
    | some e =>
      if !e.busy && o.teardown then (s.setImage id { e with resident := false }).unlock
      else s.unlock

/-- The engine's `unload_model`, which fails where its controller is gone. -/
def unloadModel (config : ControllerConfig ρ) (env : Env ρ) (m : Loaded ρ) : Option (Loaded ρ) :=
  if m.controller.running then
    some { m with controller := m.controller.unloadModel config env }
  else
    none

/-- `victim.unload()`. -/
def unloadVictim (config : ControllerConfig ρ) (o : Outside ρ) (op : Op ρ) (want : Nat)
    (victim : ModelId) (s : RuntimeInner ρ) : RuntimeInner ρ :=
  match s.entries[victim]? with
  | none => s.afterRoom op want
  | some (.text m) =>
    if m.isLocal && m.isResident then
      match unloadModel config o.env m with
      | some m => (s.setText victim m).goto op (.unloaded want victim)
      -- a model that will not unload cannot make room
      | none => s.afterRoom op want
    else
      s.makeRoom op want
  | some (.image e) =>
    if !e.busy && o.teardown then (s.setImage victim { e with resident := false }).makeRoom op want
    else s.afterRoom op want

/-- The flag of a text model set or cleared: `set_resident`. -/
def setResident (id : ModelId) (resident : Bool) (s : RuntimeInner ρ) : RuntimeInner ρ :=
  match s.text? id with
  | none => s
  | some m => s.setText id { m with resident := resident }

/-- The engine's `reload_model`: whether it works, and the model after. -/
def reloadModel (config : ControllerConfig ρ) (env : Env ρ) (m : Loaded ρ) : Bool × Loaded ρ :=
  if m.controller.running then
    let (r, controller) := m.controller.reloadWithAdmission config env
    (r.isOk, { m with controller := controller })
  else
    (false, m)

/-- `EngineBuilder::build`. -/
def build (config : ControllerConfig ρ) (o : Outside ρ) (load : LoadModel ρ) :
    Option (ControllerState ρ) :=
  match o.preflight with
  | .error _ => none
  | .ok engine =>
    match (ControllerState.initial engine o.env.unixNow).loadModel config o.env load with
    | (.ok _, controller) => some controller
    | (.error _, _) => none

/-- `register`, and `register_image`. -/
def register (e : Entry ρ) (s : RuntimeInner ρ) : RuntimeInner ρ :=
  { s with entries := s.entries ++ [e] }

/-- `Entry::restore`: whether it works, and the image model after. -/
def restoreImage (factory : Bool) (now : Nat) (e : ImageEntry) : Option ImageEntry :=
  if e.resident then some { e with lastUsed := (now : Stamp) }
  else if factory then some { e with resident := true, lastUsed := (now : Stamp) }
  else none

/-- What was admitted is loaded, or added to its counter. -/
def charge (config : ControllerConfig ρ) (o : Outside ρ) (op : Op ρ) (mb : Nat)
    (s : RuntimeInner ρ) : RuntimeInner ρ :=
  match op with
  | .restore id _ =>
    match s.text? id with
    | none => s.unlock
    | some m =>
      match reloadModel config o.env m with
      | (true, m) => (s.setText id m).goto op .marking
      | (false, m) => (s.setText id m).unlock
  | .load load _ =>
    match build config o load with
    | none => s.unlock
    | some controller => (s.register (.text ⟨controller, true, mb, true, (s.clock : Stamp)⟩)).unlock
  | .reserve kind mb =>
    { s.unlock with
      reserved := Function.update s.reserved kind (fetchAdd (s.reserved kind) mb)
      live := s.live ++ [⟨kind, mb⟩] }
  | .loadImage totalMb =>
    if o.factory then (s.register (.image ⟨totalMb, true, false, (s.clock : Stamp)⟩)).unlock
    else s.unlock
  | .preloadImage id =>
    match (s.image? id).bind (restoreImage o.factory s.clock) with
    | none => s.unlock
    | some e => (s.setImage id e).unlock
  | .beginJob id =>
    match (s.image? id).bind (restoreImage o.factory s.clock) with
    | none => s.unlock
    | some e => (s.setImage id { e with busy := true }).unlock
  | _ => s.unlock

/-- The holder's next step. -/
def advance (config : ControllerConfig ρ) (g : MemoryGovernor) (o : Outside ρ) (op : Op ρ)
    (stage : Stage) (s : RuntimeInner ρ) : RuntimeInner ρ :=
  match stage, op with
  | .entered, op => s.enter config o op
  | .asking, .restore id turn =>
    if (s.text? id).any fun m => m.controller.running && m.controller.engine.isModelLoaded then
      s.restored id turn
    else
      s.goto op .clearing
  | .clearing, .restore id _ =>
    match s.text? id with
    | none => s.unlock
    | some m => (s.setResident id false).makeRoom op m.estimatedMb
  | .room want r, op =>
    match r.left with
    | kind :: left => s.goto op (.room want (s.readNext kind left r))
    | [] =>
      if fits g r.total want then s.afterRoom op want
      else s.goto op (.ranking want r (o.order.arrange (s.candidates op.keep)) [])
  | .ranking want r (id :: left) ranked, op =>
    s.goto op (.ranking want r left (ranked ++ [⟨s.entries[id]?.elim ⊥ Entry.lastUsed, id⟩]))
  | .ranking want r [] ranked, op =>
    match ranked.argmin Candidate.order with
    | none => s.afterRoom op want
    | some victim => s.goto op (.unloading want r victim)
  | .unloading want _ victim, op => s.unloadVictim config o op want victim.id
  | .unloaded want victim, op => (s.setResident victim false).makeRoom op want
  | .evicting, .evict id =>
    match (s.text? id).bind (unloadModel config o.env) with
    | none => s.unlock
    | some m => (s.setText id m).goto op .evicted
  | .evicted, .evict id => (s.setResident id false).unlock
  | .budget r, .load load weightMb =>
    match r.left with
    | kind :: left => s.goto op (.budget (s.readNext kind left r))
    | [] =>
      match o.env.planGguf load.modelPath load.mmprojPath load.settings config.maxActiveChats
          (availableMb g r.total) with
      | .error _ => s.unlock
      | .ok plan =>
        s.goto (.load { load with settings := plannedSettings plan load.settings } weightMb)
          (.admission (plan.elim weightMb ModelMemoryPlan.totalMb) s.openReading)
  | .admission mb r, op =>
    match r.left with
    | kind :: left => s.goto op (.admission mb (s.readNext kind left r))
    | [] => if fits g r.total mb then s.goto op (.charging mb) else s.unlock
  | .charging mb, op => s.charge config o op mb
  | .marking, .restore id turn => (s.setResident id true).restored id turn
  | _, _ => s.unlock

end RuntimeInner

/-! ## Everything that can happen -/

/-- What a turn, or an agent, sends to a model's controller. -/
inductive ChatCmd
  | start (chatId : ChatId) (messages : List Message) (genSpec : GenSpec)
  | continue (chatId : ChatId) (newMessages transcript : List Message) (genSpec : GenSpec)

/-- As the controller gets it. -/
def ChatCmd.toCmd : ChatCmd → ControllerCmd ρ
  | .start chatId messages genSpec => .startChat chatId messages genSpec
  | .continue chatId newMessages transcript genSpec =>
    .continueChat chatId newMessages transcript genSpec

/-- Whether a controller's round is one that the runtime has no part in: neither a chat, nor one of
the commands of a load, an eviction or a restore. -/
def routine : Input ρ → Bool
  | .command (.loadModel _) | .command .unloadModel | .command .reloadModel
  | .command (.startChat ..) | .command (.continueChat ..) => false
  | _ => true

/-- One thing that happens. -/
inductive Act (ρ : Type)
  /-- The lock is taken, where it is free. -/
  | acquire (op : Op ρ)
  /-- The holder takes a step. -/
  | advance (o : Outside ρ)
  /-- A reservation is dropped, by whoever has it. -/
  | drop (k : Nat)
  | touch (id : ModelId)
  | elapse (time : Nat)
  /-- A remote model is registered, which needs no lock. -/
  | connect (controller : ControllerState ρ)
  /-- A turn looks at the flag: the first half of the fast path. -/
  | turnBegins (id : ModelId)
  /-- A turn has asked the controller: the second half. -/
  | turnAsks (k : Nat)
  /-- A turn's chat reaches the controller. -/
  | turnSends (k : Nat) (env : Env ρ) (chat : ChatCmd)
  /-- An agent's chat reaches the controller: `Agent::on` takes the engine as it is. -/
  | agentSends (id : ModelId) (env : Env ρ) (chat : ChatCmd)
  /-- A model's controller goes round. -/
  | round (id : ModelId) (env : Env ρ) (input : Input ρ)

namespace RuntimeInner

/-- A model's controller takes one input. -/
def controllerStep (config : ControllerConfig ρ) (id : ModelId) (env : Env ρ) (input : Input ρ)
    (s : RuntimeInner ρ) : RuntimeInner ρ :=
  match s.text? id with
  | none => s
  | some m =>
    match Controller.step config (env, input) m.controller with
    | none => s
    | some controller => s.setText id { m with controller := controller }

/-- The flag as a turn sees it before it takes the lock: it goes on at once with a remote model, and
asks the controller where the flag is set.  Any other turn waits for the lock, as a `restore`. -/
def turnBegins (id : ModelId) (s : RuntimeInner ρ) : RuntimeInner ρ :=
  match s.text? id with
  | none => s
  | some m =>
    if m.isLocal = false then { s with turns := s.turns ++ [(id, .ready)] }
    else if m.isResident then { s with turns := s.turns ++ [(id, .peeked)] }
    else s

/-- What the controller answers a turn. -/
def turnAsks (k : Nat) (s : RuntimeInner ρ) : RuntimeInner ρ :=
  match s.turns[k]? with
  | some (id, .peeked) =>
    if (s.text? id).any fun m => m.controller.running && m.controller.engine.isModelLoaded then
      { s with turns := s.turns.set k (id, .ready) }
    else
      { s with turns := s.turns.eraseIdx k }
  | _ => s

/-- A guard is dropped. -/
def dropReservation (k : Nat) (s : RuntimeInner ρ) : RuntimeInner ρ :=
  match s.live[k]? with
  | none => s
  | some r =>
    { s with
      reserved := Function.update s.reserved r.kind (fetchSub (s.reserved r.kind) r.mb)
      live := s.live.eraseIdx k }

end RuntimeInner

/-- One step of the runtime, with the memory snapshot `g`. -/
def step (config : ControllerConfig ρ) (g : MemoryGovernor) (act : Act ρ) (s : RuntimeInner ρ) :
    Option (RuntimeInner ρ) :=
  some <|
    match act with
    | .acquire op => if s.admission.isNone then s.goto op .entered else s
    | .advance o =>
      match s.admission with
      | none => s
      | some h => s.advance config g o h.op h.stage
    | .drop k => s.dropReservation k
    | .touch id => s.touch id
    | .elapse time => { s with clock := s.clock + time }
    | .connect controller => s.register (.text ⟨controller, false, 0, true, ⊥⟩)
    | .turnBegins id => s.turnBegins id
    | .turnAsks k => s.turnAsks k
    | .turnSends k env chat =>
      match s.turns[k]? with
      | some (id, .ready) =>
        ({ s with turns := s.turns.eraseIdx k } : RuntimeInner ρ).controllerStep config id env
          (.command chat.toCmd)
      | _ => s
    | .agentSends id env chat => s.controllerStep config id env (.command chat.toCmd)
    | .round id env input => if routine input then s.controllerStep config id env input else s

end Gen2.Runtime
