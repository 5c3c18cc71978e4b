import Gen2.Controller.Frames
import Gen2.Lib.Run

/-!
# What the ledger says of what is loaded

The residency ledger and the weights are changed by separate calls.  A helper is always both loaded
and entered; the model is, but for three slips.

* `LedgerTrue`: an entry for the model exactly where it is loaded, and for a helper exactly where
  the worker has it.
* `Reloadable`: a model that is loaded can be taken out and brought back.
* `Slips`: a load whose last rung is refused its settings after its weights are in, a reload of
  weights whose name was not kept, and a round of maintenance under severe memory pressure while
  there are no chats.
* `ledger_iff`: the ledger tells the truth all along a run exactly where no round slips.
-/

namespace Gen2.Controller

open Lib ControllerState ResidencyInventory Engine

variable {ρ : Type}

namespace ControllerState

/-- The ledger agrees with what is loaded. -/
structure LedgerTrue (s : ControllerState ρ) : Prop where
  llm : (s.residency.slot .llm).isSome = s.engine.isModelLoaded
  helper : ∀ helper : Helper,
    (s.residency.slot helper.kind).isSome = (s.utilities.held helper).isSome

/-- The outside lets the model back in: its weights load, and there is room for it. -/
def LetsBackIn (env : Env ρ) (s : ControllerState ρ) : Prop :=
  (∀ req, env.loads req = .ok ()) ∧
    ∀ name mb, s.idleUnloadedLlm = some (name, mb) →
      s.residency.canAdmit .llm mb (env.governor 0) = true

/-- A model that is loaded can be taken out and brought back. -/
def Reloadable (config : ControllerConfig ρ) (s : ControllerState ρ) : Prop :=
  s.engine.isModelLoaded = true → ∀ env env', LetsBackIn env' (s.unloadModel config env) →
    let s₁ := s.unloadModel config env
    let s₂ := (s₁.reloadWithAdmission config env').2
    s₁.engine.isModelLoaded = false ∧ (s₁.reloadWithAdmission config env').1 = .ok () ∧
      s₂.engine.isModelLoaded = true ∧ (s₂.residency.slot .llm).isSome = true

section Helpers

theorem held_set (w : UtilityWorker) (helper helper' : Helper) (utility : Option LoadedUtility) :
    (w.set helper utility).held helper' = if helper' = helper then utility else w.held helper' := by
  cases helper <;> cases helper' <;> rfl

theorem held_unloadEvictedHelper (w : UtilityWorker) (kind : RuntimeKind) (helper : Helper) :
    (unloadEvictedHelper w kind).held helper = if kind = helper.kind then none else w.held helper := by
  cases kind <;> cases helper <;> rfl

/-- The worker has the helpers that it had and that were not evicted. -/
theorem held_unloadEvicted (w : UtilityWorker) (evicted : List ResidentRuntime) (helper : Helper) :
    ((unloadEvicted w evicted).held helper).isSome = true ↔
      (w.held helper).isSome = true ∧ ∀ x ∈ evicted, x.kind ≠ helper.kind := by
  induction evicted generalizing w with
  | nil => simp [unloadEvicted]
  | cons runtime evicted ih =>
    rw [List.forall_mem_cons]
    refine (ih (unloadEvictedHelper w runtime.kind)).trans ?_
    rw [held_unloadEvictedHelper]
    split
    · next heq => simp [heq]
    · next hne => simp [hne]

theorem helper_kind_ne_llm (helper : Helper) : helper.kind ≠ .llm := by
  cases helper <;> decide

end Helpers

section Operations

variable {config : ControllerConfig ρ} {env : Env ρ} {s s' : ControllerState ρ}

/-! ## A model that is loaded can come back -/

theorem LedgerTrue.reloadable (h : s.LedgerTrue) (hmem : s.engine.Remembers) :
    s.Reloadable config := by
  intro hloaded env env' hback
  obtain ⟨hloads, hroom⟩ := hback
  rw [← h.llm] at hloaded
  obtain ⟨entry, hentry⟩ := Option.isSome_iff_exists.1 hloaded
  rw [h.llm] at hloaded
  have hidle : (s.unloadModel config env).idleUnloadedLlm =
      some (entry.name, entry.estimatedResidentMb) := by
    dsimp only [unloadModel, unloadLlm]
    rw [hentry]
  obtain ⟨engine, hreload, hin⟩ := reloadModel_unloadModel hmem hloaded hloads
  have hadmits := hroom _ _ hidle
  dsimp only
  rw [reloadWithAdmission_entered config env' hidle hadmits hreload]
  refine ⟨isModelLoaded_unloadModel _, rfl, hin, ?_⟩
  simp

/-! ## What keeps the ledger true -/

theorem LedgerTrue.of_same (h : s.LedgerTrue)
    (hloaded : s'.engine.isModelLoaded = s.engine.isModelLoaded)
    (hresidency : s'.residency = s.residency) (hutilities : s'.utilities = s.utilities) :
    s'.LedgerTrue where
  llm := by rw [hresidency, hloaded, h.llm]
  helper helper := by rw [hresidency, hutilities, h.helper]

theorem LedgerTrue.unloadLlm (h : s.LedgerTrue) : s.unloadLlm.LedgerTrue where
  llm := by simp [ControllerState.unloadLlm]
  helper helper := by
    dsimp only [ControllerState.unloadLlm]
    rw [slot_remove, if_neg (helper_kind_ne_llm helper), h.helper]

/-- A reload keeps the ledger true, unless it brings in weights whose name was not kept. -/
theorem LedgerTrue.reloaded_iff {woken : Bool} (h : s.LedgerTrue) (hr : Reloaded env s woken s') :
    s'.LedgerTrue ↔
      ¬ (woken = true ∧ s.idleUnloadedLlm = none ∧ s.engine.isModelLoaded = false) := by
  rcases hr with _ | ⟨hidle, hreload⟩ | ⟨hidle, hadmits, hreload⟩
  · exact iff_of_true h fun hall => nomatch hall.1
  · have hin := isModelLoaded_reloadModel hreload
    rcases hloaded : s.engine.isModelLoaded with _ | _
    · refine iff_of_false (fun hs' => ?_) fun hno => hno ⟨rfl, hidle, rfl⟩
      have hllm := hs'.llm
      rw [h.llm, hin, hloaded] at hllm
      exact nomatch hllm
    · exact iff_of_true (h.of_same (hin.trans hloaded.symm) rfl rfl) nofun
  · have hin := isModelLoaded_reloadModel hreload
    refine iff_of_true ⟨?_, fun helper => ?_⟩ fun hall => ?_
    · simp [hin]
    · rw [slot_put, if_neg (helper_kind_ne_llm helper), h.helper]
    · rw [hidle] at hall
      exact nomatch hall.2.1

/-- A load keeps the ledger true, unless it fails and was refused its settings once its weights were
in. -/
theorem LedgerTrue.loadModel_iff {load : LoadModel ρ} (h : s.LedgerTrue) :
    (s.loadModel config env load).2.LedgerTrue ↔
      ¬ ((s.loadModel config env load).1.isOk = false ∧
        ∃ t ∈ s.tried config env load, t.Late config env load) := by
  have hframe := runLadder_frame config env load s
  have hhelper : ∀ helper : Helper,
      ((s.runLadder config env load).2.1.residency.slot helper.kind).isSome =
        ((s.runLadder config env load).2.1.utilities.held helper).isSome := by
    intro helper
    rw [hframe.helpers _ (helper_kind_ne_llm helper), hframe.utilities, h.helper]
  rcases hresult : (s.loadModel config env load).1 with message | outcome
  · obtain ⟨hr, hs'⟩ := loadModel_error hresult
    have hfail := tried_error hr
    have hslot := runLadder_slot hfail
    have hloaded := runLadder_loaded_iff hfail
    rw [hs']
    constructor
    · rintro htrue ⟨-, t, ht, hlate⟩
      have hllm := htrue.llm
      rw [hslot] at hllm
      exact (hloaded.1 hllm.symm).1 t ht hlate
    · intro hno
      refine ⟨?_, hhelper⟩
      rw [hslot]
      refine (hloaded.2 ⟨fun t ht hlate => hno ⟨rfl, t, ht, hlate⟩, fun hin => .inl ?_⟩).symm
      rw [h.llm]
      exact hin
  · refine iff_of_true ?_ fun hall => nomatch hall.1
    unfold loadModel at hresult ⊢
    rcases hladder : s.runLadder config env load with ⟨message | outcome', s', bytes⟩
    · rw [hladder] at hresult
      exact nomatch hresult
    rw [hladder] at hhelper
    have hr : (s.runLadder config env load).1 = .ok outcome' := by rw [hladder]
    obtain ⟨hin, hentry⟩ := runLadder_ok hr
    rw [hladder] at hin hentry
    exact ⟨hentry.trans hin.symm, hhelper⟩

theorem LedgerTrue.loadHelper {helper : Helper} {modelPath : String} (h : s.LedgerTrue) :
    (s.loadHelper env helper modelPath).2.LedgerTrue := by
  unfold ControllerState.loadHelper
  dsimp only
  split
  · exact h
  · next hadmits =>
    rw [Bool.not_eq_false] at hadmits
    split
    · exact h
    rw [admit_of_canAdmit hadmits]
    refine ⟨?_, fun helper' => ?_⟩
    · rw [slot_put, if_neg (helper_kind_ne_llm helper).symm, h.llm]
    rw [slot_put, held_set]
    by_cases heq : helper' = helper
    · rw [if_pos heq, if_pos (congrArg Helper.kind heq)]
      rfl
    · have hkind : helper'.kind ≠ helper.kind := by
        cases helper <;> cases helper' <;> first | exact absurd rfl heq | decide
      rw [if_neg heq, if_neg hkind, h.helper]

/-- An idle unload takes the model out of the engine and of the ledger. -/
theorem LedgerTrue.maybeIdleUnloadLlm (h : s.LedgerTrue) :
    (s.maybeIdleUnloadLlm config env).LedgerTrue := by
  unfold ControllerState.maybeIdleUnloadLlm
  split
  · exact h
  split
  · exact h
  split
  · exact h.of_same rfl rfl rfl
  split
  · exact h
  · exact LedgerTrue.unloadLlm
      (s := { s with runtimes := s.runtimes.drain config env (.completed .evicted) })
      (h.of_same rfl rfl rfl)

/-! ## Maintenance -/

/-- The ledger entry of the model goes in a round of maintenance, and its weights do not. -/
def Forgets (env : Env ρ) (s : ControllerState ρ) : Prop :=
  s.runtimes.chats.entries = [] ∧ (env.governor 0).atLeast .severe = true ∧
    (s.residency.slot .llm).isSome = true

/-- What maintenance does before it looks whether the model is idle. -/
def relieve (env : Env ρ) (s : ControllerState ρ) : ControllerState ρ :=
  let activeForeground := if s.runtimes.chats.entries.isEmpty then none else some RuntimeKind.llm
  { s with
    residency := (s.residency.unloadForPressure (env.governor 0) activeForeground).2
    utilities := unloadEvicted s.utilities
      (s.residency.unloadForPressure (env.governor 0) activeForeground).1 }

theorem LedgerTrue.relieve_iff (h : s.LedgerTrue) :
    (s.relieve env).LedgerTrue ↔ ¬ s.Forgets env := by
  have hfg : ((if s.runtimes.chats.entries.isEmpty then none else some RuntimeKind.llm) ≠
      some RuntimeKind.llm) ↔ s.runtimes.chats.entries = [] := by
    rcases s.runtimes.chats.entries with _ | _ <;> simp
  have hllm := s.residency.isSome_slot_llm_unloadForPressure (env.governor 0)
    (if s.runtimes.chats.entries.isEmpty then none else some RuntimeKind.llm)
  rw [hfg] at hllm
  constructor
  · rintro htrue ⟨hempty, hsevere, hentry⟩
    have hgone := htrue.llm
    rw [show (s.relieve env).engine = s.engine from rfl, ← h.llm, hentry] at hgone
    exact (hllm.1 hgone).2 ⟨hsevere, hempty⟩
  · intro hno
    refine ⟨?_, fun helper => ?_⟩
    · rw [show (s.relieve env).engine = s.engine from rfl, ← h.llm, Bool.eq_iff_iff]
      exact hllm.trans (and_iff_left_of_imp fun hentry hall => hno ⟨hall.2, hall.1, hentry⟩)
    · rw [Bool.eq_iff_iff]
      refine (s.residency.isSome_slot_unloadForPressure _ _ _).trans ?_
      rw [h.helper]
      exact (held_unloadEvicted _ _ _).symm

/-- What is forgotten is gone from the ledger. -/
theorem Forgets.slot_relieve (h : s.Forgets env) :
    (s.relieve env).residency.slot .llm = none := by
  obtain ⟨hempty, hsevere, -⟩ := h
  have hllm := s.residency.isSome_slot_llm_unloadForPressure (env.governor 0) none
  rw [relieve, hempty]
  dsimp only [List.isEmpty_nil]
  rw [← Option.not_isSome_iff_eq_none]
  exact fun hsome => (hllm.1 hsome).2 ⟨hsevere, nofun⟩

/-- The helpers that have been idle go from the ledger and from the worker. -/
theorem LedgerTrue.evictIdleHelpers {now : Int} {policy : ResidencyPolicy} (h : s.LedgerTrue) :
    ({ s with
      residency := (s.residency.evictIdleHelpers now policy).2
      utilities := unloadEvicted s.utilities (s.residency.evictIdleHelpers now policy).1 } :
      ControllerState ρ).LedgerTrue where
  llm := by
    have hsame : (s.residency.evictIdleHelpers now policy).2.slot .llm = s.residency.slot .llm :=
      slot_evictAll_of_notMem _ _ (by decide)
    dsimp only
    rw [hsame, h.llm]
  helper helper := by
    rw [Bool.eq_iff_iff]
    refine (isSome_slot_evictAll _ _ _ _).trans ?_
    rw [h.helper]
    exact (held_unloadEvicted _ _ _).symm

/-- The helpers are nothing to an idle unload. -/
theorem maybeIdleUnloadLlm_utilities (config : ControllerConfig ρ) (env : Env ρ)
    (utilities : UtilityWorker) (s : ControllerState ρ) :
    ({ s with utilities := utilities } : ControllerState ρ).maybeIdleUnloadLlm config env =
      { s.maybeIdleUnloadLlm config env with utilities := utilities } := by
  unfold maybeIdleUnloadLlm
  dsimp only
  split
  · rfl
  split
  · rfl
  · split
    · rfl
    · split <;> rfl

theorem utilities_maybeIdleUnloadLlm (config : ControllerConfig ρ) (env : Env ρ)
    (s : ControllerState ρ) : (s.maybeIdleUnloadLlm config env).utilities = s.utilities := by
  rw [← congrArg utilities (maybeIdleUnloadLlm_utilities config env s.utilities s)]

/-- The model is looked at last, when all the helpers that are to go have gone. -/
theorem runResidencyMaintenance_eq (s : ControllerState ρ) :
    let s₁ := s.relieve env
    let idle := s₁.residency.evictIdleHelpers env.unixNow residencyPolicy
    s.runResidencyMaintenance config env =
      ({ s₁ with residency := idle.2, utilities := unloadEvicted s₁.utilities idle.1 } :
        ControllerState ρ).maybeIdleUnloadLlm config env := by
  intro s₁ idle
  have hmove := maybeIdleUnloadLlm_utilities config env
    (unloadEvicted s₁.utilities idle.1) { s₁ with residency := idle.2 }
  have hsame := utilities_maybeIdleUnloadLlm config env
    ({ s₁ with residency := idle.2 } : ControllerState ρ)
  have hdef : s.runResidencyMaintenance config env =
      { ({ s₁ with residency := idle.2 } : ControllerState ρ).maybeIdleUnloadLlm config env with
        utilities := unloadEvicted (({ s₁ with residency := idle.2 } : ControllerState
          ρ).maybeIdleUnloadLlm config env).utilities idle.1 } := rfl
  rw [hdef, hsame]
  exact hmove.symm

/-- An entry that is gone while the model is loaded is not put back by maintenance. -/
theorem maybeIdleUnloadLlm_of_slot (h : s.residency.slot .llm = none) :
    s.maybeIdleUnloadLlm config env = s := by
  rw [maybeIdleUnloadLlm, if_pos]
  rw [h]
  exact .inr rfl

theorem LedgerTrue.runResidencyMaintenance_iff (h : s.LedgerTrue) :
    (s.runResidencyMaintenance config env).LedgerTrue ↔ ¬ s.Forgets env := by
  rw [runResidencyMaintenance_eq]
  by_cases hforgets : s.Forgets env
  · refine iff_of_false (fun htrue => ?_) fun hno => hno hforgets
    have hgone : ((s.relieve env).residency.evictIdleHelpers env.unixNow
        residencyPolicy).2.slot .llm = none :=
      (slot_evictAll_of_notMem _ _ (by decide)).trans hforgets.slot_relieve
    rw [maybeIdleUnloadLlm_of_slot hgone] at htrue
    have hllm := htrue.llm
    dsimp only at hllm
    rw [hgone, show (s.relieve env).engine = s.engine from rfl, ← h.llm, hforgets.2.2] at hllm
    exact nomatch hllm
  · refine iff_of_true ?_ hforgets
    exact ((h.relieve_iff.2 hforgets).evictIdleHelpers).maybeIdleUnloadLlm

/-! ## The rest of a round -/

/-- Maintenance is due. -/
def Due (env : Env ρ) (s : ControllerState ρ) : Prop :=
  (s.lastMaintenance.all fun t => maintenanceInterval ≤ env.now - t) = true

/-- The captures that have heard nothing for too long, taken down. -/
def expire (config : ControllerConfig ρ) (env : Env ρ) (s : ControllerState ρ) :
    ControllerState ρ :=
  { s with
    lastMaintenance := some env.now
    runtimes := s.runtimes.terminateEach config env (.failed .timeout)
      (s.runtimes.expired config env) }

theorem LedgerTrue.maintain_iff (h : s.LedgerTrue) :
    (s.maintain config env).LedgerTrue ↔ ¬ (s.Due env ∧ (s.expire config env).Forgets env) := by
  unfold maintain
  split
  · next hdue =>
    have hexpire : (s.expire config env).LedgerTrue := h.of_same rfl rfl rfl
    exact hexpire.runResidencyMaintenance_iff.trans
      (not_congr ⟨fun hall => ⟨hdue, hall⟩, fun hall => hall.2⟩)
  · next hearly => exact iff_of_true h fun hall => hearly hall.1

theorem LedgerTrue.startChat {tx : TxId} {chatId : ChatId} {messages : List Message}
    {genSpec : GenSpec} (h : s.LedgerTrue) :
    (s.startChat config env tx chatId messages genSpec).LedgerTrue := by
  unfold ControllerState.startChat
  dsimp only
  split
  · exact h.of_same rfl rfl rfl
  obtain ⟨woken, hwoken, hidle⟩ := maybeWakeLlm_reloaded config env
    ({ s with runtimes := (s.runtimes.terminateRuntime config env chatId
      (.completed .evicted)).makeRoom config env } : ControllerState ρ)
  have hroom : ({ s with runtimes := (s.runtimes.terminateRuntime config env chatId
      (.completed .evicted)).makeRoom config env } : ControllerState ρ).LedgerTrue :=
    h.of_same rfl rfl rfl
  refine ((hroom.reloaded_iff hwoken).2 ?_).of_same rfl rfl rfl
  rintro ⟨hwoke, hnone, -⟩
  have hsome := (hidle hwoke).2
  rw [hnone] at hsome
  exact nomatch hsome

theorem LedgerTrue.continueChat {tx : TxId} {chatId : ChatId}
    {newMessages transcript : List Message} {genSpec : GenSpec} (h : s.LedgerTrue) :
    (s.continueChat config env tx chatId newMessages transcript genSpec).LedgerTrue := by
  unfold ControllerState.continueChat
  split
  · exact h.of_same rfl rfl rfl
  split
  · split
    · exact h.of_same rfl rfl rfl
    · exact h.of_same rfl rfl rfl
  · exact h.startChat

theorem LedgerTrue.applySettings {settings : EngineSettings ρ} (h : s.LedgerTrue) :
    (s.applySettings config settings).2.LedgerTrue := by
  unfold ControllerState.applySettings
  split
  · next engine hup =>
    exact h.of_same (congrArg Option.isSome (loaded_uploadSettings hup)) rfl rfl
  · exact h

theorem isOk_reloadWithAdmission_of_none (config : ControllerConfig ρ)
    (h : s.idleUnloadedLlm = none) :
    (s.reloadWithAdmission config env).1.isOk = (s.engine.reloadModel env.loads).isOk := by
  rw [reloadWithAdmission, h]
  dsimp only
  rcases s.engine.reloadModel env.loads with _ | _ <;> rfl

theorem LedgerTrue.useHelper {helper : Helper} {unixNow : Int} (h : s.LedgerTrue) :
    ({ s with residency := s.residency.touch helper.kind unixNow } :
      ControllerState ρ).LedgerTrue where
  llm := by
    dsimp only
    rw [isSome_slot_touch, h.llm]
  helper helper' := by
    dsimp only
    rw [isSome_slot_touch, h.helper]

end Operations

/-- A round in which the ledger parts from the truth: a load fails after a rung was refused its
settings with its weights in; weights are reloaded whose name was not kept; or maintenance is due
under severe pressure, and there are no chats. -/
def Slips (config : ControllerConfig ρ) (s : ControllerState ρ) : Env ρ × Input ρ → Prop
  | (env, .command (.loadModel load)) =>
    s.running = true ∧ (s.loadModel config env load).1.isOk = false ∧
      ∃ t ∈ s.tried config env load, t.Late config env load
  | (env, .command .reloadModel) =>
    s.running = true ∧ s.idleUnloadedLlm = none ∧ s.engine.isModelLoaded = false ∧
      (s.engine.reloadModel env.loads).isOk = true
  | (env, .tick) =>
    s.running = true ∧ s.Due env ∧ (s.expire config env).Forgets env
  | _ => False

section Step

variable {config : ControllerConfig ρ} {s s' : ControllerState ρ} {i : Env ρ × Input ρ}

/-- **One round.**  From a ledger that tells the truth it leads to one, unless it slips. -/
theorem LedgerTrue.step_iff (h : s.LedgerTrue) (hs : step config i s = some s') :
    s'.LedgerTrue ↔ ¬ s.Slips config i := by
  obtain rfl := Option.some.inj hs
  split
  · next hrunning =>
    rcases i with ⟨env, cmd | _⟩
    · cases cmd with
      | loadModel load =>
        exact h.loadModel_iff.trans
          (not_congr ⟨fun hall => ⟨hrunning, hall⟩, fun hall => hall.2⟩)
      | reloadModel =>
        refine (h.reloaded_iff (reloadWithAdmission_reloaded config env s)).trans (not_congr ?_)
        constructor
        · rintro ⟨hok, hidle, hloaded⟩
          rw [isOk_reloadWithAdmission_of_none config hidle] at hok
          exact ⟨hrunning, hidle, hloaded, hok⟩
        · rintro ⟨-, hidle, hloaded, hok⟩
          rw [← isOk_reloadWithAdmission_of_none config hidle] at hok
          exact ⟨hok, hidle, hloaded⟩
      | applySettings settings => exact iff_of_true h.applySettings id
      | loadHelper helper modelPath => exact iff_of_true h.loadHelper id
      | unloadModel =>
        refine iff_of_true (LedgerTrue.unloadLlm ?_) id
        exact h.of_same rfl rfl rfl
      | useHelper helper => exact iff_of_true h.useHelper id
      | startChat chatId messages genSpec =>
        refine iff_of_true (LedgerTrue.startChat ?_) id
        exact h.of_same rfl rfl rfl
      | continueChat chatId newMessages transcript genSpec =>
        refine iff_of_true (LedgerTrue.continueChat ?_) id
        exact h.of_same rfl rfl rfl
      | _ => exact iff_of_true (h.of_same rfl rfl rfl) id
    · refine Iff.trans ?_ (h.maintain_iff.trans
        (not_congr ⟨fun hall => ⟨hrunning, hall⟩, fun hall => hall.2⟩))
      exact ⟨fun htrue => htrue.of_same rfl rfl rfl, fun htrue => htrue.of_same rfl rfl rfl⟩
  · next hstopped =>
    refine iff_of_true h ?_
    rcases i with ⟨env, cmd | _⟩
    · cases cmd with
      | loadModel load => exact fun hall => hstopped hall.1
      | reloadModel => exact fun hall => hstopped hall.1
      | _ => exact id
    · exact fun hall => hstopped hall.1

/-! ## What the backend remembers -/

theorem remembers_runLadder {env : Env ρ} {load : LoadModel ρ} (h : s.engine.Remembers) :
    (s.runLadder config env load).2.1.engine.Remembers := by
  unfold runLadder
  refine loadLadder_invariant (I := fun s => s.engine.Remembers) (fun t _ ht => ?_) h
  exact (t.attempted config env load).engine_invariant (K := Engine.Remembers)
    (fun e _ => e.remembers_unloadModel) (fun e e' settings => remembers_uploadSettings)
    (fun e req _ => remembers_loadModelWith) ht

theorem engine_loadModel (env : Env ρ) (load : LoadModel ρ) :
    (s.loadModel config env load).2.engine = (s.runLadder config env load).2.1.engine := by
  unfold loadModel
  rcases s.runLadder config env load with ⟨message | outcome, s', bytes⟩ <;> rfl

theorem Reloaded.remembers {env : Env ρ} {woken : Bool} (hr : Reloaded env s woken s')
    (h : s.engine.Remembers) : s'.engine.Remembers := by
  rcases hr with _ | ⟨_, hreload⟩ | ⟨_, _, hreload⟩
  · exact h
  · exact remembers_reloadModel hreload
  · exact remembers_reloadModel hreload

theorem remembers_startChat {env : Env ρ} {tx : TxId} {chatId : ChatId} {messages : List Message}
    {genSpec : GenSpec} (h : s.engine.Remembers) :
    (s.startChat config env tx chatId messages genSpec).engine.Remembers := by
  unfold startChat
  dsimp only
  split
  · exact h
  · obtain ⟨woken, hwoken, -⟩ := maybeWakeLlm_reloaded config env
      ({ s with runtimes := (s.runtimes.terminateRuntime config env chatId
        (.completed .evicted)).makeRoom config env } : ControllerState ρ)
    exact hwoken.remembers h

theorem remembers_maintain {env : Env ρ} (h : s.engine.Remembers) :
    (s.maintain config env).engine.Remembers := by
  unfold maintain
  split
  · rw [runResidencyMaintenance_eq]
    unfold maybeIdleUnloadLlm
    split
    · exact h
    split
    · exact h
    split
    · exact h
    · split
      · exact h
      · exact remembers_unloadModel _
  · exact h

theorem remembers_step (h : s.engine.Remembers) (hs : step config i s = some s') :
    s'.engine.Remembers := by
  obtain rfl := Option.some.inj hs
  split
  · rcases i with ⟨env, cmd | _⟩
    · cases cmd with
      | loadModel load =>
        have hladder : (s.runLadder config env load).2.1.engine.Remembers := remembers_runLadder h
        rw [← engine_loadModel] at hladder
        exact hladder
      | reloadModel => exact (reloadWithAdmission_reloaded config env s).remembers h
      | applySettings settings =>
        dsimp only [dispatchCmd, applySettings]
        split
        · next engine hup => exact remembers_uploadSettings h hup
        · exact h
      | loadHelper helper modelPath =>
        dsimp only [dispatchCmd, loadHelper]
        split
        · exact h
        · split
          · exact h
          · split <;> exact h
      | unloadModel => exact remembers_unloadModel _
      | startChat chatId messages genSpec => exact remembers_startChat h
      | continueChat chatId newMessages transcript genSpec =>
        dsimp only [dispatchCmd, continueChat]
        split
        · exact h
        · split
          · split <;> exact h
          · exact remembers_startChat h
      | _ => exact h
    · exact remembers_maintain h
  · exact h

end Step

/-- **The ledger tells the truth**, and what is loaded can be taken out and brought back, all along
a run exactly where no round of it slips. -/
theorem ledger_iff (config : ControllerConfig ρ) (engine : Engine ρ) (unixNow : Int)
    (hengine : engine.isModelLoaded = false) (is : List (Env ρ × Input ρ)) :
    Always (step config) (fun s => s.LedgerTrue ∧ s.Reloadable config) is
        (.initial engine unixNow) ↔
      EveryStep (step config) (fun s i => ¬ s.Slips config i) is (.initial engine unixNow) := by
  have h0 : (ControllerState.initial engine unixNow).LedgerTrue :=
    ⟨hengine.symm, fun helper => by cases helper <;> rfl⟩
  have hmem : (ControllerState.initial engine unixNow).engine.Remembers :=
    Engine.remembers_of_not_loaded hengine
  refine always_iff_everyStep (A := fun _ _ => True) (I := fun s => s.engine.Remembers) ?_ ?_ hmem
    ⟨h0, h0.reloadable hmem⟩ (everyStep_true is _)
  · exact fun s i h _ => ⟨_, rfl, remembers_step h rfl⟩
  · intro s i s' h htrue _ hs
    rw [← htrue.1.step_iff hs]
    exact and_iff_left_of_imp fun htrue' => htrue'.reloadable (remembers_step h hs)

/-- A model loaded, taken out and brought back. -/
theorem ledger_true_of_reload :
    let config := ControllerConfig.plain 1
    Always (step config) (fun s => s.LedgerTrue ∧ s.Reloadable config)
      [(.smooth Unit, .command (.loadModel
          ⟨"m.gguf", none, ⟨none, none, none, none, none, none, ()⟩, none, none, none⟩)),
        (.smooth Unit, .tick), (.smooth Unit, .command .unloadModel),
        (.smooth Unit, .command .reloadModel)]
      (.initial ⟨some (.new config.build .llamaCpp)⟩ 0) := by
  intro config
  refine (ledger_iff config _ _ rfl _).2 ⟨fun h => (nomatch h.2.1), fun s₁ hs₁ => ⟨fun h => ?_,
    fun s₂ hs₂ => ⟨id, fun s₃ hs₃ => ⟨fun h => ?_, fun _ _ => trivial⟩⟩⟩⟩
  · exact absurd h.2.2.2.1 (by decide)
  · obtain rfl := Option.some.inj hs₁
    obtain rfl := Option.some.inj hs₂
    obtain rfl := Option.some.inj hs₃
    exact nomatch h.2.1

/-- A model loaded, and a tick under severe pressure before there is a chat. -/
theorem ledger_not_always_true :
    let config := ControllerConfig.plain 1
    let severe := { Env.smooth Unit with governor := fun _ => ⟨.severe, 1000, 1000, 0⟩ }
    ¬ Always (step config) (fun s => s.LedgerTrue ∧ s.Reloadable config)
      [(.smooth Unit, .command (.loadModel
          ⟨"m.gguf", none, ⟨none, none, none, none, none, none, ()⟩, none, none, none⟩)),
        (severe, .tick)]
      (.initial ⟨some (.new config.build .llamaCpp)⟩ 0) := by
  rintro config severe ⟨-, s₁, hs₁, -, s₂, hs₂, h⟩
  obtain rfl := Option.some.inj hs₁
  obtain rfl := Option.some.inj hs₂
  exact absurd h.head.1.llm (by decide)

end ControllerState

end Gen2.Controller
