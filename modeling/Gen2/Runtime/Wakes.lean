import Gen2.Controller.Ledger
import Gen2.Runtime.Defs

/-!
# When a controller brings weights in by itself

Of everything that reaches a model's controller other than a load or a restore, only a chat can
bring its weights in, and it does where they are out, their name was kept, and the reload is
admitted and works.

* `isModelLoaded_chat_iff`: what a chat does.
* `isModelLoaded_of_routine`: every other round brings nothing in.
-/

namespace Gen2.Runtime

open Controller ControllerState

variable {ρ : Type} (config : ControllerConfig ρ) (env : Env ρ)

/-- The chat is not refused before the controller comes to look whether the model is in. -/
def ChatCmd.Reaches (s : ControllerState ρ) : ChatCmd → Prop
  | .start chatId _ _ =>
    ((s.runtimes.chats.lookup chatId).any fun chat => !chat.state.allowsUserPullStart) = false
  | .continue chatId _ _ genSpec =>
    genSpec.requireFullContext = false ∧ s.runtimes.chats.lookup chatId = none

/-- A reload from what was kept of an unloaded model is admitted, and works. -/
def WakeWorks (s : ControllerState ρ) : Prop :=
  ∃ name mb, s.idleUnloadedLlm = some (name, mb) ∧
    s.residency.canAdmit .llm mb (env.governor 0) = true ∧
      (s.engine.reloadModel env.loads).isOk = true

/-- `maybe_wake_llm`. -/
theorem isModelLoaded_maybeWakeLlm_iff (s : ControllerState ρ) :
    (s.maybeWakeLlm config env).engine.isModelLoaded = true ↔
      s.engine.isModelLoaded = true ∨ WakeWorks env s := by
  unfold maybeWakeLlm
  split
  · next hin => exact iff_of_true hin (.inl hin)
  · next hout =>
    rw [or_iff_right hout]
    split
    · next hnone =>
      refine iff_of_false hout ?_
      rintro ⟨name, mb, hidle, -, -⟩
      rw [hidle] at hnone
      exact nomatch hnone
    · next hsome =>
      constructor
      · intro hin
        obtain ⟨woken, hreloaded⟩ :
            ∃ woken, ControllerState.Reloaded env s woken (s.reloadWithAdmission config env).2 :=
          ⟨_, reloadWithAdmission_reloaded config env s⟩
        generalize (s.reloadWithAdmission config env).2 = after at hreloaded hin
        rcases hreloaded with _ | ⟨hidle, -⟩ | ⟨hidle, hadmits, hreload⟩
        · exact absurd hin hout
        · rw [hidle] at hsome
          exact absurd rfl hsome
        · refine ⟨_, _, hidle, hadmits, ?_⟩
          rw [hreload]
          rfl
      · rintro ⟨name, mb, hidle, hadmits, hreload⟩
        rcases hresult : s.engine.reloadModel env.loads with e | engine
        · rw [hresult] at hreload
          exact nomatch hreload
        · rw [reloadWithAdmission_entered config env hidle hadmits hresult]
          exact Engine.isModelLoaded_reloadModel hresult

theorem isModelLoaded_startChat_iff (tx : TxId) (chatId : ChatId) (messages : List Message)
    (genSpec : GenSpec) (s : ControllerState ρ) :
    (s.startChat config env tx chatId messages genSpec).engine.isModelLoaded = true ↔
      s.engine.isModelLoaded = true ∨
        (ChatCmd.start chatId messages genSpec).Reaches s ∧ WakeWorks env s := by
  unfold startChat ChatCmd.Reaches
  dsimp only
  split
  · next hbusy => simp [hbusy]
  · next hfree =>
    rw [Bool.not_eq_true] at hfree
    simp only [hfree, true_and]
    exact isModelLoaded_maybeWakeLlm_iff config env _

/-- **A chat brings the weights in** exactly where it gets to them and a reload works. -/
theorem isModelLoaded_chat_iff (chat : ChatCmd) (s : ControllerState ρ) :
    (s.dispatchCmd config env chat.toCmd).engine.isModelLoaded = true ↔
      s.engine.isModelLoaded = true ∨ chat.Reaches s ∧ WakeWorks env s := by
  cases chat with
  | start chatId messages genSpec =>
    exact isModelLoaded_startChat_iff config env s.turns chatId messages genSpec
      { s with turns := s.turns + 1 }
  | «continue» chatId newMessages transcript genSpec =>
    dsimp only [ChatCmd.toCmd, dispatchCmd]
    unfold continueChat ChatCmd.Reaches
    split
    · next hstrict => simp [hstrict]
    · next hloose =>
      rw [Bool.not_eq_true] at hloose
      dsimp only
      rcases hchat : s.runtimes.chats.lookup chatId with _ | chat
      · have hstart := isModelLoaded_startChat_iff config env s.turns chatId
          (transcript ++ newMessages) genSpec { s with turns := s.turns + 1 }
        refine hstart.trans (or_congr_right (and_congr_left fun _ => ?_))
        unfold ChatCmd.Reaches
        dsimp only
        rw [hchat]
        exact iff_of_true rfl ⟨hloose, rfl⟩
      · dsimp only
        split <;> simp

/-! ## Every other round -/

theorem isModelLoaded_of_maybeIdleUnloadLlm {s : ControllerState ρ}
    (h : (s.maybeIdleUnloadLlm config env).engine.isModelLoaded = true) :
    s.engine.isModelLoaded = true := by
  unfold maybeIdleUnloadLlm at h
  split at h
  · exact h
  split at h
  · exact h
  split at h
  · exact h
  · split at h
    · exact h
    · simp [unloadLlm] at h

theorem isModelLoaded_of_tickActiveChats {s : ControllerState ρ}
    (h : (s.tickActiveChats config env).engine.isModelLoaded = true) :
    s.engine.isModelLoaded = true := by
  dsimp only [tickActiveChats] at h
  unfold maintain at h
  split at h
  · rw [runResidencyMaintenance_eq] at h
    have hin := isModelLoaded_of_maybeIdleUnloadLlm config env h
    exact hin
  · exact h

/-- **No other round brings weights in.** -/
theorem isModelLoaded_of_routine {input : Input ρ} {s s' : ControllerState ρ}
    (hroutine : routine input = true) (hs : Controller.step config (env, input) s = some s')
    (h : s'.engine.isModelLoaded = true) : s.engine.isModelLoaded = true := by
  obtain rfl := Option.some.inj hs
  split at h
  · cases input with
    | tick => exact isModelLoaded_of_tickActiveChats config env h
    | command cmd =>
      cases cmd with
      | loadModel load => exact nomatch hroutine
      | unloadModel => exact nomatch hroutine
      | reloadModel => exact nomatch hroutine
      | startChat chatId messages genSpec => exact nomatch hroutine
      | continueChat chatId newMessages transcript genSpec => exact nomatch hroutine
      | applySettings settings =>
        dsimp only [dispatchCmd, applySettings] at h
        split at h
        · next engine hup =>
          have hsame : engine.isModelLoaded = s.engine.isModelLoaded :=
            congrArg Option.isSome (Engine.loaded_uploadSettings hup)
          rw [← hsame]
          exact h
        · exact h
      | loadHelper helper modelPath =>
        dsimp only [dispatchCmd, loadHelper] at h
        split at h
        · exact h
        · split at h
          · exact h
          · split at h <;> exact h
      | _ => exact h
  · exact h

end Gen2.Runtime
