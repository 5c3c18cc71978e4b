import Gen2.Controller.Frames
import Gen2.Lib.Run

/-!
# How many chats there are

`StartChat` makes room before it opens a chat, and a continued chat is there already.  A system task
is filed without either.

* `step_size_iff`: from a state within the bound, a round leads to one exactly unless it files a
  system task under a new name while there are as many chats as there may be.
* `resident_chats_iff`: so it is for whole runs.
-/

namespace Gen2.Controller

open Lib Runtimes

variable {ρ : Type} (config : ControllerConfig ρ) (env : Env ρ)

namespace Runtimes

/-- A system task gets as far as to be filed. -/
def Files (engine : Engine ρ) (genSpec : GenSpec) (r : Runtimes) : Prop :=
  ∃ session dropped,
    (startSession env engine (applyGenerationDefaults config engine genSpec).requireFullContext
      r.sessions).1 = .ok (session, dropped) ∧
    env.pull session (applyGenerationDefaults config engine genSpec) = .ok ()

/-- A system task is filed, or leaves the map as it was. -/
theorem startEphemeral_chats (engine : Engine ρ) (tx : TxId) (task : SystemTask) (chatId : ChatId)
    (genSpec : GenSpec) (r : Runtimes) :
    (¬ r.Files config env engine genSpec ∧
        (r.startEphemeral config env engine tx task chatId genSpec).chats = r.chats) ∨
      r.Files config env engine genSpec ∧
        ∃ chat, (r.startEphemeral config env engine tx task chatId genSpec).chats =
          r.chats.insert (r.ephemeralId env task chatId) chat := by
  unfold startEphemeral Files
  dsimp only
  rcases startSession env engine (applyGenerationDefaults config engine genSpec).requireFullContext
    r.sessions with ⟨_ | ⟨session, dropped⟩, sessions⟩
  · exact .inl ⟨nofun, rfl⟩
  dsimp only
  split
  · next e hpull =>
    refine .inl ⟨?_, rfl⟩
    rintro ⟨_, _, heq, hok⟩
    obtain ⟨rfl, rfl⟩ := Prod.mk.inj (Except.ok.inj heq)
    exact nomatch hpull.symm.trans hok
  · next hpull => exact .inr ⟨⟨session, dropped, rfl, hpull⟩, _, rfl⟩

/-- Opening a chat adds it, or leaves the map as it was. -/
theorem openChat_chats (engine : Engine ρ) (tx : TxId) (chatId : ChatId) (messages : List Message)
    (spec : GenSpec) (r : Runtimes) :
    (r.openChat config env engine tx chatId messages spec).chats = r.chats ∨
      ∃ chat, (r.openChat config env engine tx chatId messages spec).chats =
        r.chats.insert chatId chat := by
  unfold openChat
  dsimp only
  split
  · exact .inl rfl
  split
  · simp
  · next chat _ =>
    split
    · simp
    · exact .inr ⟨chat, by simp⟩

theorem size_openChat_le (engine : Engine ρ) (tx : TxId) (chatId : ChatId) (messages : List Message)
    (spec : GenSpec) (r : Runtimes) :
    (r.openChat config env engine tx chatId messages spec).size ≤ r.size + 1 := by
  rcases openChat_chats config env engine tx chatId messages spec r with h | ⟨chat, h⟩
  · rw [size, h]
    exact Nat.le_succ _
  · rw [size, h, length_insert, size]
    split <;> omega

/-- A chat that is continued is there still, or is taken down. -/
theorem continueTurn_chats (engine : Engine ρ) (tx : TxId) (chatId : ChatId)
    (newMessages : List Message) (genSpec : GenSpec) (chat : ChatRuntime) (r : Runtimes) :
    (r.continueTurn config env engine tx chatId newMessages genSpec chat).chats =
        r.chats.erase chatId ∨
      ∃ chat', (r.continueTurn config env engine tx chatId newMessages genSpec chat).chats =
        r.chats.insert chatId chat' := by
  unfold continueTurn
  dsimp only
  split
  · split
    · simp
    · exact .inr ⟨_, rfl⟩
  split
  · split
    · simp
    · exact .inr ⟨_, by simp; rfl⟩
  · split
    · simp
    · exact .inr ⟨_, by simp; rfl⟩

theorem size_continueTurn_le {engine : Engine ρ} {tx : TxId} {chatId : ChatId}
    {newMessages : List Message} {genSpec : GenSpec} {chat chat₀ : ChatRuntime} {r : Runtimes}
    (h : r.chats.lookup chatId = some chat₀) :
    (r.continueTurn config env engine tx chatId newMessages genSpec chat).size ≤ r.size := by
  rcases continueTurn_chats config env engine tx chatId newMessages genSpec chat r with h' | ⟨c, h'⟩
  · rw [size, h']
    exact length_erase_le _ _
  · rw [size, h']
    exact (size_setChat_of_lookup h).le

theorem size_afterMicrophone_le (chatId : ChatId) (failed : Bool) (r : Runtimes) :
    (r.afterMicrophone config env chatId failed).size ≤ r.size := by
  unfold afterMicrophone
  split
  · exact size_terminateRuntime_le config env chatId _ r
  · split
    · exact size_terminateRuntime_le config env chatId _ r
    · exact le_refl _

theorem size_handleMicrophoneCommand_le (chatId : ChatId)
    (work : ChatRuntime → Option (Except ExecError ChatRuntime)) (r : Runtimes) :
    (r.handleMicrophoneCommand config env chatId work).2.size ≤ r.size := by
  unfold handleMicrophoneCommand
  split
  · exact le_refl _
  · next chat hchat =>
    split
    · exact le_refl _
    split
    · exact size_terminateRuntime_le config env chatId _ r
    split
    · exact (size_afterMicrophone_le config env chatId false _).trans
        (size_setChat_of_lookup hchat).le
    · exact size_afterMicrophone_le config env chatId _ r
    · exact size_afterMicrophone_le config env chatId _ r

theorem size_pauseChat_le (chatId : ChatId) (r : Runtimes) :
    (r.pauseChat chatId).size ≤ r.size := by
  unfold pauseChat
  split
  · exact le_refl _
  · next chat hchat =>
    split
    · split
      · exact (size_setChat_of_lookup hchat).le
      · exact le_refl _
    · exact le_refl _

theorem size_resumeChat_le (chatId : ChatId) (r : Runtimes) :
    (r.resumeChat config env chatId).size ≤ r.size := by
  unfold resumeChat
  split
  · exact le_refl _
  · next chat hchat =>
    split
    · dsimp only
      split
      · exact (size_setChat_of_lookup hchat).le
      · exact le_refl _
    · exact le_refl _

/-! ### A tick -/

theorem size_tickEach_le (ids : List ChatId) (r : Runtimes) (toRemove : List ChatId) :
    (tickEach config env ids (r, toRemove)).1.size ≤ r.size := by
  induction ids generalizing r toRemove with
  | nil => exact le_refl _
  | cons id ids ih =>
    unfold tickEach
    split
    · exact ih r toRemove
    · next chat hchat =>
      split
      · have hlookup : (r.tickChat config env chat).2.chats.lookup id = some chat := by
          rw [(tickChat_frame config env chat r).1]
          exact hchat
        have hsize : ((r.tickChat config env chat).2.setChat id
            (r.tickChat config env chat).1).size = r.size := by
          rw [size_setChat_of_lookup hlookup, size, (tickChat_frame config env chat r).1]
          rfl
        exact (ih _ _).trans hsize.le
      · exact ih r toRemove

theorem size_cleanUp_le (ids : List ChatId) (r : Runtimes) :
    (r.cleanUp config env ids).size ≤ r.size := by
  induction ids generalizing r with
  | nil => exact le_refl _
  | cons id ids ih =>
    refine (ih _).trans ?_
    dsimp only
    split
    · exact le_refl _
    · exact size_terminateRuntime_le config env id _ r

theorem size_tickGenerating_le (r : Runtimes) : (r.tickGenerating config env).size ≤ r.size := by
  unfold tickGenerating
  exact (size_cleanUp_le config env _ _).trans (size_tickEach_le config env _ _ _)

end Runtimes

namespace ControllerState

theorem size_maintain_le (s : ControllerState ρ) :
    (s.maintain config env).runtimes.size ≤ s.runtimes.size := by
  unfold maintain
  split
  · rcases runResidencyMaintenance_runtimes config env _ with h | h
    · rw [h]
      exact size_terminateEach_le config env _ _ _
    · rw [h, size, drain_chats]
      exact Nat.zero_le _
  · exact le_refl _

variable {chatId : ChatId} {genSpec : GenSpec} {s : ControllerState ρ}

theorem size_startChat_le {tx : TxId} {messages : List Message} (hmax : 0 < config.maxActiveChats)
    (h : s.runtimes.size ≤ config.maxActiveChats) :
    (s.startChat config env tx chatId messages genSpec).runtimes.size ≤ config.maxActiveChats := by
  unfold startChat
  dsimp only
  split
  · exact h
  have hroom : ((s.runtimes.terminateRuntime config env chatId (.completed .evicted)).makeRoom
      config env).size < config.maxActiveChats :=
    size_makeRoom_lt config env hmax
      ((size_terminateRuntime_le config env chatId _ _).trans h)
  refine (size_openChat_le config env _ _ _ _ _ _).trans ?_
  rw [maybeWakeLlm_runtimes]
  exact hroom

theorem size_continueChat_le {tx : TxId} {newMessages transcript : List Message}
    (hmax : 0 < config.maxActiveChats) (h : s.runtimes.size ≤ config.maxActiveChats) :
    (s.continueChat config env tx chatId newMessages transcript genSpec).runtimes.size ≤
      config.maxActiveChats := by
  unfold continueChat
  split
  · exact h
  split
  · next chat hchat =>
    split
    · exact h
    · exact (size_continueTurn_le config env hchat).trans h
  · exact size_startChat_le config env hmax h

theorem size_loadModel_le (load : LoadModel ρ) (s : ControllerState ρ) :
    (s.loadModel config env load).2.runtimes.size ≤ s.runtimes.size := by
  have hframe := runLadder_frame config env load s
  unfold loadModel
  rcases hladder : s.runLadder config env load with ⟨message | outcome, s', bytes⟩
  · rw [hladder] at hframe
    exact (congrArg (fun chats : ChatMap => chats.entries.length) hframe.chats).le
  have hnone : ((s'.runtimes.drain config env (.completed .modelReloaded)).chats).entries.length =
      0 := by
    rw [drain_chats]
    rfl
  exact hnone.le.trans (Nat.zero_le _)

/-- A system task that would be one chat too many. -/
def Exceeds (config : ControllerConfig ρ) (s : ControllerState ρ) : Env ρ × Input ρ → Prop
  | (env, .command (.systemInfer task chatId _ genSpec)) =>
    s.running = true ∧ s.runtimes.Files config env s.engine genSpec ∧
      s.runtimes.ephemeralId env task chatId ∉ s.runtimes.chats ∧
      config.maxActiveChats ≤ s.runtimes.size
  | _ => False

theorem size_startEphemeral_iff {env : Env ρ} {engine : Engine ρ} {tx : TxId} {task : SystemTask}
    {r : Runtimes} (h : r.size ≤ config.maxActiveChats) :
    (r.startEphemeral config env engine tx task chatId genSpec).size ≤ config.maxActiveChats ↔
      ¬ (r.Files config env engine genSpec ∧ r.ephemeralId env task chatId ∉ r.chats ∧
        config.maxActiveChats ≤ r.size) := by
  rcases r.startEphemeral_chats config env engine tx task chatId genSpec with
    ⟨hno, hchats⟩ | ⟨hfiles, chat, hchats⟩
  · refine iff_of_true ?_ fun hall => hno hall.1
    rw [size, hchats]
    exact h
  rw [size, hchats, length_insert]
  rw [size] at h ⊢
  by_cases hmem : r.ephemeralId env task chatId ∈ r.chats
  · simp [hmem, h]
  · simp only [hmem, hfiles, if_false, not_false_eq_true, true_and, not_le]
    omega

/-- **One round.**  From a state within the bound it leads to one, unless it files a system task
where there are as many chats as there may be. -/
theorem step_size_iff {config : ControllerConfig ρ} {i : Env ρ × Input ρ} {s' : ControllerState ρ}
    (hmax : 0 < config.maxActiveChats) (h : s.runtimes.size ≤ config.maxActiveChats)
    (hs : step config i s = some s') :
    s'.runtimes.size ≤ config.maxActiveChats ↔ ¬ s.Exceeds config i := by
  obtain rfl := Option.some.inj hs
  split
  · next hrunning =>
    rcases i with ⟨env, cmd | _⟩
    · cases cmd with
      | systemInfer task chatId messages genSpec =>
        refine (size_startEphemeral_iff config h).trans (not_congr ?_)
        exact ⟨fun h => ⟨hrunning, h⟩, fun h => h.2⟩
      | loadModel load =>
        exact iff_of_true ((size_loadModel_le config env load s).trans h) id
      | applySettings settings =>
        refine iff_of_true ?_ id
        exact (congrArg size (applySettings_runtimes config settings s)).le.trans h
      | loadHelper helper modelPath =>
        refine iff_of_true ?_ id
        exact (congrArg size (loadHelper_runtimes env helper modelPath s)).le.trans h
      | unloadModel =>
        exact iff_of_true ((size_terminateEach_le config env _ _ _).trans h) id
      | reloadModel =>
        refine iff_of_true ?_ id
        exact (congrArg size (reloadWithAdmission_runtimes config env s)).le.trans h
      | useHelper helper => exact iff_of_true h id
      | startChat chatId messages genSpec =>
        refine iff_of_true ?_ id
        exact size_startChat_le config env (s := { s with turns := s.turns + 1 }) hmax h
      | continueChat chatId newMessages transcript genSpec =>
        refine iff_of_true ?_ id
        exact size_continueChat_le config env (s := { s with turns := s.turns + 1 }) hmax h
      | pushMicrophone chatId =>
        exact iff_of_true ((size_handleMicrophoneCommand_le config env _ _ _).trans h) id
      | commitMicrophone chatId =>
        exact iff_of_true ((size_handleMicrophoneCommand_le config env _ _ _).trans h) id
      | stopChat chatId =>
        exact iff_of_true ((size_terminateRuntime_le config env _ _ _).trans h) id
      | pauseChat chatId => exact iff_of_true ((size_pauseChat_le _ _).trans h) id
      | resumeChat chatId =>
        exact iff_of_true ((size_resumeChat_le config env _ _).trans h) id
      | query => exact iff_of_true h id
      | shutdown =>
        refine iff_of_true ?_ id
        rw [size]
        exact (congrArg (fun chats : ChatMap => chats.entries.length)
          (drain_chats config env _ _)).le.trans (Nat.zero_le _)
    · refine iff_of_true ?_ id
      exact (size_tickGenerating_le config env _).trans
        ((size_maintain_le config env s).trans h)
  · next hstopped =>
    refine iff_of_true h ?_
    rcases i with ⟨env, cmd | _⟩
    · cases cmd with
      | systemInfer task chatId messages genSpec => exact fun h => hstopped h.1
      | _ => exact id
    · exact id

/-- **The number of chats is bounded.**  It stays within the bound all along a run exactly where no
round files a system task that would be one too many. -/
theorem resident_chats_iff (config : ControllerConfig ρ) (hmax : 1 ≤ config.maxActiveChats)
    (engine : Engine ρ) (unixNow : Int) (is : List (Env ρ × Input ρ)) :
    Always (step config) (fun s => s.runtimes.chats.entries.length ≤ config.maxActiveChats) is
        (.initial engine unixNow) ↔
      EveryStep (step config) (fun s i => ¬ s.Exceeds config i) is (.initial engine unixNow) :=
  always_iff_everyStep (A := fun _ _ => True) (I := fun _ => True)
    (fun _ _ _ _ => ⟨_, rfl, trivial⟩) (fun _ _ _ _ h _ hs => step_size_iff hmax h hs) trivial
    (Nat.zero_le _) (everyStep_true is _)

/-- A chat and its title, where there is room for two. -/
theorem resident_chats_of_two :
    let config := ControllerConfig.plain 2
    Always (step config) (fun s => s.runtimes.chats.entries.length ≤ config.maxActiveChats)
      [(.smooth Unit, .command (.loadModel
          ⟨"m.gguf", none, ⟨none, none, none, none, none, none, ()⟩, none, none, none⟩)),
        (.smooth Unit, .command (.startChat "a".toList [] ⟨.text, false, none, none⟩)),
        (.smooth Unit, .command (.systemInfer .title "a".toList [] ⟨.text, false, none, none⟩)),
        (.smooth Unit, .tick)]
      (.initial ⟨some (.new config.build .llamaCpp)⟩ 0) := by
  intro config
  refine (resident_chats_iff config (by decide) _ _ _).2 ?_
  refine ⟨nofun, fun s₁ hs₁ => ⟨nofun, fun s₂ hs₂ => ⟨?_,
    fun s₃ hs₃ => ⟨nofun, fun _ _ => trivial⟩⟩⟩⟩
  obtain rfl := Option.some.inj hs₁
  obtain rfl := Option.some.inj hs₂
  rintro ⟨-, -, -, hfull⟩
  exact absurd hfull (by decide)

/-- The same where there is room for one. -/
theorem resident_chats_not_always :
    let config := ControllerConfig.plain 1
    ¬ Always (step config) (fun s => s.runtimes.chats.entries.length ≤ config.maxActiveChats)
      [(.smooth Unit, .command (.loadModel
          ⟨"m.gguf", none, ⟨none, none, none, none, none, none, ()⟩, none, none, none⟩)),
        (.smooth Unit, .command (.startChat "a".toList [] ⟨.text, false, none, none⟩)),
        (.smooth Unit, .command (.systemInfer .title "a".toList [] ⟨.text, false, none, none⟩))]
      (.initial ⟨some (.new config.build .llamaCpp)⟩ 0) := by
  rintro config ⟨-, s₁, hs₁, -, s₂, hs₂, -, s₃, hs₃, hbound⟩
  obtain rfl := Option.some.inj hs₁
  obtain rfl := Option.some.inj hs₂
  obtain rfl := Option.some.inj hs₃
  exact absurd hbound.head (by decide)

end ControllerState

end Gen2.Controller
