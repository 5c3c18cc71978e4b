import Gen2.Controller.Loads
import Gen2.Lib.Entries

/-!
# What the operations leave alone

Which chats are in the map after each of the controller's operations, and which parts of its state
the operations on the model do not touch.
-/

namespace Gen2.Controller

open Lib

variable {ρ : Type} (config : ControllerConfig ρ) (env : Env ρ)

namespace Runtimes

/-! ## The chats in the map -/

@[simp] theorem emit_chats (tx : TxId) (event : ControllerEvent) (r : Runtimes) :
    (r.emit env tx event).2.chats = r.chats := rfl

@[simp] theorem emit_sessions (tx : TxId) (event : ControllerEvent) (r : Runtimes) :
    (r.emit env tx event).2.sessions = r.sessions := rfl

@[simp] theorem withSessions_chats (sessions : Sessions) (r : Runtimes) :
    (r.withSessions sessions).chats = r.chats := rfl

@[simp] theorem noteTruncated_chats (tx : TxId) (dropped : Nat) (r : Runtimes) :
    (r.noteTruncated env tx dropped).chats = r.chats := by
  unfold noteTruncated
  split <;> rfl

@[simp] theorem terminateRuntimeOwned_chats (chat : ChatRuntime) (outcome : RuntimeOutcome)
    (r : Runtimes) : (r.terminateRuntimeOwned config env chat outcome).chats = r.chats := rfl

@[simp] theorem terminateRuntime_chats (id : ChatId) (outcome : RuntimeOutcome) (r : Runtimes) :
    (r.terminateRuntime config env id outcome).chats = r.chats.erase id := by
  unfold terminateRuntime
  split
  · next h => exact (erase_of_notMem (AList.lookup_eq_none.1 h)).symm
  · rfl

@[simp] theorem setChat_chats (id : ChatId) (chat : ChatRuntime) (r : Runtimes) :
    (r.setChat id chat).chats = r.chats.insert id chat := rfl

@[simp] theorem drain_chats (outcome : RuntimeOutcome) (r : Runtimes) :
    (r.drain config env outcome).chats = ∅ := by
  unfold drain
  have h : ∀ (entries : List (Sigma fun _ : ChatId => ChatRuntime)) (r : Runtimes),
      (entries.foldl (fun r entry => r.terminateRuntimeOwned config env entry.2 outcome) r).chats =
        r.chats := by
    intro entries
    induction entries with
    | nil => exact fun _ => rfl
    | cons entry entries ih => exact fun r => ih _
  exact h _ _

@[simp] theorem insertChat_chats (id : ChatId) (chat : ChatRuntime) (r : Runtimes) :
    (r.insertChat config env id chat).chats = r.chats.insert id chat := by
  unfold insertChat
  split <;> rfl

/-- How many chats there are. -/
def size (r : Runtimes) : Nat := r.chats.entries.length

theorem size_terminateRuntime_le (id : ChatId) (outcome : RuntimeOutcome) (r : Runtimes) :
    (r.terminateRuntime config env id outcome).size ≤ r.size := by
  rw [size, terminateRuntime_chats]
  exact length_erase_le _ _

theorem size_terminateEach_le (outcome : RuntimeOutcome) (ids : List ChatId) (r : Runtimes) :
    (r.terminateEach config env outcome ids).size ≤ r.size := by
  induction ids generalizing r with
  | nil => exact le_refl _
  | cons id ids ih => exact (ih _).trans (size_terminateRuntime_le config env id outcome r)

theorem size_setChat (id : ChatId) (chat : ChatRuntime) (r : Runtimes) :
    (r.setChat id chat).size = r.size + if id ∈ r.chats then 0 else 1 :=
  length_insert _ _ _

theorem size_setChat_of_lookup {id : ChatId} {old chat : ChatRuntime} {r : Runtimes}
    (h : r.chats.lookup id = some old) : (r.setChat id chat).size = r.size := by
  rw [size_setChat, if_pos (AList.lookup_isSome.1 (by rw [h]; rfl))]
  rfl

/-- What is picked for eviction is there. -/
theorem lookup_of_pickEvictionTarget {r : Runtimes} {id : ChatId}
    (h : r.pickEvictionTarget env = some id) : ∃ chat, r.chats.lookup id = some chat := by
  obtain ⟨entry, hentry, rfl⟩ := Option.map_eq_some_iff.1 h
  have hmem : entry ∈ r.chats.entries :=
    (env.order.perm _).mem_iff.1 (List.argmin_mem hentry)
  exact ⟨entry.2, AList.mem_lookup_iff.2 hmem⟩

/-- Something is picked where there is anything to pick from. -/
theorem size_of_pickEvictionTarget {r : Runtimes} (h : r.pickEvictionTarget env = none) :
    r.size = 0 := by
  have hnil := List.argmin_eq_none.1 (Option.map_eq_none_iff.1 h)
  rw [size, ← (env.order.perm r.chats.entries).length_eq, hnil]
  rfl

/-- Making room leaves the chats as they are, or takes down the one picked for it. -/
theorem makeRoom_cases (r : Runtimes) :
    (r.makeRoom config env = r ∧ (r.size < config.maxActiveChats ∨ r.size = 0)) ∨
      ∃ id, config.maxActiveChats ≤ r.size ∧ r.pickEvictionTarget env = some id ∧
        r.makeRoom config env = r.terminateRuntime config env id (.completed .evicted) := by
  unfold makeRoom
  split
  · next hfull =>
    unfold evictLru
    rcases hpick : r.pickEvictionTarget env with _ | id
    · exact .inl ⟨rfl, .inr (size_of_pickEvictionTarget env hpick)⟩
    · obtain ⟨chat, hchat⟩ := lookup_of_pickEvictionTarget env hpick
      refine .inr ⟨id, hfull, rfl, ?_⟩
      dsimp only
      rw [terminateRuntime, hchat]
  · next hroom => exact .inl ⟨rfl, .inl (Nat.lt_of_not_le hroom)⟩

/-- Room for one more is made where there is none. -/
theorem size_makeRoom_lt {r : Runtimes} (hmax : 0 < config.maxActiveChats)
    (h : r.size ≤ config.maxActiveChats) : (r.makeRoom config env).size < config.maxActiveChats := by
  rcases makeRoom_cases config env r with ⟨heq, hroom | hempty⟩ | ⟨id, -, hpick, heq⟩
  · rw [heq]
    exact hroom
  · rw [heq, hempty]
    exact hmax
  obtain ⟨chat, hchat⟩ := lookup_of_pickEvictionTarget env hpick
  have hlen := length_erase_of_lookup hchat
  rw [heq, size, terminateRuntime_chats]
  rw [size] at h
  omega

/-! ## A chat's part of a tick -/

/-- What a tick leaves of a chat. -/
structure SameTurn (chat chat' : ChatRuntime) : Prop where
  session : chat'.session = chat.session
  tx : chat'.tx = chat.tx
  workload : chat'.workload = chat.workload

theorem SameTurn.refl (chat : ChatRuntime) : SameTurn chat chat := ⟨rfl, rfl, rfl⟩

theorem applyStep_sameTurn (chat : ChatRuntime) (pulled : PullStep) :
    SameTurn chat (applyStep config env chat pulled).2 := by
  unfold applyStep
  split <;> first | exact ⟨rfl, rfl, rfl⟩ | (dsimp only; split <;> exact ⟨rfl, rfl, rfl⟩)

theorem offerSpeech_frame (chat : ChatRuntime) (r : Runtimes) :
    (r.offerSpeech env chat).2.2.chats = r.chats ∧
      (r.offerSpeech env chat).2.2.sessions = r.sessions ∧
      SameTurn chat (r.offerSpeech env chat).2.1 := by
  unfold offerSpeech
  split
  · next chunk _ =>
    dsimp only [emit]
    rcases env.trySend chat.tx r.emissions.length with _ | _ | _ <;> exact ⟨rfl, rfl, rfl, rfl, rfl⟩
  · exact ⟨rfl, rfl, .refl chat⟩

theorem applyReceiverDisconnectOverride_sameTurn (receiverDead : Bool) (chat : ChatRuntime) :
    SameTurn chat (applyReceiverDisconnectOverride receiverDead chat) := by
  unfold applyReceiverDisconnectOverride
  split <;> exact ⟨rfl, rfl, rfl⟩

theorem SameTurn.trans {chat chat' chat'' : ChatRuntime} (h : SameTurn chat chat')
    (h' : SameTurn chat' chat'') : SameTurn chat chat'' :=
  ⟨h'.session.trans h.session, h'.tx.trans h.tx, h'.workload.trans h.workload⟩

theorem tickChat_frame (chat : ChatRuntime) (r : Runtimes) :
    (r.tickChat config env chat).2.chats = r.chats ∧
      (r.tickChat config env chat).2.sessions = r.sessions ∧
      SameTurn chat (r.tickChat config env chat).1 := by
  unfold tickChat
  split
  · exact ⟨rfl, rfl, rfl, rfl, rfl⟩
  have hoffer := offerSpeech_frame env chat r
  generalize r.offerSpeech env chat = offered at hoffer ⊢
  obtain ⟨_ | _, chat', r'⟩ := offered
  all_goals obtain ⟨hchats, hsessions, hturn⟩ := hoffer
  · exact ⟨hchats, hsessions, hturn⟩
  have hstep := hturn.trans (applyStep_sameTurn config env chat' (env.next chat'.session))
  dsimp only
  generalize applyStep config env chat' (env.next chat'.session) = applied at hstep ⊢
  obtain ⟨_ | event, chat''⟩ := applied
  · exact ⟨hchats, hsessions, hstep⟩
  · exact ⟨hchats, hsessions, hstep.trans (applyReceiverDisconnectOverride_sameTurn _ _)⟩

end Runtimes

namespace ControllerState

/-! ## The operations on the model -/

/-- What a reload comes to.  An admission that was granted is granted again once the weights are
in. -/
inductive Reloaded (s : ControllerState ρ) : Bool → ControllerState ρ → Prop
  /-- No admission, or no weights. -/
  | refused : Reloaded s false s
  /-- The weights are in, and nobody knows what they are. -/
  | unentered {engine : Engine ρ} (hidle : s.idleUnloadedLlm = none)
      (hreload : s.engine.reloadModel env.loads = .ok engine) :
      Reloaded s true { s with engine := engine }
  /-- The weights are in, and entered under the name that was kept. -/
  | entered {engine : Engine ρ} {name : String} {mb : Nat}
      (hidle : s.idleUnloadedLlm = some (name, mb))
      (hadmits : s.residency.canAdmit .llm mb (env.governor 0) = true)
      (hreload : s.engine.reloadModel env.loads = .ok engine) :
      Reloaded s true { s with
        engine := engine
        residency := s.residency.put ⟨.llm, name, mb, env.unixNow⟩
        loadedModelFileBytes := env.modelFileBytesOf name
        idleUnloadedLlm := none
        lastLlmActivityUnix := env.unixNow }

theorem reloadWithAdmission_reloaded (s : ControllerState ρ) :
    Reloaded env s (s.reloadWithAdmission config env).1.isOk
      (s.reloadWithAdmission config env).2 := by
  unfold reloadWithAdmission
  dsimp only
  split
  · next hidle =>
    split
    · exact .refused
    · next engine hreload => exact .unentered hidle hreload
  · next name mb hidle =>
    split
    · exact .refused
    · next hadmits =>
      rw [Bool.not_eq_false] at hadmits
      split
      · exact .refused
      · next engine hreload =>
        rw [admit_of_canAdmit hadmits]
        exact .entered hidle hadmits hreload

/-- A reload that is admitted and whose weights load. -/
theorem reloadWithAdmission_entered {s : ControllerState ρ} {engine : Engine ρ} {name : String}
    {mb : Nat} (hidle : s.idleUnloadedLlm = some (name, mb))
    (hadmits : s.residency.canAdmit .llm mb (env.governor 0) = true)
    (hreload : s.engine.reloadModel env.loads = .ok engine) :
    s.reloadWithAdmission config env = (.ok (), { s with
      engine := engine
      residency := s.residency.put ⟨.llm, name, mb, env.unixNow⟩
      loadedModelFileBytes := env.modelFileBytesOf name
      idleUnloadedLlm := none
      lastLlmActivityUnix := env.unixNow }) := by
  rw [reloadWithAdmission, hidle]
  dsimp only
  rw [hadmits, if_neg (by decide), hreload]
  dsimp only
  rw [admit_of_canAdmit hadmits]

theorem maybeWakeLlm_reloaded (s : ControllerState ρ) :
    ∃ woken, Reloaded env s woken (s.maybeWakeLlm config env) ∧
      (woken = true → s.engine.isModelLoaded = false ∧ s.idleUnloadedLlm.isSome = true) := by
  unfold maybeWakeLlm
  split
  · exact ⟨false, .refused, nofun⟩
  · next hloaded =>
    split
    · exact ⟨false, .refused, nofun⟩
    · next hidle =>
      refine ⟨_, reloadWithAdmission_reloaded config env s, fun _ => ⟨?_, ?_⟩⟩
      · simpa using hloaded
      · simpa [Option.isSome_iff_ne_none] using hidle

theorem Reloaded.runtimes {env : Env ρ} {s s' : ControllerState ρ} {woken : Bool}
    (h : Reloaded env s woken s') : s'.runtimes = s.runtimes := by
  rcases h with _ | _ | _ <;> rfl

theorem Reloaded.turns {env : Env ρ} {s s' : ControllerState ρ} {woken : Bool}
    (h : Reloaded env s woken s') : s'.turns = s.turns := by
  rcases h with _ | _ | _ <;> rfl

@[simp] theorem reloadWithAdmission_runtimes (s : ControllerState ρ) :
    (s.reloadWithAdmission config env).2.runtimes = s.runtimes :=
  (reloadWithAdmission_reloaded config env s).runtimes

@[simp] theorem maybeWakeLlm_runtimes (s : ControllerState ρ) :
    (s.maybeWakeLlm config env).runtimes = s.runtimes :=
  (maybeWakeLlm_reloaded config env s).elim fun _ h => h.1.runtimes

theorem applySettings_runtimes (settings : EngineSettings ρ) (s : ControllerState ρ) :
    (s.applySettings config settings).2.runtimes = s.runtimes := by
  unfold applySettings
  split <;> rfl

theorem loadHelper_runtimes (helper : Helper) (modelPath : String) (s : ControllerState ρ) :
    (s.loadHelper env helper modelPath).2.runtimes = s.runtimes := by
  unfold loadHelper
  dsimp only
  split
  · rfl
  · split
    · rfl
    · split <;> rfl

/-- An idle unload takes every chat down, or there is none. -/
theorem maybeIdleUnloadLlm_runtimes (s : ControllerState ρ) :
    (s.maybeIdleUnloadLlm config env).runtimes = s.runtimes ∨
      (s.maybeIdleUnloadLlm config env).runtimes =
        s.runtimes.drain config env (.completed .evicted) := by
  unfold maybeIdleUnloadLlm
  split
  · exact .inl rfl
  split
  · exact .inl rfl
  split
  · exact .inl rfl
  · split
    · exact .inl rfl
    · exact .inr rfl

theorem runResidencyMaintenance_runtimes (s : ControllerState ρ) :
    (s.runResidencyMaintenance config env).runtimes = s.runtimes ∨
      (s.runResidencyMaintenance config env).runtimes =
        s.runtimes.drain config env (.completed .evicted) :=
  maybeIdleUnloadLlm_runtimes config env _

end ControllerState

end Gen2.Controller
