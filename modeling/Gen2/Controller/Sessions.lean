import Gen2.Controller.Bound

/-!
# Sessions and who holds them

Every session that the controller starts is held by a runtime until it is ended.

* `Sessions.Accounted held`: the backend's sessions and hooks agree with the list of those that are
  held, by runtimes in the map or by one that is still in hand.
* `Runtimes.Accounted`: the same of the chats in the map, with what is in hand besides.
* `sessions_accounted`: in a run whose rounds neither file a system task under a name that is taken
  nor change the backend under chats that are there, every session is held once, or has been ended
  once with its hook gone.
-/

namespace Gen2.Controller

open Lib List Engine

variable {ρ : Type}

namespace Sessions

/-- The sessions of the backend, if there is one, and its hooks agree with what is held. -/
structure Accounted (present : Bool) (held : List SessionKey) (s : Sessions) : Prop where
  leased : Leased held s.calls
  isSome_hooks : s.hooks.isSome = present
  current : ∀ k ∈ held, k.backend = s.backend ∧ k.id ≠ 0 ∧ present = true
  hooked : ∀ hook ∈ s.hooks.getD [], (⟨s.backend, hook.1⟩ : SessionKey) ∈ held
  fresh : ∀ k, LeaseCall.started k ∈ s.calls →
    k.backend < s.backend ∨ k.backend = s.backend ∧ k.id < s.nextId
  numbered : s.nextId ≠ 0

@[simp] theorem deregister_backend (s : Sessions) (id : Nat) :
    (s.deregister id).backend = s.backend := by
  unfold deregister
  split <;> rfl

namespace Accounted

variable {present : Bool} {held held' : List SessionKey} {s : Sessions} {k : SessionKey}

theorem perm (h : Accounted present held s) (hperm : held.Perm held')
    : Accounted present held' s where
  leased := h.leased.perm hperm
  isSome_hooks := h.isSome_hooks
  current k hk := h.current k (hperm.mem_iff.2 hk)
  hooked hook hhook := hperm.mem_iff.1 (h.hooked hook hhook)
  fresh := h.fresh
  numbered := h.numbered

/-- A number used up for nothing. -/
theorem skip (h : Accounted present held s) : Accounted present held
    { s with nextId := s.nextId + 1 } where
  leased := h.leased
  isSome_hooks := h.isSome_hooks
  current := h.current
  hooked := h.hooked
  fresh k hk := (h.fresh k hk).imp_right fun hlt => ⟨hlt.1, Nat.lt_succ_of_lt hlt.2⟩
  numbered := Nat.succ_ne_zero _

theorem start (h : Accounted true held s) : Accounted true (s.start.1 :: held) s.start.2 where
  isSome_hooks := h.isSome_hooks
  leased := by
    refine h.leased.start fun hmem => ?_
    rcases h.fresh _ hmem with hlt | ⟨-, hlt⟩
    · exact absurd hlt (lt_irrefl _)
    · exact absurd hlt (lt_irrefl _)
  current := by
    intro k hk
    rcases mem_cons.1 hk with rfl | hk
    · exact ⟨rfl, h.numbered, rfl⟩
    · exact h.current k hk
  hooked hook hhook := mem_cons_of_mem _ (h.hooked hook hhook)
  fresh := by
    intro k hk
    rcases mem_append.1 hk with hk | hk
    · exact (h.fresh k hk).imp_right fun hlt => ⟨hlt.1, Nat.lt_succ_of_lt hlt.2⟩
    · obtain rfl := LeaseCall.started.inj (mem_singleton.1 hk)
      exact .inr ⟨rfl, Nat.lt_succ_self _⟩
  numbered := Nat.succ_ne_zero _

theorem register {id : Nat} {tx : TxId} (h : Accounted present held s)
    (hk : (⟨s.backend, id⟩ : SessionKey) ∈ held) : Accounted present held (s.register id tx) where
  leased := h.leased
  isSome_hooks := by simpa [Sessions.register] using h.isSome_hooks
  current := h.current
  hooked := by
    have hhooked := h.hooked
    unfold Sessions.register
    rcases hhooks : s.hooks with _ | hooks
    · exact fun _ hhook => absurd hhook not_mem_nil
    rw [hhooks] at hhooked
    intro hook hhook
    rcases mem_append.1 hhook with hhook | hhook
    · exact hhooked hook hhook
    · obtain rfl := mem_singleton.1 hhook
      exact hk
  fresh := h.fresh
  numbered := h.numbered

theorem deregister {id : Nat} (h : Accounted present held s) : Accounted present held
    (s.deregister id) := by
  unfold Sessions.deregister
  split
  · exact h
  refine ⟨h.leased, ?_, h.current, fun hook hhook => ?_, h.fresh, h.numbered⟩
  · simpa using h.isSome_hooks
  have hhooked := h.hooked
  rcases hhooks : s.hooks with _ | hooks
  · rw [hhooks] at hhook
    exact absurd hhook not_mem_nil
  · rw [hhooks] at hhooked hhook
    exact hhooked hook (mem_filter.1 hhook).1

/-- A session that is held is taken down. -/
theorem deregisterAndEndSession (h : Accounted present (k :: held) s) :
    Accounted present held (s.deregisterAndEndSession k.id) := by
  obtain ⟨hbackend, hid, rfl⟩ := h.current k mem_cons_self
  obtain ⟨hooks, hhooks⟩ := Option.isSome_iff_exists.1 h.isSome_hooks
  have hcall : (⟨s.backend, k.id⟩ : SessionKey) = k := by rw [← hbackend]
  unfold Sessions.deregisterAndEndSession Sessions.deregister Sessions.endSession
  rw [if_neg hid, hhooks]
  dsimp only [Option.map_some, Option.isSome_some]
  rw [if_pos rfl]
  refine ⟨?_, rfl, fun k' hk' => h.current k' (mem_cons_of_mem _ hk'), fun hook hhook => ?_,
    fun k' hk' => ?_, h.numbered⟩
  · dsimp only
    rw [hcall]
    exact h.leased.finish
  · obtain ⟨hmem, hne⟩ := mem_filter.1 hhook
    have hheld := h.hooked hook (by rw [hhooks]; exact hmem)
    refine (mem_cons.1 hheld).resolve_left fun heq => ?_
    exact of_decide_eq_true hne (congrArg SessionKey.id heq)
  · rcases mem_append.1 hk' with hk' | hk'
    · exact h.fresh k' hk'
    · exact nomatch mem_singleton.1 hk'

/-- Another backend, where nothing is held of the old one. -/
theorem switched (h : Accounted present [] s) (present' : Bool) :
    Accounted present' [] (s.switched present') where
  leased := h.leased
  isSome_hooks := by cases present' <;> rfl
  current _ hk := absurd hk not_mem_nil
  hooked := by
    unfold Sessions.switched
    cases present' <;> exact fun _ hhook => absurd hhook not_mem_nil
  fresh k hk := by
    refine .inl ?_
    have : s.backend < s.backend + 1 := Nat.lt_succ_self _
    rcases h.fresh k hk with hlt | ⟨heq, -⟩
    · exact hlt.trans this
    · rw [heq]
      exact this
  numbered := Nat.one_ne_zero

theorem clear (h : Accounted present [] s) : Accounted present [] s.clear where
  leased := h.leased
  isSome_hooks := by simpa [Sessions.clear] using h.isSome_hooks
  current _ hk := absurd hk not_mem_nil
  hooked := by
    unfold Sessions.clear
    rcases s.hooks with _ | hooks <;> exact fun _ hhook => absurd hhook not_mem_nil
  fresh := h.fresh
  numbered := h.numbered

end Accounted

end Sessions

namespace Runtimes

/-- The sessions that the chats in the map hold. -/
def held (r : Runtimes) : List SessionKey := r.chats.entries.map fun entry => entry.2.session

/-- The sessions agree with the chats in the map and those that are in hand. -/
def Accounted (present : Bool) (hand : List SessionKey) (r : Runtimes) : Prop :=
  r.sessions.Accounted present (hand ++ r.held)

theorem held_perm_of_lookup {r : Runtimes} {id : ChatId} {chat : ChatRuntime}
    (h : r.chats.lookup id = some chat) :
    r.held.Perm (chat.session :: (r.chats.erase id).entries.map fun entry => entry.2.session) :=
  (entries_perm_of_lookup h).map _

theorem held_setChat (r : Runtimes) (id : ChatId) (chat : ChatRuntime) :
    (r.setChat id chat).held =
      chat.session :: (r.chats.erase id).entries.map fun entry => entry.2.session := by
  rw [held, setChat_chats, entries_insert_eq]
  rfl

namespace Accounted

variable {config : ControllerConfig ρ} {env : Env ρ} {present : Bool} {hand : List SessionKey}
  {r : Runtimes} {id : ChatId} {chat old : ChatRuntime}

theorem noteTruncated (h : r.Accounted present hand) (env : Env ρ) (tx : TxId) (dropped : Nat) :
    (r.noteTruncated env tx dropped).Accounted present hand := by
  unfold Runtimes.noteTruncated
  split <;> exact h

variable {outcome : RuntimeOutcome}

open Sessions.Accounted

/-- A runtime in hand is taken down. -/
theorem terminateRuntimeOwned (h : r.Accounted present (chat.session :: hand)) :
    (r.terminateRuntimeOwned config env chat outcome).Accounted present hand :=
  deregisterAndEndSession h

theorem terminateRuntime (h : r.Accounted present hand) :
    (r.terminateRuntime config env id outcome).Accounted present hand := by
  unfold Runtimes.terminateRuntime
  split
  · exact h
  · next chat hchat =>
    refine terminateRuntimeOwned (h.perm ?_)
    exact ((held_perm_of_lookup hchat).append_left hand).trans perm_middle

theorem terminateEach {ids : List ChatId} (h : r.Accounted present hand) :
    (r.terminateEach config env outcome ids).Accounted present hand := by
  induction ids generalizing r with
  | nil => exact h
  | cons id ids ih => exact ih h.terminateRuntime

theorem drain (h : r.Accounted present []) : (r.drain config env outcome).Accounted present [] := by
  unfold Runtimes.drain
  have hall : ∀ (entries : List (Sigma fun _ : ChatId => ChatRuntime)) (r : Runtimes),
      r.Accounted present (entries.map fun entry => entry.2.session) →
        (entries.foldl (fun r entry => r.terminateRuntimeOwned config env entry.2 outcome)
          r).Accounted present [] := by
    intro entries
    induction entries with
    | nil => exact fun _ h => h
    | cons entry entries ih => exact fun r h => ih _ (terminateRuntimeOwned h)
  refine hall _ _ ?_
  refine perm h ?_
  rw [nil_append]
  exact (((env.order.perm _).symm.map _).trans (by simp [held]))

/-- A runtime in hand is filed under a name that is free. -/
theorem setChat_of_none (hid : r.chats.lookup id = none)
    (h : r.Accounted present (chat.session :: hand)) :
    (r.setChat id chat).Accounted present hand := by
  refine perm h ?_
  rw [held_setChat, erase_of_notMem (AList.lookup_eq_none.1 hid)]
  exact perm_middle.symm

/-- A runtime in hand takes the place of one, which is then in hand. -/
theorem setChat_of_some (hid : r.chats.lookup id = some old)
    (h : r.Accounted present (chat.session :: hand)) :
    (r.setChat id chat).Accounted present (old.session :: hand) := by
  refine perm h ?_
  rw [held_setChat]
  have hout := ((held_perm_of_lookup hid).append_left hand).trans perm_middle
  have hin : (chat.session :: (hand ++ (r.chats.erase id).entries.map fun e => e.2.session)).Perm
      (hand ++ chat.session :: (r.chats.erase id).entries.map fun e => e.2.session) :=
    perm_middle.symm
  exact (hout.cons _).trans ((List.Perm.swap _ _ _).trans (hin.cons _))

/-- A runtime is changed, but for its session. -/
theorem setChat_of_session (hid : r.chats.lookup id = some old)
    (hsession : chat.session = old.session) (h : r.Accounted present hand) :
    (r.setChat id chat).Accounted present hand := by
  refine perm h ?_
  rw [held_setChat, hsession]
  exact (held_perm_of_lookup hid).append_left hand

theorem insertChat (h : r.Accounted present (chat.session :: hand)) :
    (r.insertChat config env id chat).Accounted present hand := by
  unfold Runtimes.insertChat
  split
  · next hid => exact setChat_of_none hid h
  · next displaced hid => exact terminateRuntimeOwned (setChat_of_some hid h)

theorem makeRoom (h : r.Accounted present hand) :
    (r.makeRoom config env).Accounted present hand := by
  rcases makeRoom_cases config env r with ⟨heq, -⟩ | ⟨id, -, -, heq⟩
  · rw [heq]
    exact h
  · rw [heq]
    exact h.terminateRuntime

end Accounted

/-- A session that opens is the next one of the backend. -/
theorem startSession_ok {env : Env ρ} {engine : Engine ρ} {strict : Bool}
    {sessions sessions' : Sessions} {session : SessionKey} {dropped : Nat}
    (h : startSession env engine strict sessions = (.ok (session, dropped), sessions')) :
    engine.backend.isSome = true ∧ session = sessions.start.1 ∧ sessions' = sessions.start.2 := by
  unfold startSession at h
  split at h
  · exact nomatch h
  · next b hb =>
    split at h
    · exact nomatch h
    split at h
    · exact nomatch h
    · split at h
      · exact nomatch h
      · obtain ⟨h1, h2⟩ := Prod.mk.inj h
        exact ⟨by rw [hb]; rfl, (Prod.mk.inj (Except.ok.inj h1)).1.symm, h2.symm⟩

/-- One that does not open may cost a number. -/
theorem startSession_error {env : Env ρ} {engine : Engine ρ} {strict : Bool}
    {sessions sessions' : Sessions} {e : ExecError}
    (h : startSession env engine strict sessions = (.error e, sessions')) :
    sessions' = sessions ∨ sessions' = { sessions with nextId := sessions.nextId + 1 } := by
  unfold startSession at h
  split at h
  · exact .inl (Prod.mk.inj h).2.symm
  split at h
  · exact .inl (Prod.mk.inj h).2.symm
  split at h
  · exact .inl (Prod.mk.inj h).2.symm
  · split at h
    · exact .inr (Prod.mk.inj h).2.symm
    · exact nomatch h

theorem session_attachUserTurn {env : Env ρ} {chat chat' : ChatRuntime} {spec : GenSpec}
    {microphone : Bool} (h : attachUserTurn env chat spec microphone = .ok chat') :
    chat'.session = chat.session := by
  unfold attachUserTurn at h
  split at h
  · split at h
    · rw [← Except.ok.inj h]
    · exact nomatch h
  rcases hpull : env.pull chat.session spec with _ | _
  · rw [hpull] at h
    exact nomatch h
  · rw [hpull] at h
    rw [← Except.ok.inj h]
    rfl

namespace Accounted

variable {config : ControllerConfig ρ} {env : Env ρ} {engine : Engine ρ} {tx : TxId}
  {hand : List SessionKey} {r : Runtimes} {id : ChatId} {chat : ChatRuntime}

theorem of_session {present : Bool} {k k' : SessionKey} (h : r.Accounted present (k :: hand))
    (heq : k' = k) : r.Accounted present (k' :: hand) := by
  rw [heq]
  exact h

/-- What opening a session leaves: the same sessions, or one more in hand. -/
theorem startSession_error {present : Bool} {strict : Bool} {sessions : Sessions} {e : ExecError}
    (h : r.Accounted present hand)
    (hs : startSession env engine strict r.sessions = (.error e, sessions)) :
    (r.withSessions sessions).Accounted present hand := by
  rcases Runtimes.startSession_error hs with rfl | rfl
  · exact h
  · exact Sessions.Accounted.skip h

theorem startSession_ok {strict : Bool} {sessions : Sessions} {session : SessionKey} {dropped : Nat}
    (h : r.Accounted engine.backend.isSome hand)
    (hs : startSession env engine strict r.sessions = (.ok (session, dropped), sessions)) :
    (r.withSessions sessions).Accounted engine.backend.isSome (session :: hand) := by
  obtain ⟨hsome, rfl, rfl⟩ := Runtimes.startSession_ok hs
  rw [Runtimes.Accounted, hsome] at h ⊢
  exact Sessions.Accounted.start h

/-- Hooks are for sessions that are held. -/
theorem register {present : Bool} {session : SessionKey} (h : r.Accounted present (session :: hand))
    (tx : TxId) :
    (r.withSessions (r.sessions.register session.id tx)).Accounted present (session :: hand) := by
  obtain ⟨hbackend, -, -⟩ := h.current session mem_cons_self
  refine Sessions.Accounted.register h ?_
  rw [← hbackend]
  exact mem_cons_self

theorem openChat {messages : List Message} {spec : GenSpec}
    (h : r.Accounted engine.backend.isSome hand) :
    (r.openChat config env engine tx id messages spec).Accounted engine.backend.isSome hand := by
  unfold Runtimes.openChat
  dsimp only
  split
  · next e sessions hs => exact h.startSession_error hs
  · next session dropped sessions hs =>
    have h₁ : ((r.withSessions sessions).noteTruncated env tx dropped).Accounted
        engine.backend.isSome (session :: hand) := (h.startSession_ok hs).noteTruncated env tx dropped
    have h₂ := h₁.register tx
    split
    · next e _ => exact Sessions.Accounted.deregisterAndEndSession h₂
    · next chat hchat =>
      have hsession : chat.session = session := session_attachUserTurn hchat
      split
      · exact terminateRuntimeOwned (h₂.of_session hsession)
      · exact insertChat (h₂.of_session hsession)

theorem startEphemeral {task : SystemTask} {genSpec : GenSpec}
    (h : r.Accounted engine.backend.isSome hand)
    (hfree : r.Files config env engine genSpec → r.ephemeralId env task id ∉ r.chats) :
    (r.startEphemeral config env engine tx task id genSpec).Accounted engine.backend.isSome hand := by
  unfold Runtimes.startEphemeral
  dsimp only
  split
  · next e sessions hs => exact h.startSession_error hs
  · next session dropped sessions hs =>
    have h₁ := (h.startSession_ok hs).register tx
    split
    · next e _ => exact Sessions.Accounted.deregisterAndEndSession h₁
    · next hpull =>
      have hfiles : r.Files config env engine genSpec := ⟨session, dropped, by rw [hs], hpull⟩
      exact setChat_of_none (AList.lookup_eq_none.2 (hfree hfiles)) h₁

theorem continueTurn {present : Bool} {newMessages : List Message} {genSpec : GenSpec}
    (hid : r.chats.lookup id = some chat) (h : r.Accounted present hand) :
    (r.continueTurn config env engine tx id newMessages genSpec chat).Accounted present hand := by
  have hheld : chat.session ∈ hand ++ (r.setChat id { chat with tx := tx }).held := by
    rw [held_setChat]
    exact mem_append_right _ mem_cons_self
  have h₀ : (r.setChat id { chat with tx := tx }).Accounted present hand :=
    h.setChat_of_session hid rfl
  have h₁ : ((r.setChat id { chat with tx := tx }).withSessions
      ((r.sessions.deregister chat.session.id).register chat.session.id tx)).Accounted present
        hand := by
    refine (Sessions.Accounted.deregister h₀).register ?_
    have hbackend : (r.setChat id { chat with tx := tx }).sessions.backend =
        chat.session.backend := (h₀.current _ hheld).1.symm
    rw [Sessions.deregister_backend, hbackend]
    exact hheld
  have hrefused : ∀ (e : ExecError) (r' : Runtimes), r'.Accounted present hand →
      Runtimes.Accounted present hand (if hasMicrophone newMessages then
        (r'.emit env tx (backendFailure config e)).2.terminateRuntime config env id
          (.failed .startSessionFailed)
      else (r'.emit env tx (backendFailure config e)).2) := by
    intro e r' h'
    split
    · exact terminateRuntime (r := (r'.emit env tx (backendFailure config e)).2) h'
    · exact h'
  unfold Runtimes.continueTurn
  dsimp only
  split
  · exact hrefused _ _ h₁
  · next dropped _ =>
    have h₂ := h₁.noteTruncated env tx dropped
    split
    · exact hrefused _ _ h₂
    · next chat' hchat =>
      have hlookup : ((((r.setChat id { chat with tx := tx }).withSessions
          ((r.sessions.deregister chat.session.id).register chat.session.id tx)).noteTruncated env
            tx dropped).chats).lookup id = some { chat with tx := tx } := by
        rw [noteTruncated_chats]
        exact AList.lookup_insert _
      have h₃ := h₂.setChat_of_session hlookup (session_attachUserTurn hchat)
      split
      · exact terminateRuntime h₃
      · exact h₃

/-! ### The commands of a chat, and the tick -/

theorem afterMicrophone {present failed : Bool} (h : r.Accounted present hand) :
    (r.afterMicrophone config env id failed).Accounted present hand := by
  unfold Runtimes.afterMicrophone
  split
  · exact h.terminateRuntime
  · split
    · exact h.terminateRuntime
    · exact h

theorem handleMicrophoneCommand {present : Bool}
    {work : ChatRuntime → Option (Except ExecError ChatRuntime)}
    (hwork : ∀ chat chat', work chat = some (.ok chat') → chat'.session = chat.session)
    (h : r.Accounted present hand) :
    (r.handleMicrophoneCommand config env id work).2.Accounted present hand := by
  unfold Runtimes.handleMicrophoneCommand
  split
  · exact h
  · next chat hid =>
    split
    · exact h
    split
    · exact h.terminateRuntime
    split
    · next chat' hok =>
      have h₁ : (r.setChat id { chat' with lastUsed := env.now }).Accounted present hand :=
        h.setChat_of_session hid (hwork chat chat' hok)
      exact h₁.afterMicrophone
    · exact h.afterMicrophone
    · exact h.afterMicrophone

theorem pushMicrophone {present : Bool} (h : r.Accounted present hand) :
    (r.pushMicrophone config env id).2.Accounted present hand := by
  refine h.handleMicrophoneCommand fun chat chat' hok => ?_
  rcases hmic : env.microphone with _ | _ | _
  · rw [hmic] at hok
    exact nomatch hok
  · rw [hmic] at hok
    exact nomatch hok
  · rw [hmic] at hok
    rw [← Except.ok.inj (Option.some.inj hok)]

theorem commitMicrophone {present : Bool} (h : r.Accounted present hand) :
    (r.commitMicrophone config env id).2.Accounted present hand := by
  refine h.handleMicrophoneCommand fun chat chat' hok => ?_
  rcases hmic : env.microphone with _ | _ | _
  · rw [hmic] at hok
    exact nomatch hok
  · rw [hmic] at hok
    exact nomatch hok
  rw [hmic] at hok
  have hok := Option.some.inj hok
  rcases hpull : env.pull chat.session chat.lastGenSpec with _ | _
  · dsimp only [Except.bind] at hok
    rw [hpull] at hok
    exact nomatch hok
  · dsimp only [Except.bind] at hok
    rw [hpull] at hok
    rw [← Except.ok.inj hok]
    rfl

theorem pauseChat {present : Bool} (h : r.Accounted present hand) :
    (r.pauseChat id).Accounted present hand := by
  unfold Runtimes.pauseChat
  split
  · exact h
  · next chat hid =>
    split
    · split
      · exact h.setChat_of_session hid rfl
      · exact h
    · exact h

theorem resumeChat {present : Bool} (h : r.Accounted present hand) :
    (r.resumeChat config env id).Accounted present hand := by
  unfold Runtimes.resumeChat
  split
  · exact h
  · next chat hid =>
    split
    · dsimp only
      split
      · exact h.setChat_of_session hid rfl
      · exact h
    · exact h

theorem tickEach {present : Bool} {ids toRemove : List ChatId} (h : r.Accounted present hand) :
    (Runtimes.tickEach config env ids (r, toRemove)).1.Accounted present hand := by
  induction ids generalizing r toRemove with
  | nil => exact h
  | cons id ids ih =>
    unfold Runtimes.tickEach
    split
    · exact ih h
    · next chat hid =>
      split
      · obtain ⟨hchats, hsessions, hsession⟩ := tickChat_frame config env chat r
        have h₁ : (r.tickChat config env chat).2.Accounted present hand := by
          rw [Runtimes.Accounted, held, hchats, hsessions]
          exact h
        have h₂ : ((r.tickChat config env chat).2.setChat id
            (r.tickChat config env chat).1).Accounted present hand :=
          h₁.setChat_of_session (by rw [hchats]; exact hid) hsession.session
        exact ih h₂
      · exact ih h

theorem cleanUp {present : Bool} {ids : List ChatId} (h : r.Accounted present hand) :
    (r.cleanUp config env ids).Accounted present hand := by
  induction ids generalizing r with
  | nil => exact h
  | cons id ids ih =>
    refine ih ?_
    dsimp only
    split
    · exact h
    · exact h.terminateRuntime

theorem tickGenerating {present : Bool} (h : r.Accounted present hand) :
    (r.tickGenerating config env).Accounted present hand :=
  cleanUp (tickEach h)

end Accounted

end Runtimes

namespace ControllerState

/-- The sessions agree with the chats. -/
def Tended (s : ControllerState ρ) : Prop := s.runtimes.Accounted s.engine.backend.isSome []

section Operations

variable {config : ControllerConfig ρ} {env : Env ρ} {s s' : ControllerState ρ}

theorem Tended.reloaded {woken : Bool} (h : s.Tended) (hr : Reloaded env s woken s')
    : s'.Tended := by
  rcases hr with _ | ⟨_, hreload⟩ | ⟨_, _, hreload⟩
  · exact h
  all_goals
    unfold Tended
    rw [isSome_reloadModel hreload]
    exact h

theorem Tended.unloadLlm (h : s.Tended) : s.unloadLlm.Tended := by
  unfold Tended ControllerState.unloadLlm
  rw [isSome_unloadModel]
  exact h

theorem Tended.swapOut (h : s.Tended) : s.swapOut.Tended := by
  unfold ControllerState.swapOut
  split
  · unfold Tended
    rw [isSome_unloadModel]
    exact h
  · exact h

variable {settings : EngineSettings ρ}

theorem Tended.applySettings (h : s.Tended) : (s.applySettings config settings).2.Tended := by
  unfold ControllerState.applySettings
  split
  · next engine hup =>
    unfold Tended
    rw [isSome_uploadSettings hup]
    exact h
  · exact h

/-- Without chats there is nothing to be lost with the old backend. -/
theorem Tended.loadModelWith {req : LoadRequest} (h : s.Tended)
    (hswitch : (∃ kind, env.detectBackend req.modelPath = .ok kind ∧
      s.engine.needsSwitch kind = true) → s.runtimes.chats = ∅) :
    (s.loadModelWith config env req).2.Tended := by
  unfold ControllerState.loadModelWith Tended
  dsimp only
  rcases hdetect : env.detectBackend req.modelPath with err | kind
  · have hsame : (s.engine.loadModelWith config.build env.detectBackend env.loads req).2 =
        s.engine := by
      rw [Engine.loadModelWith, hdetect]
    rw [hsame]
    exact h
  · dsimp only
    split
    · next hneeds =>
      have hnone := hswitch ⟨kind, hdetect, hneeds⟩
      unfold Tended Runtimes.Accounted Runtimes.held at h
      rw [hnone] at h
      unfold Runtimes.Accounted Runtimes.held
      dsimp only
      rw [hnone]
      exact Sessions.Accounted.switched h _
    · next hkeeps =>
      rw [Bool.not_eq_true] at hkeeps
      rw [isSome_loadModelWith hdetect hkeeps]
      exact h

variable {load : LoadModel ρ} {mmprojPath : Option String}

/-- What an attempt asks the engine for is asked of the same backend as when it began. -/
theorem Tended.asks {n : Nat} {s₁ : ControllerState ρ} (h : s₁.Tended) (req : LoadRequest)
    (hchats : s₁.runtimes.chats = s.runtimes.chats)
    (hkind : ∀ kind, s₁.engine.needsSwitch kind = s.engine.needsSwitch kind)
    (hreq : req.modelPath = load.modelPath) (hasks : Asks config env n load mmprojPath settings s)
    (hswitch : s.Switches env load → Asks config env n load mmprojPath settings s →
      s.runtimes.chats = ∅) : (s₁.loadModelWith config env req).2.Tended := by
  refine h.loadModelWith ?_
  rintro ⟨kind, hdetect, hneeds⟩
  rw [hchats]
  rw [hreq] at hdetect
  exact hswitch ⟨kind, hdetect, (hkind kind).symm.trans hneeds⟩ hasks

theorem Attempted.tended {n : Nat} {r : Except LoadAttemptError Unit} (h : s.Tended)
    (hswitch : s.Switches env load → Asks config env n load mmprojPath settings s →
      s.runtimes.chats = ∅) (ha : Attempted config env n load mmprojPath settings s r s') :
    s'.Tended := by
  have hout := h.swapOut
  have hchats := (swapOut_frame s).chats
  have htaken : ∀ {taken : Engine ρ} {settings' : EngineSettings ρ},
      s.swapOut.engine.uploadSettings config.build settings' = .ok taken →
        ({ s.swapOut with engine := taken } : ControllerState ρ).Tended ∧
          ∀ kind, taken.needsSwitch kind = s.engine.needsSwitch kind := by
    intro taken settings' hup
    refine ⟨?_, fun kind => ?_⟩
    · unfold Tended
      rw [isSome_uploadSettings hup]
      exact hout
    · rw [needsSwitch_uploadSettings hup, needsSwitch_swapOut]
  cases ha with
  | stopped _ _ => exact hout
  | @unloadable _ err s₁ _ req hasks hreq hs₁ hload =>
    have hafter : (s₁.loadModelWith config env req).2.Tended := by
      rcases hs₁ with rfl | ⟨taken, settings', hup, rfl⟩
      · exact hout.asks req hchats (needsSwitch_swapOut s) hreq hasks hswitch
      · exact (htaken hup).1.asks req hchats (htaken hup).2 hreq hasks hswitch
    rw [hload] at hafter
    exact hafter
  | @late _ err plan _ hdef _ =>
    have hafter := hout.asks (buildLoadRequest load mmprojPath (plannedSettings plan settings))
      hchats (needsSwitch_swapOut s) rfl
      ⟨plan, hdef.planned, hdef.admitted, .inr hdef.deferred⟩ hswitch
    rw [hdef.loads] at hafter
    exact hafter
  | @loadedAfter plan taken s₂ entry _ hup =>
    have hafter := (htaken hup.uploaded).1.asks
      (buildLoadRequest load mmprojPath (plannedSettings plan settings))
      hchats (htaken hup.uploaded).2 rfl
      ⟨plan, hup.planned, hup.admitted, .inl ⟨taken, hup.uploaded⟩⟩ hswitch
    rw [hup.loads] at hafter
    exact hafter
  | @loadedBefore plan engine s₂ entry _ hdef htakes =>
    have hafter := hout.asks (buildLoadRequest load mmprojPath (plannedSettings plan settings))
      hchats (needsSwitch_swapOut s) rfl
      ⟨plan, hdef.planned, hdef.admitted, .inr hdef.deferred⟩ hswitch
    rw [hdef.loads] at hafter
    unfold Tended
    dsimp only
    rw [isSome_uploadSettings htakes]
    exact hafter

/-- An attempt in the backend that the path belongs to stays there. -/
theorem Attempted.keeps {n : Nat} {r : Except LoadAttemptError Unit} (h : ¬ s.Switches env load)
    (ha : Attempted config env n load mmprojPath settings s r s') : ¬ s'.Switches env load := by
  rintro ⟨kind, hkind, hneeds⟩
  have hk : s.engine.needsSwitch kind = false := by
    rw [Bool.eq_false_iff]
    exact fun hswitch => h ⟨kind, hkind, hswitch⟩
  have hend : s'.engine.needsSwitch kind = false :=
    ha.engine_invariant (K := fun e => e.needsSwitch kind = false)
      (fun e he => (needsSwitch_unloadModel e kind).trans he)
      (fun e e' settings he hup => (needsSwitch_uploadSettings hup kind).trans he)
      (fun e req hreq he =>
        needsSwitch_loadModelWith_of_keeps (by rw [hreq]; exact hkind) he) hk
  exact Bool.false_ne_true (hend.symm.trans hneeds)

/-- The chats are not lost with their backend: there are none, or the load does not get as far as to
change it. -/
def KeepsSessions (config : ControllerConfig ρ) (env : Env ρ) (load : LoadModel ρ)
    (s : ControllerState ρ) : Prop :=
  s.runtimes.chats = ∅ ∨ ¬ s.Switches env load ∨
    ∀ t ∈ s.tried config env load, ¬ t.Asks config env load

theorem Tended.runLadder (h : s.Tended) (hkeeps : s.KeepsSessions config env load) :
    (s.runLadder config env load).2.1.Tended := by
  rcases hkeeps with hnone | hkind | hno
  · have hall : (s.runLadder config env load).2.1.Tended ∧
        (s.runLadder config env load).2.1.runtimes.chats = ∅ :=
      loadLadder_invariant (I := fun s => s.Tended ∧ s.runtimes.chats = ∅)
        (fun t _ ht => ⟨Attempted.tended ht.1 (fun _ _ => ht.2) (t.attempted config env load),
          (t.attempted config env load).frame.chats.trans ht.2⟩) ⟨h, hnone⟩
    exact hall.1
  · have hall : (s.runLadder config env load).2.1.Tended ∧
        ¬ (s.runLadder config env load).2.1.Switches env load :=
      loadLadder_invariant (I := fun s => s.Tended ∧ ¬ s.Switches env load)
        (fun t _ ht => ⟨Attempted.tended ht.1 (fun hswitches => absurd hswitches ht.2)
          (t.attempted config env load), Attempted.keeps ht.2 (t.attempted config env load)⟩)
        ⟨h, hkind⟩
    exact hall.1
  · exact loadLadder_invariant (I := Tended)
      (fun t ht htended => Attempted.tended htended (fun _ hasks => absurd hasks (hno t ht))
        (t.attempted config env load)) h

open Runtimes.Accounted

theorem Tended.loadModel (h : s.Tended) (hkeeps : s.KeepsSessions config env load) :
    (s.loadModel config env load).2.Tended := by
  have hladder := h.runLadder hkeeps
  unfold ControllerState.loadModel
  generalize s.runLadder config env load = ladder at hladder ⊢
  obtain ⟨message | outcome, s', bytes⟩ := ladder
  · exact hladder
  have hdrained : (s'.runtimes.drain config env (.completed .modelReloaded)).Accounted
      s'.engine.backend.isSome [] := drain hladder
  have hnone : (s'.runtimes.drain config env (.completed .modelReloaded)).held = [] := by
    rw [Runtimes.held, Runtimes.drain_chats]
    rfl
  unfold Runtimes.Accounted at hdrained
  rw [hnone] at hdrained
  unfold Tended Runtimes.Accounted Runtimes.held
  dsimp only
  rw [Runtimes.drain_chats]
  exact Sessions.Accounted.clear hdrained

theorem Tended.maybeIdleUnloadLlm (h : s.Tended) : (s.maybeIdleUnloadLlm config env).Tended := by
  unfold ControllerState.maybeIdleUnloadLlm
  split
  · exact h
  split
  · exact h
  split
  · exact h
  split
  · exact h
  · exact Tended.unloadLlm
      (s := { s with runtimes := s.runtimes.drain config env (.completed .evicted) })
      (drain h)

theorem Tended.maintain (h : s.Tended) : (s.maintain config env).Tended := by
  unfold ControllerState.maintain
  split
  · exact Tended.maybeIdleUnloadLlm (terminateEach h)
  · exact h

theorem Tended.loadHelper {helper : Helper} {modelPath : String} (h : s.Tended) :
    (s.loadHelper env helper modelPath).2.Tended := by
  unfold ControllerState.loadHelper
  dsimp only
  split
  · exact h
  · split
    · exact h
    · split <;> exact h

theorem Tended.startChat {tx : TxId} {chatId : ChatId} {messages : List Message}
    {genSpec : GenSpec} (h : s.Tended) :
    (s.startChat config env tx chatId messages genSpec).Tended := by
  unfold ControllerState.startChat
  dsimp only
  split
  · exact h
  have hroom : ({ s with runtimes := (s.runtimes.terminateRuntime config env chatId
      (.completed .evicted)).makeRoom config env } : ControllerState ρ).Tended :=
    (terminateRuntime h).makeRoom
  obtain ⟨woken, hwoken, -⟩ := maybeWakeLlm_reloaded config env
    ({ s with runtimes := (s.runtimes.terminateRuntime config env chatId
      (.completed .evicted)).makeRoom config env } : ControllerState ρ)
  exact openChat (hroom.reloaded hwoken)

theorem Tended.continueChat {tx : TxId} {chatId : ChatId} {newMessages transcript : List Message}
    {genSpec : GenSpec} (h : s.Tended) :
    (s.continueChat config env tx chatId newMessages transcript genSpec).Tended := by
  unfold ControllerState.continueChat
  split
  · exact h
  split
  · next chat hchat =>
    split
    · exact h
    · exact continueTurn hchat h
  · exact h.startChat

end Operations

/-- A round in which no session is lost: a system task is filed under a name that is free, and a
load does not change the backend under chats that are there. -/
def LosesNoSession (config : ControllerConfig ρ) (s : ControllerState ρ) :
    Env ρ × Input ρ → Prop
  | (env, .command (.systemInfer task chatId _ genSpec)) =>
    s.running = true → s.runtimes.Files config env s.engine genSpec →
      s.runtimes.ephemeralId env task chatId ∉ s.runtimes.chats
  | (env, .command (.loadModel load)) => s.running = true → s.KeepsSessions config env load
  | _ => True

/-- **One round.** -/
theorem Tended.step {config : ControllerConfig ρ} {i : Env ρ × Input ρ} {s s' : ControllerState ρ}
    (h : s.Tended) (hi : s.LosesNoSession config i) (hs : Controller.step config i s = some s') :
    s'.Tended := by
  obtain rfl := Option.some.inj hs
  split
  · next hrunning =>
    rcases i with ⟨env, cmd | _⟩
    · cases cmd with
      | systemInfer task chatId messages genSpec =>
        exact Runtimes.Accounted.startEphemeral h (hi hrunning)
      | loadModel load => exact h.loadModel (hi hrunning)
      | applySettings settings => exact h.applySettings
      | loadHelper helper modelPath => exact h.loadHelper
      | unloadModel => exact Tended.unloadLlm (Runtimes.Accounted.terminateEach h)
      | reloadModel => exact h.reloaded (reloadWithAdmission_reloaded config env s)
      | useHelper helper => exact h
      | startChat chatId messages genSpec =>
        exact Tended.startChat (s := { s with turns := s.turns + 1 }) h
      | continueChat chatId newMessages transcript genSpec =>
        exact Tended.continueChat (s := { s with turns := s.turns + 1 }) h
      | pushMicrophone chatId => exact Runtimes.Accounted.pushMicrophone h
      | commitMicrophone chatId => exact Runtimes.Accounted.commitMicrophone h
      | stopChat chatId => exact Runtimes.Accounted.terminateRuntime h
      | pauseChat chatId => exact Runtimes.Accounted.pauseChat h
      | resumeChat chatId => exact Runtimes.Accounted.resumeChat h
      | query => exact h
      | shutdown => exact Runtimes.Accounted.drain h
    · exact Runtimes.Accounted.tickGenerating h.maintain
  · exact h

/-- A session is held by one chat and has not been ended, or it is held by none, has been ended once
and has no hook left. -/
def SessionAccounted (k : SessionKey) (s : ControllerState ρ) : Prop :=
  s.runtimes.held.count k = 1 ∧ s.runtimes.sessions.calls.count (.ended k) = 0 ∨
    k ∉ s.runtimes.held ∧ s.runtimes.sessions.calls.count (.ended k) = 1 ∧
      (k.backend = s.runtimes.sessions.backend →
        ∀ hook ∈ s.runtimes.sessions.hooks.getD [], hook.1 ≠ k.id)

theorem Tended.sessionAccounted {k : SessionKey} {s : ControllerState ρ} (h : s.Tended)
    (hk : LeaseCall.started k ∈ s.runtimes.sessions.calls) : s.SessionAccounted k := by
  unfold Tended Runtimes.Accounted at h
  rw [nil_append] at h
  rcases h.leased.accounted hk with hheld | ⟨hmem, hended⟩
  · exact .inl hheld
  · refine .inr ⟨hmem, hended, fun hbackend hook hhook heq => hmem ?_⟩
    have hin := h.hooked hook hhook
    rwa [heq, ← hbackend] at hin

theorem tended_initial (engine : Engine ρ) (unixNow : Int) :
    (ControllerState.initial engine unixNow).Tended where
  leased := .nil
  isSome_hooks := by
    dsimp only [initial]
    cases engine.backend <;> rfl
  current _ hk := absurd hk not_mem_nil
  hooked := by
    dsimp only [initial]
    cases engine.backend <;> exact fun _ hhook => absurd hhook not_mem_nil
  fresh _ hk := absurd hk not_mem_nil
  numbered := Nat.one_ne_zero

end ControllerState

end Gen2.Controller
