import Gen2.Controller.Bound
import Gen2.Controller.Ledger

/-!
# What a turn's channel carries

Every turn is given a channel when it is asked for.  It is owed one terminal event, which comes when
the turn has ended, or when its runtime is taken down before.

* `Runtimes.Sound`: the channels made so far are those of the chats in the map, of a turn in hand,
  or settled; a chat whose state is open still owes its channel the terminal event.
* Each operation keeps this, under the condition that says what it may find: above all, a runtime
  that is taken down must be open, or nobody listens to its channel any more (`Live`).
* `turns_sound`: in a run whose rounds find what they may, over channels that never fill, every
  channel carries at most one terminal event and nothing after it, and exactly one once its turn is
  not in flight and while there is somebody to listen.
-/

namespace Gen2.Controller

open Lib List Runtimes AList ControllerState

variable {ρ : Type}

/-- The events that end a turn. -/
def ControllerEvent.isTerminal : ControllerEvent → Bool
  | eos | stopped | error _ _ => true
  | _ => false

/-- A turn whose chat is in this state has not ended. -/
def ChatRunState.isOpen : ChatRunState → Bool
  | generating .. | capturingMicrophone | paused _ => true
  | _ => false

variable {state : ChatRunState}

/-- A turn that is in flight has not ended. -/
theorem ChatRunState.isOpen_of_isInFlight (h : state.isInFlight = true) : state.isOpen = true := by
  rcases state with _ | _ | _ | _ | _ | _
  all_goals first | rfl | exact nomatch h

theorem ChatRunState.isOpen_of_isGenerating (h : state.isGenerating = true) : state.isOpen = true :=
  isOpen_of_isInFlight (Bool.or_eq_true_iff.2 (.inl h))

theorem ChatRunState.isOpen_of_isCapturingMicrophone (h : state.isCapturingMicrophone = true) :
    state.isOpen = true :=
  isOpen_of_isInFlight (Bool.or_eq_true_iff.2 (.inr h))

/-- What the puller comes to when the turn is over. -/
def PullStep.ends : PullStep → Bool
  | .event .eos | .event .stopped | .error _ | .exhausted | .panicked => true
  | .event _ => false

theorem isTerminal_terminalEvent (config : ControllerConfig ρ) (chat : ChatRuntime)
    (outcome : RuntimeOutcome) : (terminalEvent config chat outcome).isTerminal = true := by
  unfold terminalEvent
  split <;> rfl

namespace Runtimes

/-- The channels of the chats in the map, and whether they are still owed their last event. -/
def standing (r : Runtimes) : List (TxId × Bool) :=
  r.chats.entries.map fun entry => (entry.2.tx, entry.2.state.isOpen)

/-- The channels agree with the chats in the map and what is in hand. -/
structure Sound (env : Env ρ) (turns : Nat) (hand : List (TxId × Bool)) (r : Runtimes) : Prop where
  standing : Standing ControllerEvent.isTerminal turns (hand ++ r.standing) r.emissions
  answers : Answers env.trySend r.emissions

/-- A runtime may be taken down: its turn has not ended, or nobody listens to it any more. -/
def Live (env : Env ρ) (r : Runtimes) (chat : ChatRuntime) : Prop :=
  chat.state.isOpen = true ∨ env.trySend chat.tx r.emissions.length = .disconnected

theorem standing_perm_of_lookup {r : Runtimes} {id : ChatId} {chat : ChatRuntime}
    (h : r.chats.lookup id = some chat) :
    r.standing.Perm ((chat.tx, chat.state.isOpen) ::
      (r.chats.erase id).entries.map fun entry => (entry.2.tx, entry.2.state.isOpen)) :=
  (entries_perm_of_lookup h).map _

theorem standing_setChat (r : Runtimes) (id : ChatId) (chat : ChatRuntime) :
    (r.setChat id chat).standing = (chat.tx, chat.state.isOpen) ::
      (r.chats.erase id).entries.map fun entry => (entry.2.tx, entry.2.state.isOpen) := by
  rfl

/-- As more is offered, who has hung up stays away. -/
theorem Live.mono {env : Env ρ} {r r' : Runtimes} {chat : ChatRuntime}
    (hans : Answers env.trySend r.emissions) (hle : r.emissions.length ≤ r'.emissions.length)
    (h : Live env r chat) : Live env r' chat :=
  h.imp_right fun hhung => hans.stays _ _ _ hle hhung

theorem emissions_emit (env : Env ρ) (tx : TxId) (event : ControllerEvent) (r : Runtimes) :
    r.emissions.length ≤ (r.emit env tx event).2.emissions.length := by
  simp [emit]

theorem emissions_terminateRuntime (config : ControllerConfig ρ) (env : Env ρ) (id : ChatId)
    (outcome : RuntimeOutcome) (r : Runtimes) :
    r.emissions.length ≤ (r.terminateRuntime config env id outcome).emissions.length := by
  unfold terminateRuntime
  split
  · exact le_refl _
  · exact emissions_emit env _ _ { r with chats := r.chats.erase id }

theorem emissions_terminateEach (config : ControllerConfig ρ) (env : Env ρ)
    (outcome : RuntimeOutcome) (ids : List ChatId) (r : Runtimes) :
    r.emissions.length ≤ (r.terminateEach config env outcome ids).emissions.length := by
  induction ids generalizing r with
  | nil => exact le_refl _
  | cons id ids ih => exact (emissions_terminateRuntime config env id outcome r).trans (ih _)

theorem emissions_drain (config : ControllerConfig ρ) (env : Env ρ) (outcome : RuntimeOutcome)
    (r : Runtimes) : r.emissions.length ≤ (r.drain config env outcome).emissions.length := by
  have hall : ∀ (entries : List (Sigma fun _ : ChatId => ChatRuntime)) (r : Runtimes),
      r.emissions.length ≤ (entries.foldl (fun r entry => r.terminateRuntimeOwned config env entry.2
        outcome) r).emissions.length := by
    intro entries
    induction entries with
    | nil => exact fun _ => le_refl _
    | cons entry entries ih =>
      intro r
      exact (emissions_emit env entry.2.tx (terminalEvent config entry.2 outcome) r).trans
        (ih (r.terminateRuntimeOwned config env entry.2 outcome))
  exact hall _ { r with chats := ∅ }

theorem live_terminateRuntime {config : ControllerConfig ρ} {env : Env ρ} {id id' : ChatId}
    {outcome : RuntimeOutcome} {r : Runtimes} (hans : Answers env.trySend r.emissions)
    (h : ∀ chat, r.chats.lookup id' = some chat → Live env r chat) :
    ∀ chat, (r.terminateRuntime config env id outcome).chats.lookup id' = some chat →
      Live env (r.terminateRuntime config env id outcome) chat := by
  intro chat hchat
  rw [terminateRuntime_chats] at hchat
  by_cases heq : id' = id
  · rw [heq, lookup_erase] at hchat
    exact nomatch hchat
  · rw [lookup_erase_ne heq] at hchat
    exact (h chat hchat).mono hans (emissions_terminateRuntime config env id outcome r)

theorem length_noteTruncated (env : Env ρ) (tx : TxId) (dropped : Nat) (r : Runtimes) :
    (r.noteTruncated env tx dropped).emissions.length =
      r.emissions.length + if 0 < dropped then 1 else 0 := by
  unfold noteTruncated
  by_cases h : 0 < dropped
  · rw [if_pos h, if_pos h]
    exact length_append
  · rw [if_neg h, if_neg h]
    rfl

namespace Sound

variable {config : ControllerConfig ρ} {env : Env ρ} {turns : Nat} {hand hand' : List (TxId × Bool)}
  {r : Runtimes} {id : ChatId} {chat old : ChatRuntime} {tx : TxId} {event : ControllerEvent}

theorem withSessions (h : r.Sound env turns hand) (sessions : Sessions) :
    (r.withSessions sessions).Sound env turns hand := ⟨h.standing, h.answers⟩

theorem drop (h : r.Sound env turns ((tx, false) :: hand)) : r.Sound env turns hand :=
  ⟨h.standing.drop, h.answers⟩

/-- An event of a turn that goes on. -/
theorem emit (h : r.Sound env turns hand) (event : ControllerEvent)
    (htx : (tx, true) ∈ hand ++ r.standing)
    (hevent : event.isTerminal = false) : (r.emit env tx event).2.Sound env turns hand :=
  ⟨h.standing.send h.answers htx hevent, h.answers.offer⟩

/-- The last event of a turn. -/
theorem emit_last (h : r.Sound env turns ((tx, true) :: hand)) (hevent : event.isTerminal = true) :
    (r.emit env tx event).2.Sound env turns ((tx, false) :: hand) :=
  ⟨h.standing.finish h.answers hevent, h.answers.offer⟩

/-- An event for somebody who has hung up. -/
theorem emit_hung (h : r.Sound env turns hand) (htx : tx < turns)
    (hhung : env.trySend tx r.emissions.length = .disconnected) :
    (r.emit env tx event).2.Sound env turns hand := by
  refine ⟨h.standing.unsent htx ?_, h.answers.offer⟩
  rw [hhung]
  exact nofun

variable {outcome : RuntimeOutcome}

/-- A runtime in hand is taken down. -/
theorem terminateRuntimeOwned (h : r.Sound env turns ((chat.tx, chat.state.isOpen) :: hand))
    (hlive : Live env r chat) :
    (r.terminateRuntimeOwned config env chat outcome).Sound env turns hand := by
  refine withSessions ?_ _
  rcases hopen : chat.state.isOpen with _ | _
  · rw [hopen] at h
    have hhung := hlive.resolve_left (by rw [hopen]; exact Bool.false_ne_true)
    exact drop (h.emit_hung (h.standing.bounded _ mem_cons_self) hhung)
  · rw [hopen] at h
    exact drop (h.emit_last (isTerminal_terminalEvent config chat outcome))

theorem erase (h : r.Sound env turns hand) (hid : r.chats.lookup id = some chat) :
    ({ r with chats := r.chats.erase id } : Runtimes).Sound env turns
      ((chat.tx, chat.state.isOpen) :: hand) := by
  refine ⟨h.standing.perm ?_, h.answers⟩
  exact ((standing_perm_of_lookup hid).append_left hand).trans perm_middle

theorem terminateRuntime (h : r.Sound env turns hand)
    (hlive : ∀ chat, r.chats.lookup id = some chat → Live env r chat) :
    (r.terminateRuntime config env id outcome).Sound env turns hand := by
  unfold Runtimes.terminateRuntime
  split
  · exact h
  · next chat hid => exact (h.erase hid).terminateRuntimeOwned (hlive chat hid)

/-- One chat after the other is taken down. -/
theorem terminateEach {ids : List ChatId} (h : r.Sound env turns hand)
    (hlive : ∀ id ∈ ids, ∀ chat, r.chats.lookup id = some chat → Live env r chat) :
    (r.terminateEach config env outcome ids).Sound env turns hand := by
  induction ids generalizing r with
  | nil => exact h
  | cons id ids ih =>
    refine ih (h.terminateRuntime (hlive id mem_cons_self)) fun id' hid' => ?_
    exact live_terminateRuntime h.answers (hlive id' (mem_cons_of_mem _ hid'))

theorem drain (h : r.Sound env turns []) (hlive : ∀ entry ∈ r.chats.entries, Live env r entry.2) :
    (r.drain config env outcome).Sound env turns [] := by
  have hall : ∀ (entries : List (Sigma fun _ : ChatId => ChatRuntime)) (r : Runtimes),
      r.Sound env turns (entries.map fun entry => (entry.2.tx, entry.2.state.isOpen)) →
        (∀ entry ∈ entries, Live env r entry.2) →
          (entries.foldl (fun r entry => r.terminateRuntimeOwned config env entry.2 outcome)
            r).Sound env turns [] := by
    intro entries
    induction entries with
    | nil => exact fun _ h _ => h
    | cons entry entries ih =>
      intro r h hlive
      refine ih _ (terminateRuntimeOwned h (hlive entry mem_cons_self)) fun entry' hmem => ?_
      exact (hlive entry' (mem_cons_of_mem _ hmem)).mono h.answers (emissions_emit env _ _ r)
  refine hall _ _ ⟨h.standing.perm ?_, h.answers⟩ fun entry hmem => ?_
  · have hperm := ((env.order.perm r.chats.entries).map
      fun entry : (Sigma fun _ : ChatId => ChatRuntime) =>
        ((entry.2.tx, entry.2.state.isOpen) : TxId × Bool)).symm
    simpa [Runtimes.standing] using hperm
  · exact hlive entry ((env.order.perm _).mem_iff.1 hmem)

theorem makeRoom (h : r.Sound env turns hand)
    (hlive : config.maxActiveChats ≤ r.size → ∀ id chat, r.pickEvictionTarget env = some id →
      r.chats.lookup id = some chat → Live env r chat) :
    (r.makeRoom config env).Sound env turns hand := by
  rcases makeRoom_cases config env r with ⟨heq, -⟩ | ⟨id, hfull, hpick, heq⟩
  · rw [heq]
    exact h
  · rw [heq]
    exact h.terminateRuntime fun chat hid => hlive hfull id chat hpick hid

theorem noteTruncated (dropped : Nat) (h : r.Sound env turns hand)
    (htx : (tx, true) ∈ hand ++ r.standing) :
    (r.noteTruncated env tx dropped).Sound env turns hand := by
  unfold Runtimes.noteTruncated
  split
  · exact h.emit _ htx rfl
  · exact h

/-- A runtime in hand is filed under a name that is free. -/
theorem setChat_of_none (hid : r.chats.lookup id = none)
    (h : r.Sound env turns ((chat.tx, chat.state.isOpen) :: hand)) :
    (r.setChat id chat).Sound env turns hand := by
  refine ⟨h.standing.perm ?_, h.answers⟩
  rw [standing_setChat, erase_of_notMem (lookup_eq_none.1 hid)]
  exact perm_middle.symm

/-- A runtime in hand takes the place of one, which is then in hand. -/
theorem setChat_of_some (chat : ChatRuntime) (hid : r.chats.lookup id = some old)
    (h : r.Sound env turns ((chat.tx, chat.state.isOpen) :: hand)) :
    (r.setChat id chat).Sound env turns ((old.tx, old.state.isOpen) :: hand) := by
  refine ⟨h.standing.perm ?_, h.answers⟩
  have hout := ((standing_perm_of_lookup hid).append_left hand).trans perm_middle
  have hin : ((chat.tx, chat.state.isOpen) ::
        (hand ++ (r.chats.erase id).entries.map fun e => (e.2.tx, e.2.state.isOpen))).Perm
      (hand ++ (chat.tx, chat.state.isOpen) ::
        (r.chats.erase id).entries.map fun e => (e.2.tx, e.2.state.isOpen)) :=
    perm_middle.symm
  exact (hout.cons _).trans ((List.Perm.swap _ _ _).trans (hin.cons _))

/-- A runtime is changed, but for its channel and whether its turn has ended. -/
theorem setChat_of_same (hid : r.chats.lookup id = some old) (htx : chat.tx = old.tx)
    (hopen : chat.state.isOpen = old.state.isOpen) (h : r.Sound env turns hand) :
    (r.setChat id chat).Sound env turns hand := by
  refine ⟨h.standing.perm ?_, h.answers⟩
  rw [standing_setChat, htx, hopen]
  exact (standing_perm_of_lookup hid).append_left hand

end Sound

/-- A turn that is attached is open, on the channel it was given. -/
theorem attachUserTurn_ok {env : Env ρ} {chat chat' : ChatRuntime} {spec : GenSpec}
    {microphone : Bool} (h : attachUserTurn env chat spec microphone = .ok chat') :
    chat'.tx = chat.tx ∧ chat'.state.isOpen = true := by
  unfold attachUserTurn at h
  split at h
  · split at h
    · rw [← Except.ok.inj h]
      exact ⟨rfl, rfl⟩
    · exact nomatch h
  · rcases hpull : env.pull chat.session spec with _ | _
    · rw [hpull] at h
      exact nomatch h
    · rw [hpull] at h
      rw [← Except.ok.inj h]
      exact ⟨rfl, rfl⟩

/-- How many events come before the one that refuses to continue a chat, where one does. -/
def refusedAfter (config : ControllerConfig ρ) (env : Env ρ) (engine : Engine ρ)
    (newMessages : List Message) (genSpec : GenSpec) (chat : ChatRuntime) : Option Nat :=
  match env.appendMessages chat.session newMessages with
  | .error _ => some 0
  | .ok dropped =>
    match attachUserTurn env chat (applyGenerationDefaults config engine genSpec)
        (hasMicrophone newMessages) with
    | .error _ => some (if 0 < dropped then 1 else 0)
    | .ok _ => none

namespace Sound

variable {config : ControllerConfig ρ} {env : Env ρ} {engine : Engine ρ} {turns : Nat}
  {hand : List (TxId × Bool)} {r r' : Runtimes} {id : ChatId} {chat : ChatRuntime} {tx : TxId}

theorem congr (h : r.Sound env turns hand) (hchats : r'.chats = r.chats)
    (hemissions : r'.emissions = r.emissions) : r'.Sound env turns hand := by
  refine ⟨?_, by rw [hemissions]; exact h.answers⟩
  rw [Runtimes.standing, hchats, hemissions]
  exact h.standing

/-- A new turn of a chat that may be opened: it is in the map, or its channel is settled. -/
theorem openChat {messages : List Message} {spec : GenSpec} (hid : r.chats.lookup id = none)
    (h : r.Sound env turns ((tx, true) :: hand)) :
    (r.openChat config env engine tx id messages spec).Sound env turns hand := by
  unfold Runtimes.openChat
  dsimp only
  split
  · next e sessions _ => exact drop (emit_last (h.withSessions sessions) rfl)
  · next session dropped sessions _ =>
    have h₁ := (h.withSessions sessions).noteTruncated dropped mem_cons_self
    split
    · next e _ => exact drop (emit_last ((h₁.withSessions _).withSessions _) rfl)
    · next chat hchat =>
      obtain ⟨htx, hopen⟩ := attachUserTurn_ok hchat
      have h₂ := (h₁.withSessions ((Runtimes.noteTruncated env tx dropped
        (r.withSessions sessions)).sessions.register session.id tx)).emit
        (.accepted messages.length) mem_cons_self rfl
      have hhand : ((tx, true) :: hand) = (chat.tx, chat.state.isOpen) :: hand := by
        rw [htx, hopen]
        rfl
      rw [hhand] at h₂
      split
      · exact h₂.terminateRuntimeOwned (.inl hopen)
      · unfold Runtimes.insertChat
        rw [emit_chats, withSessions_chats, noteTruncated_chats, withSessions_chats, hid]
        refine setChat_of_none ?_ h₂
        rw [emit_chats, withSessions_chats, noteTruncated_chats, withSessions_chats, hid]

theorem startEphemeral {task : SystemTask} {genSpec : GenSpec}
    (hfree : r.Files config env engine genSpec → ∀ old,
      r.chats.lookup (r.ephemeralId env task id) = some old →
        old.state.isOpen = false ∨ Gone old.tx r.emissions)
    (h : r.Sound env turns ((tx, true) :: hand)) :
    (r.startEphemeral config env engine tx task id genSpec).Sound env turns hand := by
  unfold Runtimes.startEphemeral
  dsimp only
  split
  · next e sessions _ => exact drop (emit_last (h.withSessions sessions) rfl)
  · next session dropped sessions hs =>
    split
    · next e _ => exact withSessions (drop (emit_last (h.withSessions _) rfl)) _
    · next hpull =>
      have hfiles : r.Files config env engine genSpec := ⟨session, dropped, by rw [hs], hpull⟩
      rcases hid : r.chats.lookup (r.ephemeralId env task id) with _ | old
      · exact setChat_of_none hid (h.withSessions _)
      have h₁ := setChat_of_some (attachGeneratingPuller env
        (applyGenerationDefaults config engine genSpec) (newRuntime env session tx
          (.systemTask task) (applyGenerationDefaults config engine genSpec)))
        (r := r.withSessions (sessions.register session.id tx)) hid (h.withSessions _)
      rcases hfree hfiles old hid with hclosed | hgone
      · rw [hclosed] at h₁
        exact h₁.drop
      · exact drop ⟨h₁.standing.mark false hgone, h₁.answers⟩

end Sound

/-- The channels agree, but for the chat filed under `id`, which is in hand. -/
def SoundBut (env : Env ρ) (turns : Nat) (id : ChatId) (hand : List (TxId × Bool)) (r : Runtimes) :
    Prop :=
  ({ r with chats := r.chats.erase id } : Runtimes).Sound env turns hand

namespace SoundBut

variable {config : ControllerConfig ρ} {env : Env ρ} {turns : Nat} {hand : List (TxId × Bool)}
  {r : Runtimes} {id : ChatId} {chat : ChatRuntime} {tx : TxId}

theorem setChat (chat : ChatRuntime) (h : r.SoundBut env turns id hand) :
    (r.setChat id chat).SoundBut env turns id hand := by
  refine Sound.congr h ?_ rfl
  rw [setChat_chats, erase_insert]

/-- The chat is filed as it is. -/
theorem file (hid : r.chats.lookup id = some chat)
    (h : r.SoundBut env turns id ((chat.tx, chat.state.isOpen) :: hand)) :
    r.Sound env turns hand :=
  ⟨h.standing.perm (((standing_perm_of_lookup hid).append_left hand).trans perm_middle).symm,
    h.answers⟩

/-- The chat is taken down. -/
theorem terminateRuntime {outcome : RuntimeOutcome} (hid : r.chats.lookup id = some chat)
    (h : r.SoundBut env turns id ((chat.tx, chat.state.isOpen) :: hand)) (hlive : Live env r chat) :
    (r.terminateRuntime config env id outcome).Sound env turns hand := by
  unfold Runtimes.terminateRuntime
  rw [hid]
  exact Sound.terminateRuntimeOwned h hlive

theorem noteTruncated (dropped : Nat) (h : r.SoundBut env turns id ((tx, true) :: hand)) :
    (r.noteTruncated env tx dropped).SoundBut env turns id ((tx, true) :: hand) := by
  unfold Runtimes.noteTruncated
  split
  · exact Sound.emit h _ mem_cons_self rfl
  · exact h

/-- The chat is refused its turn, and taken down where it would have listened. -/
theorem refuse {e : ExecError} {microphone : Bool} {outcome : RuntimeOutcome}
    (hid : r.chats.lookup id = some chat) (htx : chat.tx = tx)
    (hhung : microphone = true ∨ chat.state.isOpen = true →
      env.trySend tx r.emissions.length = .disconnected)
    (h : r.SoundBut env turns id ((tx, true) :: hand)) :
    (if microphone then
        (r.emit env tx (backendFailure config e)).2.terminateRuntime config env id outcome
      else (r.emit env tx (backendFailure config e)).2).Sound env turns hand := by
  have hid' : (r.emit env tx (backendFailure config e)).2.chats.lookup id = some chat := hid
  by_cases hcond : microphone = true ∨ chat.state.isOpen = true
  · have hnow := hhung hcond
    have hgone : Gone tx (r.emit env tx (backendFailure config e)).2.emissions :=
      gone_offer.2 (.inr ⟨rfl, hnow⟩)
    have h₁ : (r.emit env tx (backendFailure config e)).2.SoundBut env turns id
        ((tx, true) :: hand) :=
      Sound.emit_hung h (h.standing.bounded _ mem_cons_self) hnow
    have h₂ : (r.emit env tx (backendFailure config e)).2.SoundBut env turns id
        ((chat.tx, chat.state.isOpen) :: hand) := by
      rw [htx]
      exact ⟨h₁.standing.mark _ hgone, h₁.answers⟩
    split
    · refine h₂.terminateRuntime hid' (.inr ?_)
      rw [htx]
      exact h.answers.stays _ _ _ (emissions_emit env _ _ r) hnow
    · exact h₂.file hid'
  · obtain ⟨hmic, hclosed⟩ := not_or.1 hcond
    rw [if_neg hmic]
    refine file hid' ?_
    rw [htx, Bool.eq_false_iff.2 hclosed]
    exact Sound.emit_last h rfl

end SoundBut

namespace Sound

variable {config : ControllerConfig ρ} {env : Env ρ} {engine : Engine ρ} {turns : Nat}
  {hand : List (TxId × Bool)} {r : Runtimes} {id : ChatId} {chat : ChatRuntime} {tx : TxId}

/-- Another turn of a chat that is there. -/
theorem continueTurn {newMessages : List Message} {genSpec : GenSpec}
    (hid : r.chats.lookup id = some chat)
    (hleft : chat.state.isOpen = true → Gone chat.tx r.emissions)
    (hrefused : ∀ n, refusedAfter config env engine newMessages genSpec { chat with tx := tx } =
        some n → hasMicrophone newMessages = true ∨ chat.state.isOpen = true →
      env.trySend tx (r.emissions.length + n) = .disconnected)
    (h : r.Sound env turns ((tx, true) :: hand)) :
    (r.continueTurn config env engine tx id newMessages genSpec chat).Sound env turns hand := by
  have h₀ : r.SoundBut env turns id ((tx, true) :: hand) := by
    have hout := h.erase hid
    rcases hopen : chat.state.isOpen with _ | _
    · rw [hopen] at hout
      exact hout.drop
    · exact drop ⟨hout.standing.mark false (hleft hopen), hout.answers⟩
  unfold Runtimes.continueTurn
  unfold refusedAfter at hrefused
  dsimp only at hrefused ⊢
  generalize hr₁ : ((r.setChat id { chat with tx := tx }).withSessions _) = r₁
  have h₁ : r₁.SoundBut env turns id ((tx, true) :: hand) := by
    rw [← hr₁]
    exact (h₀.setChat _).withSessions _
  have hid₁ : r₁.chats.lookup id = some { chat with tx := tx } := by
    rw [← hr₁]
    exact lookup_insert _
  have hlength : r₁.emissions.length = r.emissions.length := by
    rw [← hr₁]
    rfl
  split
  · next e happend =>
    rw [happend] at hrefused
    refine h₁.refuse hid₁ rfl fun hcond => ?_
    rw [hlength]
    exact hrefused 0 rfl hcond
  · next dropped happend =>
    rw [happend] at hrefused
    have h₂ := h₁.noteTruncated dropped
    have hid₂ : (r₁.noteTruncated env tx dropped).chats.lookup id = some { chat with tx := tx } := by
      rw [noteTruncated_chats]
      exact hid₁
    split
    · next e hattach =>
      rw [hattach] at hrefused
      refine h₂.refuse hid₂ rfl fun hcond => ?_
      rw [length_noteTruncated, hlength]
      exact hrefused _ rfl hcond
    · next chat' hattach =>
      obtain ⟨htx, hopen⟩ := attachUserTurn_ok hattach
      have h₃ : (((r₁.noteTruncated env tx dropped).setChat id chat').emit env tx
          (.accepted newMessages.length)).2.SoundBut env turns id
            ((chat'.tx, chat'.state.isOpen) :: hand) := by
        rw [htx, hopen]
        exact Sound.emit (h₂.setChat chat') _ mem_cons_self rfl
      have hid₃ : (((r₁.noteTruncated env tx dropped).setChat id chat').emit env tx
          (.accepted newMessages.length)).2.chats.lookup id = some chat' :=
        lookup_insert _
      split
      · exact h₃.terminateRuntime hid₃ (.inl hopen)
      · exact h₃.file hid₃

theorem afterMicrophone {failed : Bool} (hid : r.chats.lookup id = some chat)
    (hopen : chat.state.isOpen = true) (h : r.Sound env turns hand) :
    (r.afterMicrophone config env id failed).Sound env turns hand := by
  have hlive : ∀ c, r.chats.lookup id = some c → Live env r c := by
    intro c hc
    obtain rfl := Option.some.inj (hid.symm.trans hc)
    exact .inl hopen
  unfold Runtimes.afterMicrophone
  split
  · exact h.terminateRuntime hlive
  · split
    · exact h.terminateRuntime hlive
    · exact h

/-- The microphone's commands, which keep a turn open or take its runtime down. -/
theorem handleMicrophoneCommand {work : ChatRuntime → Option (Except ExecError ChatRuntime)}
    (hwork : ∀ chat chat', chat.state.isCapturingMicrophone = true → work chat = some (.ok chat') →
      chat'.tx = chat.tx ∧ chat'.state.isOpen = true)
    (h : r.Sound env turns hand) :
    (r.handleMicrophoneCommand config env id work).2.Sound env turns hand := by
  unfold Runtimes.handleMicrophoneCommand
  split
  · exact h
  · next chat hid =>
    split
    · exact h
    · next hcapturing =>
      rw [Bool.not_eq_false] at hcapturing
      have hopen := ChatRunState.isOpen_of_isCapturingMicrophone hcapturing
      split
      · refine h.terminateRuntime fun c hc => ?_
        obtain rfl := Option.some.inj (hid.symm.trans hc)
        exact .inl hopen
      split
      · next chat' hok =>
        obtain ⟨htx, hopen'⟩ := hwork chat chat' hcapturing hok
        have hset : (r.setChat id { chat' with lastUsed := env.now }).Sound env turns hand :=
          h.setChat_of_same hid htx (hopen'.trans hopen.symm)
        have hid' : (r.setChat id { chat' with lastUsed := env.now }).chats.lookup id =
            some { chat' with lastUsed := env.now } := lookup_insert _
        dsimp only
        exact hset.afterMicrophone hid' hopen'
      · exact h.afterMicrophone hid hopen
      · dsimp only
        exact h.afterMicrophone hid hopen

theorem pushMicrophone (h : r.Sound env turns hand) :
    (r.pushMicrophone config env id).2.Sound env turns hand := by
  refine h.handleMicrophoneCommand fun chat chat' hcapturing hok => ?_
  obtain ⟨result, -, hresult⟩ := Option.map_eq_some_iff.1 hok
  rcases result with e | _
  · exact nomatch hresult
  · cases hresult
    exact ⟨rfl, ChatRunState.isOpen_of_isCapturingMicrophone hcapturing⟩

theorem commitMicrophone (h : r.Sound env turns hand) :
    (r.commitMicrophone config env id).2.Sound env turns hand := by
  refine h.handleMicrophoneCommand fun chat chat' _ hok => ?_
  obtain ⟨result, -, hresult⟩ := Option.map_eq_some_iff.1 hok
  rcases result with e | _
  · exact nomatch hresult
  rcases hpull : env.pull chat.session chat.lastGenSpec with e | _
  · rw [hpull] at hresult
    exact nomatch hresult
  · rw [hpull] at hresult
    cases hresult
    exact ⟨rfl, rfl⟩

theorem pauseChat (h : r.Sound env turns hand) : (r.pauseChat id).Sound env turns hand := by
  unfold Runtimes.pauseChat
  split
  · exact h
  · next chat hid =>
    split
    · split
      · next hstate => exact h.setChat_of_same hid rfl (by rw [hstate]; rfl)
      · exact h
    · exact h

end Sound

/-- What a chat is resumed with. -/
def resumeSpec (chat : ChatRuntime) : GenSpec :=
  match chat.state with
  | .paused lastGenSpec => lastGenSpec
  | _ => chat.lastGenSpec

/-- A chat that is resumed has a turn that has not ended, or nobody listens to it; where it cannot
be resumed nobody does. -/
def Resumes (env : Env ρ) (id : ChatId) (r : Runtimes) : Prop :=
  ∀ chat, r.chats.lookup id = some chat → pausable chat = true → chat.state.isGenerating = false →
    match env.pull chat.session (resumeSpec chat) with
    | .ok () => chat.state.isOpen = true ∨ Gone chat.tx r.emissions
    | .error _ => env.trySend chat.tx r.emissions.length = .disconnected

theorem resumeChat_cases {config : ControllerConfig ρ} {env : Env ρ} {r : Runtimes} {id : ChatId}
    {chat : ChatRuntime} (hid : r.chats.lookup id = some chat)
    (hcond : pausable chat = true ∧ chat.state.isGenerating = false) :
    (env.pull chat.session (resumeSpec chat) = .ok () ∧ r.resumeChat config env id =
        r.setChat id (attachGeneratingPuller env (resumeSpec chat) chat)) ∨
      ∃ e, env.pull chat.session (resumeSpec chat) = .error e ∧
        r.resumeChat config env id = (r.emit env chat.tx (backendFailure config e)).2 := by
  unfold resumeChat
  rw [hid]
  dsimp only
  rw [if_pos hcond]
  have hspec : (match chat.state with
      | .paused lastGenSpec => lastGenSpec
      | _ => chat.lastGenSpec) = resumeSpec chat := rfl
  rcases hstate : chat.state
  all_goals
    rw [hstate] at hspec
    dsimp only at hspec ⊢
    rw [hspec]
    rcases hpull : env.pull chat.session (resumeSpec chat) with e | _
    · exact .inr ⟨e, rfl, rfl⟩
    · exact .inl ⟨rfl, rfl⟩

theorem Sound.resumeChat {config : ControllerConfig ρ} {env : Env ρ} {turns : Nat}
    {hand : List (TxId × Bool)} {r : Runtimes} {id : ChatId} (hresumes : Resumes env id r)
    (h : r.Sound env turns hand) : (r.resumeChat config env id).Sound env turns hand := by
  rcases hid : r.chats.lookup id with _ | chat
  · rw [Runtimes.resumeChat, hid]
    exact h
  by_cases hcond : pausable chat = true ∧ chat.state.isGenerating = false
  · have hpull := hresumes chat hid hcond.1 hcond.2
    rcases resumeChat_cases hid hcond with ⟨hok, heq⟩ | ⟨e, herror, heq⟩
    · rw [hok] at hpull
      rw [heq]
      rcases hopen : chat.state.isOpen with _ | _
      · have hgone := hpull.resolve_left (by rw [hopen]; exact Bool.false_ne_true)
        have hout : r.SoundBut env turns id ((chat.tx, true) :: hand) :=
          ⟨(h.erase hid).standing.mark true hgone, h.answers⟩
        exact (hout.setChat _).file (lookup_insert _)
      · exact h.setChat_of_same hid rfl hopen.symm
    · rw [herror] at hpull
      rw [heq]
      exact h.emit_hung ((h.erase hid).standing.bounded _ mem_cons_self) hpull
  · rw [Runtimes.resumeChat, hid]
    dsimp only
    rw [if_neg hcond]
    exact h

/-! ## A tick -/

/-- What the puller comes to ends the turn, with its last event, or lets it go on. -/
theorem applyStep_ends (config : ControllerConfig ρ) (env : Env ρ) {chat : ChatRuntime}
    (hopen : chat.state.isOpen = true) (pulled : PullStep) :
    (applyStep config env chat pulled).2.state.isOpen = !pulled.ends ∧
      ((applyStep config env chat pulled).1.map ControllerEvent.isTerminal).getD false =
        pulled.ends := by
  rcases pulled with e | e | _ | _
  · rcases e with chunk | tok | _ | boundary | call | _ | _ | _
    · refine ⟨?_, rfl⟩
      rcases hstate : chat.state
      all_goals
        rw [hstate] at hopen
        simp only [applyStep, hstate]
        exact hopen
    · unfold applyStep
      dsimp only
      split
      · exact ⟨hopen, rfl⟩
      · exact ⟨hopen, rfl⟩
    · exact ⟨hopen, rfl⟩
    · exact ⟨hopen, rfl⟩
    · exact ⟨hopen, rfl⟩
    · exact ⟨hopen, rfl⟩
    · exact ⟨rfl, rfl⟩
    · exact ⟨rfl, rfl⟩
  · unfold applyStep
    dsimp only
    split
    · exact ⟨rfl, rfl⟩
    · exact ⟨rfl, rfl⟩
  · exact ⟨rfl, rfl⟩
  · exact ⟨rfl, rfl⟩

namespace SoundBut

variable {config : ControllerConfig ρ} {env : Env ρ} {turns : Nat} {hand : List (TxId × Bool)}
  {r : Runtimes} {id : ChatId} {chat : ChatRuntime}

/-- What the tick of a chat makes of it: it is filed as it is then, and where the puller lets its
turn go on, the turn does go on or has nobody to listen to it. -/
structure Ticked (env : Env ρ) (turns : Nat) (id : ChatId) (hand : List (TxId × Bool))
    (ended : Bool) (chat : ChatRuntime) (r : Runtimes) : Prop where
  sound : r.SoundBut env turns id ((chat.tx, chat.state.isOpen) :: hand)
  goes : ended = false → chat.state.isOpen = true ∨ Gone chat.tx r.emissions

/-- The event that a step of the puller comes to. -/
theorem emitStep {event : ControllerEvent} {ended : Bool} (hopen : chat.state.isOpen = !ended)
    (hevent : event.isTerminal = ended)
    (h : r.SoundBut env turns id ((chat.tx, true) :: hand)) :
    Ticked env turns id hand ended
      (applyReceiverDisconnectOverride
        (decide ((r.emit env chat.tx event).1 = .disconnected)) chat)
      (r.emit env chat.tx event).2 := by
  have hsent : (r.emit env chat.tx event).2.SoundBut env turns id
      ((chat.tx, chat.state.isOpen) :: hand) := by
    rw [hopen]
    rcases ended with _ | _
    · exact Sound.emit h event mem_cons_self hevent
    · exact Sound.emit_last h hevent
  by_cases hhung : env.trySend chat.tx r.emissions.length = .disconnected
  · have hgone : Gone chat.tx (r.emit env chat.tx event).2.emissions :=
      gone_offer.2 (.inr ⟨rfl, hhung⟩)
    have hdone : applyReceiverDisconnectOverride
        (decide ((r.emit env chat.tx event).1 = .disconnected)) chat =
          { chat with state := .completed .receiverDropped } := if_pos (decide_eq_true hhung)
    rw [hdone]
    exact ⟨⟨hsent.standing.mark false hgone, hsent.answers⟩, fun _ => .inr hgone⟩
  · have hkept : applyReceiverDisconnectOverride
        (decide ((r.emit env chat.tx event).1 = .disconnected)) chat = chat :=
      if_neg (by rw [decide_eq_true_eq]; exact hhung)
    rw [hkept]
    refine ⟨hsent, fun hgoes => .inl ?_⟩
    rw [hopen, hgoes]
    rfl

/-- The chunk of speech that was left over. -/
theorem offerSpeech (hgen : chat.state.isGenerating = true)
    (h : r.SoundBut env turns id ((chat.tx, true) :: hand)) :
    ((r.offerSpeech env chat).1 = true → (r.offerSpeech env chat).2.1.state.isOpen = true ∧
      (r.offerSpeech env chat).2.2.SoundBut env turns id
        (((r.offerSpeech env chat).2.1.tx, true) :: hand)) ∧
    ((r.offerSpeech env chat).1 = false → ∀ ended, Ticked env turns id hand ended
      (r.offerSpeech env chat).2.1 (r.offerSpeech env chat).2.2) := by
  have hopen := ChatRunState.isOpen_of_isGenerating hgen
  unfold Runtimes.offerSpeech
  split
  · next genStarted lastGenSpec chunk hstate =>
    have hsent : (r.emit env chat.tx (.speech chunk)).2.SoundBut env turns id
        ((chat.tx, true) :: hand) := Sound.emit h (.speech chunk) mem_cons_self rfl
    split
    · next r' hemit =>
      rw [hemit] at hsent
      exact ⟨fun _ => ⟨rfl, hsent⟩, nofun⟩
    · next r' hemit =>
      exact absurd (Prod.mk.inj hemit).1 (h.answers.never_full _ _)
    · next r' hemit =>
      have hgone : Gone chat.tx (r.emit env chat.tx (.speech chunk)).2.emissions :=
        gone_offer.2 (.inr ⟨rfl, (Prod.mk.inj hemit).1⟩)
      rw [hemit] at hsent hgone
      exact ⟨nofun, fun _ _ => ⟨⟨hsent.standing.mark false hgone, hsent.answers⟩,
        fun _ => .inr hgone⟩⟩
  · exact ⟨fun _ => ⟨hopen, h⟩, nofun⟩

/-- A chat's part of a tick. -/
theorem tickChat (config : ControllerConfig ρ) (hgen : chat.state.isGenerating = true)
    (h : r.SoundBut env turns id ((chat.tx, true) :: hand)) :
    Ticked env turns id hand (timedOut config env chat || (env.next chat.session).ends)
      (r.tickChat config env chat).1 (r.tickChat config env chat).2 := by
  unfold Runtimes.tickChat
  split
  · next htime =>
    rw [htime]
    exact ⟨Sound.emit_last h rfl, nofun⟩
  · next htime =>
    rw [Bool.not_eq_true] at htime
    rw [htime, Bool.false_or]
    obtain ⟨hon, hoff⟩ := h.offerSpeech hgen
    have hsession := (offerSpeech_frame env chat r).2.2.session
    split
    · next chat' r' hoffer =>
      rw [hoffer] at hoff
      exact hoff rfl _
    · next chat' r' hoffer =>
      rw [hoffer] at hon hsession
      obtain ⟨hopen, hsound⟩ := hon rfl
      rw [← hsession]
      have htx := (applyStep_sameTurn config env chat' (env.next chat'.session)).tx
      obtain ⟨hafter, hevent⟩ := applyStep_ends config env hopen (env.next chat'.session)
      rw [← htx] at hsound
      split
      · next chat'' happly =>
        rw [happly] at hafter hevent hsound
        have hgoes : (env.next chat'.session).ends = false := hevent.symm
        rw [hgoes] at hafter ⊢
        exact ⟨by rw [hafter]; exact hsound, fun _ => .inl hafter⟩
      · next event chat'' happly =>
        rw [happly] at hafter hevent hsound
        exact hsound.emitStep hafter hevent

end SoundBut

/-- The tick of a chat comes to its turn's end only where nobody listens to it. -/
def GoesOn (config : ControllerConfig ρ) (env : Env ρ) (r : Runtimes) (chat : ChatRuntime) : Prop :=
  env.trySend chat.tx r.emissions.length = .disconnected ∨
    timedOut config env chat = false ∧ (env.next chat.session).ends = false

theorem nodup_tickOrder (env : Env ρ) (r : Runtimes) : (r.tickOrder env).Nodup := by
  have hkeys : ((env.order.arrange r.chats.entries).map Sigma.fst).Nodup := by
    rw [((env.order.perm r.chats.entries).map _).nodup_iff]
    exact r.chats.nodupKeys
  unfold tickOrder
  generalize env.order.arrange r.chats.entries = entries at hkeys ⊢
  have hready := (filter_sublist
    (p := fun entry : (Sigma fun _ : ChatId => ChatRuntime) => !entry.2.state.isPaused &&
      !entry.2.state.isTerminal && entry.2.state.isGenerating) (l := entries)).map Sigma.fst
  generalize entries.filter _ = ready at hready ⊢
  have hperm := (filter_append_perm
    (fun entry : (Sigma fun _ : ChatId => ChatRuntime) => entry.2.workload.isSystemTask)
    ready).map Sigma.fst
  rw [map_append] at hperm
  exact ((perm_append_comm.trans hperm).nodup_iff).2 (hready.nodup hkeys)

theorem emissions_offerSpeech (env : Env ρ) (chat : ChatRuntime) (r : Runtimes) :
    r.emissions.length ≤ (r.offerSpeech env chat).2.2.emissions.length := by
  unfold offerSpeech
  split
  · next chunk _ =>
    have hemit := emissions_emit env chat.tx (.speech chunk) r
    split
    all_goals
      next heq =>
      rw [heq] at hemit
      exact hemit
  · exact le_refl _

theorem emissions_tickChat (config : ControllerConfig ρ) (env : Env ρ) (chat : ChatRuntime)
    (r : Runtimes) :
    r.emissions.length ≤ (r.tickChat config env chat).2.emissions.length := by
  unfold tickChat
  split
  · exact emissions_emit env _ _ r
  have hoffer := emissions_offerSpeech env chat r
  split
  · next heq =>
    rw [heq] at hoffer
    exact hoffer
  · next r' heq =>
    rw [heq] at hoffer
    split
    · exact hoffer
    · exact hoffer.trans (emissions_emit env _ _ r')

namespace Sound

variable {config : ControllerConfig ρ} {env : Env ρ} {turns : Nat} {hand : List (TxId × Bool)}

/-- The chats of a tick, of which those that are then to be removed have nobody to listen to them.
-/
theorem tickEach {ids toRemove : List ChatId} {r : Runtimes} (hnodup : (toRemove ++ ids).Nodup)
    (hlive : ∀ id ∈ toRemove, ∀ chat, r.chats.lookup id = some chat → Live env r chat)
    (hgoes : ∀ id ∈ ids, ∀ chat, r.chats.lookup id = some chat → chat.shouldTick = true →
      chat.workload.isSystemTask = true → GoesOn config env r chat)
    (h : r.Sound env turns hand) :
    (tickEach config env ids (r, toRemove)).1.Sound env turns hand ∧
      ∀ id ∈ (tickEach config env ids (r, toRemove)).2, ∀ chat,
        (tickEach config env ids (r, toRemove)).1.chats.lookup id = some chat →
          Live env (tickEach config env ids (r, toRemove)).1 chat := by
  induction ids generalizing r toRemove with
  | nil => exact ⟨h, hlive⟩
  | cons id ids ih =>
    have hskip : (toRemove ++ ids).Nodup :=
      hnodup.sublist ((sublist_cons_self id ids).append_left toRemove)
    have htail : ∀ id ∈ ids, ∀ chat, r.chats.lookup id = some chat → chat.shouldTick = true →
        chat.workload.isSystemTask = true → GoesOn config env r chat :=
      fun id' hid' => hgoes id' (mem_cons_of_mem _ hid')
    unfold Runtimes.tickEach
    split
    · exact ih hskip hlive htail h
    · next chat hid =>
      split
      · next htick =>
        have hopen := ChatRunState.isOpen_of_isGenerating htick
        have hout : r.SoundBut env turns id ((chat.tx, true) :: hand) := by
          rw [← hopen]
          exact h.erase hid
        have hticked := hout.tickChat config htick
        obtain ⟨hchats, -, hturn⟩ := tickChat_frame config env chat r
        have hle := emissions_tickChat config env chat r
        have hgo := hgoes id mem_cons_self chat hid htick
        generalize r.tickChat config env chat = ticked at hticked hchats hturn hle ⊢
        obtain ⟨chat', r'⟩ := ticked
        have hother : ∀ id' ≠ id, (r'.setChat id chat').chats.lookup id' = r.chats.lookup id' := by
          intro id' hne
          rw [setChat_chats, lookup_insert_ne hne, hchats]
        obtain ⟨hremoved, hids, hdisjoint⟩ := nodup_append.1 hnodup
        obtain ⟨hnotin, -⟩ := nodup_cons.1 hids
        have hold : ∀ id' ∈ toRemove, ∀ c, (r'.setChat id chat').chats.lookup id' = some c →
            Live env (r'.setChat id chat') c := by
          intro id' hid' c hc
          rw [hother id' (hdisjoint id' hid' id mem_cons_self)] at hc
          exact (hlive id' hid' c hc).mono h.answers hle
        refine ih ?_ ?_ ?_ ((hticked.sound.setChat chat').file (lookup_insert _))
        · split
          · rw [append_assoc]
            exact hnodup
          · exact hskip
        · split
          · next hclean =>
            intro id' hid' c hc
            rcases mem_append.1 hid' with hid' | hid'
            · exact hold id' hid' c hc
            rw [mem_singleton.1 hid', setChat_chats, lookup_insert] at hc
            cases hc
            unfold ChatRuntime.shouldCleanup at hclean
            rw [Bool.and_eq_true, hturn.workload] at hclean
            rcases hgo hclean.2 with hhung | ⟨htime, hends⟩
            · refine .inr ?_
              rw [hturn.tx]
              exact h.answers.stays _ _ _ hle hhung
            · refine (hticked.goes ?_).imp_right fun hgone => ?_
              · rw [htime, hends]
                rfl
              · exact hticked.sound.answers.gone _ hgone
          · exact hold
        · intro id' hid' c hc htick' htask
          have hne : id' ≠ id := by
            rintro rfl
            exact hnotin hid'
          rw [hother id' hne] at hc
          exact (htail id' hid' c hc htick' htask).imp_left fun hhung =>
            h.answers.stays _ _ _ hle hhung
      · exact ih hskip hlive htail h

theorem cleanUp {ids : List ChatId} {r : Runtimes}
    (hlive : ∀ id ∈ ids, ∀ chat, r.chats.lookup id = some chat → Live env r chat)
    (h : r.Sound env turns hand) : (r.cleanUp config env ids).Sound env turns hand := by
  induction ids generalizing r with
  | nil => exact h
  | cons id ids ih =>
    have hnow := hlive id mem_cons_self
    have hlater : ∀ id' ∈ ids, ∀ chat, r.chats.lookup id' = some chat → Live env r chat :=
      fun id' hid' => hlive id' (mem_cons_of_mem _ hid')
    refine ih ?_ ?_
    · dsimp only
      split
      · exact hlater
      · exact fun id' hid' => live_terminateRuntime h.answers (hlater id' hid')
    · dsimp only
      split
      · exact h
      · exact h.terminateRuntime hnow

/-- The chats of a tick, and their removal. -/
theorem tickGenerating {r : Runtimes}
    (hgoes : ∀ id chat, r.chats.lookup id = some chat → chat.shouldTick = true →
      chat.workload.isSystemTask = true → GoesOn config env r chat)
    (h : r.Sound env turns hand) : (r.tickGenerating config env).Sound env turns hand := by
  have hnodup : ([] ++ r.tickOrder env).Nodup := nodup_tickOrder env r
  have hticked := h.tickEach hnodup (fun _ hid => absurd hid not_mem_nil)
    (fun id _ => hgoes id)
  exact hticked.1.cleanUp hticked.2

end Sound

theorem lookup_terminateEach (config : ControllerConfig ρ) (env : Env ρ) (outcome : RuntimeOutcome)
    (ids : List ChatId) (id : ChatId) (r : Runtimes) :
    (r.terminateEach config env outcome ids).chats.lookup id =
      if id ∈ ids then none else r.chats.lookup id := by
  induction ids generalizing r with
  | nil => rfl
  | cons id' ids ih =>
    refine (ih _).trans ?_
    by_cases heq : id = id'
    · subst heq
      simp
    · simp [heq, lookup_erase_ne heq]

/-- A capture that has heard nothing for too long. -/
theorem isCapturingMicrophone_of_expired {config : ControllerConfig ρ} {env : Env ρ} {r : Runtimes}
    {id : ChatId} {chat : ChatRuntime} (hexpired : id ∈ r.expired config env)
    (hid : r.chats.lookup id = some chat) : chat.state.isCapturingMicrophone = true := by
  obtain ⟨entry, hentry, rfl⟩ := mem_map.1 hexpired
  obtain ⟨hmem, hcapturing⟩ := mem_filter.1 hentry
  have hlookup : r.chats.lookup entry.1 = some entry.2 :=
    mem_lookup_iff.2 ((env.order.perm _).mem_iff.1 hmem)
  obtain rfl := Option.some.inj (hid.symm.trans hlookup)
  exact (Bool.and_eq_true _ _ ▸ hcapturing).1

/-- A chat is refused, as it has a turn in flight, or may be opened: what it takes the place of may
be taken down, and so may the one that has to make room for it. -/
def Opens (config : ControllerConfig ρ) (env : Env ρ) (chatId : ChatId) (r : Runtimes) : Prop :=
  (∃ chat, r.chats.lookup chatId = some chat ∧ chat.state.isInFlight = true) ∨
    (∀ chat, r.chats.lookup chatId = some chat → Live env r chat) ∧
      let others : Runtimes := { r with chats := r.chats.erase chatId }
      config.maxActiveChats ≤ others.size → ∀ id chat, others.pickEvictionTarget env = some id →
        others.chats.lookup id = some chat → Live env r chat

end Runtimes

namespace ControllerState

open Runtimes (Live GoesOn Resumes refusedAfter)

/-- Every channel made so far is one of the chats', or settled. -/
def Orderly (s : ControllerState ρ) : Prop :=
  Standing ControllerEvent.isTerminal s.turns s.runtimes.standing s.runtimes.emissions

/-- Every chat may be taken down. -/
def AllLive (env : Env ρ) (s : ControllerState ρ) : Prop :=
  ∀ entry ∈ s.runtimes.chats.entries, Live env s.runtimes entry.2

/-- The model is unloaded for having been idle, if maintenance is done now. -/
def IdleUnloads (config : ControllerConfig ρ) (env : Env ρ) (s : ControllerState ρ) : Prop :=
  env.keepwarmEnabled = true ∧ (s.residency.slot .llm).isSome = true ∧
    (∃ timeout, env.idleUnloadSecs = some timeout ∧ 0 < timeout ∧
      timeout ≤ env.unixNow - s.lastLlmActivityUnix) ∧
    ∀ entry ∈ s.runtimes.chats.entries, entry.2.state.isInFlight = true →
      entry.1 ∈ s.runtimes.expired config env

/-- A chat that is there may be given another turn: the last one has ended, or has been left paused
by whoever listened to it, and one that is refused is no longer listened to if it would be ended
again. -/
def Continues (config : ControllerConfig ρ) (env : Env ρ) (newMessages : List Message)
    (genSpec : GenSpec) (chat : ChatRuntime) (s : ControllerState ρ) : Prop :=
  chat.state.allowsUserPullStart = false ∨
    (hasMicrophone newMessages && chat.state.isPaused) = true ∨
    (chat.state.isOpen = true → Gone chat.tx s.runtimes.emissions) ∧
      ∀ n, refusedAfter config env s.engine newMessages genSpec { chat with tx := s.turns } =
          some n → hasMicrophone newMessages = true ∨ chat.state.isOpen = true →
        env.trySend s.turns (s.runtimes.emissions.length + n) = .disconnected

/-- A round that ends no turn twice, and leaves none without its end. -/
def EndsTurnsOnce (config : ControllerConfig ρ) (s : ControllerState ρ) :
    Env ρ × Input ρ → Prop
  | (env, .command cmd) =>
    s.running = true → match cmd with
    | .loadModel load => (s.loadModel config env load).1.isOk = true → s.AllLive env
    | .unloadModel => s.AllLive env
    | .startChat chatId _ _ => s.runtimes.Opens config env chatId
    | .continueChat chatId newMessages _ genSpec => genSpec.requireFullContext = false →
      match s.runtimes.chats.lookup chatId with
      | some chat => s.Continues config env newMessages genSpec chat
      | none => s.runtimes.Opens config env chatId
    | .stopChat chatId =>
      ∀ chat, s.runtimes.chats.lookup chatId = some chat → Live env s.runtimes chat
    | .resumeChat chatId => Resumes env chatId s.runtimes
    | .systemInfer task chatId _ genSpec => s.runtimes.Files config env s.engine genSpec →
      ∀ old, s.runtimes.chats.lookup (s.runtimes.ephemeralId env task chatId) = some old →
        old.state.isOpen = false ∨ Gone old.tx s.runtimes.emissions
    | .shutdown => s.AllLive env
    | _ => True
  | (env, .tick) =>
    s.running = true → (s.Due env → s.IdleUnloads config env → s.AllLive env) ∧
      ∀ id chat, s.runtimes.chats.lookup id = some chat → chat.shouldTick = true →
        chat.workload.isSystemTask = true → GoesOn config env s.runtimes chat

section Operations

variable {config : ControllerConfig ρ} {env : Env ρ} {s : ControllerState ρ} {turns : Nat}
  {tx : TxId} {chatId : ChatId}

theorem sound_startChat {messages : List Message} {genSpec : GenSpec}
    (hopens : s.runtimes.Opens config env chatId)
    (h : s.runtimes.Sound env turns [(tx, true)]) :
    (s.startChat config env tx chatId messages genSpec).runtimes.Sound env turns [] := by
  unfold startChat
  dsimp only
  split
  · exact Runtimes.Sound.drop (h.emit_last rfl)
  · next hfree =>
    obtain ⟨hlive, hroom⟩ := hopens.resolve_left (by
      rintro ⟨chat, hid, hflight⟩
      rw [hid] at hfree
      simp [ChatRunState.allowsUserPullStart, hflight] at hfree)
    have h₁ : (s.runtimes.terminateRuntime config env chatId (.completed .evicted)).Sound env turns
        [(tx, true)] := h.terminateRuntime hlive
    have hchats : (s.runtimes.terminateRuntime config env chatId (.completed .evicted)).chats =
        s.runtimes.chats.erase chatId := terminateRuntime_chats config env chatId _ _
    have hle := emissions_terminateRuntime config env chatId (.completed .evicted)
      s.runtimes
    generalize s.runtimes.terminateRuntime config env chatId (.completed .evicted) = r₁
      at h₁ hchats hle ⊢
    have h₂ : (r₁.makeRoom config env).Sound env turns [(tx, true)] := by
      refine h₁.makeRoom fun hfull id chat hpick hid => ?_
      unfold size at hfull
      unfold pickEvictionTarget at hpick
      rw [hchats] at hfull hpick hid
      exact (hroom hfull id chat hpick hid).mono h.answers hle
    have hnone : (r₁.makeRoom config env).chats.lookup chatId = none := by
      rcases makeRoom_cases config env r₁ with ⟨heq, -⟩ | ⟨id, -, -, heq⟩
      · rw [heq, hchats]
        exact lookup_erase _ _
      rw [heq, terminateRuntime_chats, hchats]
      by_cases hid : chatId = id
      · rw [hid]
        exact lookup_erase _ _
      · rw [lookup_erase_ne hid]
        exact lookup_erase _ _
    have hwoken := maybeWakeLlm_runtimes config env
      ({ s with runtimes := r₁.makeRoom config env } : ControllerState ρ)
    rw [hwoken]
    exact h₂.openChat hnone

theorem sound_continueChat {newMessages transcript : List Message} {genSpec : GenSpec}
    (hcontinues : genSpec.requireFullContext = false →
      match s.runtimes.chats.lookup chatId with
      | some chat => s.Continues config env newMessages genSpec chat
      | none => s.runtimes.Opens config env chatId)
    (h : s.runtimes.Sound env turns [(s.turns, true)]) :
    (({ s with turns := s.turns + 1 } : ControllerState ρ).continueChat config env s.turns chatId
      newMessages transcript genSpec).runtimes.Sound env turns [] := by
  unfold continueChat
  split
  · exact Runtimes.Sound.drop (h.emit_last rfl)
  · next hpartial =>
    have hcont := hcontinues (Bool.eq_false_iff.2 hpartial)
    split
    · next chat hid =>
      rw [hid] at hcont
      split
      · exact Runtimes.Sound.drop (h.emit_last rfl)
      · next hstart =>
        rw [Bool.or_eq_true, not_or] at hstart
        rcases hcont with hno | hno | ⟨hleft, hrefused⟩
        · exact absurd (by rw [hno]; rfl) hstart.1
        · exact absurd hno hstart.2
        · exact h.continueTurn hid hleft hrefused
    · next hid =>
      rw [hid] at hcont
      exact sound_startChat (s := { s with turns := s.turns + 1 }) hcont h

theorem sound_loadModel {load : LoadModel ρ}
    (hlive : (s.loadModel config env load).1.isOk = true → s.AllLive env)
    (h : s.runtimes.Sound env turns []) :
    (s.loadModel config env load).2.runtimes.Sound env turns [] ∧
      (s.loadModel config env load).2.turns = s.turns := by
  have hframe := runLadder_frame config env load s
  have hladder := h.congr hframe.chats hframe.emissions
  unfold loadModel at hlive ⊢
  generalize s.runLadder config env load = ladder at hframe hladder hlive ⊢
  obtain ⟨message | outcome, s', bytes⟩ := ladder
  · exact ⟨hladder, hframe.turns⟩
  refine ⟨(hladder.drain fun entry hentry => ?_).withSessions _, hframe.turns⟩
  have hchats : s'.runtimes.chats = s.runtimes.chats := hframe.chats
  have hemissions : s'.runtimes.emissions = s.runtimes.emissions := hframe.emissions
  rw [hchats] at hentry
  unfold Live
  rw [hemissions]
  exact hlive rfl entry hentry

/-- An idle unload, where it is done. -/
theorem maybeIdleUnloadLlm_cases (config : ControllerConfig ρ) (env : Env ρ)
    (s : ControllerState ρ) :
    (s.maybeIdleUnloadLlm config env).runtimes = s.runtimes ∨
      s.IdleUnloads config env ∧
        (∀ entry ∈ s.runtimes.chats.entries, entry.2.state.isInFlight = false) ∧
        (s.maybeIdleUnloadLlm config env).runtimes =
          s.runtimes.drain config env (.completed .evicted) := by
  unfold maybeIdleUnloadLlm
  split
  · exact .inl rfl
  · next hheld =>
    obtain ⟨hwarm, hslot⟩ := not_or.1 hheld
    rw [Bool.not_eq_false] at hwarm
    rw [Option.isNone_iff_eq_none, ← ne_eq, Option.ne_none_iff_isSome] at hslot
    split
    · exact .inl rfl
    · next timeout htimeout =>
      rw [Option.filter_eq_some_iff, decide_eq_true_eq] at htimeout
      split
      · exact .inl rfl
      · next hnone =>
        have hidle : ∀ entry ∈ s.runtimes.chats.entries, entry.2.state.isInFlight = false := by
          intro entry hentry
          rw [Bool.not_eq_true, any_eq_false] at hnone
          exact Bool.eq_false_iff.2 (hnone entry hentry)
        split
        · exact .inl rfl
        · next helapsed =>
          refine .inr ⟨⟨hwarm, hslot, ⟨timeout, htimeout.1, htimeout.2, not_lt.1 helapsed⟩, ?_⟩,
            hidle, rfl⟩
          intro entry hentry hflight
          rw [hidle entry hentry] at hflight
          exact nomatch hflight

theorem turns_maybeIdleUnloadLlm (config : ControllerConfig ρ) (env : Env ρ)
    (s : ControllerState ρ) : (s.maybeIdleUnloadLlm config env).turns = s.turns := by
  unfold maybeIdleUnloadLlm
  split
  · rfl
  split
  · rfl
  · split
    · rfl
    · split <;> rfl

/-- Maintenance leaves the chats, but for the captures that have expired, or takes them all down
with a model that has been idle. -/
theorem maintain_cases (config : ControllerConfig ρ) (env : Env ρ) (s : ControllerState ρ) :
    (s.maintain config env).runtimes = s.runtimes ∨
      (s.maintain config env).runtimes = (s.expire config env).runtimes ∨
      s.Due env ∧ s.IdleUnloads config env ∧ (s.maintain config env).runtimes =
        (s.expire config env).runtimes.drain config env (.completed .evicted) := by
  unfold maintain
  split
  · next hdue =>
    have hslot : ∀ r : ResidencyInventory, r =
        (((s.expire config env).relieve env).residency.evictIdleHelpers env.unixNow
          residencyPolicy).2 → (r.slot .llm).isSome = true → (s.residency.slot .llm).isSome = true := by
      rintro r rfl hsome
      have hsame : ((((s.expire config env).relieve env).residency.evictIdleHelpers env.unixNow
          residencyPolicy).2).slot .llm = ((s.expire config env).relieve env).residency.slot .llm :=
        ResidencyInventory.slot_evictAll_of_notMem _ _ (by decide)
      rw [hsame] at hsome
      exact (((s.expire config env).residency.isSome_slot_llm_unloadForPressure _ _).1 hsome).1
    refine .inr ?_
    rcases maybeIdleUnloadLlm_cases config env _ with hsame | ⟨⟨hwarm, hsome, hlong, -⟩, hnone, heq⟩
    · exact .inl hsame
    refine .inr ⟨hdue, ⟨hwarm, hslot _ rfl hsome, hlong, fun entry hentry hflight => ?_⟩, heq⟩
    by_contra hkept
    have hthere : entry ∈ (s.expire config env).runtimes.chats.entries := by
      unfold expire
      rw [mem_entries_iff, lookup_terminateEach, if_neg hkept]
      exact mem_entries_iff.1 hentry
    rw [hnone entry hthere] at hflight
    exact nomatch hflight
  · exact .inl rfl

theorem turns_maintain (config : ControllerConfig ρ) (env : Env ρ) (s : ControllerState ρ) :
    (s.maintain config env).turns = s.turns := by
  unfold maintain
  split
  · exact turns_maybeIdleUnloadLlm config env _
  · rfl

theorem sound_maintain (hlive : s.Due env → s.IdleUnloads config env → s.AllLive env)
    (h : s.runtimes.Sound env turns []) :
    (s.maintain config env).runtimes.Sound env turns [] ∧
      s.runtimes.emissions.length ≤ (s.maintain config env).runtimes.emissions.length ∧
      ∀ id chat, (s.maintain config env).runtimes.chats.lookup id = some chat →
        s.runtimes.chats.lookup id = some chat := by
  have hexpired : ∀ id ∈ s.runtimes.expired config env, ∀ chat,
      s.runtimes.chats.lookup id = some chat → Live env s.runtimes chat :=
    fun id hmem chat hid => .inl (ChatRunState.isOpen_of_isCapturingMicrophone
      (isCapturingMicrophone_of_expired hmem hid))
  have hexpire : (s.expire config env).runtimes.Sound env turns [] := h.terminateEach hexpired
  have hle : s.runtimes.emissions.length ≤ (s.expire config env).runtimes.emissions.length :=
    emissions_terminateEach config env _ _ _
  have hlookup : ∀ id chat, (s.expire config env).runtimes.chats.lookup id = some chat →
      s.runtimes.chats.lookup id = some chat := by
    intro id chat hid
    unfold expire at hid
    rw [lookup_terminateEach] at hid
    split at hid
    · exact nomatch hid
    · exact hid
  rcases maintain_cases config env s with heq | heq | ⟨hdue, hidle, heq⟩
  · rw [heq]
    exact ⟨h, le_refl _, fun _ _ hid => hid⟩
  · rw [heq]
    exact ⟨hexpire, hle, hlookup⟩
  rw [heq]
  refine ⟨hexpire.drain fun entry hentry => ?_, ?_, fun id chat hid => ?_⟩
  · have hthere := mem_entries_iff.2 (hlookup _ _ (mem_entries_iff.1 hentry))
    exact (hlive hdue hidle entry hthere).mono h.answers hle
  · exact hle.trans (emissions_drain config env _ _)
  · rw [drain_chats] at hid
    exact nomatch hid

theorem sound_tick (hlive : s.Due env → s.IdleUnloads config env → s.AllLive env)
    (hgoes : ∀ id chat, s.runtimes.chats.lookup id = some chat → chat.shouldTick = true →
      chat.workload.isSystemTask = true → GoesOn config env s.runtimes chat)
    (h : s.runtimes.Sound env turns []) :
    (s.tickActiveChats config env).runtimes.Sound env turns [] := by
  obtain ⟨hsound, hle, hlookup⟩ := sound_maintain hlive h
  refine hsound.tickGenerating fun id chat hid htick htask => ?_
  exact (hgoes id chat (hlookup id chat hid) htick htask).imp_left fun hhung =>
    h.answers.stays _ _ _ hle hhung

end Operations

theorem turns_startChat (config : ControllerConfig ρ) (env : Env ρ) (tx : TxId) (chatId : ChatId)
    (messages : List Message) (genSpec : GenSpec) (s : ControllerState ρ) :
    (s.startChat config env tx chatId messages genSpec).turns = s.turns := by
  unfold startChat
  split
  · rfl
  · obtain ⟨woken, hwoken, -⟩ := maybeWakeLlm_reloaded config env
      ({ s with runtimes := (s.runtimes.terminateRuntime config env chatId
        (.completed .evicted)).makeRoom config env } : ControllerState ρ)
    exact hwoken.turns

theorem turns_continueChat (config : ControllerConfig ρ) (env : Env ρ) (tx : TxId)
    (chatId : ChatId) (newMessages transcript : List Message) (genSpec : GenSpec)
    (s : ControllerState ρ) :
    (s.continueChat config env tx chatId newMessages transcript genSpec).turns = s.turns := by
  unfold continueChat
  split
  · rfl
  · split
    · split <;> rfl
    · exact turns_startChat config env tx chatId _ genSpec s

theorem turns_applySettings (config : ControllerConfig ρ) (settings : EngineSettings ρ)
    (s : ControllerState ρ) : (s.applySettings config settings).2.turns = s.turns := by
  unfold applySettings
  split <;> rfl

theorem turns_loadHelper (env : Env ρ) (helper : Helper) (modelPath : String)
    (s : ControllerState ρ) : (s.loadHelper env helper modelPath).2.turns = s.turns := by
  unfold loadHelper
  dsimp only
  split
  · rfl
  · split
    · rfl
    · split <;> rfl

/-- What does not touch the chats and is given no turn. -/
theorem Orderly.of_same {s s' : ControllerState ρ} (h : s.Orderly)
    (hruntimes : s'.runtimes = s.runtimes) (hturns : s'.turns = s.turns) : s'.Orderly := by
  unfold Orderly
  rw [hruntimes, hturns]
  exact h

/-- What leaves the channels as they should be. -/
theorem Orderly.of_sound {env : Env ρ} {s : ControllerState ρ} {turns : Nat}
    (h : s.runtimes.Sound env turns []) (hturns : s.turns = turns) : s.Orderly := by
  unfold Orderly
  rw [hturns]
  exact h.standing

theorem orderly_initial (engine : Engine ρ) (unixNow : Int) :
    (initial engine unixNow).Orderly := .nil

/-- **One round.** -/
theorem Orderly.step {config : ControllerConfig ρ} {i : Env ρ × Input ρ} {s s' : ControllerState ρ}
    (h : s.Orderly) (hans : Answers i.1.trySend s.runtimes.emissions)
    (hi : s.EndsTurnsOnce config i) (hs : Controller.step config i s = some s') : s'.Orderly := by
  cases hs
  split
  · next hrunning =>
    rcases i with ⟨env, cmd | _⟩
    · have hsound : s.runtimes.Sound env s.turns [] := ⟨h, hans⟩
      have hfresh : s.runtimes.Sound env (s.turns + 1) [(s.turns, true)] := ⟨h.fresh, hans⟩
      have hcmd := hi hrunning
      cases cmd with
      | loadModel load =>
        obtain ⟨hload, hturns⟩ := sound_loadModel hcmd hsound
        exact .of_sound hload hturns
      | applySettings settings =>
        exact h.of_same (applySettings_runtimes config settings s)
          (turns_applySettings config settings s)
      | loadHelper helper modelPath =>
        exact h.of_same (loadHelper_runtimes env helper modelPath s)
          (turns_loadHelper env helper modelPath s)
      | unloadModel =>
        refine .of_sound (hsound.terminateEach fun id _ chat hid => ?_) rfl
        exact hcmd ⟨id, chat⟩ (mem_entries_iff.2 hid)
      | reloadModel =>
        have hreloaded := reloadWithAdmission_reloaded config env s
        exact h.of_same hreloaded.runtimes hreloaded.turns
      | useHelper helper => exact h
      | startChat chatId messages genSpec =>
        exact .of_sound (sound_startChat (s := { s with turns := s.turns + 1 }) hcmd hfresh)
          (turns_startChat config env _ _ _ _ _)
      | continueChat chatId newMessages transcript genSpec =>
        exact .of_sound (sound_continueChat hcmd hfresh) (turns_continueChat config env _ _ _ _ _ _)
      | pushMicrophone chatId => exact .of_sound hsound.pushMicrophone rfl
      | commitMicrophone chatId => exact .of_sound hsound.commitMicrophone rfl
      | stopChat chatId => exact .of_sound (hsound.terminateRuntime hcmd) rfl
      | pauseChat chatId => exact .of_sound hsound.pauseChat rfl
      | resumeChat chatId => exact .of_sound (hsound.resumeChat hcmd) rfl
      | systemInfer task chatId messages genSpec =>
        exact .of_sound (hfresh.startEphemeral hcmd) rfl
      | query => exact h
      | shutdown => exact .of_sound (hsound.drain hcmd) rfl
    · obtain ⟨hlive, hgoes⟩ := hi hrunning
      exact .of_sound (sound_tick hlive hgoes ⟨h, hans⟩) (turns_maintain config env s)
  · exact h

/-- A turn is in flight, or paused. -/
def InFlight (tx : TxId) (s : ControllerState ρ) : Prop :=
  ∃ entry ∈ s.runtimes.chats.entries, entry.2.tx = tx ∧ entry.2.state.isOpen = true

/-- A turn's channel is well formed: it has had one terminal event at most and nothing after it, and
has had one if the turn has ended and was not left by whoever listened to it. -/
structure TurnSound (tx : TxId) (s : ControllerState ρ) : Prop where
  once : (received tx s.runtimes.emissions).countP ControllerEvent.isTerminal ≤ 1
  last : ∀ before event after, received tx s.runtimes.emissions = before ++ event :: after →
    event.isTerminal = true → after = []
  ended : ¬ s.InFlight tx → ¬ Gone tx s.runtimes.emissions →
    (received tx s.runtimes.emissions).countP ControllerEvent.isTerminal = 1

theorem Orderly.turnSound {s : ControllerState ρ} (h : s.Orderly) {tx : TxId} (htx : tx < s.turns) :
    s.TurnSound tx where
  once := h.count_le_one
  last _ _ _ heq hevent := h.nothing_after heq hevent
  ended hdone hlisten := by
    refine h.count_eq_one htx (fun hmem => hdone ?_) hlisten
    obtain ⟨entry, hentry, heq⟩ := mem_map.1 hmem
    obtain ⟨htx', hopen⟩ := Prod.mk.inj heq
    exact ⟨entry, hentry, htx', hopen⟩

theorem answers_smooth {offers : List Emission} (h : ∀ o ∈ offers, o.result = .sent) :
    Answers (Env.smooth Unit).trySend offers where
  never_full _ _ := nofun
  stays _ _ _ _ h := nomatch h
  gone := by
    rintro tx ⟨o, ho, -, hgone⟩
    exact nomatch (h o ho).symm.trans hgone

theorem opens_of_isEmpty {config : ControllerConfig ρ} {env : Env ρ} {chatId : ChatId}
    {r : Runtimes} (h : r.chats.entries.isEmpty = true) : r.Opens config env chatId := by
  have hnone : r.chats = ∅ := ext (isEmpty_iff.1 h)
  have hno : ∀ id chat, r.chats.lookup id ≠ some chat := by
    intro id chat hid
    rw [hnone, lookup_empty] at hid
    exact nomatch hid
  refine .inr ⟨fun chat hid => absurd hid (hno _ _), fun _ id chat _ hid => ?_⟩
  rw [erase_of_notMem (lookup_eq_none.1 (Option.eq_none_iff_forall_ne_some.2 (hno _)))] at hid
  exact absurd hid (hno _ _)

end ControllerState

end Gen2.Controller
