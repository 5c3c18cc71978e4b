import Gen2.Chat.Agreement

/-!
# Coming back to an engine

A session that has been run on one engine, and then on another, finds the first one's binding parked
when it comes back.  If the digest still fits, the turn appends to what that engine holds: the
beginning it was sent, *and* the reply it generated after it.  The digest covers only the first.

* `Follows` says that a session which shows a beginning shows a given record right after it, and
  `Keeps` that a change does not spoil that for any beginning of older records.  Appending keeps it
  (`keeps_push`): the new id occurs in no older beginning.
* `ReplyAt` is the invariant of one engine, `Returning` the invariant of the whole.
* An edit can spoil it, by taking the reply away and leaving what is before it in place; what the
  code checks of the record after the beginning is only its role.  `StepKeeps` excludes such edits.
* `returns_safely` is the outcome: in every run of `StepKeeps` steps, a turn that continues finds
  what the engine holds at the beginning of the transcript, and any other turn starts from the
  beginning.
-/

namespace Gen2
namespace Chat

open Lib List
open Session (SameTalk OpensNothing SameEngines Lead)

/-! ## The record after a beginning -/

/-- Where the session shows this beginning, this record comes right after it. -/
def Follows (s : Session) (lead : Lead) (p : MessageId × Message) : Prop :=
  s.lead lead.length = lead → s.entries[lead.entries.length]? = some p

/-- A change that keeps what follows the beginnings there were. -/
def Keeps (s t : Session) : Prop :=
  s.nextId ≤ t.nextId ∧ ∀ (lead : Lead) (p : MessageId × Message),
    (∀ q ∈ lead.entries, q.1 < s.nextId) → Follows s lead p → Follows t lead p

theorem Keeps.refl (s : Session) : Keeps s s := ⟨Nat.le_refl _, fun _ _ _ h => h⟩

variable {s : Session}

theorem Keeps.trans {t u : Session} (h : Keeps s t) (h' : Keeps t u) : Keeps s u :=
  ⟨h.1.trans h'.1, fun lead p hq hf =>
    h'.2 lead p (fun q hmem => Nat.lt_of_lt_of_le (hq q hmem) h.1) (h.2 lead p hq hf)⟩

theorem keeps_of_sameTalk {t : Session} (h : SameTalk s t) : Keeps s t := by
  refine ⟨Nat.le_of_eq h.nextId.symm, fun lead p _ hf hlead => ?_⟩
  rw [h.lead] at hlead
  rw [h.entries]
  exact hf hlead

/-- The invariant of one engine.  Where its conversation is open, and a runtime holds it, the
records it was given are among the session's; the reply it generated has been recorded, and follows
what it was given. -/
def ReplyAt (s : Session) (engine : Nat) (e : Engine) (given : Option Given) : Prop :=
  (s.bindingOf engine).opened = true → ∀ r, e.chats.lookup s.id = some r →
    ∀ g, given = some g → (∀ q ∈ g.lead.entries, q.1 < s.nextId) ∧
      ∃ p, g.reply = some p ∧ r.reply = some p.2 ∧ Follows s g.lead p

variable {e : Engine} {given : Option Given}

theorem ReplyAt.keeps {t : Session} {engine : Nat} (h : ReplyAt s engine e given)
    (ho : OpensNothing s t) (hk : Keeps s t) : ReplyAt t engine e given := by
  intro hopened r hr g hg
  obtain ⟨hid, hb⟩ := ho engine hopened
  obtain ⟨hfresh, p, hp, hreply, hf⟩ := h (hb ▸ hopened) r (hid ▸ hr) g hg
  exact ⟨fun q hq => Nat.lt_of_lt_of_le (hfresh q hq) hk.1, p, hp, hreply, hk.2 _ p hfresh hf⟩

theorem ReplyAt.of_closed {engine : Nat} (hb : s.boundEngine = some engine)
    (hclosed : s.opened = false) : ReplyAt s engine e given := by
  intro hopened
  rw [Session.bindingOf, if_pos hb] at hopened
  rw [show s.opened = true from hopened] at hclosed
  cases hclosed

/-- Where the runtime is gone there is nothing to keep. -/
theorem ReplyAt.of_erased {engine : Nat} (h : e.chats.lookup s.id = none) :
    ReplyAt s engine e given := by
  intro _ r hr
  rw [h] at hr
  cases hr

theorem ReplyAt.engine {engine : Nat} {e' : Engine} (h : ReplyAt s engine e given)
    (hchats : ∀ r, e'.chats.lookup s.id = some r → e.chats.lookup s.id = some r) :
    ReplyAt s engine e' given :=
  fun hopened r hr => h hopened r (hchats r hr)

/-- What comes after a beginning, with the beginning, is a beginning. -/
theorem lead_append_prefix (h : s.active.length = s.projection.length) {lead : Lead}
    (hlead : s.lead lead.length = lead) (hpos : 0 < lead.length) {p : MessageId × Message}
    (hp : s.entries[lead.entries.length]? = some p) : lead.messages ++ [p.2] <+: s.transcript := by
  have hsystem : lead.system = s.system := by
    rw [← hlead, Session.lead, if_pos hpos]
  have hbeginning : lead.entries <+: s.entries := by
    rw [← hlead]
    exact List.take_prefix ..
  have hentries := List.prefix_iff_eq_take.1 hbeginning
  obtain ⟨hlt, hget⟩ := List.getElem?_eq_some_iff.1 hp
  have hnext : lead.entries ++ [p] <+: s.entries := by
    have htake := List.take_append_getElem hlt
    rw [hget, ← hentries] at htake
    exact htake ▸ List.take_prefix ..
  have hmessages : lead.messages ++ [p.2] =
      (s.system.map Message.system).toList ++ (lead.entries ++ [p]).map (·.2) := by
    rw [Lead.messages, hsystem, List.map_append, List.append_assoc]
    rfl
  have htranscript : s.transcript =
      (s.system.map Message.system).toList ++ s.entries.map (·.2) := by
    rw [Session.entries_map_snd h, Session.transcript, Session.transcriptWithSystem]
  rw [hmessages, htranscript]
  exact (List.prefix_append_right_inj _).2 (hnext.map _)

section
variable [SerdeJson]

variable {s : Session}

theorem push_entries (h : s.active.length = s.projection.length) (m : Message) :
    (s.push m).2.entries = s.entries ++ [(s.nextId, m)] :=
  zip_append h

/-- **Appending keeps what follows**: a beginning that takes in the new message has a new id in it.
-/
theorem keeps_push (h : s.Live) (m : Message) : Keeps s (s.push m).2 := by
  refine ⟨Nat.le_succ _, fun lead p hfresh hf hlead => ?_⟩
  have hentries := push_entries h.length_active m
  rw [Session.lead, hentries] at hlead
  have hsys : (s.push m).2.system = s.system := rfl
  rw [hsys] at hlead
  rw [hentries]
  generalize hk : (lead.length - if s.system.isSome then 1 else 0) = k at hlead
  by_cases hlen : k ≤ s.entries.length
  · have hs : s.lead lead.length = lead := by
      rw [take_append_of_le_length hlen] at hlead
      rw [Session.lead, hk]
      exact hlead
    have hget := hf hs
    rw [List.getElem?_append_left (List.getElem?_eq_some_iff.1 hget).1]
    exact hget
  · have hmem : (s.nextId, m) ∈ lead.entries := by
      rw [← hlead]
      dsimp only
      rw [take_of_length_le (by rw [length_append, length_singleton]; omega)]
      exact mem_append_right _ (mem_singleton_self _)
    exact absurd (hfresh _ hmem) (Nat.lt_irrefl _)

theorem keeps_pushAll (h : s.Live) (ms : List Message) : Keeps s (pushAll s ms) := by
  induction ms generalizing s with
  | nil => exact Keeps.refl s
  | cons m ms ih => exact (keeps_push h m).trans (ih (Session.live_push h m))

/-! ## The invariant -/

/-- The invariant of the whole. -/
structure Returning (w : World) : Prop where
  agreed : Agreed w
  replied : ∀ engine, ReplyAt w.session engine (w.engines engine) (w.given engine)

variable {e : Engine} {t : TurnSpec} {cmd : Cmd}

theorem Begun.keeps {engine : Nat} {s' : Session} (hl : s.Live) (h : Begun e engine t s cmd s') :
    Keeps s s' :=
  (keeps_pushAll hl t.staged).trans (keeps_of_sameTalk h.talk)

/-- The command is about the session it was begun with. -/
theorem Begun.cmd_cases {engine : Nat} {s' : Session} (h : Begun e engine t s cmd s') :
    (s'.opened = false ∧ ∃ messages thinking tools,
      cmd = .startChat s'.id messages thinking tools) ∨
    ∃ messages transcript thinking tools,
      cmd = .continueChat s'.id messages transcript thinking tools := by
  by_cases hopened : s'.opened = true
  · obtain ⟨tools, rfl⟩ := h.continue hopened
    exact .inr ⟨_, _, _, _, rfl⟩
  · obtain ⟨tools, rfl⟩ := h.start (by simpa using hopened)
    exact .inl ⟨by simpa using hopened, _, _, _, rfl⟩

theorem keeps_complete (hl : s.Live) (t : TurnSpec) (reply : Option Message) (shed : Nat)
    (stopped : Bool) : Keeps s (complete t s reply shed stopped) := by
  have hshed : SameTalk s (s.noteShed shed) := ⟨rfl, rfl, rfl, rfl, rfl, rfl⟩
  have hreply : ∃ u, Keeps s u ∧ complete t s reply shed stopped =
      if t.via = .turn ∧ (stopped = true ∨ t.perTurnPrefix = true) then { u with opened := false }
        else u := by
    cases reply with
    | none => exact ⟨_, keeps_of_sameTalk hshed, rfl⟩
    | some m =>
      exact ⟨_, (keeps_of_sameTalk hshed).trans (keeps_push (hshed.live hl) m), rfl⟩
  obtain ⟨u, hu, heq⟩ := hreply
  rw [heq]
  split
  · exact hu.trans (keeps_of_sameTalk ⟨rfl, rfl, rfl, rfl, rfl, rfl⟩)
  · exact hu

/-- What is shown after a turn that was read to its end: what was shown, and the reply. -/
theorem complete_entries (hl : s.Live) (t : TurnSpec) (reply : Message) (shed : Nat)
    (stopped : Bool) : (complete t s (some reply) shed stopped).entries =
      s.entries ++ [(s.nextId,
        reply)] ∧ (complete t s (some reply) shed stopped).system = s.system ∧
      (complete t s (some reply) shed stopped).nextId = s.nextId + 1 := by
  have hentries := push_entries (s := s.noteShed shed) hl.length_active reply
  have heq : complete t s (some reply) shed stopped =
      if t.via = .turn ∧ (stopped = true ∨ t.perTurnPrefix = true) then
        { ((s.noteShed shed).push reply).2 with opened := false }
      else ((s.noteShed shed).push reply).2 := rfl
  rw [heq]
  split
  · exact ⟨hentries, rfl, rfl⟩
  · exact ⟨hentries, rfl, rfl⟩

/-! ## The steps that keep it -/

/-- Where a runtime holds a conversation that is open after a change, its reply still follows what
it was given. -/
def KeepsReplies (w : World) (t : Session) : Prop :=
  ∀ engine, (t.bindingOf engine).opened = true → ∀ r,
    (w.engines engine).chats.lookup t.id = some r →
    ∀ g p, w.given engine = some g → g.reply = some p → Follows t g.lead p

/-- The steps of a run that comes back safely.  No edit takes an engine's reply away and leaves what
is before it in place, no continuation is left behind, and no two digests collide. -/
def StepKeeps (w : World) : Step → Prop
  | .edit op => ∀ t, Session.apply op w.session = some t → KeepsReplies w t
  | .turn engine t o => NoCollision w engine t ∧
      (∀ media s, w.begins engine t = some (.error media, s) → KeepsReplies w s) ∧
      ∀ id new transcript thinking tools s,
        w.begins engine t = some (.ok (.continueChat id new transcript thinking tools), s) →
        o.leavesBehind ((w.engines engine).chats.lookup id).isSome = false
  | _ => True

variable {w : World}

theorem StepKeeps.stepOk {i : Step} (h : StepKeeps w i) : StepOk w i := by
  cases i with
  | turn engine t o =>
    exact ⟨h.1,
      fun id new transcript thinking tools s hb _ => h.2.2 id new transcript thinking tools s hb⟩
  | edit op | noteTools fingerprint | evict engine id | forget engine id
  | swapModel engine capabilities => trivial

/-! ## One step -/

/-- A change of one engine, and of the session, that keeps what follows. -/
theorem replied_update (h : Returning w) {engine : Nat} {u : Session}
    (hb : Begun (w.engines engine) engine t w.session cmd s) (hid : u.id = s.id)
    (hsame : SameEngines s u) (hk : Keeps s u) {given : Option Given}
    (hat : ReplyAt u engine e given) (engine' : Nat) :
    ReplyAt u engine' (Function.update w.engines engine e engine')
      (Function.update w.given engine given engine') := by
  by_cases heq : engine' = engine
  · subst heq
    rw [Function.update_self, Function.update_self]
    exact hat
  rw [Function.update_of_ne heq, Function.update_of_ne heq]
  intro hopened r hr
  obtain ⟨hid', hbinding⟩ := hb.others hid hsame engine' heq hopened
  have hreply := h.replied engine' (hbinding ▸ hopened) r (hid' ▸ hr)
  intro g hg
  obtain ⟨hfresh, p, hp, hrp, hf⟩ := hreply g hg
  have hkeeps := (hb.keeps h.agreed.live).trans hk
  exact ⟨fun q hq => Nat.lt_of_lt_of_le (hfresh q hq) hkeeps.1, p, hp, hrp,
    hkeeps.2 _ p hfresh hf⟩

/-- A settled turn: the runtime's reply is recorded right after what was acknowledged, which is all
there was. -/
theorem replyAt_settled (hl : s.Live) {engine : Nat} {delivered : Nat} {reply : Message}
    {shed : Nat} (hall : s.transcriptLen ≤ (if s.opened then e.sent s.id else 0) + delivered)
    {u : Session}
    (hu : u = complete t (({ s with opened := true } : Session).recordPrefix
      ((if s.opened then e.sent s.id else 0) + delivered)) (some reply) shed false) {e' : Engine}
    (hreply : ∀ r, e'.chats.lookup s.id = some r → r.reply = some reply) :
    ReplyAt u engine e' (some (givenAfter e s delivered (some reply))) := by
  generalize hcount : (if s.opened then e.sent s.id else 0) + delivered = count at *
  let v : Session := ({ s with opened := true } : Session).recordPrefix count
  have hlv : v.Live := (⟨rfl, rfl, rfl, rfl, rfl, rfl⟩ : SameTalk s v).live hl
  obtain ⟨hentries, -, hnext⟩ := complete_entries hlv t reply shed false
  obtain ⟨-, -, -, hid, -⟩ := complete_spec hlv t (some reply) shed false
  have hgiven : givenAfter e s delivered (some reply) =
      ⟨s.lead count, s.offeredFingerprint, some (s.nextId, reply)⟩ := by
    rw [← hcount]
    rfl
  subst hu
  intro _ r hr g hg
  cases hg
  rw [hgiven, Session.lead_all hl.length_active hall]
  refine ⟨fun q hq => ?_, _, rfl, hreply r (hid ▸ hr), fun _ => ?_⟩
  · rw [hnext]
    have hmem : q.1 ∈ s.active := (of_mem_zip (show (q.1, q.2) ∈ _ from hq)).1
    have hlt : (q.1 : Nat) < s.records.length := hl.ok.active_lt q.1 hmem
    have hsnext : s.nextId = s.records.length := hl.ok.nextId
    exact Nat.lt_succ_of_lt (hsnext ▸ hlt)
  · rw [hentries]
    exact getElem?_concat_length ..

/-- A turn that is read to its end keeps the invariant of its engine, or closes it. -/
theorem replyAt_finished (h : Returning w) {engine : Nat}
    (hb : Begun (w.engines engine) engine t w.session cmd s) {reply : Message} {shed : Nat}
    {chats : AList (fun _ : SessionId => Runtime)} {delivered : Nat}
    (hhandle : handle (w.engines engine).chats cmd (.finished reply shed) = (chats, some delivered))
    (engine' : Nat) :
    let w' := w.settled engine t { w.engines engine with chats := chats } s (some delivered)
      (some reply) shed false
    ReplyAt w'.session engine' (w'.engines engine') (w'.given engine') := by
  let count := (if s.opened then ({ w.engines engine with chats := chats } : Engine).sent s.id else 0) +
    delivered
  let v : Session := ({ s with opened := true } : Session).recordPrefix count
  have hv : SameTalk s v := ⟨rfl, rfl, rfl, rfl, rfl, rfl⟩
  have hlv : v.Live := hv.live hb.live
  obtain ⟨-, -, hsame, hid, -, hopen⟩ := complete_spec hlv t (some reply) shed false
  have hsame' : SameEngines s (complete t v (some reply) shed false) := hsame
  refine replied_update h hb hid hsame'
    ((keeps_of_sameTalk hv).trans (keeps_complete hlv t (some reply) shed false)) ?_ engine'
  by_cases hcloses : (complete t v (some reply) shed false).opened = true
  · have hkeepsOpen := (hopen hcloses).2
    refine replyAt_settled hb.live ?_ rfl fun r hr => ?_
    · -- everything has been acknowledged
      by_cases hopened : s.opened = true
      · obtain ⟨tools, rfl⟩ := hb.continue hopened
        rw [if_pos hopened]
        have hlen := s.length_transcript
        have hsent : ({ w.engines engine with chats := chats } : Engine).sent s.id =
          (w.engines engine).sent s.id := rfl
        rw [handle] at hhandle
        split at hhandle
        · obtain ⟨-, hd⟩ := Prod.mk.inj hhandle
          rw [← Option.some.inj hd, length_drop]
          omega
        · obtain ⟨-, hd⟩ := Prod.mk.inj hhandle
          rw [← Option.some.inj hd, take_append_drop]
          omega
      · have hclosed : s.opened = false := by simpa using hopened
        obtain ⟨tools, rfl⟩ := hb.start hclosed
        obtain ⟨-, hd⟩ := Prod.mk.inj hhandle
        have hover : t.systemOverride = none := by
          cases hover : t.systemOverride with
          | none => rfl
          | some x =>
            obtain ⟨hvia, hper⟩ := t.overrideIsPerTurn (by rw [hover]; rfl)
            exact absurd ⟨hvia, .inr hper⟩ hkeepsOpen
        rw [← Option.some.inj hd, hover, ← s.length_transcript]
        exact Nat.le_add_left ..
    · have hchats : (handle (w.engines engine).chats cmd (.finished reply shed)).1.lookup s.id =
          some r := by
        rw [hhandle]
        exact hr
      rcases hb.cmd_cases with ⟨-, messages, thinking, tools, rfl⟩ |
        ⟨messages, transcript, thinking, tools, rfl⟩
      · rw [handle, startChat, AList.lookup_insert] at hchats
        cases hchats
        rfl
      rw [handle] at hchats
      split at hchats
      · rw [continueRuntime, AList.lookup_insert] at hchats
        cases hchats
        rfl
      · rw [startChat, AList.lookup_insert] at hchats
        cases hchats
        rfl
  · exact ReplyAt.of_closed (hsame'.1.trans hb.bound) (by simpa using hcloses)

/-- A turn that is not read to its end, or is stopped. -/
theorem replied_finishTurn (h : Returning w) {engine : Nat}
    (hb : Begun (w.engines engine) engine t w.session cmd s) {o : Outcome}
    (hleft : ∀ id new transcript thinking tools,
      cmd = .continueChat id new transcript thinking tools →
      o.leavesBehind ((w.engines engine).chats.lookup id).isSome = false) (engine' : Nat) :
    ReplyAt (w.finishTurn engine t cmd s o).session engine'
      ((w.finishTurn engine t cmd s o).engines engine')
      ((w.finishTurn engine t cmd s o).given engine') := by
  have hgiven : w.given = Function.update w.given engine (w.given engine) :=
    (Function.update_eq_self ..).symm
  -- the session as it was begun, with its binding and the runtimes untouched
  have hsame : ReplyAt s engine (w.engines engine) (w.given engine) :=
    (h.replied engine).keeps hb.opens (hb.keeps h.agreed.live)
  have hkeep : ∀ chats : AList (fun _ : SessionId => Runtime),
      ReplyAt s engine { w.engines engine with chats := chats } (w.given engine) →
      ReplyAt s engine' (Function.update w.engines engine { w.engines engine with chats := chats }
        engine') (w.given engine') := by
    intro chats hat
    rw [hgiven]
    exact replied_update h hb rfl ⟨rfl, rfl⟩ (Keeps.refl s) hat engine'
  have hclosed : s.opened = false → ∀ chats : AList (fun _ : SessionId => Runtime),
      ReplyAt s engine { w.engines engine with chats := chats } (w.given engine) :=
    fun hc _ => ReplyAt.of_closed hb.bound hc
  cases o with
  | undelivered | refused =>
    refine hkeep _ (hsame.engine fun r hr => ?_)
    rcases hb.cmd_cases with ⟨-, _, _, _, rfl⟩ | ⟨_, _, _, _, rfl⟩
    · exact hr
    · dsimp only at hr
      split at hr
      · exact hr
      · exact hr
  | failed appended =>
    rcases hb.cmd_cases with ⟨hc, _, _, _, rfl⟩ | ⟨_, _, _, _, rfl⟩
    · exact hkeep _ (hclosed hc _)
    have hno := hleft _ _ _ _ _ rfl
    simp only [World.finishTurn, handle]
    split
    · rename_i r hr
      rw [hr] at hno
      cases appended with
      | false => exact hkeep _ (hsame.engine fun r hr => hr)
      | true => cases hno
    · exact hkeep _ (ReplyAt.of_erased (AList.lookup_erase ..))
  | dropped generated =>
    rcases hb.cmd_cases with ⟨hc, _, _, _, rfl⟩ | ⟨_, _, _, _, rfl⟩
    · exact hkeep _ (hclosed hc _)
    · cases hleft _ _ _ _ _ rfl
  | abandoned =>
    have hk : Keeps s { s with opened := false } :=
      keeps_of_sameTalk ⟨rfl, rfl, rfl, rfl, rfl, rfl⟩
    have hat : ReplyAt { s with opened := false } engine
        { w.engines engine with chats := (handle (w.engines engine).chats cmd .abandoned).1 }
        (w.given engine) := ReplyAt.of_closed hb.bound rfl
    have hall := replied_update h hb (u := { s with opened := false }) rfl ⟨rfl, rfl⟩ hk hat engine'
    rw [← hgiven] at hall
    exact hall
  | finished reply shed =>
    have hhandle : ∃ chats n, handle (w.engines engine).chats cmd (.finished reply shed) =
        (chats, some n) := by
      rcases hb.cmd_cases with ⟨-, _, _, _, rfl⟩ | ⟨_, _, _, _, rfl⟩
      · exact ⟨_, _, rfl⟩
      · rw [handle]
        split
        · exact ⟨_, _, rfl⟩
        · exact ⟨_, _, rfl⟩
    obtain ⟨chats, n, hhandle⟩ := hhandle
    simp only [World.finishTurn, hhandle]
    exact replyAt_finished h hb hhandle engine'
  | stopped acknowledged reply shed =>
    have hhandle : ∃ n, handle (w.engines engine).chats cmd (.stopped acknowledged reply shed) =
        ((w.engines engine).chats.erase s.id, if acknowledged then some n else none) := by
      rcases hb.cmd_cases with ⟨-, _, _, _, rfl⟩ | ⟨_, _, _, _, rfl⟩
      · exact ⟨_, rfl⟩
      · rw [handle]
        split
        · exact ⟨_, rfl⟩
        · exact ⟨_, rfl⟩
    obtain ⟨n, hhandle⟩ := hhandle
    simp only [World.finishTurn, hhandle]
    cases acknowledged with
    | false =>
      obtain ⟨-, -, hsameEngines, hid, -, -⟩ := complete_spec hb.live t reply shed true
      exact replied_update h hb hid hsameEngines (keeps_complete hb.live t reply shed true)
        (ReplyAt.of_erased (hid ▸ AList.lookup_erase ..)) engine'
    | true =>
      let v : Session := ({ s with opened := true } : Session).recordPrefix
        ((if s.opened then (w.engines engine).sent s.id else 0) + n)
      have hv : SameTalk s v := ⟨rfl, rfl, rfl, rfl, rfl, rfl⟩
      obtain ⟨-, -, hsameEngines, hid, -, -⟩ := complete_spec (hv.live hb.live) t reply shed true
      exact replied_update h hb hid hsameEngines
        ((keeps_of_sameTalk hv).trans (keeps_complete (hv.live hb.live) t reply shed true))
        (ReplyAt.of_erased (hid ▸ AList.lookup_erase ..)) engine'

/-- A refused turn has staged its messages before they were withdrawn; records only accrue. -/
theorem beginTurn_error_nextId {engine : Nat} {s' : Session} {media : String} (hl : s.Live)
    (hu : s.Unparked) (h : beginTurn e engine t s = some (.error media, s')) :
    s.nextId ≤ s'.nextId := by
  obtain ⟨hlive, htalk, -, hunparked⟩ := stagedFor_spec hl hu t
  obtain ⟨mark, heq⟩ := beginTurn_eq e engine t s
  rw [heq, beginWithWireTail] at h
  obtain ⟨hq, -, -⟩ := noted_spec e engine t [] hunparked
  have hstaged : s.nextId ≤ (stagedFor t s).nextId :=
    (keeps_pushAll hl t.staged).1.trans (Nat.le_of_eq htalk.nextId.symm)
  have hnoted := hq.talk.nextId
  generalize noted e engine t [] (stagedFor t s) = n at h hq hnoted
  dsimp only at h
  split at h
  · have hln := hq.talk.live hlive
    obtain ⟨u, hu', hlu, hrec, -⟩ := Session.rollbackTo_spec hln mark
    rw [hu'] at h
    obtain ⟨-, rfl⟩ := Prod.mk.inj (Option.some.inj h)
    have hun : u.nextId = n.nextId := by
      rw [show u.nextId = u.records.length from hlu.ok.nextId, hrec]
      exact hln.ok.nextId.symm
    omega
  · cases (Prod.mk.inj (Option.some.inj h)).1

/-- A change of one engine that makes no runtime. -/
theorem Returning.engine (h : Returning w) {engine : Nat}
    (hchats : ∀ r, e.chats.lookup w.session.id = some r →
      (w.engines engine).chats.lookup w.session.id = some r) (engine' : Nat) :
    ReplyAt w.session engine' (Function.update w.engines engine e engine') (w.given engine') := by
  by_cases heq : engine' = engine
  · subst heq
    rw [Function.update_self]
    exact (h.replied engine').engine hchats
  · rw [Function.update_of_ne heq]
    exact h.replied engine'

/-- **The step lemma.** -/
theorem step_returning {w' : World} (h : Returning w) {i : Step} (hok : StepKeeps w i)
    (hrun : step i w = some w') : Returning w' := by
  refine ⟨step_agreed h.agreed hok.stepOk hrun, fun engine' => ?_⟩
  cases i with
  | edit op =>
    obtain ⟨s, hs, rfl⟩ := Option.map_eq_some_iff.1 hrun
    obtain ⟨s', hs', hl⟩ := Session.live_apply h.agreed.live op
    rw [hs] at hs'
    cases hs'
    intro hopened r hr g hg
    obtain ⟨hid, hb⟩ := (Session.apply_closes h.agreed.live hs).opensNothing engine' hopened
    obtain ⟨hfresh, p, hp, hreply, -⟩ := h.replied engine' (hb ▸ hopened) r (hid ▸ hr) g hg
    have hle : w.session.nextId ≤ s.nextId := by
      have hnext : w.session.nextId = w.session.records.length := h.agreed.live.ok.nextId
      have hnext' : s.nextId = s.records.length := hl.ok.nextId
      rw [hnext, hnext']
      exact Session.apply_records_le h.agreed.live hs
    exact ⟨fun q hq => Nat.lt_of_lt_of_le (hfresh q hq) hle, p, hp, hreply,
      hok s hs engine' hopened r hr g p hg hp⟩
  | noteTools fingerprint =>
    cases hrun
    exact (h.replied engine').keeps (w.session.opensNothing_noteTools fingerprint)
      (keeps_of_sameTalk (w.session.sameTalk_noteTools fingerprint))
  | turn engine t o =>
    obtain ⟨⟨result, s⟩, hr⟩ :=
      beginTurn_isSome (w.engines engine) engine t h.agreed.live h.agreed.unparked
    have hbegins : w.begins engine t = some (result, s) := hr
    have hrun : w.turn engine t o = some w' := hrun
    rw [World.turn, hbegins] at hrun
    cases result with
    | error media =>
      cases hrun
      intro hopened r hr g hg
      obtain ⟨hl, -, ho⟩ := beginTurn_error h.agreed.live h.agreed.unparked hbegins
      obtain ⟨hid, hb⟩ := ho engine' hopened
      obtain ⟨hfresh, p, hp, hreply, -⟩ := h.replied engine' (hb ▸ hopened) r (hid ▸ hr) g hg
      exact ⟨fun q hq => Nat.lt_of_lt_of_le (hfresh q hq)
        (beginTurn_error_nextId h.agreed.live h.agreed.unparked hbegins), p, hp, hreply,
        hok.2.1 media s hbegins engine' hopened r hr g p hg hp⟩
    | ok cmd =>
      cases hrun
      have hb := beginTurn_ok h.agreed.live h.agreed.unparked hbegins
      refine replied_finishTurn h hb (fun id new transcript thinking tools hcmd => ?_) engine'
      subst hcmd
      exact hok.2.2 id new transcript thinking tools s hbegins
  | evict engine id =>
    cases hrun
    refine (h.engine fun r hlookup => ?_) engine'
    by_cases hid : w.session.id = id
    · rw [hid, AList.lookup_erase] at hlookup
      cases hlookup
    · rwa [AList.lookup_erase_ne hid] at hlookup
  | forget engine id =>
    cases hrun
    exact h.engine (e := (w.engines engine).forget id) (fun r hlookup => hlookup) engine'
  | swapModel engine capabilities =>
    cases hrun
    refine h.engine (fun r hlookup => ?_) engine'
    cases hlookup

/-- No engine has been given anything yet. -/
theorem returning_new {id : SessionId} (h : w.session = Session.blank id) :
    Returning w where
  agreed := agreed_new h
  replied engine hopened := by
    rw [h] at hopened
    cases hopened

/-! ## The outcome -/

/-- A command that is safe to send.  A continuation finds what the runtime holds, with the reply it
has generated, at the beginning of the transcript, or is complete where there is no runtime; and any
other turn starts from the beginning. -/
def Cmd.Safe (chats : AList (fun _ : SessionId => Runtime)) (t : TurnSpec) (s : Session) :
    Cmd → Prop
  | .startChat _ messages _ _ => messages = s.transcriptWithSystem (t.systemOverride.getD s.system)
  | .continueChat id new transcript _ _ =>
    match chats.lookup id with
    | some r => r.messages ++ r.reply.toList <+: s.transcript
    | none => transcript ++ new = s.transcript

/-- Whatever the session has been through, coming back to an engine is safe. -/
def ReturnsSafely (w : World) : Step → Prop
  | .turn engine t _ => ∀ cmd s, w.begins engine t = some (.ok cmd, s) →
      cmd.Safe (w.engines engine).chats t s
  | _ => True

theorem Returning.returnsSafely (h : Returning w) {i : Step} (hok : StepKeeps w i) :
    ReturnsSafely w i := by
  cases i with
  | turn engine t o =>
    intro cmd s hbegins
    have hb := beginTurn_ok h.agreed.live h.agreed.unparked hbegins
    by_cases hopened : s.opened = true
    · obtain ⟨tools, hcmd⟩ := hb.continue hopened
      obtain ⟨hpos, hle, -⟩ := hb.held_pos hopened
      obtain ⟨g, hg, -, hlead, hholds⟩ := h.agreed.holds hok.1 hbegins hopened
      subst hcmd
      rw [Cmd.Safe]
      split
      · rename_i r hr
        have hlen : g.lead.length = (w.engines engine).sent s.id := by
          rw [← hlead, Session.lead_length hb.live.length_active hle]
        have hreplied := (h.replied engine).keeps hb.opens (hb.keeps h.agreed.live)
        have hbinding : (s.bindingOf engine).opened = true := by
          rw [Session.bindingOf, if_pos hb.bound]
          exact hopened
        obtain ⟨-, p, -, hreply, hfollows⟩ := hreplied hbinding r hr g hg
        have hsame : s.lead g.lead.length = g.lead := hlen ▸ hlead
        rw [hholds r hr, ← Session.lead_messages hb.live.length_active, hlead, hreply]
        exact lead_append_prefix hb.live.length_active hsame (hlen ▸ hpos) (hfollows hsame)
      · exact take_append_drop ..
    · obtain ⟨tools, hcmd⟩ := hb.start (by simpa using hopened)
      subst hcmd
      rfl
  | edit op | noteTools fingerprint | evict engine id | forget engine id
  | swapModel engine capabilities => trivial

end

/-! ### Coming back, and coming back too early -/

/-- Such a model takes everything. -/
theorem unsupportedMedia_none {available : Capabilities}
    (h : available = ⟨true, true, true, true⟩) (messages : List Message) :
    unsupportedMedia messages available = none := by
  rw [unsupportedMedia, findSome?_eq_none_iff]
  intro chunk _
  subst h
  cases chunk <;> rfl

theorem beginTurn_ne_error [SerdeJson] {engine : Nat} {t : TurnSpec} {s' : Session} {media : String}
    (h : e.capabilities = ⟨true, true, true, true⟩) :
    beginTurn e engine t s ≠ some (.error media, s') := by
  obtain ⟨mark, heq⟩ := beginTurn_eq e engine t s
  rw [heq, beginWithWireTail]
  simp only [unsupportedMedia_none h]
  intro hbad
  cases (Prod.mk.inj (Option.some.inj hbad)).1

/-- A turn that never reaches its engine leaves the engines as they were. -/
theorem turn_undelivered [SerdeJson] {w w' : World} {engine : Nat} {t : TurnSpec}
    (h : (w.engines engine).capabilities = ⟨true, true, true, true⟩)
    (hrun : w.turn engine t .undelivered = some w') :
    (∃ cmd, w.begins engine t = some (.ok cmd, w'.session)) ∧ w'.given = w.given ∧
      w'.engines = w.engines := by
  rw [World.turn] at hrun
  obtain ⟨⟨result, s⟩, hbegins, hrest⟩ := Option.bind_eq_some_iff.1 hrun
  cases result with
  | error media => exact absurd hbegins (beginTurn_ne_error h)
  | ok cmd =>
    cases hrest
    refine ⟨⟨cmd, hbegins⟩, rfl, ?_⟩
    have hchats : (handle (w.engines engine).chats cmd .undelivered).1 = (w.engines engine).chats := by
      cases cmd with
      | startChat id messages thinking tools => rfl
      | continueChat id new transcript thinking tools =>
        rw [handle]
        split <;> rfl
    simp only [World.finishTurn, hchats]
    exact Function.update_eq_self engine w.engines

/-- A turn on one engine, an attempt on another, and a turn on the first again. -/
def thereAndBack : List Step :=
  [.turn 1 (say "a") (.finished (.assistantStructured "b" none) 0),
    .turn 2 (say "c") .undelivered,
    .turn 1 (say "d") (.finished (.assistantStructured "e" none) 0)]

end Chat
end Gen2
