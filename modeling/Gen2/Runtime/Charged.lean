import Gen2.Runtime.Quota
import Gen2.Runtime.Wakes

/-!
# Weights in memory are marked resident

The flag that the ledger reads is the runtime's, and the weights are the controller's, which brings
them back by itself when a chat arrives.

* `Charged`: what is promised of every state.  The one model whose weights may be in unmarked is the
  one that the holder of the lock is bringing back, for which it has room.
* `Slips`: the four ways in which a step breaks the promise.
* `charged_iff`: the promise is kept all along a run exactly where no step slips.
* `evicted_weights_come_back`: a turn that got through on the fast path wakes a model that was
  evicted in between.
-/

namespace Gen2.Runtime

open Controller Lib List RuntimeInner

variable {ρ : Type}

/-! ## What is promised -/

/-- Whether a `restore` has cleared the flag by now. -/
def Stage.cleared : Stage → Bool
  | room .. | ranking .. | unloading .. | unloaded .. | admission .. | charging _ | marking => true
  | entered | asking | clearing | evicting | evicted | budget _ => false

/-- What an operation brings back. -/
def Op.restores : Op ρ → Option ModelId
  | .restore id _ => some id
  | _ => none

namespace RuntimeInner

/-- The model that the holder of the lock is bringing back. -/
def bringingBack (s : RuntimeInner ρ) : Option ModelId :=
  s.admission.bind fun h => if h.stage.cleared then h.op.restores else none

/-- A local model with its weights in memory is marked resident, unless it is being brought back. -/
def Charged (s : RuntimeInner ρ) : Prop :=
  ∀ id m, s.text? id = some m → m.isLocal = true → m.controller.engine.isModelLoaded = true →
    m.resident = true ∨ s.bringingBack = some id

/-! ## What breaks the promise -/

/-- A local model has its weights in memory. -/
def InMemory (s : RuntimeInner ρ) (id : ModelId) : Prop :=
  ∃ m, s.text? id = some m ∧ m.isLocal = true ∧ m.controller.engine.isModelLoaded = true

/-- And is not marked. -/
def Uncounted (s : RuntimeInner ρ) (id : ModelId) : Prop :=
  ∃ m, s.text? id = some m ∧ m.isLocal = true ∧ m.controller.engine.isModelLoaded = true ∧
    m.resident = false

/-- A chat wakes a local model that is not marked, and that nobody is bringing back. -/
def WakesUnmarked (s : RuntimeInner ρ) (env : Env ρ) (id : ModelId) (chat : ChatCmd) : Prop :=
  s.bringingBack ≠ some id ∧ ∃ m, s.text? id = some m ∧ m.isLocal = true ∧ m.resident = false ∧
    m.controller.running = true ∧ m.controller.engine.isModelLoaded = false ∧
      chat.Reaches m.controller ∧ WakeWorks env m.controller

/-- The holder breaks the promise: it clears a flag after an unload, when the model has been woken
again; or a restore gives up, because it is refused or because the reload fails, when the model has
been woken meanwhile. -/
def HolderSlips (config : ControllerConfig ρ) (g : MemoryGovernor) (o : Outside ρ)
    (s : RuntimeInner ρ) : Op ρ → Stage → Prop
  | _, .unloaded _ victim => s.InMemory victim
  | .evict id, .evicted => s.InMemory id
  | .restore id _, .admission mb r => r.left = [] ∧ fits g r.total mb = false ∧ s.Uncounted id
  | .restore id _, .charging _ =>
    (∀ m, s.text? id = some m → (reloadModel config o.env m).1 = false) ∧ s.Uncounted id
  | _, _ => False

/-- A step that breaks the promise: the holder does, or a chat wakes a model that is not marked. -/
def Slips (config : ControllerConfig ρ) (g : MemoryGovernor) (s : RuntimeInner ρ) : Act ρ → Prop
  | .turnSends k env chat =>
    ∃ id, s.turns[k]? = some (id, .ready) ∧ s.WakesUnmarked env id chat
  | .agentSends id env chat => s.WakesUnmarked env id chat
  | .advance o => ∃ op stage, s.admission = some ⟨op, stage⟩ ∧ HolderSlips config g o s op stage
  | _ => False

variable {config : ControllerConfig ρ} {g : MemoryGovernor} {o : Outside ρ}
  {s s' : RuntimeInner ρ} {op : Op ρ} {id id' : ModelId} {want : Nat}

theorem charged_iff_uncounted :
    s.Charged ↔ ∀ id, s.Uncounted id → s.bringingBack = some id := by
  constructor
  · rintro h id ⟨m, hm, hlocal, hin, hclear⟩
    refine (h id m hm hlocal hin).resolve_left fun hmarked => ?_
    rw [hclear] at hmarked
    exact nomatch hmarked
  · intro h id m hm hlocal hin
    rcases hmarked : m.resident with _ | _
    · exact .inr (h id ⟨m, hm, hlocal, hin, hmarked⟩)
    · exact .inl rfl

/-! ## Which models are uncounted -/

theorem uncounted_of_entries (h : s'.entries = s.entries) : s'.Uncounted id ↔ s.Uncounted id := by
  unfold Uncounted text?
  rw [h]

theorem uncounted_setEntry {e₀ e : Entry ρ} (h : s.entries[id]? = some e₀) :
    (s.setEntry id e).Uncounted id' ↔
      if id' = id then
        ∃ m, e = .text m ∧ m.isLocal = true ∧ m.controller.engine.isModelLoaded = true ∧
          m.resident = false
      else s.Uncounted id' := by
  unfold Uncounted
  simp only [text?_eq_some, getElem?_setEntry h]
  split <;> simp

/-- A change that brings no weights in and clears no flag. -/
theorem uncounted_of_setText {m m' : Loaded ρ} (hm : s.text? id = some m)
    (hkeeps : m'.isLocal = true → m'.controller.engine.isModelLoaded = true → m'.resident = false →
      m.isLocal = true ∧ m.controller.engine.isModelLoaded = true ∧ m.resident = false)
    (h : (s.setText id m').Uncounted id') : s.Uncounted id' := by
  rw [setText, uncounted_setEntry (text?_eq_some.1 hm)] at h
  split at h
  · next heq =>
    obtain ⟨m₁, heq₁, hlocal, hin, hclear⟩ := h
    obtain rfl := Entry.text.inj heq₁
    rw [heq]
    exact ⟨m, hm, hkeeps hlocal hin hclear⟩
  · exact h

theorem uncounted_of_setImage {e e' : ImageEntry} (he : s.image? id = some e)
    (h : (s.setImage id e').Uncounted id') : s.Uncounted id' := by
  rw [setImage, uncounted_setEntry (image?_eq_some.1 he)] at h
  split at h
  · obtain ⟨m, heq, -⟩ := h
    exact nomatch heq
  · exact h

theorem uncounted_of_touch (h : (s.touch id).Uncounted id') : s.Uncounted id' := by
  unfold touch at h
  split at h
  · exact h
  · next e he =>
    cases e with
    | text m =>
      have hset : (s.setText id { m with lastUsed := (s.clock : Stamp) }).Uncounted id' := h
      refine uncounted_of_setText (text?_eq_some.2 he) ?_ hset
      exact fun hlocal hin hclear => ⟨hlocal, hin, hclear⟩
    | image e => exact uncounted_of_setImage (image?_eq_some.2 he) h

/-- What is registered is marked, or is not local. -/
theorem uncounted_of_register {e : Entry ρ}
    (he : ∀ m, e = .text m → m.isLocal = true → m.resident = true)
    (h : (s.register e).Uncounted id) : s.Uncounted id := by
  obtain ⟨m, hm, hlocal, hin, hclear⟩ := h
  rw [text?_eq_some, register] at hm
  dsimp only at hm
  rcases Nat.lt_or_ge id s.entries.length with hlt | hge
  · rw [getElem?_append_left hlt] at hm
    exact ⟨m, text?_eq_some.2 hm, hlocal, hin, hclear⟩
  · rw [getElem?_append_right hge] at hm
    have hmarked := he m (mem_singleton.1 (mem_of_getElem? hm)).symm hlocal
    rw [hclear] at hmarked
    cases hmarked

/-- A flag set leaves fewer. -/
theorem uncounted_of_mark (h : (s.setResident id true).Uncounted id') :
    s.Uncounted id' ∧ id' ≠ id := by
  unfold setResident at h
  split at h
  · next hnone =>
    refine ⟨h, ?_⟩
    rintro rfl
    obtain ⟨m, hm, -⟩ := h
    rw [hnone] at hm
    exact nomatch hm
  · next m hm =>
    rw [setText, uncounted_setEntry (text?_eq_some.1 hm)] at h
    split at h
    · obtain ⟨m', heq, -, -, hclear⟩ := h
      obtain rfl := Entry.text.inj heq
      exact nomatch hclear
    · next hne => exact ⟨h, hne⟩

/-- A flag cleared leaves one more, where the weights are in. -/
theorem uncounted_clear :
    (s.setResident id false).Uncounted id' ↔
      if id' = id then s.InMemory id else s.Uncounted id' := by
  unfold setResident
  split
  · next hnone =>
    split
    · next heq =>
      rw [heq]
      refine iff_of_false ?_ ?_ <;>
      · rintro ⟨m, hm, -⟩
        rw [hnone] at hm
        exact nomatch hm
    · exact Iff.rfl
  · next m hm =>
    rw [setText, uncounted_setEntry (text?_eq_some.1 hm)]
    by_cases heq : id' = id
    · rw [if_pos heq, if_pos heq]
      constructor
      · rintro ⟨m', heq', hlocal, hin, -⟩
        obtain rfl := Entry.text.inj heq'
        exact ⟨m, hm, hlocal, hin⟩
      · rintro ⟨m', hm', hlocal, hin⟩
        rw [hm] at hm'
        obtain rfl := Option.some.inj hm'
        exact ⟨_, rfl, hlocal, hin, rfl⟩
    · rw [if_neg heq, if_neg heq]

/-! ## The holder's places -/

/-- Nothing is uncounted but what the operation brings back. -/
def Only (s : RuntimeInner ρ) (op : Op ρ) : Prop := ∀ id, s.Uncounted id → op.restores = some id

/-- Nothing is uncounted at all. -/
def Clean (s : RuntimeInner ρ) : Prop := ∀ id, ¬ s.Uncounted id

theorem charged_iff_only {stage : Stage} (hs : s.admission = some ⟨op, stage⟩)
    (hcleared : stage.cleared = true) : s.Charged ↔ s.Only op := by
  rw [charged_iff_uncounted, bringingBack, hs, Option.bind_some]
  dsimp only
  rw [if_pos hcleared]
  exact Iff.rfl

theorem charged_iff_clean (hs : s.bringingBack = none) : s.Charged ↔ s.Clean := by
  rw [charged_iff_uncounted, hs]
  exact forall_congr' fun id => forall_congr' fun _ => iff_of_false nofun not_false

theorem bringingBack_of_stage {stage : Stage} (hs : s.admission = some ⟨op, stage⟩)
    (hcleared : stage.cleared = false) : s.bringingBack = none := by
  rw [bringingBack, hs, Option.bind_some]
  dsimp only
  rw [hcleared]
  rfl

theorem charged_unlock : s.unlock.Charged ↔ s.Clean := charged_iff_clean rfl

theorem charged_restored {turn : Bool} : (s.restored id turn).Charged ↔ s.Clean :=
  charged_iff_clean rfl

theorem charged_goto {stage : Stage} (hcleared : stage.cleared = true) :
    (s.goto op stage).Charged ↔ s.Only op :=
  charged_iff_only rfl hcleared

/-- Where the operation brings nothing back, the place is nothing to the promise. -/
theorem charged_goto_of_clean {stage : Stage} (h : s.Clean) : (s.goto op stage).Charged :=
  charged_iff_uncounted.2 fun id hid => absurd hid (h id)

theorem charged_makeRoom : (s.makeRoom op want).Charged ↔ s.Only op := charged_goto rfl

theorem Only.clean (h : s.Only op) (hop : op.restores = none) : s.Clean := fun id hid => by
  have hno := h id hid
  rw [hop] at hno
  exact nomatch hno

theorem charged_afterRoom (h : s.Only op) : (s.afterRoom op want).Charged := by
  cases op with
  | load load weightMb => exact charged_goto_of_clean (h.clean rfl)
  | _ => exact (charged_goto rfl).2 h

/-! ## The holder's steps -/

theorem Clean.enter (h : s.Clean) : (s.enter config o op).Charged := by
  cases op with
  | restore id turn =>
    dsimp only [enter]
    split
    · exact charged_unlock.2 h
    · split
      · exact charged_unlock.2 h
      · split <;> exact charged_goto_of_clean h
  | evict id =>
    dsimp only [enter]
    split
    · exact charged_unlock.2 h
    · split
      · exact charged_goto_of_clean h
      · exact charged_unlock.2 h
  | load load weightMb =>
    dsimp only [enter]
    split
    · exact charged_unlock.2 h
    · exact charged_goto_of_clean h
  | reserve kind mb =>
    dsimp only [enter]
    split
    · exact charged_unlock.2 h
    · exact charged_goto_of_clean h
  | loadImage totalMb => exact charged_goto_of_clean h
  | preloadImage id =>
    dsimp only [enter]
    split
    · exact charged_unlock.2 h
    · split
      · exact charged_unlock.2 fun id' hid' => h id' (uncounted_of_touch hid')
      · exact charged_goto_of_clean h
  | beginJob id =>
    dsimp only [enter]
    split
    · exact charged_unlock.2 h
    · split
      · exact charged_unlock.2 h
      · split <;> exact charged_goto_of_clean h
  | finishJob id =>
    dsimp only [enter]
    split
    · exact charged_unlock.2 h
    · next e he => exact charged_unlock.2 fun id' hid' => h id' (uncounted_of_setImage he hid')
  | evictImage id =>
    dsimp only [enter]
    split
    · exact charged_unlock.2 h
    · next e he =>
      split
      · exact charged_unlock.2 fun id' hid' => h id' (uncounted_of_setImage he hid')
      · exact charged_unlock.2 h

/-- An unload brings nothing in. -/
theorem uncounted_of_unloadModel {m m' : Loaded ρ} (hm : s.text? id = some m)
    (hunload : unloadModel config o.env m = some m') (h : (s.setText id m').Uncounted id') :
    s.Uncounted id' := by
  obtain ⟨-, rfl⟩ := unloadModel_eq_some hunload
  refine uncounted_of_setText hm (fun _ hin _ => ?_) h
  exact absurd hin (by simp [ControllerState.unloadModel, ControllerState.unloadLlm])

theorem Only.unloadVictim {victim : ModelId} (h : s.Only op) :
    (s.unloadVictim config o op want victim).Charged := by
  unfold RuntimeInner.unloadVictim
  split
  · exact charged_afterRoom h
  · next m hm =>
    split
    · split
      · next m' hm' =>
        exact (charged_goto rfl).2 fun id hid =>
          h id (uncounted_of_unloadModel (text?_eq_some.2 hm) hm' hid)
      · exact charged_afterRoom h
    · exact charged_makeRoom.2 h
  · next e he =>
    split
    · exact charged_makeRoom.2 fun id hid =>
        h id (uncounted_of_setImage (image?_eq_some.2 he) hid)
    · exact charged_afterRoom h

/-- A reload that fails leaves the weights as they are. -/
theorem reloadModel_of_false {env : Env ρ} {m : Loaded ρ}
    (h : (reloadModel config env m).1 = false) : (reloadModel config env m).2 = m := by
  unfold reloadModel at h ⊢
  split
  · next hrunning =>
    rw [if_pos hrunning] at h
    have hreloaded := ControllerState.reloadWithAdmission_reloaded config env m.controller
    dsimp only at h ⊢
    rw [h] at hreloaded
    generalize (m.controller.reloadWithAdmission config env).2 = after at hreloaded
    cases hreloaded
    rfl
  · rfl

/-- What a restore leaves behind when it gives up. -/
theorem charged_unlock_of_only (h : s.Only (.restore id false)) :
    s.unlock.Charged ↔ ¬ s.Uncounted id := by
  rw [charged_unlock]
  constructor
  · exact fun hclean => hclean id
  · intro hno id' hid'
    obtain rfl := Option.some.inj (h id' hid')
    exact hno hid'

/-- Where nothing is brought back, nothing that is charged comes in unmarked. -/
theorem Clean.charge {mb : Nat} (h : s.Clean) (hop : op.restores = none) :
    (s.charge config o op mb).Charged := by
  cases op with
  | restore id turn => exact nomatch hop
  | load load weightMb =>
    dsimp only [charge]
    split
    · exact charged_unlock.2 h
    · refine charged_unlock.2 fun id' hid' => h id' (uncounted_of_register ?_ hid')
      intro m heq _
      obtain rfl := Entry.text.inj heq
      rfl
  | reserve kind mb => exact (charged_iff_clean rfl).2 fun id' hid' => h id' hid'
  | loadImage totalMb =>
    dsimp only [charge]
    split
    · refine charged_unlock.2 fun id' hid' => h id' (uncounted_of_register ?_ hid')
      exact fun _ heq => nomatch heq
    · exact charged_unlock.2 h
  | preloadImage id =>
    dsimp only [charge]
    split
    · exact charged_unlock.2 h
    · next e' he' =>
      obtain ⟨e, he, -⟩ := Option.bind_eq_some_iff.1 he'
      exact charged_unlock.2 fun id' hid' => h id' (uncounted_of_setImage he hid')
  | beginJob id =>
    dsimp only [charge]
    split
    · exact charged_unlock.2 h
    · next e' he' =>
      obtain ⟨e, he, -⟩ := Option.bind_eq_some_iff.1 he'
      exact charged_unlock.2 fun id' hid' => h id' (uncounted_of_setImage he hid')
  | _ => exact charged_unlock.2 h

/-- The step in which what was admitted is loaded. -/
theorem Only.charge_iff {mb : Nat} (h : s.Only op) :
    (s.charge config o op mb).Charged ↔ ¬ ∃ id turn, op = .restore id turn ∧
      (∀ m, s.text? id = some m → (reloadModel config o.env m).1 = false) ∧ s.Uncounted id := by
  cases op with
  | restore id turn =>
    dsimp only [charge]
    split
    · next hnone =>
      refine iff_of_true (charged_unlock.2 fun id' hid' => ?_) ?_
      · obtain rfl := Option.some.inj (h id' hid')
        obtain ⟨m, hm, -⟩ := hid'
        rw [hnone] at hm
        exact nomatch hm
      · rintro ⟨id', turn', heq, -, m, hm, -⟩
        obtain ⟨rfl, rfl⟩ := Op.restore.inj heq
        rw [hnone] at hm
        exact nomatch hm
    · next m hm =>
      split
      · next m' hm' =>
        obtain ⟨c, hc⟩ := reloadModel_snd config o.env m
        rw [hm'] at hc
        dsimp only at hc
        refine iff_of_true ((charged_goto rfl).2 fun id' hid' => ?_) ?_
        · by_cases heq : id' = id
          · exact congrArg some heq.symm
          · rw [setText, uncounted_setEntry (text?_eq_some.1 hm), if_neg heq] at hid'
            exact h id' hid'
        · rintro ⟨id', turn', heq, hfails, -⟩
          obtain ⟨rfl, rfl⟩ := Op.restore.inj heq
          have hfail := hfails m hm
          rw [hm'] at hfail
          exact nomatch hfail
      · next m' hm' =>
        have hfail : (reloadModel config o.env m).1 = false := congrArg Prod.fst hm'
        have hsame := reloadModel_of_false hfail
        rw [hm'] at hsame
        dsimp only at hsame
        subst hsame
        have hentries : (s.setText id m').entries = s.entries := by
          have hid := text?_eq_some.1 hm
          exact ext_getElem? fun k => by
            rw [setText, getElem?_setEntry hid]
            split
            · next heq => rw [heq, hid]
            · rfl
        have hun : ∀ id', (s.setText id m').Uncounted id' ↔ s.Uncounted id' :=
          fun id' => uncounted_of_entries hentries
        have honly : (s.setText id m').Only (.restore id false) :=
          fun id' hid' => h id' ((hun id').1 hid')
        refine (charged_unlock_of_only honly).trans (not_congr ((hun id).trans ?_))
        constructor
        · intro hid
          refine ⟨id, turn, rfl, fun m hm₁ => ?_, hid⟩
          rw [hm] at hm₁
          obtain rfl := Option.some.inj hm₁
          exact hfail
        · rintro ⟨id', turn', heq, -, hid⟩
          obtain ⟨rfl, rfl⟩ := Op.restore.inj heq
          exact hid
  | _ =>
    refine iff_of_true ((h.clean rfl).charge rfl) ?_
    rintro ⟨id', turn', heq, -⟩
    exact nomatch heq

/-- Whether a model is wanted is asked where nothing is out of the count. -/
theorem Clean.asking (h : s.Clean) : (s.advance config g o op .asking).Charged := by
  cases op with
  | restore id turn =>
    dsimp only [advance]
    split
    · exact charged_restored.2 h
    · exact charged_goto_of_clean h
  | _ => exact charged_unlock.2 h

/-- A restore clears the mark of its own model only. -/
theorem Clean.clearing (h : s.Clean) : (s.advance config g o op .clearing).Charged := by
  cases op with
  | restore id turn =>
    dsimp only [advance]
    split
    · exact charged_unlock.2 h
    refine charged_makeRoom.2 fun id' hid' => ?_
    rw [uncounted_clear] at hid'
    split at hid'
    · next heq => exact congrArg some heq.symm
    · exact absurd hid' (h id')
  | _ => exact charged_unlock.2 h

/-- The mark of a victim, which is not the model brought back, is cleared behind its unloading: it
must not have come back in between. -/
theorem Only.unloaded_iff {victim : ModelId} (h : s.Only op) (hkeep : some victim ≠ op.keep) :
    (s.advance config g o op (.unloaded want victim)).Charged ↔ ¬ s.InMemory victim := by
  refine charged_makeRoom.trans ⟨fun h' hin => ?_, fun hno id hid => ?_⟩
  · have hback := h' victim (uncounted_clear.2 (by rw [if_pos rfl]; exact hin))
    refine hkeep ?_
    cases op with
    | restore id turn => exact hback.symm
    | _ => exact nomatch hback
  · rw [uncounted_clear] at hid
    split at hid
    · exact absurd hid hno
    · exact h id hid

theorem Clean.evicting (h : s.Clean) : (s.advance config g o op .evicting).Charged := by
  cases op with
  | evict id =>
    dsimp only [advance]
    split
    · exact charged_unlock.2 h
    · next m' hm' =>
      obtain ⟨m, hm, hunload⟩ := Option.bind_eq_some_iff.1 hm'
      exact charged_goto_of_clean fun id' hid' => h id' (uncounted_of_unloadModel hm hunload hid')
  | _ => exact charged_unlock.2 h

/-- The same as with a victim, but for a model that is evicted on request. -/
theorem Clean.evicted_iff (h : s.Clean) :
    (s.advance config g o op .evicted).Charged ↔ ¬ HolderSlips config g o s op .evicted := by
  cases op with
  | evict id =>
    refine charged_unlock.trans ⟨fun h' hin => h' id ?_, fun hno id' hid' => ?_⟩
    · rw [uncounted_clear, if_pos rfl]
      exact hin
    · rw [uncounted_clear] at hid'
      split at hid'
      · exact hno hid'
      · exact h id' hid'
  | _ => exact iff_of_true (charged_unlock.2 h) id

/-- A restore that is not admitted gives up, and its model must not be in memory by then. -/
theorem Only.admission_iff {mb : Nat} {r : Reading} (h : s.Only op) :
    (s.advance config g o op (.admission mb r)).Charged ↔
      ¬ HolderSlips config g o s op (.admission mb r) := by
  dsimp only [advance]
  rcases hleft : r.left with _ | ⟨kind, left⟩
  · dsimp only
    rcases hfits : fits g r.total mb with _ | _
    · rw [if_neg Bool.false_ne_true]
      cases op with
      | restore id turn =>
        have honly : s.Only (.restore id false) := h
        refine (charged_unlock_of_only honly).trans (not_congr ?_)
        exact ⟨fun hid => ⟨hleft, hfits, hid⟩, fun hslips => hslips.2.2⟩
      | _ => exact iff_of_true (charged_unlock.2 (h.clean rfl)) id
    · rw [if_pos rfl]
      refine iff_of_true ((charged_goto rfl).2 h) ?_
      cases op with
      | restore id turn =>
        rintro ⟨-, hno, -⟩
        rw [hfits] at hno
        exact nomatch hno
      | _ => exact id
  · refine iff_of_true ((charged_goto rfl).2 h) ?_
    cases op with
    | restore id turn =>
      rintro ⟨hno, -⟩
      rw [hleft] at hno
      exact nomatch hno
    | _ => exact id

/-- **A step of the holder** keeps the promise exactly where it does not slip. -/
theorem Charged.advance_iff {stage : Stage} (h : s.Charged) (hs : s.admission = some ⟨op, stage⟩)
    (hstage : StageOk g s op stage) :
    (s.advance config g o op stage).Charged ↔ ¬ HolderSlips config g o s op stage := by
  have honly : stage.cleared = true → s.Only op := fun hcleared =>
    (charged_iff_only hs hcleared).1 h
  have hclean : stage.cleared = false → s.Clean := fun hcleared =>
    (charged_iff_clean (bringingBack_of_stage hs hcleared)).1 h
  cases stage with
  | entered => exact iff_of_true (hclean rfl).enter (by cases op <;> exact id)
  | asking => exact iff_of_true (hclean rfl).asking (by cases op <;> exact id)
  | clearing => exact iff_of_true (hclean rfl).clearing (by cases op <;> exact id)
  | room want r =>
    have honly := honly rfl
    refine iff_of_true ?_ (by cases op <;> exact id)
    dsimp only [advance]
    split
    · exact (charged_goto rfl).2 honly
    · split
      · exact charged_afterRoom honly
      · exact (charged_goto rfl).2 honly
  | ranking want r left ranked =>
    have hsame : s.Only op := honly rfl
    refine iff_of_true ?_ (by cases op <;> exact id)
    cases left with
    | cons id left => exact (charged_goto rfl).2 hsame
    | nil =>
      dsimp only [advance]
      split
      · exact charged_afterRoom hsame
      · exact (charged_goto rfl).2 hsame
  | unloading want r victim =>
    exact iff_of_true (honly rfl).unloadVictim (by cases op <;> exact id)
  | unloaded want victim =>
    have hslips : HolderSlips config g o s op (.unloaded want victim) ↔ s.InMemory victim := by
      cases op <;> exact Iff.rfl
    rw [hslips]
    exact (honly rfl).unloaded_iff hstage.1
  | evicting => exact iff_of_true (hclean rfl).evicting (by cases op <;> exact id)
  | evicted => exact (hclean rfl).evicted_iff
  | budget r =>
    have hclean := hclean rfl
    refine iff_of_true ?_ (by cases op <;> exact id)
    cases op with
    | load load weightMb =>
      dsimp only [advance]
      split
      · exact charged_goto_of_clean hclean
      · split
        · exact charged_unlock.2 hclean
        · exact charged_goto_of_clean hclean
    | _ => exact charged_unlock.2 hclean
  | admission mb r => exact (honly rfl).admission_iff
  | charging mb =>
    refine (honly rfl).charge_iff.trans (not_congr ?_)
    cases op with
    | restore id turn =>
      constructor
      · rintro ⟨id', turn', heq, hfails, hid⟩
        obtain ⟨rfl, rfl⟩ := Op.restore.inj heq
        exact ⟨hfails, hid⟩
      · exact fun hslips => ⟨id, turn, rfl, hslips.1, hslips.2⟩
    | _ =>
      refine iff_of_false ?_ id
      rintro ⟨id', turn', heq, -⟩
      exact nomatch heq
  | marking =>
    have honly := honly rfl
    refine iff_of_true ?_ (by cases op <;> exact id)
    cases op with
    | restore id turn =>
      refine charged_restored.2 fun id' hid' => ?_
      obtain ⟨hbefore, hne⟩ := uncounted_of_mark hid'
      exact hne (Option.some.inj (honly id' hbefore)).symm
    | _ => exact charged_unlock.2 (honly.clean rfl)

/-! ## The other threads -/

/-- What changes neither the entries nor the holder is nothing to the promise. -/
theorem charged_of_same (hentries : s'.entries = s.entries)
    (hadmission : s'.admission = s.admission) : s'.Charged ↔ s.Charged := by
  rw [charged_iff_uncounted, charged_iff_uncounted, bringingBack, bringingBack, hadmission]
  exact forall_congr' fun id => imp_congr_left (uncounted_of_entries hentries)

/-- What leaves no more uncounted is nothing to the promise. -/
theorem Charged.of_uncounted (h : s.Charged) (hadmission : s'.admission = s.admission)
    (hun : ∀ id, s'.Uncounted id → s.Uncounted id) : s'.Charged := by
  rw [charged_iff_uncounted, bringingBack] at h ⊢
  rw [hadmission]
  exact fun id hid => h id (hun id hid)

/-- A round that brings no weights in. -/
theorem Charged.controllerStep {env : Env ρ} {input : Input ρ} (h : s.Charged)
    (hin : ∀ m c, s.text? id = some m → Controller.step config (env, input) m.controller = some c →
      c.engine.isModelLoaded = true → m.controller.engine.isModelLoaded = true) :
    (s.controllerStep config id env input).Charged := by
  unfold RuntimeInner.controllerStep
  split
  · exact h
  · next m hm =>
    split
    · exact h
    · next c hc =>
      refine h.of_uncounted rfl fun id' hid' => uncounted_of_setText hm ?_ hid'
      exact fun hlocal hloaded hclear => ⟨hlocal, hin m c hm hc hloaded, hclear⟩

theorem bringingBack_controllerStep (env : Env ρ) (input : Input ρ) :
    (s.controllerStep config id env input).bringingBack = s.bringingBack := by
  unfold controllerStep
  split
  · rfl
  · split <;> rfl

/-- **A chat** keeps the promise exactly where it does not wake what is not marked. -/
theorem Charged.chat_iff {env : Env ρ} {chat : ChatCmd} (h : s.Charged) :
    (s.controllerStep config id env (.command chat.toCmd)).Charged ↔
      ¬ s.WakesUnmarked env id chat := by
  by_cases hwakes : s.WakesUnmarked env id chat
  · refine iff_of_false (fun hafter => ?_) (not_not_intro hwakes)
    obtain ⟨hnot, m, hm, hlocal, hclear, hrunning, -, hreaches, hworks⟩ := hwakes
    rw [charged_iff_uncounted, bringingBack_controllerStep] at hafter
    refine hnot (hafter id ?_)
    have hin := (isModelLoaded_chat_iff config env chat m.controller).2 (.inr ⟨hreaches, hworks⟩)
    rw [RuntimeInner.controllerStep, hm]
    dsimp only [Controller.step]
    rw [if_pos hrunning, setText, uncounted_setEntry (text?_eq_some.1 hm), if_pos rfl]
    exact ⟨_, rfl, hlocal, hin, hclear⟩
  · refine iff_of_true ?_ hwakes
    unfold RuntimeInner.controllerStep
    split
    · exact h
    · next m hm =>
      dsimp only [Controller.step]
      refine charged_iff_uncounted.2 fun id' hid' => ?_
      rw [setText, uncounted_setEntry (text?_eq_some.1 hm)] at hid'
      split at hid'
      · next heq =>
        subst heq
        obtain ⟨m', heq', hlocal, hin, hclear⟩ := hid'
        obtain rfl := Entry.text.inj heq'
        dsimp only at hlocal hin hclear
        by_contra hnot
        have hout : m.controller.engine.isModelLoaded = false := by
          by_contra hloaded
          rw [Bool.not_eq_false] at hloaded
          exact hnot (charged_iff_uncounted.1 h id' ⟨m, hm, hlocal, hloaded, hclear⟩)
        split at hin
        · next hrunning =>
          rw [isModelLoaded_chat_iff, or_iff_right (by rw [hout]; exact Bool.false_ne_true)] at hin
          exact hwakes ⟨hnot, m, hm, hlocal, hclear, hrunning, hout, hin⟩
        · rw [hout] at hin
          exact nomatch hin
      · exact charged_iff_uncounted.1 h id' hid'

/-- **One step** keeps the promise exactly where it does not slip. -/
theorem Charged.step_iff {act : Act ρ} (h : s.Charged) (hinv : Inv g s)
    (hs : Runtime.step config g act s = some s') : s'.Charged ↔ ¬ Slips config g s act := by
  obtain rfl := Option.some.inj hs
  cases act with
  | acquire op =>
    refine iff_of_true ?_ id
    dsimp only
    split
    · next hfree =>
      rw [Option.isNone_iff_eq_none] at hfree
      refine charged_goto_of_clean ((charged_iff_clean ?_).1 h)
      rw [bringingBack, hfree]
      rfl
    · exact h
  | advance o =>
    dsimp only
    rcases hholder : s.admission with _ | ⟨op, stage⟩
    · refine iff_of_true h ?_
      rintro ⟨op, stage, hsome, -⟩
      rw [hholder] at hsome
      exact nomatch hsome
    · refine (h.advance_iff hholder (hinv.stage _ hholder)).trans (not_congr ?_)
      constructor
      · exact fun hslips => ⟨op, stage, hholder, hslips⟩
      · rintro ⟨op', stage', hsome, hslips⟩
        rw [hholder] at hsome
        obtain ⟨rfl, rfl⟩ := Holder.mk.inj (Option.some.inj hsome)
        exact hslips
  | drop k =>
    refine iff_of_true ?_ id
    dsimp only [dropReservation]
    split
    · exact h
    · exact (charged_of_same rfl rfl).2 h
  | touch id =>
    refine iff_of_true (h.of_uncounted ?_ fun id' hid' => uncounted_of_touch hid') (fun hno => hno)
    dsimp only [touch]
    split <;> rfl
  | elapse time => exact iff_of_true ((charged_of_same rfl rfl).2 h) id
  | connect controller =>
    refine iff_of_true (h.of_uncounted rfl fun id' hid' => uncounted_of_register ?_ hid') id
    intro m heq hlocal
    obtain rfl := Entry.text.inj heq
    exact nomatch hlocal
  | turnBegins id =>
    refine iff_of_true ?_ (fun hno => hno)
    dsimp only [turnBegins]
    split
    · exact h
    split
    · exact (charged_of_same rfl rfl).2 h
    · split
      · exact (charged_of_same rfl rfl).2 h
      · exact h
  | turnAsks k =>
    refine iff_of_true ?_ id
    dsimp only [turnAsks]
    split
    · split <;> exact (charged_of_same rfl rfl).2 h
    · exact h
  | turnSends k env chat =>
    dsimp only
    split
    · next id hturn =>
      have hrest : ({ s with turns := s.turns.eraseIdx k } : RuntimeInner ρ).Charged :=
        (charged_of_same rfl rfl).2 h
      refine hrest.chat_iff.trans (not_congr ⟨fun hwakes => ⟨id, hturn, hwakes⟩, ?_⟩)
      rintro ⟨id', hturn', hwakes⟩
      rw [hturn] at hturn'
      obtain ⟨rfl, -⟩ := Prod.mk.inj (Option.some.inj hturn')
      exact hwakes
    · next hnone =>
      refine iff_of_true h ?_
      rintro ⟨id, hturn, -⟩
      exact hnone id hturn
  | agentSends id env chat => exact h.chat_iff
  | round id env input =>
    refine iff_of_true ?_ (fun hno => hno)
    dsimp only
    split
    · next hroutine =>
      exact h.controllerStep fun m c hm hc hin =>
        isModelLoaded_of_routine config env hroutine hc hin
    · exact h

/-- **Weights in memory are marked resident** all along a run, but those that the holder of the lock
is bringing back, exactly where no step of it slips. -/
theorem charged_iff (config : ControllerConfig ρ) (g : MemoryGovernor) (acts : List (Act ρ)) :
    Always (Runtime.step config g) Charged acts initial ↔
      EveryStep (Runtime.step config g) (fun s act => ¬ Slips config g s act) acts initial := by
  refine always_iff_everyStep (A := fun _ _ => True) (I := Inv g) ?_ ?_ (.initial g) ?_
    (everyStep_true acts _)
  · exact fun s act h _ => ⟨_, rfl, h.step rfl⟩
  · exact fun s act s' hinv h _ hs => h.step_iff hinv hs
  · exact fun id m hm => nomatch hm

/-- A turn finds its model resident and loaded, the model is evicted, and the turn's chat wakes it:
its weights are in memory, nobody has the lock, and the ledger does not count them. -/
theorem evicted_weights_come_back :
    ¬ Always (Runtime.step (ControllerConfig.plain 1) ⟨.normal, 1240, 5000, 100⟩) Charged
      (.acquire (.load ⟨"m.gguf", none, ⟨none, none, none, none, none, none, ()⟩, none, none, none⟩
          1200) :: List.replicate 18 (.advance planning) ++
        [.turnBegins 0, .turnAsks 0, .acquire (.evict 0), .advance planning, .advance planning,
          .advance planning, .turnSends 0 planning.env (.start [] [] ⟨.text, false, none, none⟩)])
      initial := by
  intro h
  obtain ⟨s, hs, hcharged⟩ := h.final
  obtain rfl := Option.some.inj hs
  rcases hcharged 0 _ rfl (by decide +kernel) (by decide +kernel) with hmarked | hback
  · exact absurd hmarked (by decide +kernel)
  · exact absurd hback (by decide +kernel)

end RuntimeInner

end Gen2.Runtime
