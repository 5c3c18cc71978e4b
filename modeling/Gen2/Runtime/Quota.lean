import Gen2.Lib.Run
import Gen2.Runtime.Admission

/-!
# The quota, along every run

The steps of the holder of the admission lock, and from them what is promised of a run.

* `Sound.set` and `Sound.register`: an entry may be changed, or added, where what it adds to the
  ledger is there.
* `Inv.enter`, `Inv.unloadVictim`, `Inv.charge` and `Inv.advance`: the holder's steps, which hand
  the invariant on from place to place.
* `ledger_kept`: along every run the ledger is within the quota, the counters are what is out, and
  every victim was chosen as it should be.
* `load_evicts_too_much`: a load makes room for the largest plan there is, and may then do with
  less.
-/

namespace Gen2.Runtime.RuntimeInner

open Controller Lib List RuntimeInner

variable {ρ : Type} {config : ControllerConfig ρ} {o : Outside ρ} {g : MemoryGovernor}
  {s s' : RuntimeInner ρ} {op : Op ρ} {id : ModelId} {want mb : Nat}

/-! ## The places -/

/-- Who holds the lock, and which turns are on their way, is nothing to the ledger. -/
theorem Sound.of_same (h : Sound g s) (hentries : s'.entries = s.entries)
    (hreserved : s'.reserved = s.reserved) (hlive : s'.live = s.live)
    (hclock : s'.clock = s.clock) : Sound g s' := by
  have htotal : s'.totalMb = s.totalMb := by
    rw [totalMb, chargedMb, reservedMb, hentries, hreserved]
    rfl
  refine ⟨⟨?_, ?_, fun kind => ?_⟩, ?_⟩
  · rw [htotal]
    exact h.quota
  · rw [htotal]
    exact h.word
  · rw [hreserved, liveMb, hlive]
    exact h.exact kind
  · rw [hentries, hclock]
    exact h.clocked

/-- Nobody has the lock. -/
theorem Inv.of_free (h : Sound g s) (hfree : s.admission = none) : Inv g s :=
  ⟨h, fun _ hholder => absurd (hfree.symm.trans hholder) (Option.some_ne_none _).symm⟩

theorem Inv.unlock (h : Sound g s) : Inv g s.unlock := .of_free (h.of_same rfl rfl rfl rfl) rfl

theorem Inv.goto {stage : Stage} (h : Sound g s) (hstage : StageOk g s op stage) :
    Inv g (s.goto op stage) := by
  refine ⟨h.of_same rfl rfl rfl rfl, fun holder hholder => ?_⟩
  obtain rfl := Option.some.inj hholder
  exact hstage.quiet (.of_same rfl fun _ => Nat.le_refl _)

theorem Inv.makeRoom (h : Sound g s) (hdue : s.Due op want) : Inv g (s.makeRoom op want) :=
  .goto h ⟨⟨_, _, ReadOk.opened h.word⟩, hdue⟩

theorem Inv.afterRoom (h : Sound g s) (hdue : s.Due op want) : Inv g (s.afterRoom op want) := by
  cases op with
  | load load weightMb => exact .goto h ⟨_, _, ReadOk.opened h.word⟩
  | _ => exact .goto h ⟨⟨_, _, ReadOk.opened h.word⟩, hdue⟩

/-- A turn that goes on is nothing to the ledger. -/
theorem Inv.restored {turn : Bool} (h : Sound g s) : Inv g (s.restored id turn) :=
  .of_free (h.of_same rfl rfl rfl rfl) rfl

/-! ## Entries changed and added -/

theorem Sound.set {e₀ e : Entry ρ} (h : Sound g s) (hid : s.entries[id]? = some e₀)
    (hcharge : e.chargeMb ≤ e₀.chargeMb + mb) (hquota : s.totalMb + mb ≤ g.inferenceResidentMb)
    (hword : s.totalMb + mb < 2 ^ 64) (hused : e.lastUsed ≤ (s.clock : Stamp)) :
    Sound g (s.setEntry id e) := by
  have hset := chargedMb_setEntry (e := e) hid
  have htotal : (s.setEntry id e).totalMb ≤ s.totalMb + mb := by
    have hsame : (s.setEntry id e).reservedMb Auxiliary.all = s.reservedMb Auxiliary.all := rfl
    rw [totalMb, totalMb, hsame]
    omega
  refine ⟨⟨htotal.trans hquota, Nat.lt_of_le_of_lt htotal hword, h.exact⟩, fun e' he' => ?_⟩
  rcases mem_or_eq_of_mem_set he' with hmem | rfl
  · exact h.clocked e' hmem
  · exact hused

/-- Where nothing is added, there is nothing to admit. -/
theorem Sound.set_le {e₀ e : Entry ρ} (h : Sound g s) (hid : s.entries[id]? = some e₀)
    (hcharge : e.chargeMb ≤ e₀.chargeMb) (hused : e.lastUsed ≤ (s.clock : Stamp)) :
    Sound g (s.setEntry id e) :=
  have hsame : e.chargeMb ≤ e₀.chargeMb + 0 := hcharge
  h.set hid hsame h.quota h.word hused

theorem Sound.register {e : Entry ρ} (h : Sound g s) (hcharge : e.chargeMb ≤ mb)
    (hquota : s.totalMb + mb ≤ g.inferenceResidentMb) (hword : s.totalMb + mb < 2 ^ 64)
    (hused : e.lastUsed ≤ (s.clock : Stamp)) : Sound g (s.register e) := by
  have htotal : (s.register e).totalMb ≤ s.totalMb + mb := by
    have hsame : (s.register e).reservedMb Auxiliary.all = s.reservedMb Auxiliary.all := rfl
    rw [totalMb, totalMb, hsame, chargedMb_register]
    omega
  refine ⟨⟨htotal.trans hquota, Nat.lt_of_le_of_lt htotal hword, h.exact⟩, fun e' he' => ?_⟩
  rcases mem_append.1 he' with hmem | hmem
  · exact h.clocked e' hmem
  · rw [mem_singleton.1 hmem]
    exact hused

theorem Sound.lastUsed_le {e : Entry ρ} (h : Sound g s) (hid : s.entries[id]? = some e) :
    e.lastUsed ≤ (s.clock : Stamp) := h.clocked e (mem_of_getElem? hid)

theorem Sound.touch (h : Sound g s) (id : ModelId) : Sound g (s.touch id) := by
  unfold RuntimeInner.touch
  rcases hid : s.entries[id]? with _ | e
  · exact h
  · have hq := EntryQuiet.touch (h.lastUsed_le hid)
    refine h.set_le hid (le_of_eq hq.charge) ?_
    cases e <;> exact le_refl _

/-- The flag cleared. -/
theorem Sound.clear (h : Sound g s) (id : ModelId) : Sound g (s.setResident id false) := by
  unfold setResident
  split
  · exact h
  · next m hm =>
    have hid := text?_eq_some.1 hm
    have hused := h.lastUsed_le hid
    refine h.set_le hid ?_ hused
    simp [Entry.chargeMb]

/-- The flag set, where there is room for the weights. -/
theorem Sound.mark (h : Sound g s) (hdue : ∀ e, s.entries[id]? = some e → e.dueMb ≤ mb)
    (hquota : s.totalMb + mb ≤ g.inferenceResidentMb) (hword : s.totalMb + mb < 2 ^ 64) :
    Sound g (s.setResident id true) := by
  unfold setResident
  split
  · exact h
  · next m hm =>
    have hid := text?_eq_some.1 hm
    have hused := h.lastUsed_le hid
    refine h.set hid ?_ hquota hword hused
    have hest : m.estimatedMb ≤ mb := hdue _ hid
    refine le_trans ?_ (hest.trans (Nat.le_add_left _ _))
    dsimp only [Entry.chargeMb]
    split
    · exact le_refl _
    · exact Nat.zero_le _

/-- A change of another entry than the one that is kept. -/
theorem Due.set {e₀ e : Entry ρ} (h : s.Due op mb) (hid : s.entries[id]? = some e₀)
    (hkeep : some id ≠ op.keep) : (s.setEntry id e).Due op mb := by
  have hother : ∀ id' : ModelId, id' ≠ id → (∀ e, s.entries[id']? = some e → e.dueMb ≤ mb) →
      ∀ e', (s.setEntry id e).entries[id']? = some e' → e'.dueMb ≤ mb := by
    intro id' hne hdue e' he'
    rw [getElem?_setEntry hid, if_neg hne] at he'
    exact hdue e' he'
  cases op with
  | restore id' turn => exact hother id' (fun heq => hkeep (congrArg some heq.symm)) h
  | preloadImage id' => exact hother id' (fun heq => hkeep (congrArg some heq.symm)) h
  | beginJob id' => exact hother id' (fun heq => hkeep (congrArg some heq.symm)) h
  | _ => exact h

theorem Due.clear (h : s.Due op mb) (hkeep : some id ≠ op.keep) :
    (s.setResident id false).Due op mb := by
  unfold setResident
  split
  · exact h
  · next m hm => exact h.set (text?_eq_some.1 hm) hkeep

/-! ## The controller's part -/

theorem unloadModel_eq_some {m m' : Loaded ρ} (h : unloadModel config o.env m = some m') :
    m.controller.running = true ∧ m' = { m with
      controller := m.controller.unloadModel config o.env } := by
  unfold unloadModel at h
  split at h
  · next hrunning => exact ⟨hrunning, (Option.some.inj h).symm⟩
  · exact nomatch h

theorem reloadModel_snd (config : ControllerConfig ρ) (env : Env ρ) (m : Loaded ρ) :
    ∃ c, (reloadModel config env m).2 = { m with controller := c } := by
  unfold reloadModel
  split
  · exact ⟨_, rfl⟩
  · exact ⟨m.controller, rfl⟩

theorem Sound.controller {m : Loaded ρ} (h : Sound g s) (hm : s.entries[id]? = some (.text m))
    (c : ControllerState ρ) : Sound g (s.setText id { m with controller := c }) := by
  have hused := h.lastUsed_le hm
  exact h.set_le hm (le_refl _) hused

/-! ## The holder's steps -/

theorem Inv.enter (h : Sound g s) : Inv g (s.enter config o op) := by
  cases op with
  | restore id turn =>
    dsimp only [enter]
    split
    · exact .unlock h
    split
    · exact .unlock h
    · split
      · exact .goto h trivial
      · exact .goto h trivial
  | evict id =>
    dsimp only [enter]
    split
    · exact .unlock h
    · split
      · exact .goto h trivial
      · exact .unlock h
  | load load weightMb =>
    dsimp only [enter]
    split
    · exact .unlock h
    · exact .makeRoom h trivial
  | reserve kind mb =>
    dsimp only [enter]
    split
    · exact .unlock h
    · exact .makeRoom h (le_refl _)
  | loadImage totalMb => exact .makeRoom h (le_refl _)
  | preloadImage id =>
    dsimp only [enter]
    split
    · exact .unlock h
    · next e he =>
      split
      · exact .unlock (h.touch id)
      · next hgone =>
        refine .makeRoom h fun e' he' => ?_
        rw [image?_eq_some.1 he] at he'
        obtain rfl := Option.some.inj he'
        rw [Entry.dueMb, if_neg hgone]
  | beginJob id =>
    dsimp only [enter]
    split
    · exact .unlock h
    · next e he =>
      split
      · exact .unlock h
      split
      · next hin =>
        refine .makeRoom h fun e' he' => ?_
        rw [image?_eq_some.1 he] at he'
        obtain rfl := Option.some.inj he'
        rw [Entry.dueMb, if_pos hin]
      · next hgone =>
        refine .makeRoom h fun e' he' => ?_
        rw [image?_eq_some.1 he] at he'
        obtain rfl := Option.some.inj he'
        rw [Entry.dueMb, if_neg hgone]
  | finishJob id =>
    dsimp only [enter]
    split
    · exact .unlock h
    · next e he => exact .unlock (h.set_le (image?_eq_some.1 he) (le_refl _) (le_refl _))
  | evictImage id =>
    dsimp only [enter]
    split
    · exact .unlock h
    · next e he =>
      have hid := image?_eq_some.1 he
      have hused := h.lastUsed_le hid
      split
      · exact .unlock (h.set_le hid (Nat.zero_le _) hused)
      · exact .unlock h

theorem Inv.unloadVictim {victim : ModelId} (h : Sound g s) (hkeep : some victim ≠ op.keep)
    (hdue : s.Due op want) : Inv g (s.unloadVictim config o op want victim) := by
  unfold RuntimeInner.unloadVictim
  split
  · exact .afterRoom h hdue
  · next m hm =>
    split
    · split
      · next m' hm' =>
        obtain ⟨-, rfl⟩ := unloadModel_eq_some hm'
        exact .goto (h.controller hm _) ⟨hkeep, hdue.set hm hkeep⟩
      · exact .afterRoom h hdue
    · exact .makeRoom h hdue
  · next e he =>
    have hused := h.lastUsed_le he
    split
    · exact .makeRoom (h.set_le he (Nat.zero_le _) hused) (hdue.set he hkeep)
    · exact .afterRoom h hdue

/-! ### What was admitted is charged -/

theorem reserved_le_totalMb (s : RuntimeInner ρ) (kind : Auxiliary) :
    s.reserved kind ≤ s.totalMb := by
  have hsum : s.totalMb = s.chargedMb + (s.reserved .speech + (s.reserved .decision +
    (s.reserved .diarization + (s.reserved .working + 0)))) := rfl
  cases kind <;> omega

/-- One counter more by `n`, which is the whole ledger more by `n`. -/
theorem totalMb_update (s : RuntimeInner ρ) (kind : Auxiliary) (n : Nat) :
    ({ s with reserved := Function.update s.reserved kind (s.reserved kind + n) } :
      RuntimeInner ρ).totalMb = s.totalMb + n := by
  have hsum : ∀ f : Auxiliary → Nat, ({ s with reserved := f } : RuntimeInner ρ).totalMb =
    s.chargedMb + (f .speech + (f .decision + (f .diarization + (f .working + 0)))) := fun _ => rfl
  have hold : s.totalMb = s.chargedMb + (s.reserved .speech + (s.reserved .decision +
    (s.reserved .diarization + (s.reserved .working + 0)))) := rfl
  rw [hsum, hold]
  cases kind <;> simp [Function.update] <;> omega

theorem liveMb_append (s : RuntimeInner ρ) (r : Reservation) (kind : Auxiliary) :
    ({ s with live := s.live ++ [r] } : RuntimeInner ρ).liveMb kind =
      s.liveMb kind + if r.kind = kind then r.mb else 0 := by
  unfold liveMb
  by_cases h : r.kind = kind <;> simp [filter_append, h]

theorem Sound.reserve {kind : Auxiliary} {n : Nat} (h : Sound g s) (hle : n ≤ mb)
    (hquota : s.totalMb + mb ≤ g.inferenceResidentMb) (hword : s.totalMb + mb < 2 ^ 64) :
    Sound g { s with
      reserved := Function.update s.reserved kind (fetchAdd (s.reserved kind) n)
      live := s.live ++ [⟨kind, n⟩] } := by
  have hcounter := s.reserved_le_totalMb kind
  have hadd : fetchAdd (s.reserved kind) n = s.reserved kind + n :=
    Nat.mod_eq_of_lt (by omega)
  rw [hadd]
  have htotal := s.totalMb_update kind n
  refine ⟨⟨?_, ?_, fun kind' => ?_⟩, h.clocked⟩
  · refine le_trans (le_of_eq htotal) ?_
    omega
  · refine lt_of_eq_of_lt htotal ?_
    omega
  have hlive := liveMb_append s ⟨kind, n⟩ kind'
  have hexact := h.exact kind'
  refine Eq.trans ?_ hlive.symm
  dsimp only
  by_cases heq : kind = kind'
  · rw [heq, Function.update_self, if_pos rfl, ← hexact]
  · rw [Function.update_of_ne (Ne.symm heq), if_neg heq, hexact, Nat.add_zero]

/-- What a driver's return adds is what was due. -/
theorem restoreImage_spec {factory : Bool} {now : Nat} {e e' : ImageEntry}
    (h : restoreImage factory now e = some e') :
    (Entry.image (ρ := ρ) e').chargeMb ≤ (Entry.image (ρ := ρ) e).chargeMb +
      (Entry.image (ρ := ρ) e).dueMb ∧ e'.lastUsed = (now : Stamp) := by
  unfold restoreImage at h
  split at h
  · obtain rfl := Option.some.inj h
    exact ⟨Nat.le_add_right _ _, rfl⟩
  · next hgone =>
    split at h
    · obtain rfl := Option.some.inj h
      refine ⟨?_, rfl⟩
      rw [Entry.dueMb, if_neg hgone]
      exact Nat.le_add_left _ _
    · exact nomatch h

theorem Sound.restoreImage {e e' : ImageEntry} {busy : Bool} (h : Sound g s)
    (hdue : ∀ e, s.entries[id]? = some e → e.dueMb ≤ mb)
    (hquota : s.totalMb + mb ≤ g.inferenceResidentMb) (hword : s.totalMb + mb < 2 ^ 64)
    (he : s.image? id = some e)
    (hrestore : restoreImage o.factory s.clock e = some e') :
    Sound g (s.setImage id { e' with busy := busy }) := by
  have hid := image?_eq_some.1 he
  obtain ⟨hcharge, hused⟩ := restoreImage_spec (ρ := ρ) hrestore
  have hle := hdue _ hid
  exact h.set hid (hcharge.trans (Nat.add_le_add_left hle _)) hquota hword (le_of_eq hused)

theorem Inv.charge (h : Sound g s) (hstage : StageOk g s op (.charging mb)) :
    Inv g (s.charge config o op mb) := by
  obtain ⟨hdue, hquota, hword⟩ := hstage
  cases op with
  | restore id turn =>
    dsimp only [charge]
    split
    · exact .unlock h
    · next m hm =>
      have hid := text?_eq_some.1 hm
      obtain ⟨c, hc⟩ := reloadModel_snd config o.env m
      split
      · next m' hm' =>
        rw [hm'] at hc
        dsimp only at hc
        subst hc
        have hmarking : StageOk g s (.restore id turn) .marking := ⟨mb, hdue, hquota, hword⟩
        exact .goto (h.controller hid c) (hmarking.quiet (.setEntry hid (.controller m c)))
      · next m' hm' =>
        rw [hm'] at hc
        dsimp only at hc
        subst hc
        exact .unlock (h.controller hid c)
  | load load weightMb =>
    dsimp only [charge]
    split
    · exact .unlock h
    · exact .unlock (h.register (le_refl _) hquota hword (le_refl _))
  | reserve kind n => exact .of_free ((h.reserve hdue hquota hword).of_same rfl rfl rfl rfl) rfl
  | loadImage totalMb =>
    dsimp only [charge]
    split
    · exact .unlock (h.register hdue hquota hword (le_refl _))
    · exact .unlock h
  | preloadImage id =>
    dsimp only [charge]
    split
    · exact .unlock h
    · next e' he' =>
      obtain ⟨e, he, hrestore⟩ := Option.bind_eq_some_iff.1 he'
      exact .unlock (h.restoreImage hdue hquota hword he hrestore)
  | beginJob id =>
    dsimp only [charge]
    split
    · exact .unlock h
    · next e' he' =>
      obtain ⟨e, he, hrestore⟩ := Option.bind_eq_some_iff.1 he'
      exact .unlock (h.restoreImage hdue hquota hword he hrestore)
  | _ => exact .unlock h

/-! ### Readings and rankings -/

/-- One more counter of a reading in progress, which no step under the lock disturbs. -/
theorem exists_readNext {r : Reading} {kind : Auxiliary} {left : List Auxiliary}
    (h : ∃ t done, ReadOk s r t done) (hleft : r.left = kind :: left) :
    ∃ t done, ReadOk s (s.readNext kind left r) t done := by
  obtain ⟨t, done, hr⟩ := h
  exact ⟨_, _, hr.next hleft⟩

/-- What does not fit over a finished reading did not fit when the reading began. -/
theorem short_of_reading {r : Reading} (h : ∃ t done, ReadOk s r t done) (hleft : r.left = [])
    (hshort : fits g r.total want = false) : fits g (some r.opened) want = false := by
  obtain ⟨t, done, hr⟩ := h
  rw [hr.total] at hshort
  by_contra hfits
  rw [Bool.not_eq_false] at hfits
  rw [fits_mono (hr.bounds hleft).2 hfits] at hshort
  exact nomatch hshort

/-- What fits over a finished reading fits over the ledger. -/
theorem room_of_reading {r : Reading} (h : ∃ t done, ReadOk s r t done) (hleft : r.left = [])
    (hfits : fits g r.total mb = true) :
    s.totalMb + mb ≤ g.inferenceResidentMb ∧ s.totalMb + mb < 2 ^ 64 := by
  obtain ⟨t, done, hr⟩ := h
  rw [hr.total] at hfits
  obtain ⟨⟨hword, hquota⟩, -⟩ := fits_iff.1 (fits_mono (hr.bounds hleft).1 hfits)
  exact ⟨hquota, hword⟩

theorem Ranking.begin (o : HashOrder) (s : RuntimeInner ρ) (keep : Option ModelId) :
    Ranking s keep (o.arrange (s.candidates keep)) [] where
  seen _ hid := .inl ((o.perm _).mem_iff.2 (mem_candidates.2 hid))
  left _ hid := mem_candidates.1 ((o.perm _).mem_iff.1 hid)
  ranked _ hc := absurd hc not_mem_nil

theorem Ranking.next {keep : Option ModelId} {left : List ModelId} {ranked : List Candidate}
    (h : Ranking s keep (id :: left) ranked) :
    Ranking s keep left (ranked ++ [⟨s.lastUsed id, id⟩]) where
  seen id' hid' := by
    rcases h.seen id' hid' with hleft | ⟨c, hc, hcid⟩
    · rcases mem_cons.1 hleft with rfl | hleft
      · exact .inr ⟨_, mem_append_right _ mem_cons_self, rfl⟩
      · exact .inl hleft
    · exact .inr ⟨c, mem_append_left _ hc, hcid⟩
  left id' hid' := h.left id' (mem_cons_of_mem _ hid')
  ranked c hc := by
    rcases mem_append.1 hc with hc | hc
    · exact h.ranked c hc
    · rw [mem_singleton.1 hc]
      exact ⟨h.left id mem_cons_self, le_refl _⟩

/-- The first in the order of use is what was used longest ago. -/
theorem Ranking.chosen {keep : Option ModelId} {ranked : List Candidate} {r : Reading}
    {victim : Candidate} (h : Ranking s keep [] ranked)
    (hshort : fits g (some r.opened) want = false)
    (hv : ranked.argmin Candidate.order = some victim) : Chosen g s keep want r victim where
  short := hshort
  evictable := (h.ranked victim (argmin_mem hv)).1
  oldest id hid := by
    rcases h.seen id hid with hno | ⟨c, hc, rfl⟩
    · exact absurd hno not_mem_nil
    · exact (le_of_mem_argmin hc hv).trans (order_le (h.ranked c hc).2)

/-! ### One step -/

/-- **A step of the holder** keeps the invariant. -/
theorem Inv.advance {stage : Stage} (h : Sound g s) (hstage : StageOk g s op stage) :
    Inv g (s.advance config g o op stage) := by
  cases stage with
  | entered => exact .enter h
  | asking =>
    cases op with
    | restore id turn =>
      dsimp only [RuntimeInner.advance]
      split
      · exact .restored h
      · exact .goto h trivial
    | _ => exact .unlock h
  | clearing =>
    cases op with
    | restore id turn =>
      dsimp only [RuntimeInner.advance]
      split
      · exact .unlock h
      · next m hm =>
        refine .makeRoom (h.clear id) fun e he => ?_
        rw [setResident, hm] at he
        dsimp only [setText] at he
        rw [getElem?_setEntry (text?_eq_some.1 hm), if_pos rfl] at he
        obtain rfl := Option.some.inj he
        exact le_refl _
    | _ => exact .unlock h
  | room want r =>
    obtain ⟨hread, hdue⟩ := hstage
    dsimp only [RuntimeInner.advance]
    split
    · next kind left hleft => exact .goto h ⟨exists_readNext hread hleft, hdue⟩
    · next hleft =>
      split
      · exact .afterRoom h hdue
      · next hshort =>
        rw [Bool.not_eq_true] at hshort
        exact .goto h ⟨short_of_reading hread hleft hshort, hdue, Ranking.begin o.order s op.keep⟩
  | ranking want r left ranked =>
    obtain ⟨hshort, hdue, hranking⟩ := hstage
    cases left with
    | cons id left => exact .goto h ⟨hshort, hdue, hranking.next⟩
    | nil =>
      dsimp only [RuntimeInner.advance]
      split
      · exact .afterRoom h hdue
      · next victim hv => exact .goto h ⟨hranking.chosen hshort hv, hdue⟩
  | unloading want r victim =>
    exact .unloadVictim h hstage.1.evictable.1 hstage.2
  | unloaded want victim =>
    exact .makeRoom (h.clear victim) (hstage.2.clear hstage.1)
  | evicting =>
    cases op with
    | evict id =>
      dsimp only [RuntimeInner.advance]
      split
      · exact .unlock h
      · next m' hm' =>
        obtain ⟨m, hm, hunload⟩ := Option.bind_eq_some_iff.1 hm'
        obtain ⟨-, rfl⟩ := unloadModel_eq_some hunload
        exact .goto (h.controller (text?_eq_some.1 hm) _) trivial
    | _ => exact .unlock h
  | evicted =>
    cases op with
    | evict id => exact .unlock (h.clear id)
    | _ => exact .unlock h
  | budget r =>
    cases op with
    | load load weightMb =>
      dsimp only [RuntimeInner.advance]
      split
      · next kind left hleft => exact .goto h (exists_readNext hstage hleft)
      · split
        · exact .unlock h
        · exact .goto h ⟨⟨_, _, ReadOk.opened h.word⟩, trivial⟩
    | _ => exact .unlock h
  | admission mb r =>
    obtain ⟨hread, hdue⟩ := hstage
    dsimp only [RuntimeInner.advance]
    split
    · next kind left hleft => exact .goto h ⟨exists_readNext hread hleft, hdue⟩
    · next hleft =>
      split
      · next hfits => exact .goto h ⟨hdue, room_of_reading hread hleft hfits⟩
      · exact .unlock h
  | charging mb => exact .charge h hstage
  | marking =>
    cases op with
    | restore id turn =>
      obtain ⟨mb, hdue, hquota, hword⟩ := hstage
      exact .restored (h.mark hdue hquota hword)
    | _ => exact .unlock h

/-! ### The other threads -/

theorem Inv.other (h : Inv g s) (hq : Quiet s s') (hadmission : s'.admission = s.admission)
    (hexact : ∀ kind, s'.reserved kind = s'.liveMb kind)
    (hclocked : ∀ e ∈ s'.entries, e.lastUsed ≤ (s'.clock : Stamp)) : Inv g s' where
  quota := hq.totalMb_le.trans h.quota
  word := Nat.lt_of_le_of_lt hq.totalMb_le h.word
  exact := hexact
  clocked := hclocked
  stage holder hholder := by
    rw [hadmission] at hholder
    exact (h.stage holder hholder).quiet hq

theorem sum_map_eraseIdx {α : Type} (f : α → Nat) {l : List α} {k : Nat} {x : α}
    (h : l[k]? = some x) : ((l.eraseIdx k).map f).sum + f x = (l.map f).sum := by
  induction l generalizing k with
  | nil => exact nomatch h
  | cons y l ih =>
    cases k with
    | zero =>
      obtain rfl := Option.some.inj h
      exact Nat.add_comm _ _
    | succ k =>
      have hrest := ih h
      simp only [eraseIdx_cons_succ, map_cons, sum_cons]
      omega

theorem liveMb_eq (s : RuntimeInner ρ) (kind : Auxiliary) :
    s.liveMb kind = (s.live.map fun r => if r.kind = kind then r.mb else 0).sum := by
  unfold liveMb
  induction s.live with
  | nil => rfl
  | cons r live ih => by_cases h : r.kind = kind <;> simp [h, ih]

/-- A reservation that is out is in its counter. -/
theorem mb_le_reserved {k : Nat} {r : Reservation}
    (hexact : ∀ kind, s.reserved kind = s.liveMb kind)
    (hr : s.live[k]? = some r) : r.mb ≤ s.reserved r.kind := by
  have hsum := sum_map_eraseIdx (fun r' => if r'.kind = r.kind then r'.mb else 0) hr
  rw [if_pos rfl, ← liveMb_eq, ← hexact] at hsum
  omega

/-- **A drop** takes from the counter what the reservation added. -/
theorem Inv.dropReservation (h : Inv g s) (k : Nat) : Inv g (s.dropReservation k) := by
  unfold RuntimeInner.dropReservation
  split
  · exact h
  · next r hr =>
    have hle := mb_le_reserved h.exact hr
    have hword := (s.reserved_le_totalMb r.kind).trans_lt h.word
    have hsub : fetchSub (s.reserved r.kind) r.mb = s.reserved r.kind - r.mb := by
      have hcomm : s.reserved r.kind + 2 ^ 64 - r.mb = s.reserved r.kind - r.mb + 2 ^ 64 := by omega
      rw [fetchSub, hcomm, Nat.add_mod_right]
      exact Nat.mod_eq_of_lt (by omega)
    rw [hsub]
    refine h.other (.of_same rfl fun kind => ?_) rfl (fun kind => ?_) h.clocked
    · dsimp only
      by_cases heq : kind = r.kind
      · rw [heq, Function.update_self]
        exact Nat.sub_le _ _
      · rw [Function.update_of_ne heq]
    · have hsum := sum_map_eraseIdx (fun r' => if r'.kind = kind then r'.mb else 0) hr
      have hexact := h.exact kind
      rw [liveMb_eq] at hexact ⊢
      dsimp only at hsum hexact ⊢
      by_cases heq : kind = r.kind
      · rw [heq, Function.update_self]
        rw [heq, if_pos rfl] at hsum
        rw [heq] at hexact
        omega
      · rw [if_neg (Ne.symm heq)] at hsum
        rw [Function.update_of_ne heq]
        omega

theorem Inv.touch (h : Inv g s) (id : ModelId) : Inv g (s.touch id) := by
  have hsound := h.toSound.touch id
  unfold RuntimeInner.touch at hsound ⊢
  rcases hid : s.entries[id]? with _ | e
  · exact h
  · rw [hid] at hsound
    exact h.other (.setEntry hid (.touch (h.lastUsed_le hid))) rfl hsound.exact hsound.clocked

theorem Inv.controllerStep {env : Env ρ} {input : Input ρ} (h : Inv g s) :
    Inv g (s.controllerStep config id env input) := by
  unfold RuntimeInner.controllerStep
  split
  · exact h
  · next m hm =>
    have hid := text?_eq_some.1 hm
    split
    · exact h
    · next c _ =>
      have hsound := h.toSound.controller hid c
      exact h.other (.setEntry hid (.controller m c)) rfl hsound.exact hsound.clocked

/-- Turns on their way are nothing to the ledger. -/
theorem Inv.withTurns (h : Inv g s) (turns : List (ModelId × TurnStage)) :
    Inv g { s with turns := turns } :=
  h.other (.of_same rfl fun _ => le_refl _) rfl h.exact h.clocked

theorem Inv.turnBegins (h : Inv g s) (id : ModelId) : Inv g (s.turnBegins id) := by
  unfold RuntimeInner.turnBegins
  split
  · exact h
  split
  · exact h.withTurns _
  · split
    · exact h.withTurns _
    · exact h

theorem Inv.turnAsks (h : Inv g s) (k : Nat) : Inv g (s.turnAsks k) := by
  unfold RuntimeInner.turnAsks
  split
  · split <;> exact h.withTurns _
  · exact h

/-- **One step** keeps the invariant. -/
theorem Inv.step {act : Act ρ} (h : Inv g s) (hs : step config g act s = some s') : Inv g s' := by
  obtain rfl := Option.some.inj hs
  cases act with
  | acquire op =>
    dsimp only
    split
    · exact .goto h.toSound trivial
    · exact h
  | advance o =>
    dsimp only
    split
    · exact h
    · next holder hholder => exact .advance h.toSound (h.stage holder hholder)
  | drop k => exact h.dropReservation k
  | touch id => exact h.touch id
  | elapse time =>
    refine h.other (.of_same rfl fun _ => le_refl _) rfl h.exact fun e he => ?_
    exact (h.clocked e he).trans (WithBot.coe_le_coe.2 (Nat.le_add_right _ _))
  | connect controller =>
    refine h.other (.connect s controller) rfl h.exact fun e he => ?_
    rcases mem_append.1 he with hmem | hmem
    · exact h.clocked e hmem
    · rw [mem_singleton.1 hmem]
      exact bot_le
  | turnBegins id => exact h.turnBegins id
  | turnAsks k => exact h.turnAsks k
  | turnSends k env chat =>
    dsimp only
    split
    · exact (h.withTurns _).controllerStep
    · exact h
  | agentSends id env chat => exact h.controllerStep
  | round id env input =>
    dsimp only
    split
    · exact h.controllerStep
    · exact h

/-- What is promised of a step follows from the invariant before it. -/
theorem Inv.stepOk (h : Inv g s) (act : Act ρ) : StepOk g s act := by
  cases act with
  | advance o =>
    dsimp only [StepOk]
    split
    · next op want r victim hholder => exact (h.stage _ hholder).1
    · next kind n mb hholder =>
      obtain ⟨hdue, -, hword⟩ := h.stage _ hholder
      have hcounter := s.reserved_le_totalMb kind
      have hle : n ≤ mb := hdue
      omega
    · trivial
  | drop k => exact fun r hr => mb_le_reserved h.exact hr
  | _ => trivial

theorem Inv.initial (g : MemoryGovernor) : Inv g (initial : RuntimeInner ρ) := by
  have htotal : (RuntimeInner.initial : RuntimeInner ρ).totalMb = 0 := rfl
  refine .of_free ⟨⟨?_, ?_, fun _ => rfl⟩, fun _ he => absurd he not_mem_nil⟩ rfl
  · rw [htotal]
    exact Nat.zero_le _
  · rw [htotal]
    decide

/-- **The ledger is kept.**  Along every run, whatever the order of loads, restores, evictions,
image jobs, reservations and their drops: in every state the ledger is within the quota and each
counter is the sum of what is out, and in every step that evicts the victim is one that may be
evicted and was used longest ago, and what room is made for did not fit when the loop came round. -/
theorem ledger_kept (config : ControllerConfig ρ) (g : MemoryGovernor) (acts : List (Act ρ)) :
    Always (Runtime.step config g) (Kept g) acts initial ∧
      EveryStep (Runtime.step config g) (StepOk g) acts initial := by
  have hstep : ∀ s act, Inv g s → True → ∃ s', Runtime.step config g act s = some s' ∧ Inv g s' :=
    fun s act h _ => ⟨_, rfl, h.step rfl⟩
  constructor
  · exact (always_of_step hstep (.initial g) (everyStep_true acts _)).mono fun s h => h.toKept
  · exact EveryStep.of_invariant (I := Inv g) (fun s act s' h _ hs => h.step hs)
      (fun s act h _ => h.stepOk act) (.initial g) (everyStep_true acts _)

/-! ## More than is needed -/

/-- A model that was resident is not any more. -/
def Gone (s s' : RuntimeInner ρ) (id : ModelId) : Prop :=
  s.entries[id]?.any Entry.evictable = true ∧ s'.entries[id]?.any Entry.evictable = false

/-- Nothing that a load evicts could have stayed: where it evicts anything, one at least of what it
evicts does not fit beside what it charges in the end. -/
def EvictsNoMore (config : ControllerConfig ρ) (g : MemoryGovernor) : Prop :=
  ∀ acts load weightMb (outs : List (Outside ρ)) s s',
    runAll (Runtime.step config g) acts initial = some s →
      runAll (Runtime.step config g) (.acquire (.load load weightMb) :: outs.map .advance) s =
        some s' → s'.admission = none → (∃ id, s.Gone s' id) →
          ∃ id, s.Gone s' id ∧ g.inferenceResidentMb < s'.totalMb +
            s.entries[id]?.elim 0 Entry.chargeMb

/-- An outside in which a model needs 1246 MB with a context of 4096 tokens, and 1222 MB with one of
2048, which it is planned with where no other is asked for and the first does not fit. -/
def planning : Outside Unit where
  env := { Env.smooth Unit with
    governor := fun _ => ⟨.normal, 1240, 5000, 100⟩
    planGguf := fun _ _ settings _ budget =>
      if settings.ctxSize = none ∧ 1246 ≤ budget then .ok (some ⟨1246, 4096⟩)
      else if 1222 ≤ budget then .ok (some ⟨1222, 2048⟩)
      else .error "model admission denied" }
  order := ⟨fun ids => ids, fun _ => .rfl⟩
  preflight := .ok ⟨some (.new (ControllerConfig.plain 1).build .llamaCpp)⟩
  factory := true
  teardown := true

/-- A model of five MB is evicted for a context of 4096 tokens, which does not fit without it
either; one of 2048 is then loaded, and would have fitted beside it. -/
theorem load_evicts_too_much :
    ¬ EvictsNoMore (ControllerConfig.plain 1) ⟨.normal, 1240, 5000, 100⟩ := by
  intro h
  have hmore := h (.acquire (.loadImage 5) :: List.replicate 12 (.advance planning))
    ⟨"m.gguf", none, ⟨none, none, none, none, none, none, ()⟩, none, none, none⟩ 1200
    (List.replicate 26 planning) _ _ rfl rfl rfl ⟨0, by decide +kernel, by decide +kernel⟩
  obtain ⟨id, ⟨hbefore, -⟩, hlt⟩ := hmore
  have hid : id = 0 := by
    by_contra hne
    have hout : (1 : Nat) ≤ id := Nat.one_le_iff_ne_zero.2 hne
    rw [List.getElem?_eq_none hout] at hbefore
    exact nomatch hbefore
  subst hid
  revert hlt
  decide +kernel

end Gen2.Runtime.RuntimeInner
