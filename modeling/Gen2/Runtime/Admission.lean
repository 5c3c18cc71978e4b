import Gen2.Runtime.Ledger

/-!
# What an admission rests on

* `Kept`: what is promised of every state.  The ledger is within the quota, and every counter is the
  sum of the reservations that are out.
* `Chosen`: what is promised of a victim when it is unloaded.
* `StageOk`: what the holder of the lock relies on where it is, and `Inv`: the invariant.
* `StageOk.quiet`: the drops, touches, chats and controller rounds of other threads leave what the
  holder relies on, because they only ever lower the counters and raise the times of use.
-/

namespace Gen2.Runtime

open Controller List

variable {ρ : Type}

/-- What bringing the model back may add to the ledger. -/
def Entry.dueMb : Entry ρ → Nat
  | .text m => m.estimatedMb
  | .image e => if e.resident then 0 else e.totalMb

namespace RuntimeInner

/-! ## What is promised -/

/-- The ledger is within the quota, and its counters are what is out. -/
structure Kept (g : MemoryGovernor) (s : RuntimeInner ρ) : Prop where
  quota : s.totalMb ≤ g.inferenceResidentMb
  word : s.totalMb < 2 ^ 64
  exact : ∀ kind, s.reserved kind = s.liveMb kind

/-- When a model was last used, as far as it is known. -/
def lastUsed (s : RuntimeInner ρ) (id : ModelId) : Stamp := s.entries[id]?.elim ⊥ Entry.lastUsed

/-- What may be evicted. -/
def Evictable (s : RuntimeInner ρ) (keep : Option ModelId) (id : ModelId) : Prop :=
  some id ≠ keep ∧ s.entries[id]?.any Entry.evictable = true

/-- A victim: what room is made for did not fit over the ledger when its last reading began, the
victim may be evicted, and nothing that may was last used before the victim was seen to be. -/
structure Chosen (g : MemoryGovernor) (s : RuntimeInner ρ) (keep : Option ModelId) (want : Nat)
    (r : Reading) (victim : Candidate) : Prop where
  short : fits g (some r.opened) want = false
  evictable : s.Evictable keep victim.id
  oldest : ∀ id, s.Evictable keep id → victim.order ≤ (⟨s.lastUsed id, id⟩ : Candidate).order

/-- What is promised of a step: a victim is chosen as it should be, and no counter wraps around. -/
def StepOk (g : MemoryGovernor) (s : RuntimeInner ρ) : Act ρ → Prop
  | .advance _ =>
    match s.admission with
    | some ⟨op, .unloading want r victim⟩ => Chosen g s op.keep want r victim
    | some ⟨.reserve kind mb, .charging _⟩ => s.reserved kind + mb < 2 ^ 64
    | _ => True
  | .drop k => ∀ r, s.live[k]? = some r → r.mb ≤ s.reserved r.kind
  | _ => True

/-! ## What the holder relies on -/

/-- What the holder is about to charge is no more than `mb`. -/
def Due (s : RuntimeInner ρ) (op : Op ρ) (mb : Nat) : Prop :=
  match op with
  | .restore id _ | .preloadImage id | .beginJob id =>
    ∀ e, s.entries[id]? = some e → e.dueMb ≤ mb
  | .reserve _ n | .loadImage n => n ≤ mb
  | _ => True

/-- While the candidates are ranked: each is still to be looked at, or was seen to be used no later
than it is known to be now. -/
structure Ranking (s : RuntimeInner ρ) (keep : Option ModelId) (left : List ModelId)
    (ranked : List Candidate) : Prop where
  seen : ∀ id, s.Evictable keep id → id ∈ left ∨ ∃ c ∈ ranked, c.id = id
  left : ∀ id ∈ left, s.Evictable keep id
  ranked : ∀ c ∈ ranked, s.Evictable keep c.id ∧ c.lastUsed ≤ s.lastUsed c.id

/-- The invariant of the holder's place. -/
def StageOk (g : MemoryGovernor) (s : RuntimeInner ρ) (op : Op ρ) : Stage → Prop
  | .room want r => (∃ t done, ReadOk s r t done) ∧ s.Due op want
  | .ranking want r left ranked =>
    fits g (some r.opened) want = false ∧ s.Due op want ∧ Ranking s op.keep left ranked
  | .unloading want r victim => Chosen g s op.keep want r victim ∧ s.Due op want
  | .unloaded want victim => some victim ≠ op.keep ∧ s.Due op want
  | .budget r => ∃ t done, ReadOk s r t done
  | .admission mb r => (∃ t done, ReadOk s r t done) ∧ s.Due op mb
  | .charging mb =>
    s.Due op mb ∧ s.totalMb + mb ≤ g.inferenceResidentMb ∧ s.totalMb + mb < 2 ^ 64
  | .marking => ∃ mb, s.Due op mb ∧ s.totalMb + mb ≤ g.inferenceResidentMb ∧
      s.totalMb + mb < 2 ^ 64
  | .entered | .asking | .clearing | .evicting | .evicted => True

/-- What holds wherever the holder is. -/
structure Sound (g : MemoryGovernor) (s : RuntimeInner ρ) : Prop extends Kept g s where
  clocked : ∀ e ∈ s.entries, e.lastUsed ≤ (s.clock : Stamp)

/-- The invariant. -/
structure Inv (g : MemoryGovernor) (s : RuntimeInner ρ) : Prop extends Sound g s where
  stage : ∀ h, s.admission = some h → StageOk g s h.op h.stage

variable {g : MemoryGovernor} {s s' : RuntimeInner ρ} {op : Op ρ} {id : ModelId}
  {keep : Option ModelId} {want mb : Nat}

theorem order_le {c : Candidate} {u : Stamp} (h : c.lastUsed ≤ u) :
    c.order ≤ (⟨u, c.id⟩ : Candidate).order := by
  refine Prod.Lex.toLex_le_toLex.2 ?_
  rcases lt_or_eq_of_le h with hlt | heq
  · exact .inl hlt
  · exact .inr ⟨heq, le_refl _⟩

theorem mem_candidates : id ∈ s.candidates keep ↔ s.Evictable keep id := by
  unfold candidates Evictable
  rw [mem_filter, mem_range, Bool.and_eq_true, decide_eq_true_iff]
  refine and_iff_right_of_imp fun h => ?_
  by_contra hout
  rw [getElem?_eq_none (Nat.le_of_not_lt hout)] at h
  exact nomatch h.2

/-! ## What the other threads leave -/

/-- What others leave of an entry. -/
structure EntryQuiet (e e' : Entry ρ) : Prop where
  charge : e'.chargeMb = e.chargeMb
  evictable : e'.evictable = e.evictable
  due : e'.dueMb = e.dueMb
  used : e.lastUsed ≤ e'.lastUsed

theorem EntryQuiet.refl (e : Entry ρ) : EntryQuiet e e := ⟨rfl, rfl, rfl, le_refl _⟩

theorem EntryQuiet.touch {e : Entry ρ} {now : Nat} (h : e.lastUsed ≤ (now : Stamp)) :
    EntryQuiet e (e.touch now) := by
  cases e <;> exact ⟨rfl, rfl, rfl, h⟩

theorem EntryQuiet.controller (m : Loaded ρ) (c : ControllerState ρ) :
    EntryQuiet (.text m) (.text { m with controller := c }) := ⟨rfl, rfl, rfl, le_refl _⟩

/-- What others leave of the state. -/
structure Quiet (s s' : RuntimeInner ρ) : Prop where
  charged : s'.chargedMb = s.chargedMb
  reserved : ∀ kind, s'.reserved kind ≤ s.reserved kind
  entry : ∀ (id : ModelId) e, s.entries[id]? = some e → ∃ e',
    s'.entries[id]? = some e' ∧ EntryQuiet e e'
  fresh : ∀ (id : ModelId) e', s.entries[id]? = none → s'.entries[id]? = some e' →
    e'.evictable = false ∧ e'.dueMb = 0

theorem Quiet.of_same (hentries : s'.entries = s.entries)
    (hreserved : ∀ kind, s'.reserved kind ≤ s.reserved kind) : Quiet s s' where
  charged := by rw [chargedMb, hentries, chargedMb]
  reserved := hreserved
  entry id e h := ⟨e, by rw [hentries]; exact h, .refl e⟩
  fresh id e' hnone hsome := by
    rw [hentries, hnone] at hsome
    cases hsome

theorem Quiet.setEntry {e₀ e : Entry ρ} (h : s.entries[id]? = some e₀) (hq : EntryQuiet e₀ e) :
    Quiet s (s.setEntry id e) where
  charged := by
    have hset := chargedMb_setEntry (e := e) h
    rw [hq.charge] at hset
    exact Nat.add_right_cancel hset
  reserved _ := Nat.le_refl _
  entry id' e' h' := by
    rw [getElem?_setEntry h]
    split
    · next heq =>
      rw [heq, h] at h'
      obtain rfl := Option.some.inj h'
      exact ⟨e, rfl, hq⟩
    · exact ⟨e', h', .refl e'⟩
  fresh id' e' hnone hsome := by
    rw [getElem?_setEntry h] at hsome
    split at hsome
    · next heq =>
      rw [heq, h] at hnone
      exact nomatch hnone
    · rw [hnone] at hsome
      exact nomatch hsome

/-- A remote model is charged nothing, and never evicted. -/
theorem Quiet.connect (s : RuntimeInner ρ) (c : ControllerState ρ) :
    Quiet s (s.register (.text ⟨c, false, 0, true, ⊥⟩)) where
  charged := by
    rw [chargedMb_register]
    rfl
  reserved _ := Nat.le_refl _
  entry id e h :=
    ⟨e, by rw [register, List.getElem?_append_left (List.getElem?_eq_some_iff.1 h).1]; exact h,
      .refl e⟩
  fresh id e' hnone hsome := by
    rw [register, getElem?_append_right (getElem?_eq_none_iff.1 hnone)] at hsome
    obtain rfl := mem_singleton.1 (mem_of_getElem? hsome)
    exact ⟨rfl, rfl⟩

theorem Quiet.totalMb_le (h : Quiet s s') : s'.totalMb ≤ s.totalMb := by
  rw [totalMb, totalMb, h.charged]
  exact Nat.add_le_add_left (reservedMb_le_of_le h.reserved _) _

theorem Quiet.evictable_iff (h : Quiet s s') : s'.Evictable keep id ↔ s.Evictable keep id := by
  unfold Evictable
  refine and_congr_right fun _ => ?_
  rcases hid : s.entries[id]? with _ | e
  · rcases hid' : s'.entries[id]? with _ | e'
    · exact Iff.rfl
    · simp [(h.fresh id e' hid hid').1]
  · obtain ⟨e', he', hq⟩ := h.entry id e hid
    rw [he']
    simp [hq.evictable]

theorem Quiet.lastUsed_le (h : Quiet s s') (hid : s.Evictable keep id) :
    s.lastUsed id ≤ s'.lastUsed id := by
  obtain ⟨e, he, -⟩ := (Option.any_eq_true _ _).1 hid.2
  obtain ⟨e', he', hq⟩ := h.entry id e he
  rw [lastUsed, lastUsed, he, he']
  exact hq.used

theorem ReadOk.quiet {r : Reading} {t : Nat} {done : List Auxiliary} (h : ReadOk s r t done)
    (hq : Quiet s s') : ReadOk s' r t done where
  total := h.total
  all := h.all
  covers := by
    rw [hq.charged]
    exact (Nat.add_le_add_left (reservedMb_le_of_le hq.reserved _) _).trans h.covers
  within := (Nat.add_le_add_left (reservedMb_le_of_le hq.reserved _) _).trans h.within
  word := h.word

theorem Due.entry_quiet (hq : Quiet s s') (h : ∀ e, s.entries[id]? = some e → e.dueMb ≤ mb) :
    ∀ e, s'.entries[id]? = some e → e.dueMb ≤ mb := by
  intro e' he'
  rcases hid : s.entries[id]? with _ | e
  · rw [(hq.fresh id e' hid he').2]
    exact Nat.zero_le _
  obtain ⟨e₁, he₁, hq'⟩ := hq.entry id e hid
  rw [he'] at he₁
  obtain rfl := Option.some.inj he₁
  rw [hq'.due]
  exact h e hid

theorem Due.quiet (h : s.Due op mb) (hq : Quiet s s') : s'.Due op mb := by
  cases op with
  | restore id turn => exact Due.entry_quiet hq h
  | preloadImage id => exact Due.entry_quiet hq h
  | beginJob id => exact Due.entry_quiet hq h
  | _ => exact h

theorem Ranking.quiet {left : List ModelId} {ranked : List Candidate}
    (h : Ranking s keep left ranked) (hq : Quiet s s') : Ranking s' keep left ranked where
  seen id hid := h.seen id (hq.evictable_iff.1 hid)
  left id hid := hq.evictable_iff.2 (h.left id hid)
  ranked c hc :=
    ⟨hq.evictable_iff.2 (h.ranked c hc).1,
      (h.ranked c hc).2.trans (hq.lastUsed_le (h.ranked c hc).1)⟩

theorem Chosen.quiet {r : Reading} {victim : Candidate} (h : Chosen g s keep want r victim)
    (hq : Quiet s s') : Chosen g s' keep want r victim where
  short := h.short
  evictable := hq.evictable_iff.2 h.evictable
  oldest id hid := by
    have hid' := hq.evictable_iff.1 hid
    exact (h.oldest id hid').trans
      (order_le (c := ⟨s.lastUsed id, id⟩) (hq.lastUsed_le hid'))

/-- **What the holder relies on, the other threads leave.** -/
theorem StageOk.quiet {stage : Stage} (h : StageOk g s op stage) (hq : Quiet s s') :
    StageOk g s' op stage := by
  have hle := hq.totalMb_le
  cases stage with
  | room want r =>
    obtain ⟨⟨t, done, hr⟩, hdue⟩ := h
    exact ⟨⟨t, done, hr.quiet hq⟩, hdue.quiet hq⟩
  | ranking want r left ranked => exact ⟨h.1, h.2.1.quiet hq, h.2.2.quiet hq⟩
  | unloading want r victim => exact ⟨h.1.quiet hq, h.2.quiet hq⟩
  | unloaded want victim => exact ⟨h.1, h.2.quiet hq⟩
  | budget r =>
    obtain ⟨t, done, hr⟩ := h
    exact ⟨t, done, hr.quiet hq⟩
  | admission mb r =>
    obtain ⟨⟨t, done, hr⟩, hdue⟩ := h
    exact ⟨⟨t, done, hr.quiet hq⟩, hdue.quiet hq⟩
  | charging mb =>
    obtain ⟨hdue, hquota, hword⟩ := h
    exact ⟨hdue.quiet hq, by omega, by omega⟩
  | marking =>
    obtain ⟨mb, hdue, hquota, hword⟩ := h
    exact ⟨mb, hdue.quiet hq, by omega, by omega⟩
  | _ => trivial

end RuntimeInner

end Gen2.Runtime
