import Mathlib.Tactic.Common

/-!
# Runs of a deterministic system

A system is a step function `step : ι → σ → Option σ`: an input, a state, and the state after, or
`none` where the system crashes.  What is here packages the inductions over whole runs.

* `runAll` runs a list of inputs; `Always P` says that the run does not crash and `P` holds in every
  state it goes through, the first and the last included; `EveryStep C` that every step is taken in
  a state, and with an input, that satisfies `C`.
* `always_of_step` is the invariant rule, and `always_of_live` the one for systems that come to an
  end.
* `always_iff_everyStep` is its exact form: where a property is preserved by precisely the steps
  that satisfy a condition, it holds all along a run precisely when every step does.
-/

namespace Gen2.Lib

universe u v

variable {σ : Type u} {ι : Type v} (step : ι → σ → Option σ)

/-- Take the steps in order. -/
def runAll : List ι → σ → Option σ
  | [], s => some s
  | i :: is, s => (step i s).bind (runAll is)

/-- The run does not crash, and `P` holds in every state of it. -/
def Always (P : σ → Prop) : List ι → σ → Prop
  | [], s => P s
  | i :: is, s => P s ∧ ∃ s', step i s = some s' ∧ Always P is s'

/-- Every step of the run satisfies `C`. -/
def EveryStep (C : σ → ι → Prop) : List ι → σ → Prop
  | [], _ => True
  | i :: is, s => C s i ∧ ∀ s', step i s = some s' → EveryStep C is s'

/-- `s'` can be reached from a state that satisfies `Init`. -/
def Reachable (Init : σ → Prop) (s' : σ) : Prop := ∃ s is, Init s ∧ runAll step is s = some s'

theorem runAll_cons (i : ι) (is : List ι) (s : σ) :
    runAll step (i :: is) s = (step i s).bind (runAll step is) := rfl

variable {step}

theorem Always.head {P : σ → Prop} {is : List ι} {s : σ} (h : Always step P is s) : P s := by
  cases is with
  | nil => exact h
  | cons i is => exact h.1

theorem Always.mono {P Q : σ → Prop} (hPQ : ∀ s, P s → Q s) {is : List ι} {s : σ}
    (h : Always step P is s) : Always step Q is s := by
  induction is generalizing s with
  | nil => exact hPQ s h
  | cons i is ih =>
    obtain ⟨hP, s', hs', h'⟩ := h
    exact ⟨hPQ s hP, s', hs', ih h'⟩

/-- What holds all along a run holds at its end, and the run has one. -/
theorem Always.final {P : σ → Prop} {is : List ι} {s : σ} (h : Always step P is s) :
    ∃ s', runAll step is s = some s' ∧ P s' := by
  induction is generalizing s with
  | nil => exact ⟨s, rfl, h⟩
  | cons i is ih =>
    obtain ⟨-, s', hs', h'⟩ := h
    rw [runAll_cons, hs']
    exact ih h'

theorem everyStep_true (is : List ι) (s : σ) : EveryStep step (fun _ _ => True) is s := by
  induction is generalizing s with
  | nil => trivial
  | cons i is ih => exact ⟨trivial, fun s' _ => ih s'⟩

theorem EveryStep.mono {C D : σ → ι → Prop} (hCD : ∀ s i, C s i → D s i) {is : List ι} {s : σ}
    (h : EveryStep step C is s) : EveryStep step D is s := by
  induction is generalizing s with
  | nil => trivial
  | cons i is ih => exact ⟨hCD s i h.1, fun s' hs' => ih (h.2 s' hs')⟩

/-- A run whose first step is known. -/
theorem EveryStep.cons {C : σ → ι → Prop} {i : ι} {is : List ι} {s s' : σ} (hC : C s i)
    (hs : step i s = some s') (h : EveryStep step C is s') : EveryStep step C (i :: is) s := by
  refine ⟨hC, fun t ht => ?_⟩
  rw [hs] at ht
  exact Option.some.inj ht ▸ h

/-- What is so of every input is so of every step. -/
theorem EveryStep.and_forall {C : σ → ι → Prop} {Q : ι → Prop} {is : List ι} {s : σ}
    (hQ : ∀ i ∈ is, Q i) (h : EveryStep step C is s) :
    EveryStep step (fun s i => Q i ∧ C s i) is s := by
  induction is generalizing s with
  | nil => trivial
  | cons i is ih =>
    exact ⟨⟨hQ i List.mem_cons_self, h.1⟩,
      fun s' hs' => ih (fun j hj => hQ j (List.mem_cons_of_mem _ hj)) (h.2 s' hs')⟩

/-- What every step satisfies, the last one does. -/
theorem EveryStep.last {C : σ → ι → Prop} {is : List ι} {i : ι} {s s' : σ}
    (h : EveryStep step C (is ++ [i]) s) (hrun : runAll step is s = some s') : C s' i := by
  induction is generalizing s with
  | nil =>
    cases hrun
    exact h.1
  | cons j is ih =>
    obtain ⟨s₁, hs₁, hrest⟩ := Option.bind_eq_some_iff.1 hrun
    exact ih (h.2 s₁ hs₁) hrest

/-- **The invariant rule.**  What holds at the start, and is preserved by every step that satisfies
`C`, holds all along a run whose steps do. -/
theorem always_of_step {C : σ → ι → Prop} {I : σ → Prop}
    (hstep : ∀ s i, I s → C s i → ∃ s', step i s = some s' ∧ I s') {is : List ι} {s : σ}
    (h0 : I s) (hC : EveryStep step C is s) : Always step I is s := by
  induction is generalizing s with
  | nil => exact h0
  | cons i is ih =>
    obtain ⟨s', hs', hI⟩ := hstep s i h0 hC.1
    exact ⟨h0, s', hs', ih hI (hC.2 s' hs')⟩

/-- **The invariant rule for systems that end.**  A step that satisfies `C` goes on with `A`, or
ends the run with `P`; and after the end nothing changes. -/
theorem always_of_live {next : ι → σ → σ} {C : σ → ι → Prop} {A E P : σ → Prop}
    (hstep : ∀ s i, A s → C s i → A (next i s) ∨ E (next i s) ∧ P (next i s))
    (hend : ∀ s i, E s → next i s = s) (hP : ∀ s, A s → P s) {is : List ι} {s : σ} (h0 : A s)
    (hC : EveryStep (fun i s => some (next i s)) C is s) :
    Always (fun i s => some (next i s)) P is s := by
  refine (always_of_step (I := fun s => A s ∨ E s ∧ P s) ?_ (.inl h0) hC).mono
    fun s h => h.elim (hP s) And.right
  rintro s i (hA | hE) hCi
  · exact ⟨_, rfl, hstep s i hA hCi⟩
  · exact ⟨_, rfl, .inr (by rw [hend s i hE.1]; exact hE)⟩

/-- **The invariant rule for steps.**  What every step that satisfies `C` does in a state where the
invariant holds, every step of a run does. -/
theorem EveryStep.of_invariant {C Q : σ → ι → Prop} {I : σ → Prop}
    (hstep : ∀ s i s', I s → C s i → step i s = some s' → I s') (hQ : ∀ s i, I s → C s i → Q s i)
    {is : List ι} {s : σ} (h0 : I s) (hC : EveryStep step C is s) : EveryStep step Q is s := by
  induction is generalizing s with
  | nil => trivial
  | cons i is ih =>
    exact ⟨hQ s i h0 hC.1, fun s' hs' => ih (hstep s i s' h0 hC.1 hs') (hC.2 s' hs')⟩

/-- The invariant rule for reachable states. -/
theorem Reachable.invariant {Init I : σ → Prop} (hinit : ∀ s, Init s → I s)
    (hstep : ∀ s i, I s → ∃ s', step i s = some s' ∧ I s') {s : σ}
    (h : Reachable step Init s) : I s := by
  obtain ⟨s₀, is, h0, hrun⟩ := h
  obtain ⟨s', hs', hI⟩ := (always_of_step (C := fun _ _ => True) (fun s i hI _ => hstep s i hI)
    (hinit s₀ h0) (everyStep_true is s₀)).final
  rw [hs'] at hrun
  cases hrun
  exact hI

/-- The same for a step that may crash: what it leaves where it does not has the invariant. -/
theorem Reachable.preserved {Init I : σ → Prop} (hinit : ∀ s, Init s → I s)
    (hstep : ∀ s i s', I s → step i s = some s' → I s') {s : σ} (h : Reachable step Init s) :
    I s := by
  obtain ⟨s₀, is, h0, hrun⟩ := h
  have hI := hinit s₀ h0
  clear h0
  induction is generalizing s₀ with
  | nil =>
    obtain rfl := Option.some.inj hrun
    exact hI
  | cons i is ih =>
    obtain ⟨s₁, h₁, hrest⟩ := Option.bind_eq_some_iff.1 hrun
    exact ih s₁ hrest (hstep s₀ i s₁ hI h₁)

/-- **The exact rule.**  `I` is preserved by every allowed step.  If, from a state where `P` holds,
an allowed step restores `P` exactly when it satisfies `C`, then `P` holds all along an allowed run
exactly when every step satisfies `C`. -/
theorem always_iff_everyStep {A C : σ → ι → Prop} {I P : σ → Prop}
    (hI : ∀ s i, I s → A s i → ∃ s', step i s = some s' ∧ I s')
    (hP : ∀ s i s', I s → P s → A s i → step i s = some s' → (P s' ↔ C s i))
    {is : List ι} {s : σ} (hIs : I s) (hPs : P s) (hA : EveryStep step A is s) :
    Always step P is s ↔ EveryStep step C is s := by
  induction is generalizing s with
  | nil => exact ⟨fun _ => trivial, fun _ => hPs⟩
  | cons i is ih =>
    obtain ⟨s', hs', hIs'⟩ := hI s i hIs hA.1
    have hiff := hP s i s' hIs hPs hA.1 hs'
    constructor
    · rintro ⟨-, t, ht, h⟩
      rw [hs'] at ht
      cases ht
      have hPs' : P s' := h.head
      refine ⟨hiff.1 hPs', fun t ht => ?_⟩
      rw [hs'] at ht
      cases ht
      exact (ih hIs' hPs' (hA.2 s' hs')).1 h
    · intro h
      have hPs' : P s' := hiff.2 h.1
      exact ⟨hPs, s', hs', (ih hIs' hPs' (hA.2 s' hs')).2 (h.2 s' hs')⟩

end Gen2.Lib
