import Mathlib.Tactic.Common

/-!
# Readers of bytes

A reader takes what it reads from the front of some bytes.  It comes to a value with what is left,
or it refuses; and it counts what it has done: one for each time it reads, and one for each byte.

* `Exact r`: what `r` has read decides what it comes to, and it refuses every beginning of that.
* `Costs c e r`: `r` does at most two for each byte that it has read, and `c` besides; where it
  refuses, two for each byte that is there, and `e`.  Both numbers may be negative.
* `Sound c r`: both.
* Each has a lemma for every way readers are put together.
-/

namespace Gen2.Lib

open List

/-- A reader, by the work it does and what it comes to. -/
def ByteReader (ε α : Type) : Type := List UInt8 → Nat × Except ε (α × List UInt8)

namespace ByteReader

variable {ε ε' α β σ : Type}

/-- What a reader comes to. -/
def run (r : ByteReader ε α) (s : List UInt8) : Except ε (α × List UInt8) := (r s).2

/-- What a reader does. -/
def work (r : ByteReader ε α) (s : List UInt8) : Nat := (r s).1

/-- Come to a value without reading. -/
def pure (a : α) : ByteReader ε α := fun s => (0, .ok (a, s))

/-- Refuse. -/
def fail (e : ε) : ByteReader ε α := fun _ => (0, .error e)

/-- Read on with another reader. -/
def bind (r : ByteReader ε α) (f : α → ByteReader ε β) : ByteReader ε β := fun s =>
  match r s with
  | (w, .error e) => (w, .error e)
  | (w, .ok (a, rest)) => (w + (f a rest).1, (f a rest).2)

instance : Monad (ByteReader ε) where
  pure := pure
  bind := bind

/-- `Read::take(n)`, all of it. -/
def exact (n : Nat) (e : ε) : ByteReader ε (List UInt8) := fun s =>
  if n ≤ s.length then (n + 1, .ok (s.take n, s.drop n)) else (s.length + 1, .error e)

/-- `for _ in 0..n { a = body(a)?; }`. -/
def times : Nat → (σ → ByteReader ε σ) → σ → ByteReader ε σ
  | 0, _, a => pure a
  | n + 1, body, a => bind (body a) (times n body)

/-- `.map_err(f)`. -/
def mapErr (f : ε → ε') (r : ByteReader ε α) : ByteReader ε' α := fun s =>
  match r s with
  | (w, .error e) => (w, .error (f e))
  | (w, .ok out) => (w, .ok out)

/-! ## What readers come to -/

theorem run_bind (r : ByteReader ε α) (f : α → ByteReader ε β) (s : List UInt8) :
    (r >>= f).run s = (match r.run s with
      | .error e => .error e
      | .ok (a, rest) => (f a).run rest) := by
  show (bind r f s).2 = _
  rw [bind, run]
  rcases r s with ⟨w, e | ⟨a, rest⟩⟩ <;> rfl

theorem work_bind (r : ByteReader ε α) (f : α → ByteReader ε β) (s : List UInt8) :
    (r >>= f).work s = r.work s + (match r.run s with
      | .error _ => 0
      | .ok (a, rest) => (f a).work rest) := by
  show (bind r f s).1 = _
  rw [bind, run, work]
  rcases r s with ⟨w, e | ⟨a, rest⟩⟩ <;> rfl

variable {r : ByteReader ε α} {f : α → ByteReader ε β} {s rest : List UInt8}

/-- **Two readers, one after the other.** -/
theorem run_bind_of_ok {a : α} (h : r.run s = .ok (a, rest)) :
    (r >>= f).run s = (f a).run rest := by
  rw [run_bind, h]

theorem run_bind_of_error {e : ε} (h : r.run s = .error e) : (r >>= f).run s = .error e := by
  rw [run_bind, h]

theorem run_bind_eq_ok {b : β} :
    (r >>= f).run s = .ok (b, rest) ↔
      ∃ a mid, r.run s = .ok (a, mid) ∧ (f a).run mid = .ok (b, rest) := by
  rw [run_bind]
  cases r.run s with
  | error e => exact ⟨nofun, fun ⟨_, _, h, _⟩ => (nomatch h)⟩
  | ok out => exact ⟨fun h => ⟨_, _, rfl, h⟩, fun ⟨_, _, h, h'⟩ => by cases h; exact h'⟩

theorem run_exact_append (e : ε) {n : Nat} {bytes : List UInt8} (h : bytes.length = n)
    (rest : List UInt8) : (exact n e).run (bytes ++ rest) = .ok (bytes, rest) := by
  subst h
  simp [run, exact]

theorem run_mapErr (f : ε → ε') (r : ByteReader ε α) (s : List UInt8) :
    (mapErr f r).run s = (r.run s).mapError f := by
  rw [run, run, mapErr]
  cases h : (r s).2 with
  | error e =>
    rw [show r s = ((r s).1, .error e) from Prod.ext rfl h]
    rfl
  | ok out =>
    rw [show r s = ((r s).1, .ok out) from Prod.ext rfl h]
    rfl

theorem run_mapErr_of_ok {f : ε → ε'} {a : α} (h : r.run s = .ok (a, rest)) :
    (mapErr f r).run s = .ok (a, rest) := by
  rw [run_mapErr, h]
  rfl

variable {body : σ → ByteReader ε σ}

/-- **A loop reads what it was written for.**  `inv` is what the turns keep, of what they have made
and of what is still to be read. -/
theorem run_times_flatMap {ι : Type} {write : ι → List UInt8} {step : σ → ι → σ}
    {inv : σ → List ι → Prop}
    (h : ∀ a i items rest, inv a (i :: items) →
      (body a).run (write i ++ rest) = .ok (step a i, rest) ∧ inv (step a i) items) (items : List ι)
    (a : σ) (rest : List UInt8) (ha : inv a items) :
    (times items.length body a).run (items.flatMap write ++ rest) =
      .ok (items.foldl step a, rest) := by
  induction items generalizing a with
  | nil => rfl
  | cons i items ih =>
    obtain ⟨hrun, hinv⟩ := h a i items (items.flatMap write ++ rest) ha
    rw [flatMap_cons, append_assoc]
    exact (run_bind_of_ok hrun).trans (ih _ hinv)

/-! ## What has been read decides -/

/-- What a reader has read decides what it comes to, and every beginning of it is refused. -/
def Exact (r : ByteReader ε α) : Prop :=
  ∀ s a rest, r.run s = .ok (a, rest) → ∃ c, s = c ++ rest ∧
    (∀ t, r.run (c ++ t) = .ok (a, t)) ∧
    ∀ p q, q ≠ [] → c = p ++ q → ∃ e, r.run p = .error e

theorem Exact.pure (a : α) : Exact (Pure.pure a : ByteReader ε α) := by
  rintro s _ _ ⟨⟩
  refine ⟨[], rfl, fun t => rfl, fun p q hq h => ?_⟩
  exact absurd (append_eq_nil_iff.1 h.symm).2 hq

theorem Exact.fail (e : ε) : Exact (fail e : ByteReader ε α) := nofun

theorem Exact.exact (n : Nat) (e : ε) : Exact (exact n e) := by
  intro s a rest h
  rw [run, ByteReader.exact] at h
  split at h
  next hle =>
    cases h
    refine ⟨s.take n, (take_append_drop n s).symm, fun t => ?_, fun p q hq h => ⟨e, ?_⟩⟩
    · exact run_exact_append e (length_take_of_le hle) t
    · have hlength := congrArg length h
      rw [length_take_of_le hle, length_append] at hlength
      have := length_pos_iff.2 hq
      rw [run, ByteReader.exact, if_neg (by omega)]
  next => cases h

theorem Exact.bind (hr : Exact r) (hf : ∀ a, Exact (f a)) : Exact (r >>= f) := by
  intro s b rest h
  obtain ⟨a, mid, hfirst, hsecond⟩ := run_bind_eq_ok.1 h
  obtain ⟨c, rfl, hlater, hshort⟩ := hr s a mid hfirst
  obtain ⟨d, rfl, hlater', hshort'⟩ := hf a mid b rest hsecond
  refine ⟨c ++ d, (append_assoc _ _ _).symm, fun t => ?_, fun p q hq heq => ?_⟩
  · rw [append_assoc, run_bind_of_ok (hlater _)]
    exact hlater' t
  rcases append_eq_append_iff.1 heq with ⟨as, rfl, hd⟩ | ⟨bs, hc, hq'⟩
  · -- the beginning has all that the first reader reads
    obtain ⟨e, he⟩ := hshort' as q hq hd
    exact ⟨e, (run_bind_of_ok (hlater as)).trans he⟩
  cases bs with
  | nil =>
    rw [append_nil] at hc
    subst hc
    obtain ⟨e, he⟩ := hshort' [] d (by simpa [hq'] using hq) rfl
    have hnil := hlater []
    rw [append_nil] at hnil
    exact ⟨e, (run_bind_of_ok hnil).trans he⟩
  | cons b' bs =>
    obtain ⟨e, he⟩ := hshort p (b' :: bs) (cons_ne_nil _ _) hc
    exact ⟨e, run_bind_of_error he⟩

theorem Exact.mapErr (hr : Exact r) (f : ε → ε') : Exact (mapErr f r) := by
  intro s a rest h
  have hok : ∀ {t out}, (ByteReader.mapErr f r).run t = .ok out ↔ r.run t = .ok out := by
    intro t out
    rw [run_mapErr]
    cases r.run t with
    | error e => exact ⟨nofun, nofun⟩
    | ok out => exact ⟨fun h => by cases h; rfl, fun h => by cases h; rfl⟩
  obtain ⟨c, hc, hlater, hshort⟩ := hr s a rest (hok.1 h)
  refine ⟨c, hc, fun t => hok.2 (hlater t), fun p q hq hcq => ?_⟩
  obtain ⟨e, he⟩ := hshort p q hq hcq
  exact ⟨f e, by rw [run_mapErr, he]; rfl⟩

theorem Exact.times (h : ∀ a, Exact (body a)) (n : Nat) (a : σ) : Exact (times n body a) := by
  induction n generalizing a with
  | zero => exact .pure a
  | succ n ih => exact .bind (h a) ih

/-! ## What reading costs -/

/-- What a reader does is paid for by the bytes that it reads, at two a byte. -/
def Costs (c e : Int) (r : ByteReader ε α) : Prop :=
  ∀ s, match r.run s with
    | .ok (_, rest) => (r.work s : Int) + 2 * rest.length ≤ 2 * s.length + c
    | .error _ => (r.work s : Int) ≤ 2 * s.length + e

variable {c : Int}

theorem Costs.mono {c' e e' : Int} (h : Costs c e r) (hc : c ≤ c') (he : e ≤ e') :
    Costs c' e' r := by
  intro s
  have hs := h s
  split at hs <;> omega

theorem Costs.pure (a : α) (e : Int) : Costs 0 e (Pure.pure a : ByteReader ε α) := by
  intro s
  show ((0 : Nat) : Int) + 2 * s.length ≤ 2 * s.length + 0
  omega

theorem Costs.fail (err : ε) (c : Int) : Costs c 0 (fail err : ByteReader ε α) := by
  intro s
  show ((0 : Nat) : Int) ≤ 2 * s.length + 0
  omega

theorem Costs.exact (n : Nat) (err : ε) : Costs (1 - n) 1 (exact n err) := by
  intro s
  rw [run, work, ByteReader.exact]
  by_cases h : n ≤ s.length
  · rw [if_pos h]
    dsimp only
    rw [length_drop]
    omega
  · rw [if_neg h]
    dsimp only
    omega

theorem Costs.bind {c' e e' : Int} (hr : Costs c e r) (hf : ∀ a, Costs c' e' (f a)) :
    Costs (c + c') (max e (c + e')) (r >>= f) := by
  intro s
  have hfirst := hr s
  rw [run_bind, work_bind]
  cases hrun : r.run s with
  | error err =>
    rw [hrun] at hfirst
    dsimp only at hfirst ⊢
    omega
  | ok out =>
    obtain ⟨a, rest⟩ := out
    have hsecond := hf a rest
    rw [hrun] at hfirst
    dsimp only at hfirst ⊢
    cases hrun' : (f a).run rest with
    | error err =>
      rw [hrun'] at hsecond
      dsimp only at hsecond ⊢
      omega
    | ok out' =>
      rw [hrun'] at hsecond
      dsimp only at hsecond ⊢
      omega

theorem Costs.mapErr {e : Int} (h : Costs c e r) (f : ε → ε') : Costs c e (mapErr f r) := by
  intro s
  have hs := h s
  have hwork : (ByteReader.mapErr f r).work s = r.work s := by
    rw [work, work, ByteReader.mapErr]
    rcases r s with ⟨w, e | out⟩ <;> rfl
  rw [run_mapErr, hwork]
  cases hrun : r.run s with
  | error err =>
    rw [hrun] at hs
    exact hs
  | ok out =>
    rw [hrun] at hs
    exact hs

/-- **A loop whose body pays for itself does too**, whatever the number of its turns. -/
theorem Costs.times {e : Int} (hc : c ≤ 0) (h : ∀ a, Costs c e (body a)) (n : Nat) (a : σ) :
    Costs 0 e (times n body a) := by
  induction n generalizing a with
  | zero => exact .pure a e
  | succ n ih =>
    refine Costs.mono (Costs.bind (h a) ih) (by omega) ?_
    omega

/-! ## Both -/

/-- A reader that is exact, and that does `c` besides what its bytes pay for. -/
structure Sound (c : Int) (r : ByteReader ε α) : Prop where
  exact : Exact r
  costs : Costs c 1 r

theorem Sound.mono {c' : Int} (h : Sound c r) (hc : c ≤ c') : Sound c' r :=
  ⟨h.exact, h.costs.mono hc (Int.le_refl 1)⟩

theorem Sound.pure (a : α) : Sound 0 (Pure.pure a : ByteReader ε α) := ⟨.pure a, .pure a 1⟩

theorem Sound.fail (e : ε) (c : Int) : Sound c (fail e : ByteReader ε α) :=
  ⟨.fail e, (Costs.fail e c).mono (Int.le_refl c) (by decide)⟩

theorem Sound.take (n : Nat) (e : ε) : Sound (1 - n) (ByteReader.exact n e) :=
  ⟨.exact n e, .exact n e⟩

theorem Sound.bind (c' : Int) (hr : Sound c r) (hf : ∀ a, Sound c' (f a)) (hc : c ≤ 0) :
    Sound (c + c') (r >>= f) := by
  refine ⟨.bind hr.exact fun a => (hf a).exact, ?_⟩
  refine (Costs.bind hr.costs fun a => (hf a).costs).mono (Int.le_refl _) ?_
  omega

theorem Sound.map (hr : Sound c r) (g : α → β) : Sound c (r >>= fun a => Pure.pure (g a)) := by
  refine ⟨.bind hr.exact fun a => .pure (g a), ?_⟩
  refine (Costs.bind hr.costs fun a => .pure (g a) (1 - c)).mono (by omega) ?_
  omega

theorem Sound.mapErr (h : Sound c r) (f : ε → ε') : Sound c (mapErr f r) :=
  ⟨h.exact.mapErr f, h.costs.mapErr f⟩

theorem Sound.times (hc : c ≤ 0) (h : ∀ a, Sound c (body a)) (n : Nat) (a : σ) :
    Sound 0 (times n body a) :=
  ⟨.times (fun a => (h a).exact) n a, .times hc (fun a => (h a).costs) n a⟩

/-- **A sound reader does no more than the bytes that are there pay for**, whether it comes to a
value or refuses. -/
theorem Sound.work_le (h : Sound 0 r) (s : List UInt8) : r.work s ≤ 2 * s.length + 1 := by
  have hs := h.costs s
  split at hs <;> omega

end ByteReader

end Gen2.Lib
