import Gen2.Engine.Types
import Gen2.Generation.Events
import Gen2.Lib.LineReads

/-!
# Streams of a remote server

What `puller.rs` and `anthropic_puller.rs` of `backend/external_api` have in common: they read the
lines of a response and make of each a text, an end, an error or nothing.  A `Wire` is what they
differ in.  The numbers that go to the hooks are left out.

* `Puller.next` is one pull.  The reader is what its calls of `read_line` return, one after the
  other, and the stop flag is what each look at it finds.
* `reading` is what the rest of a stream says, and `Puller.owed` what a puller has to deliver of it.
* `next_quiet`: with the flags down a pull delivers the first of what is owed, so that
  `pulls_quiet` has the whole of it.
* `reading_eq` compares two wires on a stream, one of which has its lines without the errors of the
  reads; `agrees_of_reading_eq` is the other way round.
-/

namespace Gen2.ExternalApi

open Generation (TokenEvent)
open Lib List

/-- The kinds of `io::Error` that are told apart. -/
inductive IoErrorKind
  | timedOut
  | wouldBlock
  | other
  deriving DecidableEq

/-- `io::Error`. -/
structure IoError where
  kind : IoErrorKind
  message : String

/-- The error of `read_line` on a line that is not UTF-8. -/
def IoError.invalidUtf8 : IoError := ⟨.other, "stream did not contain valid UTF-8"⟩

/-- An item of a stream of events. -/
abbrev Event := Except ExecError TokenEvent

/-- What is found in a line: nothing, a text that may be the last, the end, or an error. -/
inductive Found
  | skip
  | token (text : Text) (last : Bool)
  | eos
  | error (e : ExecError)

/-- What a puller makes of the lines of a stream, with a state of its own, and of the errors of the
reader: which it reads on after, and what it says of the others. -/
structure Wire (σ : Type) where
  line : σ → Text → σ × Found
  retries : IoError → Bool
  failed : IoError → ExecError

/-- The flags in a pull: `stopped` for each look at it in turn. -/
structure Flags where
  stopped : Nat → Bool
  paused : Bool

/-- A puller, by what decides its events. -/
structure Puller (σ : Type) where
  reader : List (LineRead UInt8 IoError)
  produced : Nat := 0
  maxTokens : Option Nat
  done : Bool := false
  pendingEos : Bool := false
  state : σ

/-- A text as an event. -/
def tokenOf (text : Text) : Event := .ok (.token { id := 0, text, logprob := none })

/-- As many tokens have been produced as there may be. -/
def reached (maxTokens : Option Nat) (produced : Nat) : Bool :=
  match maxTokens with
  | some limit => limit ≤ produced
  | none => false

namespace Puller

variable {σ : Type} (w : Wire σ)

/-- `finish`. -/
def finish (p : Puller σ) (event : TokenEvent) : Option Event × Puller σ :=
  (some (.ok event), { p with done := true })

/-- End with an error. -/
def fail (p : Puller σ) (e : ExecError) : Option Event × Puller σ :=
  (some (.error e), { p with done := true })

/-- The loop of `next`, on what the reader returns, from the `look`-th look at the stop flag on. -/
def readLoop (flags : Flags) (p : Puller σ) (look : Nat) :
    List (LineRead UInt8 IoError) → Option Event × Puller σ
  | [] =>
    if flags.stopped look then { p with reader := [] }.finish .stopped
    else { p with reader := [] }.finish .eos
  | .error e lost :: reads =>
    if flags.stopped look then { p with reader := .error e lost :: reads }.finish .stopped
    else if w.retries e then p.readLoop flags (look + 1) reads
    else { p with reader := reads }.fail (w.failed e)
  | .line bytes :: reads =>
    if flags.stopped look then { p with reader := .line bytes :: reads }.finish .stopped
    else match fromUtf8 bytes with
      | none => { p with reader := reads }.fail (w.failed .invalidUtf8)
      | some text =>
        match w.line p.state text.toList with
        | (state, .skip) => { p with state }.readLoop flags (look + 1) reads
        | (state, .token text last) =>
          (some (tokenOf text),
            { p with reader := reads, state, produced := p.produced + 1, pendingEos := last })
        | (state, .eos) => { p with reader := reads, state }.finish .eos
        | (state, .error e) => { p with reader := reads, state }.fail e

/-- `next`. -/
def next (flags : Flags) (p : Puller σ) : Option Event × Puller σ :=
  if p.done then (none, p)
  else if p.pendingEos then p.finish .eos
  else if flags.stopped 0 then p.finish .stopped
  else if flags.paused then (some (.ok .paused), p)
  else if reached p.maxTokens p.produced then p.finish .eos
  else p.readLoop w flags 1 p.reader

/-- Pull one event after the other. -/
def pulls (p : Puller σ) : List Flags → List (Option Event)
  | [] => []
  | flags :: fs => (p.next w flags).1 :: (p.next w flags).2.pulls fs

end Puller

/-! ## What a stream says -/

section
variable {σ : Type} (w : Wire σ) (maxTokens : Option Nat)

/-- What the rest of a stream says: the texts as far as the budget goes, and one end. -/
def reading : σ → Nat → List (LineRead UInt8 IoError) → List Event
  | _, _, [] => [.ok .eos]
  | s, produced, .error e _ :: reads =>
    if w.retries e then reading s produced reads else [.error (w.failed e)]
  | s, produced, .line bytes :: reads =>
    match fromUtf8 bytes with
    | none => [.error (w.failed .invalidUtf8)]
    | some text =>
      match w.line s text.toList with
      | (s, .skip) => reading s produced reads
      | (s, .token text last) =>
        tokenOf text ::
          if last || reached maxTokens (produced + 1) then [.ok .eos]
          else reading s (produced + 1) reads
      | (_, .eos) => [.ok .eos]
      | (_, .error e) => [.error e]

/-- What a whole stream says. -/
def events (s : σ) (reads : List (LineRead UInt8 IoError)) : List Event :=
  if reached maxTokens 0 then [.ok .eos] else reading w maxTokens s 0 reads

/-- What is looked at before the end, each with the state it is met in. -/
def looked : σ → Nat → List (LineRead UInt8 IoError) → List (σ × LineRead UInt8 IoError)
  | _, _, [] => []
  | s, produced, .error e lost :: reads =>
    (s, .error e lost) :: if w.retries e then looked s produced reads else []
  | s, produced, .line bytes :: reads =>
    (s, .line bytes) :: match fromUtf8 bytes with
      | none => []
      | some text =>
        match w.line s text.toList with
        | (s, .skip) => looked s produced reads
        | (s, .token _ last) =>
          if last || reached maxTokens (produced + 1) then [] else looked s (produced + 1) reads
        | (_, .eos) | (_, .error _) => []

/-- What is looked at of a whole stream. -/
def lookedAt (s : σ) (reads : List (LineRead UInt8 IoError)) : List (σ × LineRead UInt8 IoError) :=
  if reached maxTokens 0 then [] else looked w maxTokens s 0 reads

variable {produced : Nat} {reads : List (LineRead UInt8 IoError)}

theorem mem_of_mem_looked {s₀ s : σ} {r : LineRead UInt8 IoError}
    (hmem : (s, r) ∈ looked w maxTokens s₀ produced reads) : r ∈ reads := by
  induction reads generalizing s₀ produced with
  | nil => cases hmem
  | cons r' reads ih =>
    cases r' with
    | error e lost =>
      rw [looked] at hmem
      rcases mem_cons.mp hmem with heq | hmem
      · cases heq
        exact mem_cons_self
      · split at hmem
        · exact mem_cons_of_mem _ (ih hmem)
        · cases hmem
    | line bytes =>
      rw [looked] at hmem
      rcases mem_cons.mp hmem with heq | hmem
      · cases heq
        exact mem_cons_self
      refine mem_cons_of_mem _ ?_
      split at hmem
      case h_1 => cases hmem
      case h_2 =>
        split at hmem
        case h_1 => exact ih hmem
        case h_2 =>
          split at hmem
          · cases hmem
          · exact ih hmem
        all_goals cases hmem

/-- **Texts, and then one end.** -/
theorem reading_shape (s : σ) (produced : Nat) (reads : List (LineRead UInt8 IoError)) :
    ∃ (texts : List Text) (end_ : Event), reading w maxTokens s produced reads =
      texts.map tokenOf ++ [end_] ∧ (end_ = .ok .eos ∨ ∃ e, end_ = .error e) := by
  induction reads generalizing s produced with
  | nil => exact ⟨[], _, rfl, .inl rfl⟩
  | cons r reads ih =>
    cases r with
    | error e lost =>
      rw [reading]
      split
      · exact ih s produced
      · exact ⟨[], _, rfl, .inr ⟨_, rfl⟩⟩
    | line bytes =>
      rw [reading]
      split
      · exact ⟨[], _, rfl, .inr ⟨_, rfl⟩⟩
      split
      case h_1 s' hline => exact ih s' produced
      case h_2 s' text last hline =>
        split
        · exact ⟨[text], _, rfl, .inl rfl⟩
        · obtain ⟨texts, end_, heq, hend⟩ := ih s' (produced + 1)
          exact ⟨text :: texts, end_, by rw [heq]; rfl, hend⟩
      case h_3 => exact ⟨[], _, rfl, .inl rfl⟩
      case h_4 => exact ⟨[], _, rfl, .inr ⟨_, rfl⟩⟩

/-- An error that is found before the end is the end. -/
theorem getLast?_reading_of_error {s₀ s : σ} {bytes : List UInt8} {text : String}
    (hmem : (s, .line bytes) ∈ looked w maxTokens s₀ produced reads)
    (htext : fromUtf8 bytes = some text) {e : ExecError}
    (herror : (w.line s text.toList).2 = .error e) :
    (reading w maxTokens s₀ produced reads).getLast? = some (.error e) := by
  induction reads generalizing s₀ produced with
  | nil => cases hmem
  | cons r reads ih =>
    cases r with
    | error e' lost =>
      rw [looked] at hmem
      rw [reading]
      rcases mem_cons.mp hmem with heq | hmem
      · cases heq
      split at hmem
      case isTrue hretries =>
        rw [if_pos hretries]
        exact ih hmem
      case isFalse => cases hmem
    | line bytes' =>
      rw [looked] at hmem
      rw [reading]
      rcases mem_cons.mp hmem with heq | hmem
      · cases heq
        rcases hline : w.line s text.toList with ⟨s', found⟩
        rw [hline] at herror
        obtain rfl : found = .error e := herror
        simp only [htext, hline, getLast?_singleton]
      · cases htext' : fromUtf8 bytes' with
        | none => simp [htext'] at hmem
        | some text' =>
          rcases hline : w.line s₀ text'.toList with ⟨s', found⟩
          simp only [htext', hline] at hmem ⊢
          cases found with
          | skip => exact ih hmem
          | token text'' last =>
            dsimp only at hmem ⊢
            split at hmem
            case isTrue => cases hmem
            case isFalse hmore =>
              rw [if_neg hmore, getLast?_cons, ih hmem]
              rfl
          | eos => cases hmem
          | error e' => cases hmem

/-- `v` finds in a line what `w` does, or an error that `w` never tells of. -/
structure Wire.Sharpens (v w : Wire σ) (own : ExecError → Prop) : Prop where
  failed : v.failed = w.failed
  retries : ∀ e, v.retries e
  line : ∀ s line, w.line s line = v.line s line ∨ ∃ e, own e ∧ (v.line s line).2 = .error e
  not_own : ∀ s line e, (w.line s line).2 = .error e → ¬own e
  failed_not_own : ∀ e, ¬own (w.failed e)

variable {w}

/-- What a wire never finds, nor says of a read, is not in what a stream says. -/
theorem error_notMem_reading {x : ExecError} (hline : ∀ s line, (w.line s line).2 ≠ .error x)
    (hfailed : ∀ e, w.failed e ≠ x) (s : σ) (produced : Nat)
    (reads : List (LineRead UInt8 IoError)) :
    .error x ∉ reading w maxTokens s produced reads := by
  induction reads generalizing s produced with
  | nil => simp [reading]
  | cons r reads ih =>
    cases r with
    | error e lost =>
      rw [reading]
      split
      · exact ih s produced
      · simpa using fun h => hfailed e h.symm
    | line bytes =>
      rw [reading]
      cases fromUtf8 bytes with
      | none => simpa using fun h => hfailed _ h.symm
      | some text =>
        have hfound := hline s text.toList
        rcases hcase : w.line s text.toList with ⟨s', found⟩
        rw [hcase] at hfound
        simp only [hcase]
        cases found with
        | skip => exact ih s' produced
        | token t last =>
          cases hmore : last || reached maxTokens (produced + 1) with
          | true =>
            simp only [hmore, if_true, tokenOf, mem_cons, reduceCtorEq, not_mem_nil,
              or_self, not_false_eq_true]
          | false =>
            simpa only [hmore, Bool.false_eq_true, if_false, tokenOf, mem_cons, reduceCtorEq,
              false_or] using ih s' (produced + 1)
        | eos => simp
        | error e => simpa using fun h => hfound (congrArg _ h.symm)

/-- What a wire never finds in a line is not all that lines say. -/
theorem reading_lines_ne {x : ExecError} (hline : ∀ s line, (w.line s line).2 ≠ .error x)
    (hfailed : w.failed .invalidUtf8 ≠ x) (s : σ) (produced : Nat) (lines : List (List UInt8)) :
    reading w maxTokens s produced (lines.map .line) ≠ [.error x] := by
  induction lines generalizing s produced with
  | nil => simp [reading]
  | cons bytes lines ih =>
    rw [map_cons, reading]
    cases fromUtf8 bytes with
    | none => simpa using hfailed
    | some text =>
      have hfound := hline s text.toList
      rcases hcase : w.line s text.toList with ⟨s', found⟩
      rw [hcase] at hfound
      simp only [hcase]
      cases found with
      | skip => exact ih s' produced
      | token t last => simp [tokenOf]
      | eos => simp
      | error e => simpa using fun h => hfound (congrArg _ h)

/-- Two wires agree on what is looked at: on a line, and that a read which has failed is made again,
with nothing lost. -/
def Wire.Agrees (w v : Wire σ) : σ × LineRead UInt8 IoError → Prop
  | (_, .error e lost) => w.retries e ∧ lost = []
  | (s, .line bytes) => ∀ text, fromUtf8 bytes = some text →
    w.line s text.toList = v.line s text.toList

/-- **Two readings.**  Where both wires agree on all that is looked at, what a stream says is what
its lines say. -/
theorem reading_eq {v : Wire σ} {own : ExecError → Prop} (hsharp : v.Sharpens w own) {s : σ}
    {lines : List (List UInt8)} (hfollows : Follows reads lines)
    (hagree : ∀ x ∈ looked v maxTokens s produced reads, w.Agrees v x) :
    reading w maxTokens s produced reads =
      reading v maxTokens s produced (lines.map .line) := by
  induction reads generalizing s produced lines with
  | nil =>
    obtain rfl : lines = [] := hfollows
    rfl
  | cons r reads ih =>
    cases r with
    | error e lost =>
      rw [looked, if_pos (hsharp.retries e), forall_mem_cons] at hagree
      obtain ⟨⟨hretry, hlost⟩, hagree⟩ := hagree
      rw [reading, if_pos hretry]
      exact ih (hfollows hlost) hagree
    | line bytes =>
      obtain ⟨lines', rfl, hfollows⟩ := hfollows
      rw [looked, forall_mem_cons] at hagree
      obtain ⟨hline, hagree⟩ := hagree
      rw [map_cons, reading, reading]
      cases htext : fromUtf8 bytes with
      | none => simp only [hsharp.failed]
      | some text =>
        rcases hv : v.line s text.toList with ⟨s', found⟩
        simp only [htext, hv] at hagree
        simp only [hline text htext, hv]
        cases found with
        | skip => exact ih hfollows hagree
        | token t last =>
          cases hmore : last || reached maxTokens (produced + 1) with
          | true => simp only [hmore, if_true]
          | false =>
            simp only [hmore, Bool.false_eq_true, if_false] at hagree ⊢
            rw [ih hfollows hagree]
        | eos => rfl
        | error e => rfl

/-- **Only then**, if of the errors of reads that are looked at the wire reads on after those where
nothing is lost, and tells of the others what no lines say. -/
theorem agrees_of_reading_eq {v : Wire σ} {own : ExecError → Prop} (hsharp : v.Sharpens w own)
    {s : σ} {lines : List (List UInt8)} (hfollows : Follows reads lines)
    (herrors : ∀ s' e lost, (s', .error e lost) ∈ looked v maxTokens s produced reads →
      (w.retries e ∧ lost = []) ∨ (w.retries e = false ∧
        ∀ s produced (lines : List (List UInt8)),
          reading v maxTokens s produced (lines.map .line) ≠ [.error (w.failed e)]))
    (heq : reading w maxTokens s produced reads =
      reading v maxTokens s produced (lines.map .line)) :
    ∀ x ∈ looked v maxTokens s produced reads, w.Agrees v x := by
  induction reads generalizing s produced lines with
  | nil => exact fun _ hx => by cases hx
  | cons r reads ih =>
    cases r with
    | error e lost =>
      rw [reading] at heq
      rw [looked, if_pos (hsharp.retries e)] at herrors ⊢
      rcases herrors s e lost mem_cons_self with hread | ⟨hretry, hne⟩
      · rw [if_pos hread.1] at heq
        rw [forall_mem_cons]
        exact ⟨hread, ih (hfollows hread.2)
          (fun s' e lost hx => herrors s' e lost (mem_cons_of_mem _ hx)) heq⟩
      · rw [if_neg (by simp [hretry])] at heq
        exact absurd heq.symm (hne s produced lines)
    | line bytes =>
      obtain ⟨lines', rfl, hfollows⟩ := hfollows
      rw [map_cons, reading, reading] at heq
      rw [looked] at herrors ⊢
      have herrors := fun s' e lost hx => herrors s' e lost (mem_cons_of_mem _ hx)
      cases htext : fromUtf8 bytes with
      | none =>
        refine forall_mem_cons.mpr ⟨fun text htext' => ?_, fun _ hx => by cases hx⟩
        rw [htext] at htext'
        cases htext'
      | some text =>
        rcases hv : v.line s text.toList with ⟨s', found⟩
        simp only [htext, hv] at heq herrors ⊢
        rcases hsharp.line s text.toList with hline | ⟨e, hown, herror⟩
        · have hhead : w.Agrees v (s, .line bytes) := by
            intro text' htext'
            obtain rfl : text = text' := Option.some.inj (htext.symm.trans htext')
            exact hline
          rw [hline, hv] at heq
          refine forall_mem_cons.mpr ⟨hhead, ?_⟩
          cases found with
          | skip => exact ih hfollows herrors heq
          | token t last =>
            cases hmore : last || reached maxTokens (produced + 1) with
            | true =>
              simp only [hmore, if_true]
              exact fun _ hx => by cases hx
            | false =>
              simp only [hmore, Bool.false_eq_true, if_false, cons.injEq, true_and]
                at heq herrors ⊢
              exact ih hfollows herrors heq
          | eos => exact fun _ hx => by cases hx
          | error e => exact fun _ hx => by cases hx
        · -- the sharper one finds an error of its own
          rw [hv] at herror
          obtain rfl : found = .error e := herror
          have hmem :
              (.error e : Event) ∈ reading w maxTokens s produced (.line bytes :: reads) := by
            simp only [reading, htext]
            rw [heq]
            exact mem_singleton_self _
          exact absurd hmem (error_notMem_reading maxTokens
            (fun s line h => hsharp.not_own s line e h hown)
            (fun e' h => hsharp.failed_not_own e' (h ▸ hown)) s produced _)

end

/-! ## What is owed -/

/-- A pull in which no flag is up. -/
def quiet : Flags := ⟨fun _ => false, false⟩

namespace Puller

variable {σ : Type} {w : Wire σ}

/-- What is still to be delivered. -/
def owed (w : Wire σ) (p : Puller σ) : List Event :=
  if p.done then []
  else if p.pendingEos || reached p.maxTokens p.produced then [.ok .eos]
  else reading w p.maxTokens p.state p.produced p.reader

/-- With the flags down the loop delivers the first of what the stream says. -/
theorem readLoop_quiet (p : Puller σ) (look : Nat) (reads : List (LineRead UInt8 IoError))
    (hdone : p.done = false) (hpending : p.pendingEos = false) :
    ∃ event, (p.readLoop w quiet look reads).1 = some event ∧
      reading w p.maxTokens p.state p.produced reads =
        event :: (p.readLoop w quiet look reads).2.owed w := by
  induction reads generalizing p look with
  | nil => exact ⟨_, rfl, rfl⟩
  | cons r reads ih =>
    cases r with
    | error e lost =>
      rw [readLoop, reading, if_neg (by simp [quiet])]
      by_cases hretries : w.retries e
      · rw [if_pos hretries, if_pos hretries]
        exact ih p (look + 1) hdone hpending
      · rw [if_neg hretries, if_neg hretries]
        exact ⟨_, rfl, rfl⟩
    | line bytes =>
      rw [readLoop, reading, if_neg (by simp [quiet])]
      cases fromUtf8 bytes with
      | none => exact ⟨_, rfl, rfl⟩
      | some text =>
        rcases hline : w.line p.state text.toList with ⟨s, found⟩
        cases found with
        | skip =>
          simp only [hline]
          exact ih { p with state := s } (look + 1) hdone hpending
        | token t last =>
          simp only [hline]
          refine ⟨_, rfl, ?_⟩
          simp only [owed, hdone, Bool.false_eq_true, if_false]
        | eos =>
          simp only [hline]
          exact ⟨_, rfl, rfl⟩
        | error e =>
          simp only [hline]
          exact ⟨_, rfl, rfl⟩

/-- **With the flags down a pull delivers the first of what is owed.** -/
theorem next_quiet (p : Puller σ) :
    (p.owed w = [] ∧ p.next w quiet = (none, p)) ∨
      ∃ event, (p.next w quiet).1 = some event ∧ p.owed w = event :: (p.next w quiet).2.owed w := by
  rw [next]
  by_cases hdone : p.done
  · rw [if_pos hdone]
    exact .inl ⟨by rw [owed, if_pos hdone], rfl⟩
  rw [if_neg hdone]
  have hdone := Bool.not_eq_true _ ▸ hdone
  refine .inr ?_
  by_cases hpending : p.pendingEos
  · rw [if_pos hpending, owed]
    exact ⟨_, rfl, by simp [hdone, hpending, finish, owed]⟩
  rw [if_neg hpending, if_neg (by simp [quiet]), if_neg (by simp [quiet])]
  by_cases hreached : reached p.maxTokens p.produced
  · rw [if_pos hreached, owed]
    exact ⟨_, rfl, by simp [hdone, hreached, finish, owed]⟩
  rw [if_neg hreached]
  have hloop := readLoop_quiet (w := w) p 1 p.reader hdone (Bool.not_eq_true _ ▸ hpending)
  rwa [owed, if_neg (by simp [hdone]), if_neg (by simp [hpending, hreached])]

/-- What pulls with the flags down deliver: what is owed, as far as they go. -/
theorem pulls_quiet (p : Puller σ) (n : Nat) :
    (p.pulls w (replicate n quiet)).filterMap id = (p.owed w).take n := by
  induction n generalizing p with
  | zero => rfl
  | succ n ih =>
    rw [replicate_succ, pulls]
    rcases next_quiet (w := w) p with ⟨howed, hnext⟩ | ⟨event, hevent, howed⟩
    · have hrest := ih p
      rw [howed, take_nil] at hrest ⊢
      rw [hnext]
      exact hrest
    · rw [hevent, howed, take_succ_cons, ← ih]
      rfl

end Puller

end Gen2.ExternalApi
