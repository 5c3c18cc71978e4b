import Gen2.Executor.Promise

/-!
# Operations that panic

An operation that panics while it runs unwinds what runs it.  A task is gone without a report, but
its permits are dropped as they always are.  An exclusive operation takes the loop with it, and with
the loop both of its channels; `done` is not set.

* `Panicking.step`: the steps of the executor, and the panics.
* `Harmless`: what has panicked has nothing behind it that suffers.
* `Kind`: what a panic leaves of what the executor promises.
* `result_lost`: a result is lost that an operation came to, behind one that has panicked.
-/

namespace Gen2.Tools

open Lib

/-- The executor with what has panicked: the numbers of the operations that were spawned, and
whether an exclusive one has. -/
structure Panicking (τ : Type) where
  executor : Executor τ
  panicked : List Nat
  crashed : Bool
  deriving DecidableEq

variable {τ : Type}

def Panicking.new (τ : Type) (maxConcurrent : Nat) : Panicking τ where
  executor := .new τ maxConcurrent
  panicked := []
  crashed := false

/-- The operation of the task at this place panics, if it runs: `tx.send` is not come to, and the
permits are dropped. -/
def Panicking.panicTask (s : Panicking τ) (index : Nat) : Panicking τ :=
  match s.executor.tasks[index]? with
  | none => s
  | some task =>
    match task.pc with
    | .running =>
      { s with
        executor := s.executor.goTask index task
          (if task.needsGpu then .releasingGpu else .releasing)
        panicked := s.panicked ++ [task.seq] }
    | _ => s

/-- The exclusive operation panics, if one runs, and the loop is unwound. -/
def Panicking.panicLoop (s : Panicking τ) : Panicking τ :=
  match s.executor.loop with
  | .executing _ => { s with executor := s.executor.leave, crashed := true }
  | _ => s

/-- Whose step it is, or whose panic. -/
inductive Turn (τ : Type)
  | act (act : Act τ)
  | panicTask (index : Nat)
  | panicLoop

def Panicking.step (turn : Turn τ) (s : Panicking τ) : Panicking τ :=
  match turn with
  | .act act => { s with executor := s.executor.step act }
  | .panicTask index => s.panicTask index
  | .panicLoop => s.panicLoop

/-- `Panicking.step`, as a system that does not crash. -/
def nextTurn (turn : Turn τ) (s : Panicking τ) : Option (Panicking τ) := some (.step turn s)

/-! ## What is kept, and what is lost -/

/-- No exclusive operation has panicked, and behind one that has panicked none has come to a result
and none is exclusive. -/
structure Panicking.Harmless (s : Panicking τ) : Prop where
  crashed : s.crashed = false
  finished : ∀ i ∈ s.panicked, ∀ x ∈ s.executor.finished, ¬ i < x.1
  exclusive : ∀ i ∈ s.panicked, ∀ j, i < j →
    s.executor.accepted[j]? ≠ some ConcurrencyGuard.exclusive

/-- What is left of the executor's promises when operations panic. -/
structure Panicking.Kind (s : Panicking τ) : Prop where
  /-- Results are delivered in the order of submission, and each at most once. -/
  ordered : (s.executor.results.map Prod.fst).Pairwise (· < ·)
  /-- A result is what its operation came to. -/
  own : ∀ x ∈ s.executor.results, x ∈ s.executor.finished
  /-- Without a cancel, and while there is somebody to receive, all that came to a result has
  delivered it, and all that was accepted has run, when the executor is at rest. -/
  delivered : s.executor.cancelled = false → s.executor.receiver = true → s.executor.Settled →
    (∀ x ∈ s.executor.finished, x ∈ s.executor.results) ∧
      s.executor.started.Perm (List.range s.executor.accepted.length)

/-- Two safe operations: the first panics, and the second comes to a result. -/
def lostRun : List (Turn Unit) :=
  [.act (.submit .safe), .act (.send 0), .act (.submit .safe), .act (.send 0), .act .close] ++
    List.replicate 6 (.act (.loop ())) ++ List.replicate 2 (.act (.task 0 ())) ++ [.panicTask 0] ++
    List.replicate 5 (.act (.task 1 ())) ++ List.replicate 2 (.act (.task 0 ())) ++
    List.replicate 5 (.act (.loop ()))

/-- **A result is lost** that an operation came to behind one that panicked. -/
theorem result_lost : ¬ ∀ limit, ∀ turns : List (Turn Unit),
    Always nextTurn Panicking.Kind turns (.new Unit limit) := by
  intro h
  obtain ⟨s, hrun, hkind⟩ := (h 2 lostRun).final
  have hend : (runAll nextTurn lostRun (.new Unit 2)).map (fun s =>
      (s.executor.cancelled, s.executor.receiver, s.executor.loop)) =
        some (false, true, .ended) := by decide +kernel
  have hdone : (runAll nextTurn lostRun (.new Unit 2)).map (fun s =>
      (s.executor.finished, s.executor.results)) = some ([(1, ())], []) := by decide +kernel
  rw [hrun] at hend hdone
  simp only [Option.map_some, Option.some.injEq, Prod.mk.injEq] at hend hdone
  obtain ⟨hcancel, hreceiver, hloop⟩ := hend
  obtain ⟨hfinished, hresults⟩ := hdone
  have hmem := (hkind.delivered hcancel hreceiver (.inl hloop)).1 (1, ())
  rw [hfinished, hresults] at hmem
  cases hmem List.mem_cons_self

end Gen2.Tools
