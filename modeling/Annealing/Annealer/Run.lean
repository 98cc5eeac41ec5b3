/-
  Annealing.Annealer.Run
  ──────────────────────
  **RUNNING A SEARCH.**

  An iteration asks for a proposal, judges it, and applies its move if it is
  taken.  A run completes iterations until the number asked for is reached, or
  the flag is found raised after one of them, or the problem fails.  The
  iteration counter never passes the largest 64-bit number: a run asks for no
  more iterations than are left below it.

  A run that ends reports its outcome and what happened along the way; one in
  which the problem fails reports the failure, and leaves every counter as it was
  when the problem failed.
-/
import Annealing.Annealer
import Annealing.Problem

namespace Annealing

/-! ## §1. What a run returns -/

/-- The outcome of one run. -/
structure Outcome (α σ : Type) where
  /-- The candidate after the last accepted move. -/
  state : σ
  /-- Moves accepted in this run. -/
  accepted : UInt64
  /-- Iterations completed in this run. -/
  iterations : UInt64
  /-- Did the flag end it? -/
  aborted : Bool
  /-- The temperature after it. -/
  temperature : α

/-- What a run writes to the log. -/
inductive Event (α : Type) where
  /-- The flag ended the run at this iteration. -/
  | aborted (iteration : UInt64)
  /-- The learning window was left, so this estimate is final. -/
  | frozen (estimate : ScaleEstimate α)
  /-- The run ended. -/
  | finished (iterations accepted : UInt64) (temperature scale : α) (aborted : Bool)

namespace Event

variable {α : Type}

/-- How important an event is. -/
def level : Event α → String
  | .aborted .. => "TRACE"
  | .frozen .. => "DEBUG"
  | .finished .. => "DEBUG"

/-- What an event says. -/
def message : Event α → String
  | .aborted .. => "annealing run aborted"
  | .frozen .. => "scale learning frozen"
  | .finished .. => "annealing run finished"

end Event

/-- Why a run stops. -/
inductive Stop where
  /-- All iterations asked for are done. -/
  | reached
  /-- The flag was raised. -/
  | aborted
  /-- The problem failed. -/
  | failed (reason : String)
  deriving Repr, DecidableEq

/-- An annealer after a run, the flags, the log, and the outcome or the reason of
the problem's failure. -/
structure Report (α γ π σ : Type) where
  /-- The annealer after the run. -/
  annealer : Annealer α γ π
  /-- The flags after the run. -/
  flags : FlagBoard
  /-- What the run wrote to the log, in order. -/
  events : List (Event α)
  /-- The outcome, unless the problem failed. -/
  result : Except String (Outcome α σ)

/-! ## §2. One iteration -/

/-- A run under way. -/
structure Progress (α γ π σ : Type) where
  /-- The annealer so far. -/
  annealer : Annealer α γ π
  /-- The flags so far. -/
  flags : FlagBoard
  /-- The candidate so far. -/
  state : σ
  /-- Moves accepted so far in this run. -/
  accepted : UInt64

namespace Progress

variable {α γ π σ : Type}

/-- The problem has answered: keep its memory, and raise the flags it fired. -/
def absorb {β : Type} (p : Progress α γ π σ) (r : Reply π β) : Progress α γ π σ :=
  { p with annealer.memory := r.memory, flags := p.flags.abortAll r.fired }

/-- The candidate after an accepted move. -/
def accept (p : Progress α γ π σ) (state : σ) : Progress α γ π σ :=
  { p with state, accepted := p.accepted + 1 }

/-- The iteration is complete. -/
def count (p : Progress α γ π σ) : Progress α γ π σ :=
  { p with annealer.iteration := p.annealer.iteration + 1 }

/-- Is the flag raised that stops this run? -/
def isAborted (p : Progress α γ π σ) : Bool :=
  p.flags.isAborted p.annealer.abort

/-- Decide whether a cost difference is accepted. -/
def weigh [Scalar α] [Generator γ] (p : Progress α γ π σ) (delta : α) :
    Progress α γ π σ × Bool :=
  let a := p.annealer
  let (verdict, estimate) := a.tuning.judge a.iteration a.estimate delta
  let (taken, generator) := verdict.settle a.generator
  ({ p with annealer.estimate := estimate, annealer.generator := generator }, taken)

end Progress

namespace Problem

variable {α γ π σ μ : Type} [Scalar α] [Generator γ]

/-- Ask for a proposal. -/
def propose (problem : Problem α π σ μ) (p : Progress α γ π σ) :
    Progress α γ π σ × Except String (Proposal α μ) :=
  let a := p.annealer
  let (reply, generator) := (problem.choose a.memory p.state a.iteration).run a.generator
  ({ p with annealer.generator := generator }.absorb reply, reply.result)

/-- Apply an accepted move. -/
def carryOut (problem : Problem α π σ μ) (p : Progress α γ π σ) (move : μ) :
    Progress α γ π σ × Except String σ :=
  let reply := problem.apply p.annealer.memory p.state move
  (p.absorb reply, reply.result)

/-- **One iteration**, and the reason if the problem failed in it.  A failed
iteration is not counted. -/
def iterate (problem : Problem α π σ μ) (p : Progress α γ π σ) :
    Progress α γ π σ × Option String :=
  match problem.propose p with
  | (p, .error reason) => (p, some reason)
  | (p, .ok proposal) =>
    match p.weigh proposal.delta with
    | (p, false) => (p.count, none)
    | (p, true) =>
      match problem.carryOut p proposal.move with
      | (p, .error reason) => (p, some reason)
      | (p, .ok state) => ((p.accept state).count, none)

/-! ## §3. Many iterations -/

/-- Up to `n` iterations. -/
def advance (problem : Problem α π σ μ) : Nat → Progress α γ π σ → Progress α γ π σ × Stop
  | 0, p => (p, .reached)
  | n + 1, p =>
    match problem.iterate p with
    | (p, some reason) => (p, .failed reason)
    | (p, none) => if p.isAborted then (p, .aborted) else advance problem n p

end Problem

/-! ## §4. Runs -/

namespace Annealer

variable {α γ π σ μ : Type} [Scalar α] [Generator γ]

/-- How many of `iterations` are left below the largest count. -/
def allowed (a : Annealer α γ π) (iterations : UInt64) : Nat :=
  min iterations.toNat (UInt64.size - 1 - a.iteration.toNat)

/-- Has the search, which stood at `before`, left the learning window with its
scale estimated? -/
def hasFrozen (a before : Annealer α γ π) : Bool :=
  before.inLearningWindow && !a.tuning.hasScale && !a.inLearningWindow

/-- What a run reports that took the search from `a` to `p` without a failure. -/
def conclude (a : Annealer α γ π) (p : Progress α γ π σ) (aborted : Bool) : Report α γ π σ :=
  let after := p.annealer
  let outcome : Outcome α σ :=
    { state := p.state
      accepted := p.accepted
      iterations := after.iteration - a.iteration
      aborted
      temperature := after.temperature }
  { annealer := after
    flags := p.flags
    events :=
      (if aborted then [.aborted after.iteration] else [])
        ++ (if after.hasFrozen a then [.frozen after.estimate] else [])
        ++ [.finished outcome.iterations outcome.accepted outcome.temperature
              after.estimate.mean aborted]
    result := .ok outcome }

/-- **A run** of up to `iterations` iterations from a candidate. -/
def run (a : Annealer α γ π) (problem : Problem α π σ μ) (flags : FlagBoard) (state : σ)
    (iterations : UInt64) : Report α γ π σ :=
  match problem.advance (a.allowed iterations) ⟨a, flags, state, 0⟩ with
  | (p, .reached) => a.conclude p false
  | (p, .aborted) => a.conclude p true
  | (p, .failed reason) =>
      { annealer := p.annealer, flags := p.flags, events := [], result := .error reason }

/-- How many iterations a batch has. -/
def batchSize : UInt64 := 100

/-- A run of one batch. -/
def runBatch (a : Annealer α γ π) (problem : Problem α π σ μ) (flags : FlagBoard) (state : σ) :
    Report α γ π σ :=
  a.run problem flags state batchSize

end Annealer

end Annealing
