/-
  Annealing.Search
  ────────────────
  **WHAT A CALLER DOES WITH A SEARCH.**

  A search bundles an annealer, the flags and the current candidate.  A caller
  gives it one command after another; `perform` carries a command out and returns
  the report if it was a run.  Each run starts from the candidate that the last
  one returned, unless the command brings another; a run in which the problem
  fails leaves the candidate as it was before that run.
-/
import Annealing.Annealer.Run

namespace Annealing

/-- A caller's command. -/
inductive Command (α π σ : Type) where
  /-- Run up to a number of iterations, from a given candidate or the current one. -/
  | run (start : Option σ) (iterations : UInt64)
  /-- Run one batch. -/
  | runBatch (start : Option σ)
  /-- Start over and lower the flag. -/
  | reset
  /-- Raise the search's own flag. -/
  | abort
  /-- Raise the flag of a handle. -/
  | raise (handle : AbortHandle)
  /-- Plan another number of iterations. -/
  | setBudget (budget : α)
  /-- Use another scale. -/
  | setScale (scale : α)
  /-- Use another schedule. -/
  | setSchedule (schedule : Schedule α)
  /-- Change the problem's memory. -/
  | amend (change : π → π)

/-- An annealer, the flags, and the current candidate. -/
structure Search (α γ π σ : Type) where
  /-- The annealer. -/
  annealer : Annealer α γ π
  /-- The flags, its own among them. -/
  flags : FlagBoard
  /-- The candidate that the next run starts from. -/
  state : σ

namespace Search

variable {α γ π σ μ : Type} [Scalar α] [Generator γ]

/-- Run, and keep the candidate that the run returns. -/
def run (s : Search α γ π σ) (problem : Problem α π σ μ) (start : Option σ)
    (iterations : UInt64) : Search α γ π σ × Report α γ π σ :=
  let report := s.annealer.run problem s.flags (start.getD s.state) iterations
  let state :=
    match report.result with
    | .ok outcome => outcome.state
    | .error _ => start.getD s.state
  ({ annealer := report.annealer, flags := report.flags, state }, report)

/-- Carry out a command. -/
def perform (s : Search α γ π σ) (problem : Problem α π σ μ) :
    Command α π σ → Search α γ π σ × Option (Report α γ π σ)
  | .run start iterations =>
      let (s, report) := s.run problem start iterations
      (s, some report)
  | .runBatch start =>
      let (s, report) := s.run problem start Annealer.batchSize
      (s, some report)
  | .reset =>
      let (annealer, flags) := s.annealer.reset s.flags
      ({ s with annealer, flags }, none)
  | .abort => ({ s with flags := s.flags.abort s.annealer.abort }, none)
  | .raise handle => ({ s with flags := s.flags.abort handle }, none)
  | .setBudget budget => ({ s with annealer := s.annealer.setBudget budget }, none)
  | .setScale scale => ({ s with annealer := s.annealer.setScale scale }, none)
  | .setSchedule schedule => ({ s with annealer := s.annealer.setSchedule schedule }, none)
  | .amend change => ({ s with annealer := s.annealer.amend change }, none)

/-- Carry out a list of commands; returns the reports of the runs among them. -/
def performAll (s : Search α γ π σ) (problem : Problem α π σ μ) :
    List (Command α π σ) → Search α γ π σ × List (Report α γ π σ)
  | [] => (s, [])
  | c :: cs =>
      let (s, report) := s.perform problem c
      let (s, reports) := s.performAll problem cs
      (s, report.toList ++ reports)

end Search

end Annealing
