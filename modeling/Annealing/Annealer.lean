/-
  Annealing.Annealer
  ──────────────────
  **A SEARCH IN PROGRESS.**

  An annealer holds what lasts from one run to the next: the problem's memory,
  the tuning, the generator, the number of iterations done, the scale learned, and
  the handle of the flag it obeys.  The candidate is not part of it: a run is
  given one and returns one.
-/
import Annealing.Acceptance
import Annealing.Flags
import Annealing.Generator.ChaCha

namespace Annealing

/-- A search that draws from a `γ`, on a problem with memory `π`. -/
structure Annealer (α γ π : Type) where
  /-- The problem's memory. -/
  memory : π
  /-- The tuning now in force. -/
  tuning : Tuning α
  /-- The generator, lent to the problem and used for acceptance. -/
  generator : γ
  /-- Iterations completed since the start or the last reset. -/
  iteration : UInt64
  /-- The scale learned since the start or the last reset. -/
  estimate : ScaleEstimate α
  /-- The handle of the flag that stops this search. -/
  abort : AbortHandle

namespace Annealer

variable {α γ π : Type} [Scalar α]

/-! ## §1. Starting -/

/-- A new search that obeys the flag of `abort`.  The tuning's seed plays no part. -/
def create (memory : π) (tuning : Tuning α) (generator : γ) (abort : AbortHandle) :
    Annealer α γ π :=
  { memory, tuning, generator, iteration := 0, estimate := .empty, abort }

/-- A new search on the standard generator, started from the tuning's seed or,
without one, from `entropy`. -/
def seeded (memory : π) (tuning : Tuning α) (entropy : UInt64) (abort : AbortHandle) :
    Annealer α ChaCha π :=
  create memory tuning (.ofSeed (tuning.seed.getD entropy)) abort

/-- The same search under another handle's flag; the old flag no longer counts. -/
def withAbortHandle (a : Annealer α γ π) (h : AbortHandle) : Annealer α γ π :=
  { a with abort := h }

/-! ## §2. Looking -/

/-- The temperature at the current iteration. -/
def temperature (a : Annealer α γ π) : α :=
  a.tuning.temperature a.iteration

/-- Is the current iteration in the learning window? -/
def inLearningWindow (a : Annealer α γ π) : Bool :=
  a.tuning.inLearningWindow a.iteration

/-! ## §3. Changing the tuning and the memory -/

/-- Plan another number of iterations. -/
def setBudget (a : Annealer α γ π) (budget : α) : Annealer α γ π :=
  { a with tuning.budget := budget }

/-- Use another scale; one that is not positive switches back to the estimate. -/
def setScale (a : Annealer α γ π) (scale : α) : Annealer α γ π :=
  { a with tuning.scale := scale }

/-- Use another schedule. -/
def setSchedule (a : Annealer α γ π) (schedule : Schedule α) : Annealer α γ π :=
  { a with tuning.schedule := schedule }

/-- Change the problem's memory. -/
def amend (a : Annealer α γ π) (f : π → π) : Annealer α γ π :=
  { a with memory := f a.memory }

/-! ## §4. Starting over -/

/-- Forget the iterations done and the scale learned.  Tuning, memory and
generator stay as they are. -/
def restart (a : Annealer α γ π) : Annealer α γ π :=
  { a with iteration := 0, estimate := .empty }

/-- **Reset**: start over and lower the flag. -/
def reset (a : Annealer α γ π) (flags : FlagBoard) : Annealer α γ π × FlagBoard :=
  (a.restart, flags.clear a.abort)

end Annealer

end Annealing
