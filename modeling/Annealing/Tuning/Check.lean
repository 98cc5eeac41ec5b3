/-
  Annealing.Tuning.Check
  ──────────────────────
  **WHICH TUNINGS MAKE SENSE.**

  A search runs with any tuning.  A caller that wants to catch a bad one early
  asks `Tuning.check`: the budget must be a positive finite number, the scale a
  finite number that is not negative, and a fault of the budget is reported
  first.  A fault carries the number it is about.
-/
import Annealing.Tuning
import Annealing.Decimal.Text

namespace Annealing

/-! ## §1. Faults -/

/-- What is wrong with a tuning. -/
inductive TuningFault (α : Type) where
  /-- The budget is zero, negative or NaN. -/
  | nonPositiveBudget (budget : α)
  /-- The budget is infinite. -/
  | nonFiniteBudget (budget : α)
  /-- The scale is negative, infinite or NaN. -/
  | invalidScale (scale : α)
  deriving Repr, BEq

namespace TuningFault

variable {α : Type}

/-- The number that the fault is about. -/
def value : TuningFault α → α
  | .nonPositiveBudget x => x
  | .nonFiniteBudget x => x
  | .invalidScale x => x

/-- What the fault says, without the number. -/
def complaint : TuningFault α → String
  | .nonPositiveBudget _ => "iteration budget must be positive"
  | .nonFiniteBudget _ => "iteration budget must be finite"
  | .invalidScale _ => "scale constant k must be finite and non-negative"

/-- The message for the caller. -/
def message (fault : TuningFault Float) : String :=
  fault.complaint ++ ", got " ++ Decimal.text .sentence fault.value

end TuningFault

/-! ## §2. The check -/

namespace Tuning

variable {α : Type} [Scalar α]

/-- The first fault of a tuning, if it has one. -/
def check (t : Tuning α) : Except (TuningFault α) Unit :=
  if Scalar.isNaN t.budget || t.budget ≤ 0 then .error (.nonPositiveBudget t.budget)
  else if !Scalar.isFinite t.budget then .error (.nonFiniteBudget t.budget)
  else if !Scalar.isFinite t.scale || t.scale < 0 then .error (.invalidScale t.scale)
  else .ok ()

/-- Do two checks have the same result?  Numbers are compared as scalars are, so
a fault about NaN differs from itself. -/
def sameResult [BEq α] : Except (TuningFault α) Unit → Except (TuningFault α) Unit → Bool
  | .ok _, .ok _ => true
  | .error f, .error g => f == g
  | _, _ => false

end Tuning

end Annealing
