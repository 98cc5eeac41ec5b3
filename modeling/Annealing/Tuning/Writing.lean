/-
  Annealing.Tuning.Writing
  ────────────────────────
  **DOCUMENTS FROM TUNINGS.**

  A tuning is written as an object with all four fields.  A number that has no
  numeral is written as `null`, which no tuning is read from.  A custom schedule
  has no name and cannot be written.
-/
import Annealing.Document
import Annealing.Tuning.Field

namespace Annealing

/-- Why a tuning cannot be written. -/
inductive WriteFault where
  /-- Its schedule is a custom one. -/
  | customSchedule
  deriving Repr, DecidableEq

/-- The message for the caller. -/
def WriteFault.message : WriteFault → String
  | .customSchedule => "the enum variant CoolingSchedule::Custom cannot be serialized"

namespace Tuning

variable {α : Type} [NumeralCode α]

/-- A number, or `null`. -/
def writeScalar (x : α) : Document :=
  ((NumeralCode.encode? x).map .number).getD .null

/-- A seed, or `null`. -/
def writeSeed (seed : Option UInt64) : Document :=
  (seed.map fun n => .number (.ofNat n.toNat)).getD .null

/-- **The document of a tuning.** -/
def toDocument (t : Tuning α) : Except WriteFault Document :=
  match t.schedule.name? with
  | none => .error .customSchedule
  | some name =>
      .ok (.object
        [(some Field.budget.key, writeScalar t.budget),
         (some Field.scale.key, writeScalar t.scale),
         (some Field.schedule.key, .text (some name)),
         (some Field.seed.key, writeSeed t.seed)]
        .closed)

end Tuning

end Annealing
