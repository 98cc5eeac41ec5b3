/-
  Annealing.Tuning.Field
  ──────────────────────
  **THE FIELDS OF A TUNING IN A DOCUMENT.**

  A tuning is written as an object with four members, or read from an array of
  four items in this order.  A built-in schedule is written by its name.
-/
import Annealing.Tuning

namespace Annealing

/-- A field of a tuning. -/
inductive Field where
  /-- The budget. -/
  | budget
  /-- The scale. -/
  | scale
  /-- The schedule. -/
  | schedule
  /-- The seed. -/
  | seed
  deriving Repr, DecidableEq

namespace Field

/-- All fields, in order. -/
def all : List Field := [.budget, .scale, .schedule, .seed]

/-- The key of a field's member. -/
def key : Field → String
  | .budget => "iteration_budget"
  | .scale => "k"
  | .schedule => "cooling"
  | .seed => "seed"

/-- The field with a key. -/
def ofKey? (key : String) : Option Field :=
  all.find? (·.key = key)

end Field

namespace Schedule

variable {α : Type}

/-- The name of a built-in schedule. -/
def name? : Schedule α → Option String
  | .exponential => some "Exponential"
  | .linear => some "Linear"
  | .custom _ => none

/-- The built-in schedule with a name. -/
def ofName? (name : String) : Option (Schedule α) :=
  if name = "Exponential" then some .exponential
  else if name = "Linear" then some .linear
  else none

end Schedule

end Annealing
