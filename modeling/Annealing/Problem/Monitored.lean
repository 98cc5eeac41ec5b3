/-
  Annealing.Problem.Monitored
  ───────────────────────────
  **A PROBLEM UNDER OBSERVATION.**

  Counts how often a problem chooses and applies, wastes random words before each
  choice, and interrupts it by a plan: the plan says when a flag is raised and
  when the problem fails.  The counters move before anything else happens, so an
  interrupted question is counted too.
-/
import Annealing.Problem

namespace Annealing

/-- When a problem is interrupted. -/
structure Interruptions where
  /-- Does choosing at this iteration raise the flag? -/
  raiseOnChoose : UInt64 → Bool := fun _ => false
  /-- Why this choice fails, counted from 0, if it does. -/
  failOnChoose : Nat → Option String := fun _ => none
  /-- Does this application, counted from 0, raise the flag? -/
  raiseOnApply : Nat → Bool := fun _ => false
  /-- Why this application fails, counted from 0, if it does. -/
  failOnApply : Nat → Option String := fun _ => none

/-- A problem's memory with what the observer keeps. -/
structure Monitored (π : Type) where
  /-- The observed problem's own memory. -/
  inner : π
  /-- The flag that interruptions raise. -/
  handle : AbortHandle
  /-- How many words are wasted before each choice. -/
  burn : Nat := 0
  /-- When to interrupt. -/
  plan : Interruptions := {}
  /-- Choices asked for so far. -/
  calls : Nat := 0
  /-- Applications asked for so far. -/
  applied : Nat := 0

namespace Monitored

variable {α π σ μ : Type}

/-- Choose under observation; `problem` may depend on the number of the choice. -/
def choose (problem : Nat → Problem α π σ μ) (m : Monitored π) (state : σ) (iteration : UInt64) :
    Draws (Reply (Monitored π) (Proposal α μ)) :=
  let call := m.calls
  let m := { m with calls := call + 1 }
  let fired := if m.plan.raiseOnChoose iteration then [m.handle] else []
  Draws.skip m.burn <|
    match m.plan.failOnChoose call with
    | some reason => .done ⟨m, fired, .error reason⟩
    | none => ((problem call).choose m.inner state iteration).bind fun reply =>
        .done ⟨{ m with inner := reply.memory }, fired ++ reply.fired, reply.result⟩

/-- Apply under observation. -/
def apply (problem : Nat → Problem α π σ μ) (m : Monitored π) (state : σ) (move : μ) :
    Reply (Monitored π) σ :=
  let nth := m.applied
  let m := { m with applied := nth + 1 }
  let fired := if m.plan.raiseOnApply nth then [m.handle] else []
  match m.plan.failOnApply nth with
  | some reason => ⟨m, fired, .error reason⟩
  | none =>
      let reply := (problem m.calls).apply m.inner state move
      ⟨{ m with inner := reply.memory }, fired ++ reply.fired, reply.result⟩

/-- The observed problem. -/
def problem (problem : Nat → Problem α π σ μ) : Problem α (Monitored π) σ μ where
  choose := choose problem
  apply := apply problem

end Monitored

end Annealing
