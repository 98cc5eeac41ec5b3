/-
  Annealing.Problem.Tour
  ──────────────────────
  **A SHORT ROUND TRIP.**

  A candidate is an order of the cities; its cost is the length of the round trip.
  A move swaps two stops.  The memory keeps the shortest length seen among the
  proposals, and asks the search to stop when one falls below a target.
-/
import Annealing.Problem

namespace Annealing

/-- A city's place in the plane. -/
structure City where
  /-- East. -/
  x : Float
  /-- North. -/
  y : Float
  deriving Repr

/-- The cities, and what is known of their round trips. -/
structure Tour where
  /-- The cities. -/
  cities : Array City
  /-- A proposal shorter than this stops the search. -/
  target : Float
  /-- The flag that is raised then. -/
  handle : AbortHandle
  /-- The shortest length proposed. -/
  best : Float
  deriving Repr

namespace Tour

/-! ## §1. Cities -/

/-- The part after the point. -/
def fractionalPart (x : Float) : Float :=
  x - x.floor

/-- The sequence that coordinates are the fractional parts of. -/
def spread (x : Float) : Float :=
  (17.0 / 13.0) * fractionalPart (x * 1000.0)

/-- A number of scattered cities, from a point of the sequence. -/
def scatter : Nat → Float → List City
  | 0, _ => []
  | n + 1, seed =>
      let x := spread seed
      let y := spread x
      ⟨fractionalPart x, fractionalPart y⟩ :: scatter n y

/-- Before the first proposal; the sequence starts at the square root of 13. -/
def start (cities : Nat) (target : Float) (handle : AbortHandle) : Tour :=
  { cities := (scatter cities (Float.sqrt 13.0)).toArray, target, handle, best := 1.0 / 0.0 }

/-! ## §2. Lengths -/

/-- The city at a stop. -/
def city (t : Tour) (stop : Int) : City :=
  t.cities.getD stop.toNat ⟨0, 0⟩

/-- The distance between two cities. -/
def distance (a b : City) : Float :=
  let dx := a.x - b.x
  let dy := a.y - b.y
  Float.sqrt (dx * dx + dy * dy)

/-- The length of a round trip, summed in its order. -/
def length (t : Tour) (order : Array Int) : Float :=
  (List.range order.size).foldl (fun sum i =>
    sum + distance (t.city (order.getD i 0)) (t.city (order.getD ((i + 1) % order.size) 0))) 0.0

/-! ## §3. The problem -/

/-- Two random stops; if they are equal, the next one is the second. -/
def problem : Problem Float Tour (Array Int) (Nat × Nat) where
  choose t order _ := .draw fun v => .draw fun w =>
    let i := v.toNat % order.size
    let j := w.toNat % order.size
    let j := if i = j then (i + 1) % order.size else j
    let before := t.length order
    let after := t.length (order.swapIfInBounds i j)
    let best := if after < t.best then after else t.best
    let fired := if after < t.target then [t.handle] else []
    .done ⟨{ t with best }, fired, .ok ⟨(i, j), after - before⟩⟩
  apply t order move := ⟨t, [], .ok (order.swapIfInBounds move.1 move.2)⟩

end Tour

end Annealing
