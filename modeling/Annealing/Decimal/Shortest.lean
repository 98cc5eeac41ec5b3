/-
  Annealing.Decimal.Shortest
  ──────────────────────────
  **THE FEWEST DIGITS THAT READ BACK.**

  A binary64 number stands for every real that rounds to it: an interval whose
  ends belong to it exactly if its mantissa is even.  Its shortest decimal is the
  point of that interval with the fewest digits; among those with equally many,
  the nearest; of two equally near, the one that a rule for ties takes.  The
  search looks at one decimal grid after another, coarse to fine, and on each at
  the two points next to the number: if any point of the grid lies in the
  interval, one of these two does.  All arithmetic is exact, on natural numbers.
-/
import Annealing.Decimal

namespace Annealing.Decimal

/-! ## §1. The reals that round to a binary number -/

/-- A positive binary number between the ends of its rounding interval, all
three in steps of `2 ^ (-shift)`. -/
structure Span where
  /-- The lower end. -/
  lower : Nat
  /-- The number itself. -/
  value : Nat
  /-- The upper end. -/
  upper : Nat
  /-- The number of binary places. -/
  shift : Nat
  /-- Do the ends round to the number? -/
  closed : Bool
  deriving Repr, DecidableEq

/-- The interval of a finite binary64 number, from its bits without the sign.
Below a power of two the grid is twice as fine as above it. -/
def Span.ofBits (bits : UInt64) : Span :=
  let field := (bits >>> 52).toNat % 2048
  let fraction := bits.toNat % 0x10000000000000
  let mantissa := if field = 0 then fraction else fraction + 0x10000000000000
  let place := max field 1
  let scale := Nat.pow 2 (place - 1077)
  { lower := (4 * mantissa - (if fraction = 0 ∧ 1 < field then 1 else 2)) * scale
    value := 4 * mantissa * scale
    upper := (4 * mantissa + 2) * scale
    shift := 1077 - place
    closed := mantissa % 2 = 0 }

/-- Does `d` round to the number? -/
def Span.holds (s : Span) (d : Decimal) : Bool :=
  let up := Nat.pow 10 d.exponent.toNat
  let down := Nat.pow 10 (-d.exponent).toNat
  let point := d.coefficient * up * Nat.pow 2 s.shift
  if s.closed then s.lower * down ≤ point && point ≤ s.upper * down
  else s.lower * down < point && point < s.upper * down

/-! ## §2. One decimal grid -/

/-- Which of two equally near decimals is taken. -/
inductive Tie where
  /-- The greater. -/
  | up
  /-- The one whose last digit is even. -/
  | even
  deriving Repr, DecidableEq

/-- The greatest multiple of `10 ^ exponent` that is not above the number. -/
def Span.floorOn (s : Span) (exponent : Int) : Decimal :=
  ⟨s.value * Nat.pow 10 (-exponent).toNat / (Nat.pow 10 exponent.toNat * Nat.pow 2 s.shift),
    exponent⟩

/-- Is `d` rather than the next point of its grid taken for the number? -/
def Span.prefersLow (s : Span) (tie : Tie) (d : Decimal) : Bool :=
  let number := 2 * s.value * Nat.pow 10 (-d.exponent).toNat
  let middle := (2 * d.coefficient + 1) * Nat.pow 10 d.exponent.toNat * Nat.pow 2 s.shift
  match tie with
  | .up => number < middle
  | .even => number < middle || (number = middle && d.coefficient % 2 = 0)

/-- The point of the grid of `10 ^ exponent` that rounds to the number, if there
is one; of two, the nearer, and of two equally near, the one that `tie` takes. -/
def Span.onGrid? (s : Span) (tie : Tie) (exponent : Int) : Option Decimal :=
  let low := s.floorOn exponent
  let high : Decimal := ⟨low.coefficient + 1, exponent⟩
  match s.holds low, s.holds high with
  | true, true => some (if s.prefersLow tie low then low else high)
  | true, false => some low
  | false, true => some high
  | false, false => none

/-! ## §3. The search -/

/-- The number of digits before the point; zero or less counts the zeros after
it.  No binary64 number is below `10 ^ (-400)`. -/
def Span.magnitude (s : Span) : Int :=
  ((toString (s.value * Nat.pow 10 400 / Nat.pow 2 s.shift)).length : Int) - 400

/-- The number itself, written out in full. -/
def Span.exact (s : Span) : Decimal :=
  ⟨s.value * Nat.pow 5 s.shift, -(s.shift : Int)⟩

/-- **The shortest decimal.**  Seventeen digits always suffice. -/
def Span.shortest (s : Span) (tie : Tie) : Decimal :=
  let k := s.magnitude
  (((List.range 17).findSome? fun (n : Nat) => s.onGrid? tie (k - (n + 1))).getD s.exact).trim

/-- The shortest decimal of a finite number's absolute value. -/
def shortest (tie : Tie) (x : Float) : Decimal :=
  let bits := x.toBits &&& 0x7fffffffffffffff
  if bits = 0 then ⟨0, 0⟩ else (Span.ofBits bits).shortest tie

end Annealing.Decimal
