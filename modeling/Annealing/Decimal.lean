/-
  Annealing.Decimal
  ─────────────────
  **DECIMAL NUMBERS AND THEIR TWO NOTATIONS.**

  A decimal is a coefficient times a power of ten.  Its positional text has all
  its digits and no exponent, however long that is; its scientific text has one
  digit before the point and an exponent.
-/
namespace Annealing

/-- The number `coefficient · 10 ^ exponent`. -/
structure Decimal where
  /-- The digits, read as one number. -/
  coefficient : Nat
  /-- The place of the last digit; 0 for units. -/
  exponent : Int
  deriving Repr, DecidableEq

namespace Decimal

/-- The same number with no zero at the end of its coefficient. -/
def trim (d : Decimal) : Decimal :=
  if h : d.coefficient ≠ 0 ∧ d.coefficient % 10 = 0 then
    trim ⟨d.coefficient / 10, d.exponent + 1⟩
  else d
termination_by d.coefficient
decreasing_by omega

/-- A decimal without digits after the point. -/
def isIntegral (d : Decimal) : Bool := 0 ≤ d.exponent

/-- The digits of the coefficient. -/
def digits (d : Decimal) : List Char :=
  (toString d.coefficient).toList

/-- The place of the first digit; 0 for units. -/
def leadingPlace (d : Decimal) : Int :=
  d.exponent + d.digits.length - 1

/-- All digits, with a point before those below the units.  A number below one
starts with `0.`; nothing marks an integral number. -/
def positional (d : Decimal) : String :=
  if d.exponent < 0 then
    let places := d.exponent.natAbs
    let digits := List.replicate (places + 1 - d.digits.length) '0' ++ d.digits
    let units := digits.length - places
    String.ofList (digits.take units ++ '.' :: digits.drop units)
  else
    String.ofList (d.digits ++ List.replicate d.exponent.natAbs '0')

/-- The first digit, a point before the others if there are any, and the place of
the first digit with its sign. -/
def scientific (d : Decimal) : String :=
  let fraction :=
    match d.digits.tail with
    | [] => []
    | rest => '.' :: rest
  let sign := if d.leadingPlace < 0 then "-" else "+"
  String.ofList (d.digits.take 1 ++ fraction)
    ++ "e" ++ sign ++ toString d.leadingPlace.natAbs

end Decimal

end Annealing
