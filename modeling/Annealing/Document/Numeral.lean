/-
  Annealing.Document.Numeral
  ──────────────────────────
  **NUMBERS AS THEY ARE WRITTEN.**

  A numeral keeps what is written exactly: a sign, all digits, a power of ten, and
  whether a point or an exponent was used.  Which scalar it stands for is for the
  scalar type to say.  For binary64 it is the nearest number; a numeral beyond the
  largest one stands for none, and one too small for any stands for a zero.
-/
import Annealing.Decimal.Text

namespace Annealing

/-! ## §1. Numerals -/

/-- A number in a document: `± coefficient · 10 ^ exponent`. -/
structure Numeral where
  /-- Is there a minus sign? -/
  negative : Bool
  /-- All digits, read as one number. -/
  coefficient : Nat
  /-- The place of the last digit. -/
  exponent : Int
  /-- Is it written with digits alone? -/
  integral : Bool
  deriving Repr, DecidableEq

namespace Numeral

/-- The numeral of a natural number. -/
def ofNat (n : Nat) : Numeral := ⟨false, n, 0, true⟩

/-- The whole number that it is written as.  A zero with a sign is not one. -/
def toInt? (n : Numeral) : Option Int :=
  if !n.integral then none
  else if n.negative then
    if n.coefficient = 0 then none else some (-n.coefficient)
  else some n.coefficient

/-! ## §2. Reading the digits -/

/-- The number that a list of decimal digits is. -/
def ofDigits (digits : List Char) : Nat :=
  digits.foldl (fun n c => 10 * n + (c.toNat - '0'.toNat)) 0

/-- Digits after a point, at least one; nothing if there is no point. -/
def scanFraction : List Char → Option (List Char × List Char)
  | '.' :: cs =>
      match cs.span Char.isDigit with
      | ([], _) => none
      | (digits, rest) => some (digits, rest)
  | cs => some ([], cs)

/-- The exponent after its letter: a sign or none, and at least one digit. -/
def scanExponentDigits (cs : List Char) : Option (Int × List Char) :=
  let (negative, cs) :=
    match cs with
    | '-' :: cs => (true, cs)
    | '+' :: cs => (false, cs)
    | cs => (false, cs)
  match cs.span Char.isDigit with
  | ([], _) => none
  | (digits, rest) =>
      let e : Int := ofDigits digits
      some (if negative then -e else e, rest)

/-- The exponent, if there is one. -/
def scanExponent : List Char → Option (Option Int × List Char)
  | 'e' :: cs => (scanExponentDigits cs).map fun (e, rest) => (some e, rest)
  | 'E' :: cs => (scanExponentDigits cs).map fun (e, rest) => (some e, rest)
  | cs => some (none, cs)

/-- The digits before the point: no zero stands before another digit. -/
def scanUnits (cs : List Char) : Option (List Char × List Char) :=
  match cs.span Char.isDigit with
  | ([], _) => none
  | ('0' :: _ :: _, _) => none
  | (digits, rest) => some (digits, rest)

/-- A numeral at the front of a text, and what follows it. -/
def scan (cs : List Char) : Option (Numeral × List Char) := do
  let (negative, cs) :=
    match cs with
    | '-' :: cs => (true, cs)
    | cs => (false, cs)
  let (units, cs) ← scanUnits cs
  let (fraction, cs) ← scanFraction cs
  let (exponent, cs) ← scanExponent cs
  some
    ({ negative
       coefficient := ofDigits (units ++ fraction)
       exponent := exponent.getD 0 - fraction.length
       integral := fraction.isEmpty && exponent.isNone }, cs)

end Numeral

/-! ## §3. Numerals and scalars -/

/-- How the scalars of a type are written as numerals. -/
class NumeralCode (α : Type) where
  /-- The scalar of a numeral, unless it is out of range. -/
  decode? : Numeral → Option α
  /-- The numeral of a scalar, if it has one. -/
  encode? : α → Option Numeral

namespace Numeral

/-- The nearest binary64 number to the absolute value, infinite beyond the largest.
Every numeral with more than 310 digits before its point is beyond it, and every
numeral with more than 350 zeros after its point is too small. -/
def nearest (n : Numeral) : Float :=
  let magnitude : Int := (toString n.coefficient).length + n.exponent
  if n.coefficient = 0 || magnitude < -350 then 0
  else if 310 < magnitude then 1 / 0
  else Float.ofScientific n.coefficient (n.exponent < 0) n.exponent.natAbs

/-- Numerals of binary64 numbers: the nearest number, and the shortest numeral. -/
instance : NumeralCode Float where
  decode? n :=
    let x := n.nearest
    if x.isFinite then some (if n.negative then -x else x) else none
  encode? x :=
    if x.isFinite then
      let d := Decimal.shortest Decimal.Style.document.tie x
      some ⟨Decimal.isNegative x, d.coefficient, d.exponent, false⟩
    else none

end Numeral

end Annealing
