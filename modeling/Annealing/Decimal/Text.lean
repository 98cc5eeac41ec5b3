/-
  Annealing.Decimal.Text
  ──────────────────────
  **HOW BINARY64 NUMBERS ARE WRITTEN.**

  A number is written as its shortest decimal, with `-` before it if its sign bit
  is set, zero included.  What is left to decide is gathered in a style: there is
  one for numbers in sentences and one for numbers quoted from documents.  NaN and
  the infinities have names.
-/
import Annealing.Decimal.Shortest

namespace Annealing.Decimal

/-! ## §1. Styles -/

/-- The decisions about a number's text. -/
structure Style where
  /-- Which of two equally near decimals is taken. -/
  tie : Tie
  /-- Does an integral number in positional notation end with `.0`? -/
  showsPoint : Bool
  /-- Is a number positional whose first digit has this place?  If not, it is
  scientific. -/
  isPositional : Int → Bool

namespace Style

/-- Numbers in sentences are always positional, and ties go up. -/
def sentence : Style where
  tie := .up
  showsPoint := false
  isPositional _ := true

/-- Numbers quoted from documents are positional from a hundred thousandth to below
ten quadrillions, show a point there, and ties go to the even digit. -/
def document : Style where
  tie := .even
  showsPoint := true
  isPositional place := -5 ≤ place && place ≤ 15

end Style

/-! ## §2. Texts -/

/-- Is the sign bit set? -/
def isNegative (x : Float) : Bool :=
  x.toBits >>> 63 = 1

/-- The text of a decimal. -/
def write (style : Style) (d : Decimal) : String :=
  if style.isPositional d.leadingPlace then
    d.positional ++ if style.showsPoint && d.isIntegral then ".0" else ""
  else d.scientific

/-- The text of a number. -/
def text (style : Style) (x : Float) : String :=
  if x.isNaN then "NaN"
  else
    let sign := if isNegative x then "-" else ""
    sign ++ if x.isFinite then (shortest style.tie x).write style else "inf"

end Annealing.Decimal
