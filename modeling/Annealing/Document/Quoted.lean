/-
  Annealing.Document.Quoted
  ─────────────────────────
  **QUOTED TEXT IN A DOCUMENT.**

  A quoted text holds characters and escapes up to the closing quote.  Control
  characters must be escaped.  A numeric escape gives a 16-bit unit, and a
  character beyond the first plane is two of them; half of such a pair may be
  written, but it is no character, so a text with one in it has no value.
-/
namespace Annealing.Quoted

/-! ## §1. What stands between the quotes -/

/-- One item of a quoted text. -/
inductive Piece where
  /-- A character, as it is or by its letter escape. -/
  | char (c : Char)
  /-- A 16-bit unit, by its number. -/
  | unit (n : Nat)
  deriving Repr, DecidableEq

/-- The character of a letter escape. -/
def letterEscape? : Char → Option Char
  | '"' => some '"'
  | '\\' => some '\\'
  | '/' => some '/'
  | 'b' => some '\x08'
  | 'f' => some '\x0c'
  | 'n' => some '\n'
  | 'r' => some '\r'
  | 't' => some '\t'
  | _ => none

/-- The value of a hexadecimal digit. -/
def hexDigit? (c : Char) : Option Nat :=
  if '0' ≤ c ∧ c ≤ '9' then some (c.toNat - '0'.toNat)
  else if 'a' ≤ c ∧ c ≤ 'f' then some (c.toNat - 'a'.toNat + 10)
  else if 'A' ≤ c ∧ c ≤ 'F' then some (c.toNat - 'A'.toNat + 10)
  else none

/-- The number that a list of hexadecimal digits is. -/
def hex? (digits : List Char) : Option Nat :=
  digits.foldlM (fun n c => (hexDigit? c).map (16 * n + ·)) 0

/-- The pieces up to the closing quote, and what follows it. -/
def scan : List Char → Option (List Piece × List Char)
  | [] => none
  | '"' :: rest => some ([], rest)
  | '\\' :: 'u' :: a :: b :: c :: d :: rest => do
      let n ← hex? [a, b, c, d]
      let (pieces, rest) ← scan rest
      some (.unit n :: pieces, rest)
  | '\\' :: e :: rest => do
      let c ← letterEscape? e
      let (pieces, rest) ← scan rest
      some (.char c :: pieces, rest)
  | c :: rest =>
      if c < ' ' then none
      else do
        let (pieces, rest) ← scan rest
        some (.char c :: pieces, rest)

/-! ## §2. The text of the pieces -/

/-- Is this the first half of a pair? -/
def isHigh (n : Nat) : Bool := 0xd800 ≤ n && n < 0xdc00

/-- Is this the second half of a pair? -/
def isLow (n : Nat) : Bool := 0xdc00 ≤ n && n < 0xe000

/-- The character of a pair. -/
def pairChar (high low : Nat) : Char :=
  Char.ofNat (0x10000 + (high - 0xd800) * 0x400 + (low - 0xdc00))

/-- The characters of the pieces, unless half of a pair stands alone. -/
def chars? : List Piece → Option (List Char)
  | [] => some []
  | .char c :: rest => (chars? rest).map (c :: ·)
  | .unit n :: rest =>
      if isLow n then none
      else if isHigh n then
        match rest with
        | .unit m :: rest => if isLow m then (chars? rest).map (pairChar n m :: ·) else none
        | _ => none
      else (chars? rest).map (Char.ofNat n :: ·)

/-- The text of the pieces, if it has a value. -/
def text? (pieces : List Piece) : Option String :=
  (chars? pieces).map String.ofList

end Annealing.Quoted
