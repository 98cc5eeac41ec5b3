/-
  Annealing.Document.Token
  ────────────────────────
  **THE TOKENS OF A DOCUMENT.**

  A text is cut into tokens from left to right.  Blanks separate tokens and are
  dropped.  Where no token can be read a single bad token ends the list, so all
  that is before it can still be looked at first.
-/
import Annealing.Document.Numeral
import Annealing.Document.Quoted

namespace Annealing

/-- A token. -/
inductive Token where
  /-- Starts an array. -/
  | openBracket
  /-- Ends an array. -/
  | closeBracket
  /-- Starts an object. -/
  | openBrace
  /-- Ends an object. -/
  | closeBrace
  /-- Separates items and members. -/
  | comma
  /-- Separates a key from its value. -/
  | colon
  /-- The value `null`. -/
  | null
  /-- The value `true` or `false`. -/
  | boolean (b : Bool)
  /-- A number. -/
  | number (n : Numeral)
  /-- A quoted text, if it has a value. -/
  | text (s : Option String)
  /-- Here no token can be read. -/
  | bad
  deriving Repr, DecidableEq

namespace Token

/-- The characters that may stand between tokens. -/
def isBlank (c : Char) : Bool :=
  c = ' ' || c = '\n' || c = '\t' || c = '\r'

/-- The token at the front of a text that does not start with a blank, and what
follows it. -/
def next? : List Char → Option (Token × List Char)
  | '[' :: cs => some (.openBracket, cs)
  | ']' :: cs => some (.closeBracket, cs)
  | '\x7b' :: cs => some (.openBrace, cs)
  | '\x7d' :: cs => some (.closeBrace, cs)
  | ',' :: cs => some (.comma, cs)
  | ':' :: cs => some (.colon, cs)
  | 'n' :: 'u' :: 'l' :: 'l' :: cs => some (.null, cs)
  | 't' :: 'r' :: 'u' :: 'e' :: cs => some (.boolean true, cs)
  | 'f' :: 'a' :: 'l' :: 's' :: 'e' :: cs => some (.boolean false, cs)
  | '"' :: cs => (Quoted.scan cs).map fun (pieces, cs) => (.text (Quoted.text? pieces), cs)
  | cs => (Numeral.scan cs).map fun (n, cs) => (.number n, cs)

/-- The tokens of a text, looking at no more than `fuel` of them. -/
def scanWithin : Nat → List Char → List Token
  | 0, _ => []
  | fuel + 1, cs =>
    match cs.dropWhile isBlank with
    | [] => []
    | cs =>
      match next? cs with
      | none => [.bad]
      | some (token, cs) => token :: scanWithin fuel cs

/-- **The tokens of a text.**  Each takes at least one character. -/
def scan (text : String) : List Token :=
  let cs := text.toList
  scanWithin cs.length cs

end Token

end Annealing
