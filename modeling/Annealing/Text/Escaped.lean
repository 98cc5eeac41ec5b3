/-
  Annealing.Text.Escaped
  ──────────────────────
  **TEXT SHOWN BETWEEN QUOTES.**

  A message that quotes a text shows every character of it: quotes and backslashes
  are escaped, and a character that does not show on its own is given by a letter
  or by its number.
-/
import Annealing.Text.Hidden

namespace Annealing.Escaped

/-- The digits of a number to base sixteen. -/
def hex (n : Nat) : List Char :=
  Nat.toDigits 16 n

/-- How one character is shown. -/
def escape (c : Char) : List Char :=
  if c = '"' || c = '\\' then ['\\', c]
  else if c = '\x00' then ['\\', '0']
  else if c = '\t' then ['\\', 't']
  else if c = '\n' then ['\\', 'n']
  else if c = '\r' then ['\\', 'r']
  else if Text.isHidden c then ['\\', 'u', '\x7b'] ++ hex c.toNat ++ ['\x7d']
  else [c]

/-- The text between quotes. -/
def quote (text : String) : String :=
  String.ofList ('"' :: text.toList.flatMap escape ++ ['"'])

end Annealing.Escaped
