/-
  Annealing.Document
  ──────────────────
  **DOCUMENTS, WHOLE OR BROKEN.**

  A document is a tree of values: null, booleans, numbers, texts, arrays of items
  and objects of members, the latter in the order of the text and with any repeats
  of a key.  Reading never fails: where the text stops being a document, the tree
  says so at that place, and whoever walks the tree from the front meets earlier
  faults first.
-/
import Annealing.Document.Token

namespace Annealing

/-! ## §1. The tree -/

/-- How an array or an object ends. -/
inductive Ending where
  /-- By its closing bracket or brace. -/
  | closed
  /-- Not at all: where it should go on or close, something else stands, or nothing. -/
  | broken
  deriving Repr, DecidableEq

/-- A value in a text.  Texts and keys with half a surrogate pair have no value. -/
inductive Document where
  /-- The value `null`. -/
  | null
  /-- A truth value. -/
  | boolean (b : Bool)
  /-- A number. -/
  | number (n : Numeral)
  /-- A text. -/
  | text (s : Option String)
  /-- An array of items. -/
  | array (items : List Document) (ending : Ending)
  /-- An object of members, each a key and a value. -/
  | object (members : List (Option String × Document)) (ending : Ending)
  /-- No value could be read here. -/
  | broken

instance : Inhabited Document := ⟨.broken⟩

/-- Is the bracket or brace closed? -/
def Ending.isClosed : Ending → Bool
  | .closed => true
  | .broken => false

namespace Document

mutual

/-- Is all of the tree there? -/
def isWhole : Document → Bool
  | .array items ending => itemsWhole items && ending.isClosed
  | .object members ending => membersWhole members && ending.isClosed
  | .broken => false
  | _ => true

/-- Are all items whole? -/
def itemsWhole : List Document → Bool
  | [] => true
  | d :: ds => d.isWhole && itemsWhole ds

/-- Are the values of all members whole? -/
def membersWhole : List (Option String × Document) → Bool
  | [] => true
  | (_, d) :: ms => d.isWhole && membersWhole ms

end

/-! ## §2. Trees from tokens -/

mutual

/-- One value, and the tokens after it. -/
def valueWithin : Nat → List Token → Document × List Token
  | 0, _ => (.broken, [])
  | _ + 1, [] => (.broken, [])
  | fuel + 1, t :: ts =>
    match t with
    | .null => (.null, ts)
    | .boolean b => (.boolean b, ts)
    | .number n => (.number n, ts)
    | .text s => (.text s, ts)
    | .openBracket =>
      match ts with
      | .closeBracket :: ts => (.array [] .closed, ts)
      | ts =>
        let (items, ending, ts) := itemsWithin fuel ts
        (.array items ending, ts)
    | .openBrace =>
      match ts with
      | .closeBrace :: ts => (.object [] .closed, ts)
      | ts =>
        let (members, ending, ts) := membersWithin fuel ts
        (.object members ending, ts)
    | _ => (.broken, [])

/-- The items of an array up to its end, of which there is at least one. -/
def itemsWithin : Nat → List Token → List Document × Ending × List Token
  | 0, _ => ([], .broken, [])
  | fuel + 1, ts =>
    let (d, ts) := valueWithin fuel ts
    match ts with
    | .comma :: ts =>
      let (ds, ending, ts) := itemsWithin fuel ts
      (d :: ds, ending, ts)
    | .closeBracket :: ts => ([d], .closed, ts)
    | _ => ([d], .broken, [])

/-- The members of an object up to its end, of which there is at least one. -/
def membersWithin : Nat → List Token →
    List (Option String × Document) × Ending × List Token
  | fuel + 1, .text key :: .colon :: ts =>
    let (d, ts) := valueWithin fuel ts
    match ts with
    | .comma :: ts =>
      let (ms, ending, ts) := membersWithin fuel ts
      ((key, d) :: ms, ending, ts)
    | .closeBrace :: ts => ([(key, d)], .closed, ts)
    | _ => ([(key, d)], .broken, [])
  | _, .text key :: _ => ([(key, .broken)], .broken, [])
  | _, _ => ([], .broken, [])

end

/-- **The document of a text**, and whether it is all there is in the text.  Each
nested call takes a token or is one that does, so two calls per token suffice. -/
def ofText (text : String) : Document × Bool :=
  let tokens := Token.scan text
  let (d, rest) := valueWithin (2 * tokens.length + 2) tokens
  (d, rest.isEmpty)

end Document

end Annealing
