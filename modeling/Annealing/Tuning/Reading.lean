/-
  Annealing.Tuning.Reading
  ────────────────────────
  **TUNINGS FROM DOCUMENTS.**

  A tuning is read from an object, whose members may come in any order and among
  others that do not matter, or from an array.  The seed may be left out of an
  object.  The tree is walked from the front and the first fault met is reported,
  whether it is a wrong value or a place where the text is broken; a missing
  field shows only when the object is closed.  Nothing is checked beyond the
  form: `Tuning.check` is for the rest.
-/
import Annealing.Decimal.Text
import Annealing.Document
import Annealing.Text.Escaped
import Annealing.Tuning.Field

namespace Annealing

/-! ## §1. Faults -/

/-- What was found in a place. -/
inductive Found (α : Type) where
  /-- The value `null`. -/
  | null
  /-- A truth value. -/
  | boolean (b : Bool)
  /-- A whole number. -/
  | whole (n : Int)
  /-- Any other number. -/
  | scalar (x : α)
  /-- A text. -/
  | text (s : String)
  /-- An array. -/
  | array
  /-- An object. -/
  | object
  deriving Repr

/-- What is wanted in a place. -/
inductive Wanted where
  /-- A number. -/
  | scalar
  /-- A whole number that fits a word. -/
  | word
  /-- The value `null`. -/
  | nothing
  /-- A tuning. -/
  | tuning
  deriving Repr, DecidableEq

/-- Why no tuning can be read. -/
inductive ReadFault (α : Type) where
  /-- The text is no document. -/
  | broken
  /-- A value of the wrong kind. -/
  | wrongKind (found : Found α) (wanted : Wanted)
  /-- A value of the right kind that cannot be used. -/
  | wrongValue (found : Found α) (wanted : Wanted)
  /-- An array with too few items. -/
  | tooShort (items : Nat)
  /-- No schedule has this name. -/
  | unknownSchedule (name : String)
  /-- A field that must be there is not. -/
  | missing (field : Field)
  /-- A field is there twice. -/
  | duplicate (field : Field)
  deriving Repr

/-! ## §2. Messages -/

/-- The name of what was found. -/
def Found.message : Found Float → String
  | .null => "null"
  | .boolean b => "boolean `" ++ toString b ++ "`"
  | .whole n => "integer `" ++ toString n ++ "`"
  | .scalar x => "floating point `" ++ Decimal.text .document x ++ "`"
  | .text s => "string " ++ Escaped.quote s
  | .array => "sequence"
  | .object => "map"

/-- The name of what is wanted. -/
def Wanted.message : Wanted → String
  | .scalar => "f64"
  | .word => "u64"
  | .nothing => "unit"
  | .tuning => "struct SolverConfig"

/-- The message for the caller; a text that is no document has none. -/
def ReadFault.message? : ReadFault Float → Option String
  | .broken => none
  | .wrongKind found wanted =>
      some ("invalid type: " ++ found.message ++ ", expected " ++ wanted.message)
  | .wrongValue found wanted =>
      some ("invalid value: " ++ found.message ++ ", expected " ++ wanted.message)
  | .tooShort n =>
      some ("invalid length " ++ toString n ++ ", expected struct SolverConfig with 4 elements")
  | .unknownSchedule name =>
      some ("unknown variant `" ++ name ++ "`, expected `Exponential` or `Linear`")
  | .missing field => some ("missing field `" ++ field.key ++ "`")
  | .duplicate field => some ("duplicate field `" ++ field.key ++ "`")

/-! ## §3. Single values -/

section
variable {α : Type} [NumeralCode α]

/-- The whole number of a numeral, if it fits a word with or without a sign. -/
def Numeral.word? (n : Numeral) : Option Int :=
  n.toInt?.filter fun i => -0x8000000000000000 ≤ i && i < 0x10000000000000000

/-- What a numeral is found to be, unless it is out of range. -/
def Numeral.found? (n : Numeral) : Option (Found α) :=
  match n.word? with
  | some i => some (.whole i)
  | none => (NumeralCode.decode? n).map .scalar

namespace Document

/-- What a value is found to be, if there is one. -/
def found? : Document → Option (Found α)
  | .null => some .null
  | .boolean b => some (.boolean b)
  | .number n => n.found?
  | .text s => s.map .text
  | .array .. => some .array
  | .object .. => some .object
  | .broken => none

/-- The fault of a value that is not of the wanted kind. -/
def mismatch (d : Document) (wanted : Wanted) : ReadFault α :=
  match (d.found? : Option (Found α)) with
  | some found => .wrongKind found wanted
  | none => .broken

/-- A number. -/
def readScalar (d : Document) : Except (ReadFault α) α :=
  match d with
  | .number n =>
    match NumeralCode.decode? n with
    | some x => .ok x
    | none => .error .broken
  | d => .error (d.mismatch .scalar)

/-- A seed, or `null` for none. -/
def readSeed (d : Document) : Except (ReadFault α) (Option UInt64) :=
  match d with
  | .null => .ok none
  | .number n =>
    match n.word? with
    | some i => if i < 0 then .error (.wrongValue (.whole i) .word) else .ok (some i.toNat.toUInt64)
    | none => .error (d.mismatch .word)
  | d => .error (d.mismatch .word)

/-- The schedule with a name. -/
def readScheduleName : Option String → Except (ReadFault α) (Schedule α)
  | none => .error .broken
  | some name =>
    match Schedule.ofName? name with
    | some schedule => .ok schedule
    | none => .error (.unknownSchedule name)

/-- The value `null`. -/
def readNothing (d : Document) : Except (ReadFault α) Unit :=
  match d with
  | .null => .ok ()
  | d => .error (d.mismatch .nothing)

/-- A schedule: its name, or an object with that key alone and the value `null`. -/
def readSchedule : Document → Except (ReadFault α) (Schedule α)
  | .text name => readScheduleName name
  | .object ((name, value) :: rest) ending => do
      let schedule ← readScheduleName name
      value.readNothing
      if rest.isEmpty && ending.isClosed then .ok schedule else .error .broken
  | _ => .error .broken

end Document

/-! ## §4. Objects -/

/-- The fields read so far. -/
structure Fields (α : Type) where
  /-- The budget. -/
  budget : Option α := none
  /-- The scale. -/
  scale : Option α := none
  /-- The schedule. -/
  schedule : Option (Schedule α) := none
  /-- The seed, which may be none. -/
  seed : Option (Option UInt64) := none

namespace Fields

/-- Has this field been read? -/
def has (fs : Fields α) : Field → Bool
  | .budget => fs.budget.isSome
  | .scale => fs.scale.isSome
  | .schedule => fs.schedule.isSome
  | .seed => fs.seed.isSome

/-- Read the value of a field. -/
def read (fs : Fields α) (field : Field) (d : Document) : Except (ReadFault α) (Fields α) :=
  match field with
  | .budget => d.readScalar.map fun x => { fs with budget := some x }
  | .scale => d.readScalar.map fun x => { fs with scale := some x }
  | .schedule => d.readSchedule.map fun x => { fs with schedule := some x }
  | .seed => d.readSeed.map fun x => { fs with seed := some x }

/-- Read a member.  The value of an unknown key has only to be whole. -/
def readMember (fs : Fields α) (key : Option String) (d : Document) :
    Except (ReadFault α) (Fields α) :=
  match key with
  | none => .error .broken
  | some key =>
    match Field.ofKey? key with
    | none => if d.isWhole then .ok fs else .error .broken
    | some field => if fs.has field then .error (.duplicate field) else fs.read field d

/-- Read members in order. -/
def readMembers (fs : Fields α) :
    List (Option String × Document) → Except (ReadFault α) (Fields α)
  | [] => .ok fs
  | (key, d) :: ms => do
      let fs ← fs.readMember key d
      fs.readMembers ms

/-- The value of a field that must be there. -/
def require {β : Type} (field : Field) : Option β → Except (ReadFault α) β
  | some x => .ok x
  | none => .error (.missing field)

/-- The tuning of the fields, all but the seed of which must be there. -/
def toTuning (fs : Fields α) : Except (ReadFault α) (Tuning α) := do
  let budget ← require .budget fs.budget
  let scale ← require .scale fs.scale
  let schedule ← require .schedule fs.schedule
  .ok { budget, scale, schedule, seed := fs.seed.join }

end Fields

/-! ## §5. Tunings -/

namespace Tuning

/-- The first fault of a list of items that are too few. -/
def tooFew (items : List Document) (ending : Ending) : ReadFault α :=
  if ending.isClosed then .tooShort items.length else .broken

/-- A tuning from the four items of an array. -/
def readItems (items : List Document) (ending : Ending) : Except (ReadFault α) (Tuning α) :=
  match items with
  | [] => .error (tooFew items ending)
  | budget :: rest => do
    let budget ← budget.readScalar
    match rest with
    | [] => .error (tooFew items ending)
    | scale :: rest => do
      let scale ← scale.readScalar
      match rest with
      | [] => .error (tooFew items ending)
      | schedule :: rest => do
        let schedule ← schedule.readSchedule
        match rest with
        | [] => .error (tooFew items ending)
        | seed :: rest => do
          let seed ← seed.readSeed
          if rest.isEmpty && ending.isClosed then .ok { budget, scale, schedule, seed }
          else .error .broken

/-- **A tuning from a document.** -/
def ofDocument (d : Document) : Except (ReadFault α) (Tuning α) :=
  match d with
  | .object members ending => do
      let fields ← ({} : Fields α).readMembers members
      if ending.isClosed then fields.toTuning else .error .broken
  | .array items ending => readItems items ending
  | d => .error (d.mismatch .tuning)

/-- A tuning from a text, in which nothing follows the document. -/
def ofText (text : String) : Except (ReadFault α) (Tuning α) := do
  let (d, isAll) := Document.ofText text
  let tuning ← ofDocument d
  if isAll then .ok tuning else .error .broken

end Tuning

end

end Annealing
