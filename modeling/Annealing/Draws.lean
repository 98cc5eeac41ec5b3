/-
  Annealing.Draws
  ───────────────
  **COMPUTATIONS THAT DRAW RANDOM WORDS.**

  A `Draws β` asks for 64-bit words one after another and ends with a `β`.  It
  says what is done with the words and not where they come from, so a problem
  written this way can neither rewind nor replace the generator it is lent.  A
  generator is anything that yields a next word; `Draws.run` answers the requests
  from it and returns the generator as it is left.
-/
namespace Annealing

/-! ## §1. Generators -/

/-- A source of random words. -/
class Generator (γ : Type) where
  /-- The next word and the generator after it. -/
  next : γ → UInt64 × γ

/-- A generator of either kind. -/
instance {γ δ : Type} [Generator γ] [Generator δ] : Generator (γ ⊕ δ) where
  next
    | .inl g => let (w, g) := Generator.next g; (w, .inl g)
    | .inr g => let (w, g) := Generator.next g; (w, .inr g)

/-! ## §2. Computations -/

/-- A computation that ends with a `β` after some number of draws. -/
inductive Draws (β : Type) where
  /-- No further word is needed. -/
  | done (value : β)
  /-- Go on with the next word. -/
  | draw (next : UInt64 → Draws β)

namespace Draws

variable {β δ : Type}

/-- Go on with the result of a computation. -/
def bind : Draws β → (β → Draws δ) → Draws δ
  | .done b, f => f b
  | .draw k, f => .draw fun w => (k w).bind f

instance : Monad Draws where
  pure := .done
  bind := bind

/-- One word. -/
def word : Draws UInt64 := .draw .done

/-- Draw `n` words for nothing, then go on. -/
def skip : Nat → Draws β → Draws β
  | 0, rest => rest
  | n + 1, rest => .draw fun _ => skip n rest

/-- Take the words from a generator; returns the generator as it is left. -/
def run {γ : Type} [Generator γ] : Draws β → γ → β × γ
  | .done b, g => (b, g)
  | .draw k, g =>
      let (w, g) := Generator.next g
      (k w).run g

end Draws

end Annealing
