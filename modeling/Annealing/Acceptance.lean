/-
  Annealing.Acceptance
  ────────────────────
  **WHICH MOVES ARE TAKEN.**

  A move that does not worsen the cost is taken.  A worse one is taken with
  probability `exp (-k * delta / temperature)` while the temperature is positive,
  and refused otherwise.  The scale `k` is the tuning's if that is positive; if
  not, it is the estimate, into which the difference is folded first as long as
  the learning window lasts.  The judgement uses no random word: it says what the
  word will decide, so what is learned does not depend on the draw.
-/
import Annealing.Draws
import Annealing.ScaleEstimate
import Annealing.Tuning

namespace Annealing

/-! ## §1. Verdicts -/

/-- What becomes of a proposal. -/
inductive Verdict (α : Type) where
  /-- It is taken. -/
  | taken
  /-- It is refused. -/
  | refused
  /-- It is taken with this probability. -/
  | chance (probability : α)
  deriving Repr, DecidableEq

namespace Verdict

variable {α γ : Type} [Scalar α] [Generator γ]

/-- Is the proposal taken?  A chance costs one word, and nothing else does. -/
def settle : Verdict α → γ → Bool × γ
  | .taken, g => (true, g)
  | .refused, g => (false, g)
  | .chance p, g =>
      let (w, g) := Generator.next g
      (Scalar.uniform w < p, g)

end Verdict

/-! ## §2. Judging a cost difference -/

namespace Tuning

variable {α : Type} [Scalar α]

/-- The scale in force for a worsening `delta`, and the estimate after it. -/
def scaleFor (t : Tuning α) (iteration : UInt64) (e : ScaleEstimate α) (delta : α) :
    α × ScaleEstimate α :=
  if t.hasScale then (t.scale, e)
  else
    let e := if t.inLearningWindow iteration then e.fold delta else e
    (e.mean, e)

/-- The probability that a worsening `delta` is accepted. -/
def acceptance (scale delta temperature : α) : α :=
  Scalar.exp (-scale * delta / temperature)

/-- **The judgement** of a cost difference, and the estimate after it. -/
def judge (t : Tuning α) (iteration : UInt64) (e : ScaleEstimate α) (delta : α) :
    Verdict α × ScaleEstimate α :=
  if delta ≤ 0 then (.taken, e)
  else
    let temperature := t.temperature iteration
    if 0 < temperature then
      let (scale, e) := t.scaleFor iteration e delta
      (.chance (acceptance scale delta temperature), e)
    else (.refused, e)

end Tuning

end Annealing
