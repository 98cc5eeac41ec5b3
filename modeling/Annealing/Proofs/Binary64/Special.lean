/-
  Annealing.Proofs.Binary64.Special
  ─────────────────────────────────
  **SIGNS, INFINITIES AND NaN.**

  Two things are followed through a computation.  `HasSign` says that a double is
  NaN or has a given sign: products, quotients and negations have the sign one
  expects, and sums of positive doubles are positive.  And a double that is not
  finite stays so in every product, sum and quotient it is taken into.  A `Sunk`
  double is NaN or negative infinity.
-/
import Annealing.Proofs.Binary64.Order

namespace Annealing.Binary64

open Float.Model Float.Model.UnpackedFloat

/-! ## §1. Doubles with a sign -/

theorem parts_zero : parts 0 = .zero .positive := rfl

/-- The double is NaN or has this sign. -/
def HasSign (s : Sign) (x : Float) : Prop :=
  ∀ t, signOf (parts x) = some t → t = s

theorem signOf_roundWithAccuracy (s : Sign) (m : Nat) (e : Int) (acc : Accuracy) :
    signOf (roundWithAccuracy Format.binary64 s m e acc) = some s := by
  unfold roundWithAccuracy
  simp only
  split <;> rfl

theorem signOf_normalize {m : Int} (hm : 0 ≤ m) (e : Int) :
    signOf (UnpackedFloat.normalize Format.binary64 m e .positive) = some .positive := by
  unfold UnpackedFloat.normalize
  rcases hm.lt_or_eq with hlt | rfl
  · rw [Int.compare_eq_gt.mpr hlt]
    exact signOf_roundWithAccuracy _ _ _ _
  · rfl

theorem signOf_mul (a b : UnpackedFloat) :
    signOf (UnpackedFloat.mul Format.binary64 a b) = none
      ∨ ∃ s t, signOf a = some s ∧ signOf b = some t
        ∧ signOf (UnpackedFloat.mul Format.binary64 a b) = some (s * t) := by
  cases a <;> cases b
  all_goals first
    | exact .inl rfl
    | exact .inr ⟨_, _, rfl, rfl, rfl⟩
    | exact .inr ⟨_, _, rfl, rfl, signOf_roundWithAccuracy _ _ _ _⟩

theorem signOf_div (a b : UnpackedFloat) :
    signOf (UnpackedFloat.div Format.binary64 a b) = none
      ∨ ∃ s t, signOf a = some s ∧ signOf b = some t
        ∧ signOf (UnpackedFloat.div Format.binary64 a b) = some (s / t) := by
  cases a <;> cases b
  all_goals first
    | exact .inl rfl
    | exact .inr ⟨_, _, rfl, rfl, rfl⟩
    | exact .inr ⟨_, _, rfl, rfl, signOf_roundWithAccuracy _ _ _ _⟩

/-- A sum of what is positive is positive. -/
theorem signOf_add {a b : UnpackedFloat} (ha : ∀ s, signOf a = some s → s = .positive)
    (hb : ∀ s, signOf b = some s → s = .positive) :
    ∀ s, signOf (UnpackedFloat.add Format.binary64 a b) = some s → s = .positive := by
  intro s hs
  rcases a with s₁ | _ | s₁ | ⟨s₁, m₁, e₁, h₁⟩ <;> rcases b with s₂ | _ | s₂ | ⟨s₂, m₂, e₂, h₂⟩
  case finite.finite =>
    obtain rfl : s₁ = .positive := ha _ rfl
    obtain rfl : s₂ = .positive := hb _ rfl
    have h : signOf (UnpackedFloat.add Format.binary64 (.finite .positive m₁ e₁ h₁)
        (.finite .positive m₂ e₂ h₂)) = some .positive :=
      signOf_normalize (add_nonneg (Int.natCast_nonneg _) (Int.natCast_nonneg _)) _
    rw [h] at hs
    exact (Option.some.inj hs).symm
  case infinity.infinity =>
    obtain rfl : s₁ = .positive := ha _ rfl
    obtain rfl : s₂ = .positive := hb _ rfl
    exact (Option.some.inj hs).symm
  case zero.zero =>
    obtain rfl : s₁ = .positive := ha _ rfl
    obtain rfl : s₂ = .positive := hb _ rfl
    exact (Option.some.inj hs).symm
  all_goals first
    | exact ha s hs
    | exact hb s hs

/-- The difference of a positive number and one that is not larger is positive. -/
theorem signOf_sub {m₁ m₂ : Nat} {e₁ e₂ : Int} (h₁ : 0 < m₁) (h₂ : 0 < m₂)
    (h : scaled m₂ e₂ ≤ scaled m₁ e₁) :
    signOf (UnpackedFloat.sub Format.binary64 (.finite .positive m₁ e₁ h₁)
      (.finite .positive m₂ e₂ h₂)) = some .positive := by
  -- with one exponent for both, the mantissas are in order
  have hle : m₂ <<< (e₂ - min e₁ e₂).toNat ≤ m₁ <<< (e₁ - min e₁ e₂).toNat := by
    rw [← scaled_shiftLeft m₁ (e₁ - min e₁ e₂).toNat, ← scaled_shiftLeft m₂ (e₂ - min e₁ e₂).toNat,
      show e₁ - ((e₁ - min e₁ e₂).toNat : Int) = min e₁ e₂ by omega,
      show e₂ - ((e₂ - min e₁ e₂).toNat : Int) = min e₁ e₂ by omega] at h
    unfold scaled at h
    exact_mod_cast le_of_mul_le_mul_right h (by positivity)
  exact signOf_normalize (sub_nonneg.mpr (Int.ofNat_le.mpr hle)) _

namespace HasSign

variable {s t : Sign} {x y : Float}

theorem mul (hx : HasSign s x) (hy : HasSign t y) : HasSign (s * t) (x * y) := by
  intro u hu
  rw [parts_mul, signOf_refit] at hu
  rcases signOf_mul (parts x) (parts y) with h | ⟨a, b, ha, hb, h⟩
  · rw [h] at hu
    cases hu
  · rw [h, hx a ha, hy b hb] at hu
    exact (Option.some.inj hu).symm

theorem div (hx : HasSign s x) (hy : HasSign t y) : HasSign (s / t) (x / y) := by
  intro u hu
  rw [parts_div, signOf_refit] at hu
  rcases signOf_div (parts x) (parts y) with h | ⟨a, b, ha, hb, h⟩
  · rw [h] at hu
    cases hu
  · rw [h, hx a ha, hy b hb] at hu
    exact (Option.some.inj hu).symm

theorem neg (hx : HasSign s x) : HasSign (-s) (-x) := by
  intro u hu
  rw [parts_neg, signOf_refit] at hu
  unfold HasSign at hx
  generalize parts x = a at hx hu
  cases a with
  | notANumber => cases hu
  | infinity t => exact hx t rfl ▸ (Option.some.inj hu).symm
  | zero t => exact hx t rfl ▸ (Option.some.inj hu).symm
  | finite t m e hm => exact hx t rfl ▸ (Option.some.inj hu).symm

theorem add (hx : HasSign .positive x) (hy : HasSign .positive y) :
    HasSign .positive (x + y) := by
  intro u hu
  rw [parts_add, signOf_refit] at hu
  exact signOf_add hx hy u hu

/-! ## §2. Comparison -/

end HasSign

theorem parts_of_isNaN {x : Float} (h : x.isNaN = true) : parts x = .notANumber := by
  change (parts x).isNaN = true at h
  generalize parts x = a at h ⊢
  cases a with
  | notANumber => rfl
  | _ => cases h

theorem not_le_of_isNaN {x y : Float} (hx : x.isNaN = true) : ¬ x ≤ y := by
  rw [le_iff, parts_of_isNaN hx]
  exact Bool.false_ne_true

theorem not_lt_of_isNaN_left {x y : Float} (hx : x.isNaN = true) : ¬ x < y := by
  rw [lt_iff, parts_of_isNaN hx]
  exact Bool.false_ne_true

theorem not_lt_of_isNaN {x y : Float} (hy : y.isNaN = true) : ¬ x < y := by
  rw [lt_iff, parts_of_isNaN hy]
  cases parts x <;> exact Bool.false_ne_true

/-- **What the sign of a double says about its comparison with zero.** -/
theorem sign_cases (x : Float) :
    x.isNaN = true
      ∨ signOf (parts x) = some .positive ∧ 0 ≤ x ∧ ¬ x < 0
      ∨ signOf (parts x) = some .negative ∧ x ≤ 0 ∧ ¬ 0 < x := by
  rw [le_iff, le_iff, lt_iff, lt_iff, parts_zero]
  show (parts x).isNaN = true ∨ _
  rcases parts x with (_ | _) | _ | (_ | _) | ⟨(_ | _), m, e, hm⟩
  case notANumber => exact .inl rfl
  case infinity.positive => exact .inr (.inl ⟨rfl, rfl, Bool.false_ne_true⟩)
  case zero.positive => exact .inr (.inl ⟨rfl, rfl, Bool.false_ne_true⟩)
  case finite.positive => exact .inr (.inl ⟨rfl, rfl, Bool.false_ne_true⟩)
  all_goals exact .inr (.inr ⟨rfl, rfl, Bool.false_ne_true⟩)

namespace HasSign

variable {s : Sign} {x : Float}

theorem of_signOf (h : signOf (parts x) = some s) : HasSign s x := by
  intro t ht
  rw [h] at ht
  exact (Option.some.inj ht).symm

theorem of_isNaN (h : x.isNaN = true) : HasSign s x := by
  intro t ht
  rw [parts_of_isNaN h] at ht
  cases ht

theorem of_not_le_zero (h : ¬ x ≤ 0) : HasSign .positive x := by
  rcases sign_cases x with hnan | ⟨hsign, -, -⟩ | ⟨-, hle, -⟩
  · exact of_isNaN hnan
  · exact of_signOf hsign
  · exact absurd hle h

theorem of_zero_lt (h : 0 < x) : HasSign .positive x := by
  rcases sign_cases x with hnan | ⟨hsign, -, -⟩ | ⟨-, -, hlt⟩
  · exact of_isNaN hnan
  · exact of_signOf hsign
  · exact absurd h hlt

theorem of_lt_zero (h : x < 0) : HasSign .negative x := by
  rcases sign_cases x with hnan | ⟨-, -, hlt⟩ | ⟨hsign, -, -⟩
  · exact of_isNaN hnan
  · exact absurd h hlt
  · exact of_signOf hsign

theorem isNaN_or_zero_le (h : HasSign .positive x) : x.isNaN = true ∨ 0 ≤ x := by
  rcases sign_cases x with hnan | ⟨-, hle, -⟩ | ⟨hsign, -, -⟩
  · exact .inl hnan
  · exact .inr hle
  · cases h _ hsign

theorem isNaN_or_le_zero (h : HasSign .negative x) : x.isNaN = true ∨ x ≤ 0 := by
  rcases sign_cases x with hnan | ⟨hsign, -, -⟩ | ⟨-, hle, -⟩
  · exact .inl hnan
  · cases h _ hsign
  · exact .inr hle

theorem not_lt_zero (h : HasSign .positive x) : ¬ x < 0 := by
  rcases sign_cases x with hnan | ⟨-, -, hlt⟩ | ⟨hsign, -, -⟩
  · exact not_lt_of_isNaN_left hnan
  · exact hlt
  · cases h _ hsign

end HasSign

/-! ## §3. Counts and shares -/

theorem hasSign_zero : HasSign .positive 0 := .of_signOf rfl

theorem hasSign_one : HasSign .positive 1 := .of_signOf rfl

theorem hasSign_toFloat (n : UInt64) : HasSign .positive n.toFloat := by
  refine .of_signOf ?_
  rw [parts_toFloat, signOf_refit]
  exact signOf_normalize (Int.natCast_nonneg _) _

/-- A count other than zero is a positive scalar. -/
theorem toFloat_pos {n : UInt64} (hn : n ≠ 0) : 0 < n.toFloat := by
  obtain ⟨m, e, hm, hparts, -, -⟩ := exists_parts_toFloat hn
  rw [lt_iff, parts_zero, hparts]
  rfl

/-- What the share of one in a count leaves is not negative. -/
theorem hasSign_one_sub_one_div {n : UInt64} (hn : n ≠ 0) :
    HasSign .positive (1 - 1 / n.toFloat) := by
  refine .of_signOf ?_
  obtain ⟨v, hv, hzero | ⟨m, e, hm, hparts, -, hval⟩⟩ := one_div_holds hn
  · rw [parts_sub, hzero.1, parts_one, signOf_refit]
    rfl
  · have hle : scaled m e ≤ scaled (2 ^ 52) (-52) := by
      rw [hval, show scaled (2 ^ 52) (-52) = 1 by unfold scaled; norm_num]
      exact hv
    rw [parts_sub, hparts, parts_one, signOf_refit, signOf_sub _ _ hle]

/-- The share of one in no count is infinite. -/
theorem parts_one_div_zero : parts (1 / (0 : UInt64).toFloat) = .infinity .positive := rfl

theorem parts_one_sub_one_div_zero :
    parts (1 - 1 / (0 : UInt64).toFloat) = .infinity .negative := rfl

/-! ## §4. Doubles that are not finite -/

theorem parts_of_isFinite {x : Float} (h : x.isFinite = false) :
    parts x = .notANumber ∨ ∃ s, parts x = .infinity s := by
  change (parts x).isFinite = false at h
  generalize parts x = a at h ⊢
  cases a with
  | notANumber => exact .inl rfl
  | infinity s => exact .inr ⟨s, rfl⟩
  | zero s => cases h
  | finite s m e hm => cases h

theorem isFinite_of_isNaN {x : Float} (h : x.isNaN = true) : x.isFinite = false := by
  show (parts x).isFinite = false
  rw [parts_of_isNaN h]
  rfl

theorem isFinite_refit {f : UnpackedFloat} (h : f.isFinite = false) :
    (refit f).isFinite = false := by
  cases f with
  | notANumber => rw [refit_notANumber]; rfl
  | infinity s => rw [refit_infinity]; rfl
  | zero s => cases h
  | finite s m e hm => cases h

theorem isFinite_neg {x : Float} (hx : x.isFinite = false) : (-x).isFinite = false := by
  refine isFinite_refit (f := UnpackedFloat.neg (parts x)) ?_
  rcases parts_of_isFinite hx with h | ⟨s, h⟩ <;> rw [h] <;> rfl

/-- **A product with a factor that is not finite is not finite**: zero times infinity is NaN. -/
theorem isFinite_mul_left {x : Float} (hx : x.isFinite = false) (y : Float) :
    (x * y).isFinite = false := by
  refine isFinite_refit (f := UnpackedFloat.mul Format.binary64 (parts x) (parts y)) ?_
  rcases parts_of_isFinite hx with h | ⟨s, h⟩ <;> rw [h] <;> cases parts y <;> rfl

theorem isFinite_mul_right (x : Float) {y : Float} (hy : y.isFinite = false) :
    (x * y).isFinite = false := by
  refine isFinite_refit (f := UnpackedFloat.mul Format.binary64 (parts x) (parts y)) ?_
  rcases parts_of_isFinite hy with h | ⟨s, h⟩ <;> rw [h] <;> cases parts x <;> rfl

theorem isFinite_div_left {x : Float} (hx : x.isFinite = false) (y : Float) :
    (x / y).isFinite = false := by
  refine isFinite_refit (f := UnpackedFloat.div Format.binary64 (parts x) (parts y)) ?_
  rcases parts_of_isFinite hx with h | ⟨s, h⟩ <;> rw [h] <;> cases parts y <;> rfl

theorem isFinite_add_right (x : Float) {y : Float} (hy : y.isFinite = false) :
    (x + y).isFinite = false := by
  refine isFinite_refit (f := UnpackedFloat.add Format.binary64 (parts x) (parts y)) ?_
  -- of two infinities the sum depends on the signs
  rcases parts_of_isFinite hy with h | ⟨_ | _, h⟩ <;> rw [h] <;>
    rcases parts x with (_ | _) | _ | _ | _ <;> rfl

/-- The sum of infinities of opposite sign is NaN. -/
theorem isNaN_add {x y : Float} (hx : HasSign .positive x) (hfx : x.isFinite = false)
    (hy : HasSign .negative y) (hfy : y.isFinite = false) : (x + y).isNaN = true := by
  show (refit (UnpackedFloat.add Format.binary64 (parts x) (parts y))).isNaN = true
  rcases parts_of_isFinite hfx with hpx | ⟨s, hpx⟩
  · rw [hpx]
    exact congrArg UnpackedFloat.isNaN refit_notANumber
  · obtain rfl : s = .positive := hx s (by rw [hpx]; rfl)
    rcases parts_of_isFinite hfy with hpy | ⟨t, hpy⟩
    · rw [hpx, hpy]
      exact congrArg UnpackedFloat.isNaN refit_notANumber
    · obtain rfl : t = .negative := hy t (by rw [hpy]; rfl)
      rw [hpx, hpy]
      exact congrArg UnpackedFloat.isNaN refit_notANumber

/-! ## §5. NaN and the infinities -/

theorem isFinite_infinity : (1 / 0 : Float).isFinite = false := rfl

theorem not_infinity_le_zero : ¬ (1 / 0 : Float) ≤ 0 := by
  rw [le_iff]
  exact Bool.false_ne_true

/-- The double is NaN or negative infinity. -/
def Sunk (x : Float) : Prop := HasSign .negative x ∧ x.isFinite = false

theorem Sunk.isNaN_or_lt_zero {x : Float} (h : Sunk x) : x.isNaN = true ∨ x < 0 := by
  obtain ⟨hsign, hfinite⟩ := h
  show (parts x).isNaN = true ∨ _
  rw [lt_iff]
  rcases parts_of_isFinite hfinite with hparts | ⟨s, hparts⟩
  · rw [hparts]
    exact .inl rfl
  · obtain rfl : s = .negative := hsign s (by rw [hparts]; rfl)
    rw [hparts]
    exact .inr rfl

end Annealing.Binary64
