/-
  Annealing.Proofs.Binary64.Numerals
  ──────────────────────────────────
  **DOUBLES AND THEIR NUMERALS.**

  A finite double is written with its shortest decimal and a sign, and a numeral
  is read as the nearest double if that is finite.  The shortest decimal lies in
  the interval of the double, so it is neither too large nor too small for the
  search of the nearest one, and rounds to the double.  Zeros, which have no
  interval, are told apart by their signs.

    • `nearest_holds` — the nearest double is the rounded number,
    • `decode?_numeral` — a finite double is read back from its numeral,
    • `isFinite_of_decode?` — nothing else is ever read.
-/
import Annealing.Document.Numeral
import Annealing.Proofs.Binary64.Decimals
import Annealing.Proofs.Binary64.Shortest
import Annealing.Proofs.Binary64.Special

namespace Annealing.Binary64

open Float.Model Float.Model.UnpackedFloat

/-! ## §1. The range of doubles -/

/-- Every number in the interval of a finite double is within the range of doubles. -/
theorem Near.bounds {m : Nat} {e : Int} {q : ℚ} (h : Near m e q) (hm : 0 < m)
    (hc : Canonical m e) (he : e ≤ 971) : 2 ^ (-1075 : Int) ≤ q ∧ q < 2 ^ 1024 := by
  constructor
  · have hgap := gapBelow_le m e
    have hone : (1 : ℚ) ≤ m := by exact_mod_cast hm
    calc (2 : ℚ) ^ (-1075 : Int) = (1 - 1 / 2) * 2 ^ (-1074 : Int) := by
          rw [show (-1075 : Int) = -1 + -1074 by norm_num, zpow_add₀ (by norm_num)]
          norm_num
      _ ≤ (m - gapBelow m e) * 2 ^ e := by
        gcongr
        · linarith
        · norm_num
        · exact hc.exponent_ge
      _ ≤ q := h.le
  · calc q < 2 ^ (e + 53) := h.lt_two_zpow hc
      _ ≤ 2 ^ (1024 : Int) := zpow_le_zpow_right₀ (by norm_num) (by omega)
      _ = 2 ^ 1024 := by rw [zpow_ofNat]

/-- The number of decimal digits says between which powers of ten a number lies. -/
theorem length_toString_bounds {n : Nat} (hn : 0 < n) :
    0 < (toString n).length ∧ 10 ^ ((toString n).length - 1) ≤ n
      ∧ n < 10 ^ (toString n).length := by
  have hpos := Nat.length_repr_pos (n := n)
  rw [Nat.toString_eq_repr]
  refine ⟨hpos, ?_, (Nat.length_repr_le_iff hpos).mp le_rfl⟩
  by_cases hone : n.repr.length = 1
  · rw [hone]
    exact hn
  · by_contra hlt
    have hshort : n.repr.length ≤ n.repr.length - 1 :=
      (Nat.length_repr_le_iff (by omega)).mpr (by omega)
    omega

theorem two_pow_lt_ten_pow : (2 : ℚ) ^ 1075 < 10 ^ 351 ∧ (2 : ℚ) ^ 1024 < 10 ^ 310 := by
  constructor
  · exact_mod_cast (by decide +kernel : 2 ^ 1075 < 10 ^ 351)
  · exact_mod_cast (by decide +kernel : 2 ^ 1024 < 10 ^ 310)

/-- **A number within the range of doubles has its first digit where the search looks.** -/
theorem magnitude_bounds {c : Nat} {e : Int} (hc : 0 < c)
    (hlow : 2 ^ (-1075 : Int) ≤ (c * 10 ^ e : ℚ)) (hhigh : (c * 10 ^ e : ℚ) < 2 ^ 1024) :
    -350 ≤ ((toString c).length : Int) + e ∧ ((toString c).length : Int) + e ≤ 310 := by
  obtain ⟨hpos, hfloor, hceil⟩ := length_toString_bounds hc
  set len := (toString c).length
  have hten : (1 : ℚ) ≤ 10 := by norm_num
  constructor
  · by_contra hlt
    refine absurd hlow (not_le.mpr ?_)
    calc (c * 10 ^ e : ℚ) < 10 ^ len * 10 ^ e := by
          gcongr
          exact_mod_cast hceil
      _ = 10 ^ ((len : Int) + e) := by rw [zpow_add₀ (by norm_num), zpow_natCast]
      _ ≤ 10 ^ (-351 : Int) := zpow_le_zpow_right₀ hten (by omega)
      _ < 2 ^ (-1075 : Int) := by
        rw [zpow_neg, zpow_neg, zpow_ofNat, zpow_ofNat]
        exact inv_strictAnti₀ (by positivity) two_pow_lt_ten_pow.1
  · by_contra hgt
    refine absurd hhigh (not_lt.mpr ?_)
    calc (2 : ℚ) ^ 1024 ≤ 10 ^ (310 : Int) := by
          rw [zpow_ofNat]
          exact two_pow_lt_ten_pow.2.le
      _ ≤ 10 ^ (((len - 1 : Nat) : Int) + e) := zpow_le_zpow_right₀ hten (by omega)
      _ = 10 ^ (len - 1) * 10 ^ e := by rw [zpow_add₀ (by norm_num), zpow_natCast]
      _ ≤ c * 10 ^ e := by
        gcongr
        exact_mod_cast hfloor

/-! ## §2. The nearest double -/

/-- **The nearest double to a numeral is its number, rounded.** -/
theorem nearest_holds {n : Numeral} (hc : 0 < n.coefficient)
    (hlow : 2 ^ (-1075 : Int) ≤ (n.coefficient * 10 ^ n.exponent : ℚ))
    (hhigh : (n.coefficient * 10 ^ n.exponent : ℚ) < 2 ^ 1024) :
    ∃ f, parts n.nearest = refit f
      ∧ Holds f .positive (rounded (n.coefficient * 10 ^ n.exponent)) := by
  obtain ⟨hsmall, hlarge⟩ := magnitude_bounds hc hlow hhigh
  obtain ⟨hpos, hfloor, -⟩ := length_toString_bounds hc
  have hnearest : n.nearest
      = Float.ofScientific n.coefficient (n.exponent < 0) n.exponent.natAbs := by
    unfold Numeral.nearest
    simp only
    rw [if_neg, if_neg (not_lt.mpr hlarge)]
    simp only [Bool.or_eq_true, decide_eq_true_eq, not_or]
    exact ⟨hc.ne', not_lt.mpr hsmall⟩
  -- there are at least as many binary as decimal digits
  have hlog : (toString n.coefficient).length - 1 ≤ n.coefficient.log2 :=
    (Nat.le_log2 hc.ne').mpr ((Nat.pow_le_pow_left (by decide) _).trans hfloor)
  rw [hnearest]
  exact ofScientific_holds hc (by omega) (by omega)

/-- A canonical form is determined by the number it stands for. -/
theorem Holds.eq_finite {f : UnpackedFloat} {s : Sign} {m : Nat} {e : Int} (hm : 0 < m)
    (hc : Canonical m e) (h : Holds f s (scaled m e)) : f = .finite s m e hm := by
  obtain ⟨-, hzero⟩ | ⟨m', e', hm', rfl, hc', hval⟩ := h
  · exact absurd hzero (scaled_pos hm e).ne'
  · obtain rfl : e' = e := by rw [← lastPlace_scaled hm' hc', hval, lastPlace_scaled hm hc]
    obtain rfl : m' = m := by
      unfold scaled at hval
      exact_mod_cast mul_right_cancel₀ (by positivity) hval
    rfl

/-! ## §3. The numeral of a double -/

/-- What a finite double stands for without its sign. -/
def absolute (x : Float) : UnpackedFloat :=
  if h : 0 < mantissa x then .finite .positive (mantissa x) (place x) h else .zero .positive

theorem isFinite_absolute (x : Float) : (absolute x).isFinite = true := by
  unfold absolute
  split <;> rfl

/-- With its sign it is the double. -/
theorem parts_eq_absolute {x : Float} (hfinite : x.isFinite = true) :
    parts x = if Decimal.isNegative x then UnpackedFloat.neg (absolute x) else absolute x := by
  unfold absolute
  by_cases hm : 0 < mantissa x
  · rw [parts_of_pos hfinite hm, dif_pos hm]
    unfold signField
    split <;> rfl
  · rw [parts_of_mantissa_eq_zero (by omega), dif_neg hm]
    unfold signField
    split <;> rfl

/-- The numeral that is written for a finite double. -/
def numeral (x : Float) : Numeral :=
  let d := Decimal.shortest Decimal.Style.document.tie x
  ⟨Decimal.isNegative x, d.coefficient, d.exponent, false⟩

theorem encode?_eq (x : Float) :
    NumeralCode.encode? x = if x.isFinite then some (numeral x) else none := rfl

theorem decode?_eq (n : Numeral) :
    (NumeralCode.decode? n : Option Float)
      = if n.nearest.isFinite then some (if n.negative then -n.nearest else n.nearest)
        else none := rfl

/-- **The nearest double to the numeral of a double is the double without its sign.** -/
theorem parts_nearest_numeral {x : Float} (hfinite : x.isFinite = true) :
    parts (numeral x).nearest = absolute x := by
  unfold absolute
  split
  next hm =>
    have hnear : Near (mantissa x) (place x)
        ((numeral x).coefficient * 10 ^ (numeral x).exponent) := shortest_near hm _
    obtain ⟨hlow, hhigh⟩ := hnear.bounds hm (canonical x) (place_le hfinite)
    have hpos : 0 < (numeral x).coefficient := by
      refine Nat.pos_of_ne_zero fun hzero => (hnear.pos hm).ne' ?_
      rw [hzero, Nat.cast_zero, zero_mul]
    obtain ⟨f, hparts, hf⟩ := nearest_holds hpos hlow hhigh
    rw [hnear.rounded_eq hm (canonical x)] at hf
    rw [hparts, hf.eq_finite hm (canonical x), refit_finite _ hm (canonical x),
      if_pos (place_le hfinite)]
  next hm =>
    have hzero : (numeral x).coefficient = 0 :=
      congrArg Decimal.coefficient (shortest_of_mantissa_eq_zero (by omega) _)
    have hnearest : (numeral x).nearest = 0 := by
      unfold Numeral.nearest
      simp only [hzero, decide_true, Bool.true_or, if_true]
    rw [hnearest, parts_zero]

/-! ## §4. There and back -/

/-- Negation changes the sign of a finite double and nothing else. -/
theorem parts_neg_of_isFinite {x : Float} (h : x.isFinite = true) :
    parts (-x) = UnpackedFloat.neg (parts x) := by
  rw [parts_neg]
  by_cases hm : mantissa x = 0
  · rw [parts_of_mantissa_eq_zero hm]
    exact refit_zero _
  · rw [parts_of_pos h (Nat.pos_of_ne_zero hm)]
    exact (refit_finite _ _ (canonical x)).trans (if_pos (place_le h))

theorem isFinite_neg_of_isFinite {x : Float} (h : x.isFinite = true) : (-x).isFinite = true := by
  show (parts (-x)).isFinite = true
  rw [parts_neg_of_isFinite h]
  change (parts x).isFinite = true at h
  generalize parts x = f at h ⊢
  cases f with
  | finite s m e hm => rfl
  | zero s => rfl
  | infinity s => cases h
  | notANumber => cases h

/-- **A finite double is read back from its numeral**, zeros with their sign. -/
theorem decode?_numeral {x : Float} (hfinite : x.isFinite = true) :
    NumeralCode.decode? (numeral x) = some x := by
  have hparts := parts_nearest_numeral hfinite
  have hnearest : (numeral x).nearest.isFinite = true := by
    show (parts (numeral x).nearest).isFinite = true
    rw [hparts]
    exact isFinite_absolute x
  rw [decode?_eq, if_pos hnearest]
  refine congrArg some (parts_injective ?_)
  rw [parts_eq_absolute hfinite, ← hparts]
  show parts (if Decimal.isNegative x then _ else _) = _
  split
  · exact parts_neg_of_isFinite hnearest
  · rfl

/-- **Whatever numeral is read, the double is finite.** -/
theorem isFinite_of_decode? {n : Numeral} {x : Float} (h : NumeralCode.decode? n = some x) :
    x.isFinite = true := by
  rw [decode?_eq] at h
  split at h
  next hnearest =>
    obtain rfl := Option.some.inj h
    split
    · exact isFinite_neg_of_isFinite hnearest
    · exact hnearest
  next => cases h

/-- Only NaN is not equal to itself. -/
theorem beq_self_of_isFinite {x : Float} (h : x.isFinite = true) : (x == x) = true := by
  show (parts x).compare (parts x) == some .eq
  change (parts x).isFinite = true at h
  generalize parts x = f at h ⊢
  cases f with
  | finite s m e hm => cases s <;> simp [UnpackedFloat.compare]
  | zero s => cases s <;> rfl
  | infinity s => cases h
  | notANumber => cases h

end Annealing.Binary64
