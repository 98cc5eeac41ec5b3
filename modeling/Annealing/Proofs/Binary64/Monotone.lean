/-
  Annealing.Proofs.Binary64.Monotone
  ──────────────────────────────────
  **ROUNDED OPERATIONS KEEP THE ORDER.**

  A finite double stands for a number with a sign, and an operation on finite
  doubles rounds the exact result.  Rounding keeps the order of numbers, so exact
  results in order are doubles in order, also if they are too large and become
  infinite.  An infinite argument gives an infinite result, at the end of the
  order where it belongs.

    • `StandsFor.le_iff` — doubles are in order as the numbers they stand for,
    • `StandsFor.refit_le_refit` — so are results when they are stored,
    • `div_mono`, `mul_mono`, `sub_anti` — quotients, products and differences.
-/
import Annealing.Proofs.Binary64.Numerals
import Annealing.Proofs.Binary64.Special

namespace Annealing.Binary64

open Float.Model Float.Model.UnpackedFloat

/-! ## §1. Numbers with a sign -/

/-- The number of this size and sign. -/
def signed : Sign → ℚ → ℚ
  | .positive, v => v
  | .negative, v => -v

theorem signed_mul (s t : Sign) (v w : ℚ) : signed (s * t) (v * w) = signed s v * signed t w := by
  cases s <;> cases t
  · exact (neg_mul_neg v w).symm
  · exact (neg_mul v w).symm
  · exact (mul_neg v w).symm
  · rfl

theorem signed_div (s t : Sign) (v w : ℚ) : signed (s / t) (v / w) = signed s v / signed t w := by
  cases s <;> cases t
  · exact (neg_div_neg_eq v w).symm
  · exact (neg_div w v).symm
  · exact (div_neg v).symm
  · rfl

theorem rounded_zero : rounded 0 = 0 := by
  unfold rounded
  rw [zero_div, show nearest 0 = 0 from nearest_natCast 0]
  unfold scaled
  rw [Nat.cast_zero, zero_mul]

theorem rounded_nonneg (v : ℚ) : 0 ≤ rounded v := by
  unfold rounded scaled
  positivity

theorem rounded_le_rounded {v w : ℚ} (hv : 0 ≤ v) (h : v ≤ w) : rounded v ≤ rounded w := by
  rcases hv.eq_or_lt with rfl | hpos
  · rw [rounded_zero]
    exact rounded_nonneg w
  · exact rounded_mono hpos h

/-- **The double nearest to a number of either sign**, as a number. -/
def roundedSigned (v : ℚ) : ℚ :=
  if 0 ≤ v then rounded v else -rounded (-v)

theorem roundedSigned_signed (s : Sign) {v : ℚ} (hv : 0 ≤ v) :
    roundedSigned (signed s v) = signed s (rounded v) := by
  unfold roundedSigned
  cases s with
  | positive => exact if_pos hv
  | negative =>
      rcases hv.eq_or_lt with rfl | hpos
      · rw [if_pos (by show (0 : ℚ) ≤ -0; norm_num)]
        show rounded (-0) = -rounded 0
        rw [neg_zero, rounded_zero, neg_zero]
      · rw [if_neg (by show ¬ (0 : ℚ) ≤ -v; linarith)]
        show -rounded (- -v) = -rounded v
        rw [neg_neg]

/-- **Rounding keeps the order of numbers of either sign.** -/
theorem roundedSigned_mono {v w : ℚ} (h : v ≤ w) : roundedSigned v ≤ roundedSigned w := by
  unfold roundedSigned
  by_cases hv : 0 ≤ v
  · rw [if_pos hv, if_pos (hv.trans h)]
    exact rounded_le_rounded hv h
  · rw [if_neg hv]
    by_cases hw : 0 ≤ w
    · rw [if_pos hw]
      exact (neg_nonpos.mpr (rounded_nonneg _)).trans (rounded_nonneg w)
    · rw [if_neg hw]
      exact neg_le_neg (rounded_le_rounded (by linarith) (neg_le_neg h))

/-! ## §2. What a result stands for -/

/-- A result that is finite stands for this number, in canonical form. -/
def StandsFor (f : UnpackedFloat) (v : ℚ) : Prop :=
  ∃ s u, signed s u = v ∧ Holds f s u

/-- A result that is a number of one sign, rounded, stands for the number, rounded. -/
theorem Holds.standsFor {f : UnpackedFloat} {s : Sign} {u : ℚ} (h : Holds f s (rounded u))
    (hu : 0 ≤ u) : StandsFor f (roundedSigned (signed s u)) :=
  ⟨s, rounded u, (roundedSigned_signed s hu).symm, h⟩

theorem standsFor_zero (s : Sign) : StandsFor (.zero s) 0 := by
  refine ⟨s, 0, ?_, .inl ⟨rfl, rfl⟩⟩
  cases s
  · exact neg_zero
  · rfl

/-- A canonical form stands for the number that its digits make. -/
theorem standsFor_finite (s : Sign) {m : Nat} {e : Int} (hm : 0 < m) (hc : Canonical m e) :
    StandsFor (.finite s m e hm) (signed s (scaled m e)) :=
  ⟨s, scaled m e, rfl, .inr ⟨m, e, hm, rfl, hc, rfl⟩⟩

theorem StandsFor.cases {f : UnpackedFloat} {v : ℚ} (h : StandsFor f v) :
    (∃ s, f = .zero s ∧ v = 0)
      ∨ ∃ s m e hm, f = .finite s m e hm ∧ Canonical m e ∧ v = signed s (scaled m e) := by
  obtain ⟨s, u, rfl, ⟨rfl, rfl⟩ | ⟨m, e, hm, rfl, hc, rfl⟩⟩ := h
  · refine .inl ⟨s, rfl, ?_⟩
    cases s
    · exact neg_zero
    · rfl
  · exact .inr ⟨s, m, e, hm, rfl, hc, rfl⟩

/-- **Every finite double stands for a number.** -/
theorem exists_standsFor {x : Float} (h : x.isFinite = true) : ∃ v, StandsFor (parts x) v := by
  by_cases hm : 0 < mantissa x
  · rw [parts_of_pos h hm]
    exact ⟨_, standsFor_finite _ hm (canonical x)⟩
  · rw [parts_of_mantissa_eq_zero (by omega)]
    exact ⟨0, standsFor_zero _⟩

/-- What a double stands for is not rounded. -/
theorem StandsFor.roundedSigned_eq {f : UnpackedFloat} {v : ℚ} (h : StandsFor f v) :
    roundedSigned v = v := by
  obtain ⟨s, rfl, rfl⟩ | ⟨s, m, e, hm, rfl, hc, rfl⟩ := h.cases
  · exact (if_pos le_rfl).trans rounded_zero
  · rw [roundedSigned_signed s (scaled_pos hm e).le, rounded_scaled hm hc]

/-! ## §3. The order -/

theorem scaled_le_of_compare {m m' : Nat} {e e' : Int} (hc : Canonical m e) (hc' : Canonical m' e')
    (h : e < e' ∨ e = e' ∧ m ≤ m') : scaled m e ≤ scaled m' e' := by
  rcases h with hlt | ⟨rfl, hle⟩
  · have hbig : 2 ^ 52 ≤ m' := hc'.normal.resolve_right fun he => by
      have := hc.exponent_ge
      omega
    exact (scaled_lt_of_lt hc.mantissa_lt hbig hlt).le
  · unfold scaled
    gcongr

/-- On canonical forms, the order of positive doubles is that of the numbers. -/
theorem le_iff_scaled_le {m m' : Nat} {e e' : Int} (hm : 0 < m) (hm' : 0 < m')
    (hc : Canonical m e) (hc' : Canonical m' e') :
    UnpackedFloat.le (.finite .positive m e hm) (.finite .positive m' e' hm') = true
      ↔ scaled m e ≤ scaled m' e' :=
  ⟨fun h => scaled_le_of_compare hc hc' ((compare_then_isLE e e' m m').mp h),
    le_of_scaled_le hm hm' hc hc'⟩

/-- Among negative numbers the order is reversed. -/
theorem le_negative_iff {m m' : Nat} {e e' : Int} (hm : 0 < m) (hm' : 0 < m') :
    UnpackedFloat.le (.finite .negative m e hm) (.finite .negative m' e' hm')
      = UnpackedFloat.le (.finite .positive m' e' hm') (.finite .positive m e hm) := by
  rw [Bool.eq_iff_iff, le_iff_rank, le_iff_rank]
  simp only [rank, Prod.Lex.toLex_le_toLex]
  simp [eq_comm]

/-- **Finite doubles are in order as the numbers they stand for.** -/
theorem StandsFor.le_iff {f g : UnpackedFloat} {v w : ℚ} (hf : StandsFor f v)
    (hg : StandsFor g w) : f.le g = true ↔ v ≤ w := by
  obtain ⟨s, rfl, rfl⟩ | ⟨s, m, e, hm, rfl, hc, rfl⟩ := hf.cases <;>
    obtain ⟨t, rfl, rfl⟩ | ⟨t, m', e', hm', rfl, hc', rfl⟩ := hg.cases
  · exact iff_of_true rfl le_rfl
  · have hpos := scaled_pos hm' e'
    cases t with
    | positive => exact iff_of_true rfl hpos.le
    | negative => exact iff_of_false Bool.false_ne_true (by show ¬ (0 : ℚ) ≤ -_; linarith)
  · have hpos := scaled_pos hm e
    cases s with
    | positive => exact iff_of_false Bool.false_ne_true hpos.not_ge
    | negative => exact iff_of_true rfl (by show -_ ≤ (0 : ℚ); linarith)
  · have hpos := scaled_pos hm e
    have hpos' := scaled_pos hm' e'
    cases s <;> cases t
    · rw [le_negative_iff, le_iff_scaled_le hm' hm hc' hc]
      exact neg_le_neg_iff.symm
    · exact iff_of_true rfl (by show -_ ≤ scaled m' e'; linarith)
    · exact iff_of_false Bool.false_ne_true (by show ¬ scaled m e ≤ -_; linarith)
    · exact le_iff_scaled_le hm hm' hc hc'

/-- The least number that is too large for a double. -/
def ceiling : ℚ := scaled (2 ^ 52) 972

theorem ceiling_pos : 0 < ceiling := scaled_pos (by decide) 972

theorem abs_signed (s : Sign) {v : ℚ} (hv : 0 ≤ v) : |signed s v| = v := by
  cases s
  · exact (abs_neg v).trans (abs_of_nonneg hv)
  · exact abs_of_nonneg hv

/-- **Storing a result** keeps it, or makes it infinite if it is too large. -/
theorem StandsFor.refit_cases {f : UnpackedFloat} {v : ℚ} (h : StandsFor f v) :
    refit f = f ∧ |v| < ceiling ∨ refit f = .infinity .positive ∧ ceiling ≤ v
      ∨ refit f = .infinity .negative ∧ v ≤ -ceiling := by
  obtain ⟨s, rfl, rfl⟩ | ⟨s, m, e, hm, rfl, hc, rfl⟩ := h.cases
  · exact .inl ⟨refit_zero s, abs_zero.trans_lt ceiling_pos⟩
  · rw [refit_finite s hm hc]
    by_cases he : e ≤ 971
    · refine .inl ⟨if_pos he, (abs_signed s (scaled_pos hm e).le).trans_lt ?_⟩
      exact scaled_lt_of_lt hc.mantissa_lt le_rfl (by omega)
    · have hbig : 2 ^ 52 ≤ m := hc.normal.resolve_right fun h => by omega
      have hle : ceiling ≤ scaled m e :=
        scaled_le_of_compare ⟨by decide, by decide, .inl le_rfl⟩ hc (by omega)
      rw [if_neg he]
      cases s
      · exact .inr (.inr ⟨rfl, neg_le_neg hle⟩)
      · exact .inr (.inl ⟨rfl, hle⟩)

theorem le_infinity {f : UnpackedFloat} (h : f ≠ .notANumber) :
    f.le (.infinity .positive) = true := by
  rcases f with (_ | _) | _ | _ | ⟨(_ | _), _, _, _⟩
  case notANumber => exact absurd rfl h
  all_goals rfl

theorem negative_infinity_le {f : UnpackedFloat} (h : f ≠ .notANumber) :
    UnpackedFloat.le (.infinity .negative) f = true := by
  rcases f with (_ | _) | _ | _ | ⟨(_ | _), _, _, _⟩
  case notANumber => exact absurd rfl h
  all_goals rfl

theorem StandsFor.refit_ne {f : UnpackedFloat} {v : ℚ} (h : StandsFor f v) :
    refit f ≠ .notANumber := by
  rcases h.refit_cases with ⟨hf, -⟩ | ⟨hf, -⟩ | ⟨hf, -⟩ <;> rw [hf]
  · obtain ⟨s, rfl, -⟩ | ⟨s, m, e, hm, rfl, -, -⟩ := h.cases <;> simp
  all_goals simp

/-- **Results in order are stored in order**, infinite or not. -/
theorem StandsFor.refit_le_refit {f g : UnpackedFloat} {v w : ℚ} (hf : StandsFor f v)
    (hg : StandsFor g w) (h : v ≤ w) : (refit f).le (refit g) = true := by
  rcases hg.refit_cases with ⟨hkept, hsmall⟩ | ⟨hup, -⟩ | ⟨hdown, hw⟩
  · rcases hf.refit_cases with ⟨hkept', -⟩ | ⟨-, hv⟩ | ⟨hdown, -⟩
    · rw [hkept, hkept']
      exact (hf.le_iff hg).mpr h
    · exact absurd (hv.trans h) (lt_of_abs_lt hsmall).not_ge
    · rw [hdown]
      exact negative_infinity_le hg.refit_ne
  · rw [hup]
    exact le_infinity hf.refit_ne
  · rcases hf.refit_cases with ⟨-, hsmall⟩ | ⟨-, hv⟩ | ⟨hdown', -⟩
    · exact absurd (h.trans hw) (neg_lt_of_abs_lt hsmall).not_ge
    · exact absurd (hv.trans (h.trans hw)) (by linarith [ceiling_pos])
    · rw [hdown, hdown']
      rfl

/-! ## §4. Operations -/

/-- **Differences are rounded correctly**, from their digits in units of a common place. -/
theorem normalize_standsFor (m : Int) (e : Int) (s : Sign) :
    StandsFor (UnpackedFloat.normalize Format.binary64 m e s) (roundedSigned (m * 2 ^ e)) := by
  unfold UnpackedFloat.normalize
  rcases lt_trichotomy m 0 with hneg | rfl | hpos
  · have hholds := round_holds .negative (m := (-m).toNat) (by omega) e
    have hval : signed .negative (scaled (-m).toNat e) = m * 2 ^ e := by
      have hcast : ((-m).toNat : ℚ) = -m := by
        exact_mod_cast Int.toNat_of_nonneg (by omega : 0 ≤ -m)
      show -(((-m).toNat : ℚ) * 2 ^ e) = _
      rw [hcast, neg_mul, neg_neg]
    rw [Int.compare_eq_lt.mpr hneg, ← hval]
    exact hholds.standsFor (scaled_pos (by omega) e).le
  · rw [Int.cast_zero, zero_mul]
    have hzero : roundedSigned 0 = 0 := (standsFor_zero s).roundedSigned_eq
    rw [hzero]
    exact standsFor_zero s
  · have hholds := round_holds .positive (m := m.toNat) (by omega) e
    have hval : signed .positive (scaled m.toNat e) = m * 2 ^ e := by
      have hcast : (m.toNat : ℚ) = m := by exact_mod_cast Int.toNat_of_nonneg hpos.le
      show (m.toNat : ℚ) * 2 ^ e = _
      rw [hcast]
    rw [Int.compare_eq_gt.mpr hpos, ← hval]
    exact hholds.standsFor (scaled_pos (by omega) e).le

theorem cast_apply (s : Sign) (m : Nat) : ((s.apply m : Int) : ℚ) = signed s m := by
  cases s
  · exact Int.cast_neg _
  · exact Int.cast_natCast m

theorem neg_standsFor {f : UnpackedFloat} {v : ℚ} (h : StandsFor f v) :
    StandsFor (UnpackedFloat.neg f) (-v) := by
  obtain ⟨s, rfl, rfl⟩ | ⟨s, m, e, hm, rfl, hc, rfl⟩ := h.cases
  · rw [neg_zero]
    exact standsFor_zero _
  · have hneg : -signed s (scaled m e) = signed (-s) (scaled m e) := by
      cases s
      · exact neg_neg _
      · rfl
    rw [hneg]
    exact standsFor_finite _ hm hc

theorem sub_standsFor {f g : UnpackedFloat} {v w : ℚ} (hf : StandsFor f v) (hg : StandsFor g w) :
    StandsFor (UnpackedFloat.sub Format.binary64 f g) (roundedSigned (v - w)) := by
  obtain ⟨s, rfl, rfl⟩ | ⟨s, m, e, hm, rfl, hc, rfl⟩ := hf.cases
  · -- what is taken away from zero changes its sign
    rw [zero_sub, (neg_standsFor hg).roundedSigned_eq]
    obtain ⟨t, rfl, rfl⟩ | ⟨t, m', e', hm', rfl, hc', rfl⟩ := hg.cases
    · rw [neg_zero]
      cases s <;> cases t <;> exact standsFor_zero _
    · exact neg_standsFor hg
  · obtain ⟨t, rfl, rfl⟩ | ⟨t, m', e', hm', rfl, hc', rfl⟩ := hg.cases
    · rw [sub_zero, hf.roundedSigned_eq]
      exact hf
    · have hval : signed s (scaled m e) - signed t (scaled m' e')
          = ((s.apply (m <<< (e - min e e').toNat : Nat)
              - t.apply (m' <<< (e' - min e e').toNat : Nat) : Int) : ℚ) * 2 ^ min e e' := by
        rw [Int.cast_sub, cast_apply, cast_apply, sub_mul,
          ← scaled_shiftLeft m (e - min e e').toNat, ← scaled_shiftLeft m' (e' - min e e').toNat,
          show e - ((e - min e e').toNat : Int) = min e e' by omega,
          show e' - ((e' - min e e').toNat : Int) = min e e' by omega]
        unfold scaled
        cases s <;> cases t <;> simp [signed]
      rw [hval]
      exact normalize_standsFor _ _ _

theorem div_standsFor {f g : UnpackedFloat} {v w : ℚ} (hf : StandsFor f v) (hg : StandsFor g w)
    (hw : w ≠ 0) : StandsFor (UnpackedFloat.div Format.binary64 f g) (roundedSigned (v / w)) := by
  obtain ⟨t, -, rfl⟩ | ⟨t, m', e', hm', rfl, hc', rfl⟩ := hg.cases
  · exact absurd rfl hw
  · obtain ⟨s, rfl, rfl⟩ | ⟨s, m, e, hm, rfl, hc, rfl⟩ := hf.cases
    · rw [zero_div, (standsFor_zero s).roundedSigned_eq]
      exact standsFor_zero _
    · rw [← signed_div]
      exact (div_holds s t hm hm').standsFor (div_pos (scaled_pos hm e) (scaled_pos hm' e')).le

/-- The first factor has all its digits, so the product has no fewer. -/
theorem mul_standsFor {s : Sign} {m : Nat} {e : Int} (hm : 0 < m) (hbig : 2 ^ 52 ≤ m)
    {g : UnpackedFloat} {w : ℚ} (hg : StandsFor g w) :
    StandsFor (UnpackedFloat.mul Format.binary64 (.finite s m e hm) g)
      (roundedSigned (signed s (scaled m e) * w)) := by
  obtain ⟨t, rfl, rfl⟩ | ⟨t, m', e', hm', rfl, hc', rfl⟩ := hg.cases
  · rw [mul_zero, (standsFor_zero t).roundedSigned_eq]
    exact standsFor_zero _
  · rw [← signed_mul]
    refine (mul_holds s t hm hm' ?_).standsFor (mul_pos (scaled_pos hm e) (scaled_pos hm' e')).le
    exact hbig.trans (Nat.le_mul_of_pos_right m hm')

theorem mul_infinity {m : Nat} {e : Int} (hm : 0 < m) :
    UnpackedFloat.mul Format.binary64 (.finite .positive m e hm) (.infinity .positive)
      = .infinity .positive := rfl

theorem sub_infinity {f : UnpackedFloat} {v : ℚ} (hf : StandsFor f v) :
    UnpackedFloat.sub Format.binary64 f (.infinity .positive) = .infinity .negative := by
  obtain ⟨s, rfl, -⟩ | ⟨s, m, e, hm, rfl, -, -⟩ := hf.cases <;> rfl

/-! ## §5. Doubles in order -/

theorem StandsFor.pos_of_zero_lt {x : Float} {v : ℚ} (hx : StandsFor (parts x) v) (pos : 0 < x) :
    0 < v := by
  rw [lt_iff, parts_zero] at pos
  obtain ⟨s, hparts, rfl⟩ | ⟨s, m, e, hm, hparts, -, rfl⟩ := hx.cases
  · rw [hparts] at pos
    exact absurd pos Bool.false_ne_true
  · rw [hparts] at pos
    cases s with
    | positive => exact scaled_pos hm e
    | negative => exact absurd pos Bool.false_ne_true

/-- What is not negative is a finite number or positive infinity. -/
theorem nonneg_cases {x : Float} (h : 0 ≤ x) :
    (∃ v, 0 ≤ v ∧ StandsFor (parts x) v) ∨ parts x = .infinity .positive := by
  by_cases hfinite : x.isFinite = true
  · obtain ⟨v, hv⟩ := exists_standsFor hfinite
    refine .inl ⟨v, ?_, hv⟩
    exact ((standsFor_zero .positive).le_iff hv).mp ((le_iff 0 x).mp h)
  · rw [le_iff, parts_zero] at h
    rcases parts_of_isFinite (Bool.eq_false_iff.mpr hfinite) with hx | ⟨_ | _, hx⟩
    · rw [hx] at h
      exact absurd h Bool.false_ne_true
    · rw [hx] at h
      exact absurd h Bool.false_ne_true
    · exact .inr hx

/-- Of two that are in order, both are numbers or the greater one is infinite. -/
theorem ordered_cases {x y : Float} (hx : 0 ≤ x) (h : x ≤ y) :
    (∃ v w, v ≤ w ∧ StandsFor (parts x) v ∧ StandsFor (parts y) w)
      ∨ parts y = .infinity .positive := by
  rcases nonneg_cases (le_transitive hx h) with ⟨w, -, hw⟩ | hinf
  · rw [le_iff] at h
    rcases nonneg_cases hx with ⟨v, -, hv⟩ | hinf
    · exact .inl ⟨v, w, (hv.le_iff hw).mp h, hv, hw⟩
    · rw [hinf] at h
      obtain ⟨s, hy, -⟩ | ⟨s, m, e, hm, hy, -, -⟩ := hw.cases <;> rw [hy] at h <;>
        exact absurd h Bool.false_ne_true
  · exact .inr hinf

/-- The number that a count stands for. -/
theorem toFloat_standsFor (n : UInt64) : StandsFor (parts n.toFloat) (rounded n.toNat) := by
  by_cases hn : n = 0
  · rw [hn, show ((0 : UInt64).toNat : ℚ) = 0 from Nat.cast_zero, rounded_zero]
    exact standsFor_zero .positive
  · obtain ⟨m, e, hm, hparts, hc, hval⟩ := exists_parts_toFloat hn
    rw [hparts, ← hval]
    exact standsFor_finite .positive hm hc

theorem StandsFor.isFinite {x : Float} {v : ℚ} (h : StandsFor (parts x) v) : x.isFinite = true := by
  show (parts x).isFinite = true
  obtain ⟨s, hx, -⟩ | ⟨s, m, e, hm, hx, -, -⟩ := h.cases <;> rw [hx] <;> rfl

variable {x y : Float}

/-- **Quotients by a positive number are in order.** -/
theorem div_mono {b : Float} (hx : x.isFinite = true) (hy : y.isFinite = true)
    (hb : b.isFinite = true) (pos : 0 < b) (h : x ≤ y) : x / b ≤ y / b := by
  obtain ⟨v, hv⟩ := exists_standsFor hx
  obtain ⟨w, hw⟩ := exists_standsFor hy
  obtain ⟨d, hd⟩ := exists_standsFor hb
  have hdpos : 0 < d := hd.pos_of_zero_lt pos
  have hvw : v ≤ w := (hv.le_iff hw).mp ((le_iff x y).mp h)
  rw [le_iff, parts_div, parts_div]
  refine (div_standsFor hv hd hdpos.ne').refit_le_refit (div_standsFor hw hd hdpos.ne') ?_
  exact roundedSigned_mono (div_le_div_of_nonneg_right hvw hdpos.le)

theorem zero_div_eq {b : Float} (hb : b.isFinite = true) (pos : 0 < b) : 0 / b = 0 := by
  obtain ⟨d, hd⟩ := exists_standsFor hb
  have hdpos : 0 < d := hd.pos_of_zero_lt pos
  rw [lt_iff, parts_zero] at pos
  refine parts_injective ?_
  rw [parts_div, parts_zero]
  obtain ⟨-, -, rfl⟩ | ⟨s, m, e, hm, hparts, -, -⟩ := hd.cases
  · exact absurd rfl hdpos.ne'
  · rw [hparts] at pos ⊢
    cases s with
    | positive => exact refit_zero .positive
    | negative => exact absurd pos Bool.false_ne_true

section
variable {c : Float} {m : Nat} {e : Int} {hm : 0 < m}

theorem mul_zero_eq (hc : parts c = .finite .positive m e hm) : c * 0 = 0 := by
  refine parts_injective ?_
  rw [parts_mul, hc, parts_zero]
  exact refit_zero .positive

theorem mul_ne_notANumber (hc : parts c = .finite .positive m e hm) (hbig : 2 ^ 52 ≤ m)
    (hx : 0 ≤ x) : parts (c * x) ≠ .notANumber := by
  rw [parts_mul, hc]
  rcases nonneg_cases hx with ⟨v, -, hv⟩ | hinf
  · exact (mul_standsFor hm hbig hv).refit_ne
  · rw [hinf, mul_infinity, refit_infinity]
    simp

/-- **Products with a positive number are in order**, if it has all its digits. -/
theorem mul_mono (hc : parts c = .finite .positive m e hm) (hbig : 2 ^ 52 ≤ m)
    (hx : 0 ≤ x) (h : x ≤ y) : c * x ≤ c * y := by
  rw [le_iff]
  rcases ordered_cases hx h with ⟨v, w, hvw, hv, hw⟩ | hinf
  · rw [parts_mul, parts_mul, hc]
    refine (mul_standsFor hm hbig hv).refit_le_refit (mul_standsFor hm hbig hw) ?_
    exact roundedSigned_mono (mul_le_mul_of_nonneg_left hvw (scaled_pos hm e).le)
  · rw [parts_mul c y, hc, hinf, mul_infinity, refit_infinity]
    exact le_infinity (mul_ne_notANumber hc hbig hx)

theorem zero_le_mul (hc : parts c = .finite .positive m e hm) (hbig : 2 ^ 52 ≤ m) (hx : 0 ≤ x) :
    0 ≤ c * x :=
  mul_zero_eq hc ▸ mul_mono hc hbig (le_iff 0 0 |>.mpr rfl) hx

end

theorem sub_ne_notANumber {a : Float} (ha : a.isFinite = true) (hx : 0 ≤ x) :
    parts (a - x) ≠ .notANumber := by
  obtain ⟨u, hu⟩ := exists_standsFor ha
  rw [parts_sub]
  rcases nonneg_cases hx with ⟨v, -, hv⟩ | hinf
  · exact (sub_standsFor hu hv).refit_ne
  · rw [hinf, sub_infinity hu, refit_infinity]
    simp

/-- **The more is taken away, the less is left.** -/
theorem sub_anti {a : Float} (ha : a.isFinite = true) (hx : 0 ≤ x) (h : x ≤ y) :
    a - y ≤ a - x := by
  obtain ⟨u, hu⟩ := exists_standsFor ha
  rw [le_iff]
  rcases ordered_cases hx h with ⟨v, w, hvw, hv, hw⟩ | hinf
  · rw [parts_sub, parts_sub]
    refine (sub_standsFor hu hw).refit_le_refit (sub_standsFor hu hv) ?_
    exact roundedSigned_mono (tsub_le_tsub_left hvw u)
  · rw [parts_sub a y, hinf, sub_infinity hu, refit_infinity]
    exact negative_infinity_le (sub_ne_notANumber ha hx)

end Annealing.Binary64
