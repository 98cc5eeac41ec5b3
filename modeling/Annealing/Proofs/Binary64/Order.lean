/-
  Annealing.Proofs.Binary64.Order
  ───────────────────────────────
  **DOUBLES IN ORDER.**

  Comparison goes by sign, then exponent, then mantissa.  It is therefore
  transitive, and on canonical forms it is the order of the numbers they stand
  for.

    • `le_transitive` — comparison is transitive,
    • `toFloat_mono` — counts are converted in order,
    • `one_div_holds` — the share of one in a count is at most one.
-/
import Annealing.Proofs.Binary64.Operations

namespace Annealing.Binary64

open Float.Model Float.Model.UnpackedFloat

/-! ## §1. Comparison is transitive -/

/-- Where a double that is not NaN stands in the order: first negative infinity, then by
size what is negative, the zeros, what is positive, and positive infinity. -/
def rank : UnpackedFloat → ℤ ×ₗ ℤ ×ₗ ℤ
  | .notANumber => toLex (0, toLex (0, 0))
  | .infinity .negative => toLex (-2, toLex (0, 0))
  | .finite .negative m e _ => toLex (-1, toLex (-e, -m))
  | .zero _ => toLex (0, toLex (0, 0))
  | .finite .positive m e _ => toLex (1, toLex (e, m))
  | .infinity .positive => toLex (2, toLex (0, 0))

theorem compare_then_isLE (e e' : Int) (m m' : Nat) :
    ((compare e e').then (compare m m')).isLE = true ↔ e < e' ∨ e = e' ∧ m ≤ m' := by
  rcases lt_trichotomy e e' with h | h | h
  · simp [compare_lt_iff_lt.mpr h, h]
  · subst h
    simp [Nat.isLE_compare]
  · simp [compare_gt_iff_gt.mpr h, h.not_gt, h.ne']

theorem compare_then_isGE (e e' : Int) (m m' : Nat) :
    ((compare e e').then (compare m m')).isGE = true ↔ e' < e ∨ e = e' ∧ m' ≤ m := by
  rcases lt_trichotomy e e' with h | h | h
  · simp [compare_lt_iff_lt.mpr h, h.not_gt, h.ne]
  · subst h
    simp [Nat.isGE_compare]
  · simp [compare_gt_iff_gt.mpr h, h]

theorem le_iff_rank (a b : UnpackedFloat) :
    a.le b = true ↔ a ≠ .notANumber ∧ b ≠ .notANumber ∧ rank a ≤ rank b := by
  rcases a with (_ | _) | _ | s | ⟨(_ | _), m, e, hm⟩ <;>
    rcases b with (_ | _) | _ | s' | ⟨(_ | _), m', e', hm'⟩
  all_goals
    simp [UnpackedFloat.le, UnpackedFloat.compare, rank, Prod.Lex.toLex_le_toLex]
  -- what is left are the pairs of infinities and the pairs of numbers of one sign
  case finite.negative.finite.negative => exact compare_then_isGE e e' m m'
  case finite.positive.finite.positive => exact compare_then_isLE e e' m m'
  all_goals decide

/-- **Comparison of doubles is transitive.** -/
theorem le_transitive {x y z : Float} (hxy : x ≤ y) (hyz : y ≤ z) : x ≤ z := by
  rw [le_iff, le_iff_rank] at hxy hyz ⊢
  exact ⟨hxy.1, hyz.2.1, hxy.2.2.trans hyz.2.2⟩

/-! ## §2. The order of numbers -/

/-- On canonical forms, numbers in order are doubles in order. -/
theorem le_of_scaled_le {m m' : Nat} {e e' : Int} (hm : 0 < m) (hm' : 0 < m')
    (hc : Canonical m e) (hc' : Canonical m' e') (h : scaled m e ≤ scaled m' e') :
    UnpackedFloat.le (.finite .positive m e hm) (.finite .positive m' e' hm') = true := by
  show ((compare e e').then (compare m m')).isLE = true
  rw [compare_then_isLE]
  rcases lt_trichotomy e e' with hlt | rfl | hgt
  · exact .inl hlt
  · refine .inr ⟨rfl, ?_⟩
    unfold scaled at h
    exact_mod_cast le_of_mul_le_mul_right h (by positivity)
  · -- the number with the larger exponent would be the larger one
    have hbig : 2 ^ 52 ≤ m := hc.normal.resolve_right fun he => by
      have := hc'.exponent_ge
      omega
    exact absurd h (scaled_lt_of_lt hc'.mantissa_lt hbig hgt).not_ge

/-- A result that is not too large is stored as it is. -/
theorem Holds.refit_eq {f : UnpackedFloat} {s : Sign} {v : ℚ} (h : Holds f s v)
    (hv : v ≤ 2 ^ 64) : refit f = f := by
  obtain ⟨rfl, -⟩ | ⟨m, e, hm, rfl, hc, hval⟩ := h
  · exact refit_zero s
  · rw [refit_finite s hm hc, if_pos]
    by_contra he
    have hbig : 2 ^ 52 ≤ m := hc.normal.resolve_right fun he => by omega
    have hle := two_pow_mul_le_scaled hbig (by omega : 12 < e)
    rw [hval] at hle
    exact absurd (hle.trans hv) (by norm_num)

theorem rounded_one : rounded 1 = 1 := by
  have h := rounded_scaled (m := 2 ^ 52) (e := -52) (by decide) ⟨by decide, by decide, .inl le_rfl⟩
  rwa [show scaled (2 ^ 52) (-52) = 1 by unfold scaled; norm_num] at h

theorem rounded_two_pow : rounded (2 ^ 64) = 2 ^ 64 := by
  have h := rounded_scaled (m := 2 ^ 52) (e := 12) (by decide) ⟨by decide, by decide, .inl le_rfl⟩
  rwa [show scaled (2 ^ 52) 12 = 2 ^ 64 by unfold scaled; norm_num] at h

theorem one_le_rounded {v : ℚ} (hv : 1 ≤ v) : 1 ≤ rounded v := by
  have h := rounded_mono one_pos hv
  rwa [rounded_one] at h

/-! ## §3. Counts -/

/-- A count other than zero is converted to the nearest double. -/
theorem exists_parts_toFloat {n : UInt64} (hn : n ≠ 0) :
    ∃ m e hm, parts n.toFloat = .finite .positive m e hm ∧ Canonical m e
      ∧ scaled m e = rounded n.toNat := by
  have hpos : 0 < n.toNat := Nat.pos_of_ne_zero fun h => hn (UInt64.toNat_inj.mp h)
  have hlow : 1 ≤ rounded n.toNat := one_le_rounded (by exact_mod_cast hpos)
  have hhigh : rounded n.toNat ≤ 2 ^ 64 := by
    rw [← rounded_two_pow]
    exact rounded_mono (by exact_mod_cast hpos) (by exact_mod_cast n.toNat_lt.le)
  have hholds := ofNat_holds hpos
  rw [parts_toFloat, hholds.refit_eq hhigh]
  obtain ⟨-, hzero⟩ | ⟨m, e, hm, h, hc, hval⟩ := hholds
  · linarith
  · exact ⟨m, e, hm, h, hc, hval⟩

/-- **Counts are converted in order.** -/
theorem toFloat_mono {i j : UInt64} (h : i ≤ j) : i.toFloat ≤ j.toFloat := by
  rw [le_iff]
  by_cases hj : j = 0
  · obtain rfl : i = 0 := by
      rw [hj] at h
      exact UInt64.le_zero_iff.mp h
    rw [hj]
    rfl
  · obtain ⟨m', e', hm', hpj, hcj, hvj⟩ := exists_parts_toFloat hj
    rw [hpj]
    by_cases hi : i = 0
    · rw [hi]
      rfl
    · obtain ⟨m, e, hm, hpi, hci, hvi⟩ := exists_parts_toFloat hi
      rw [hpi]
      refine le_of_scaled_le hm hm' hci hcj ?_
      rw [hvi, hvj]
      have hpos : 0 < i.toNat := Nat.pos_of_ne_zero fun h => hi (UInt64.toNat_inj.mp h)
      exact rounded_mono (by exact_mod_cast hpos) (by exact_mod_cast UInt64.le_iff_toNat_le.mp h)

/-! ## §4. The share of one in a count -/

theorem parts_one : parts 1 = .finite .positive (2 ^ 52) (-52) (by decide) := rfl

/-- The share of one in a count is at most one. -/
theorem one_div_holds {n : UInt64} (hn : n ≠ 0) :
    ∃ v ≤ 1, Holds (parts (1 / n.toFloat)) .positive v := by
  obtain ⟨m, e, hm, hparts, hc, hval⟩ := exists_parts_toFloat hn
  have hle : 1 ≤ scaled m e := by
    rw [hval]
    exact one_le_rounded (by exact_mod_cast Nat.pos_of_ne_zero fun h => hn (UInt64.toNat_inj.mp h))
  have hpos : 0 < scaled m e := scaled_pos hm e
  have hquot : rounded (1 / scaled m e) ≤ 1 := by
    have h := rounded_mono (one_div_pos.mpr hpos) ((div_le_one hpos).mpr hle)
    rwa [rounded_one] at h
  have hone : scaled (2 ^ 52) (-52) = 1 := by
    unfold scaled
    norm_num
  have hholds : Holds (UnpackedFloat.div Format.binary64 (.finite .positive (2 ^ 52) (-52) _)
      (.finite .positive m e hm)) .positive (rounded (scaled (2 ^ 52) (-52) / scaled m e)) :=
    div_holds .positive .positive (by decide) hm
  rw [hone] at hholds
  refine ⟨_, hquot, ?_⟩
  rw [parts_div, hparts, parts_one, hholds.refit_eq (hquot.trans (by norm_num))]
  exact hholds

end Annealing.Binary64
