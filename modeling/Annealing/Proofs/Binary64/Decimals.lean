/-
  Annealing.Proofs.Binary64.Decimals
  ──────────────────────────────────
  **DECIMALS ARE ROUNDED CORRECTLY.**

  A decimal with few digits and a small power of ten is a product or a quotient
  of two doubles that are both exact: the powers of ten up to the 22nd are
  stored.  Any other is computed from whole numbers, and only what is far out of
  range is not computed at all.

    • `powersOfTen_exact` — the stored powers,
    • `ofScientific_holds` — both ways give the rounded decimal.
-/
import Annealing.Proofs.Binary64.Bits

namespace Annealing.Binary64

open Float.Model Float.Model.UnpackedFloat

/-! ## §1. Factors without rounding -/

/-- The double is this power of ten, with 53 digits. -/
structure IsPowerOfTen (x : Float) (n : Nat) : Prop where
  isFinite : x.isFinite = true
  sign : Decimal.isNegative x = false
  normal : 2 ^ 52 ≤ mantissa x
  value : mantissa x * 2 ^ (place x).toNat = 10 ^ n * 2 ^ (-place x).toNat

instance (x : Float) (n : Nat) : Decidable (IsPowerOfTen x n) :=
  decidable_of_iff (x.isFinite = true ∧ Decimal.isNegative x = false ∧ 2 ^ 52 ≤ mantissa x
      ∧ mantissa x * 2 ^ (place x).toNat = 10 ^ n * 2 ^ (-place x).toNat)
    ⟨fun ⟨h₁, h₂, h₃, h₄⟩ => ⟨h₁, h₂, h₃, h₄⟩, fun ⟨h₁, h₂, h₃, h₄⟩ => ⟨h₁, h₂, h₃, h₄⟩⟩

/-- **The stored powers of ten are exact.** -/
theorem powersOfTen_exact : ∀ n : Fin 23,
    IsPowerOfTen (Float.exactlyRepresentablePowersOfTen[n]) n := by
  decide +kernel

theorem IsPowerOfTen.exists_parts {x : Float} {n : Nat} (h : IsPowerOfTen x n) :
    ∃ m e hm, parts x = .finite .positive m e hm ∧ 2 ^ 52 ≤ m ∧ scaled m e = 10 ^ n := by
  have hm : 0 < mantissa x := lt_of_lt_of_le (by decide) h.normal
  have hsign : signField x = .positive := if_neg (by rw [h.sign]; exact Bool.false_ne_true)
  have hvalue : (mantissa x : ℚ) * 2 ^ (place x).toNat = 10 ^ n * 2 ^ (-place x).toNat := by
    exact_mod_cast h.value
  have hpow : (2 : ℚ) ^ place x = 2 ^ (place x).toNat / 2 ^ (-place x).toNat := by
    rw [← zpow_natCast, ← zpow_natCast, ← zpow_sub₀ (by norm_num)]
    congr 1
    omega
  refine ⟨mantissa x, place x, hm, ?_, h.normal, ?_⟩
  · rw [parts_of_pos h.isFinite hm, hsign]
  · unfold scaled
    rw [hpow, ← mul_div_assoc, hvalue, mul_div_cancel_right₀ _ (by positivity)]

/-- A count of at most 53 digits is converted exactly. -/
theorem exists_parts_toFloat_of_lt {m : Nat} (hm : 0 < m) (hlt : m < 2 ^ 53) :
    ∃ m' e hm', parts m.toUInt64.toFloat = .finite .positive m' e hm' ∧ scaled m' e = m := by
  have hnat : m.toUInt64.toNat = m := Nat.mod_eq_of_lt (hlt.trans (by decide))
  have hne : m.toUInt64 ≠ 0 := by
    intro h
    rw [h] at hnat
    exact hm.ne hnat
  obtain ⟨m', e, hm', hparts, -, hval⟩ := exists_parts_toFloat hne
  refine ⟨m', e, hm', hparts, ?_⟩
  rw [hval, hnat, rounded_natCast hm hlt]

/-! ## §2. Rounding -/

/-- Few digits and a small power of ten: one operation on two exact doubles. -/
theorem ofScientific_holds_of_lt {m : Nat} {e : Int} (hm : 0 < m) (hlt : m < 2 ^ 53)
    (he : e.natAbs ≤ 22) :
    ∃ f, parts (Float.ofScientific m (e < 0) e.natAbs) = refit f
      ∧ Holds f .positive (rounded (m * 10 ^ e)) := by
  obtain ⟨m₁, e₁, h₁, hparts₁, hval₁⟩ := exists_parts_toFloat_of_lt hm hlt
  obtain ⟨m₂, e₂, h₂, hparts₂, hbig, hval₂⟩ :=
    (powersOfTen_exact ⟨e.natAbs, by omega⟩).exists_parts
  by_cases hneg : e < 0
  · refine ⟨UnpackedFloat.div Format.binary64 (.finite .positive m₁ e₁ h₁)
      (.finite .positive m₂ e₂ h₂), ?_, ?_⟩
    · unfold Float.ofScientific
      rw [dif_pos ⟨hlt, he⟩, if_pos (decide_eq_true hneg), parts_div, hparts₁, ← hparts₂]
      rfl
    · have h : Holds (UnpackedFloat.div Format.binary64 (.finite .positive m₁ e₁ h₁)
          (.finite .positive m₂ e₂ h₂)) .positive _ := div_holds .positive .positive h₁ h₂
      rwa [hval₁, hval₂, ← zpow_natCast, Int.ofNat_natAbs_of_nonpos hneg.le, zpow_neg,
        div_inv_eq_mul] at h
  · refine ⟨UnpackedFloat.mul Format.binary64 (.finite .positive m₁ e₁ h₁)
      (.finite .positive m₂ e₂ h₂), ?_, ?_⟩
    · unfold Float.ofScientific
      rw [dif_pos ⟨hlt, he⟩, if_neg (by simpa using hneg), parts_mul, hparts₁, ← hparts₂]
      rfl
    · have h : Holds (UnpackedFloat.mul Format.binary64 (.finite .positive m₁ e₁ h₁)
          (.finite .positive m₂ e₂ h₂)) .positive _ :=
        mul_holds .positive .positive h₁ h₂ (hbig.trans (Nat.le_mul_of_pos_left m₂ h₁))
      rwa [hval₁, hval₂, ← zpow_natCast, Int.natAbs_of_nonneg (not_lt.mp hneg)] at h

/-- All other decimals: one operation on whole numbers, if the exponent is not out of range. -/
theorem unpacked_ofScientific_holds {m : Nat} {e : Int} (hm : 0 < m) (hhigh : e ≤ 2 ^ 11)
    (hlow : -(2 ^ 11 + (m.log2 : Int)) ≤ e) :
    Holds (UnpackedFloat.ofScientific Format.binary64 m e) .positive (rounded (m * 10 ^ e)) := by
  unfold UnpackedFloat.ofScientific
  rw [dif_neg hm.ne', if_neg (not_lt.mpr hhigh), if_neg (not_lt.mpr hlow)]
  by_cases hneg : 0 ≤ e
  · rw [if_pos hneg]
    -- zeros after the digits make the product long enough
    have hdigits : 0 < m <<< 53 := by
      rw [Nat.shiftLeft_eq]
      positivity
    have hten : 0 < 10 ^ e.toNat := by positivity
    have hbig : 2 ^ 52 ≤ m <<< 53 * 10 ^ e.toNat := by
      calc 2 ^ 52 ≤ 1 * 2 ^ 53 * 1 := by decide
        _ ≤ m * 2 ^ 53 * 10 ^ e.toNat := by
          gcongr
          · exact hm
          · exact hten
        _ = m <<< 53 * 10 ^ e.toNat := by rw [Nat.shiftLeft_eq]
    have hshift : scaled (m <<< 53) (-53) = m := by
      rw [← scaled_zero_right m, ← scaled_shiftLeft m 53 0]
      rfl
    have h : Holds (UnpackedFloat.mul Format.binary64 (.finite .positive (m <<< 53) (-53) hdigits)
        (.finite .positive (10 ^ e.toNat) 0 hten)) .positive _ :=
      mul_holds .positive .positive hdigits hten hbig
    rw [hshift, scaled_zero_right, Nat.cast_pow, ← zpow_natCast, Int.toNat_of_nonneg hneg] at h
    exact h
  · rw [if_neg hneg]
    have hten : 0 < 10 ^ (-e).toNat := by positivity
    have h : Holds (UnpackedFloat.div Format.binary64 (.finite .positive m 0 hm)
        (.finite .positive (10 ^ (-e).toNat) 0 hten)) .positive _ :=
      div_holds .positive .positive hm hten
    rw [scaled_zero_right, scaled_zero_right, Nat.cast_pow, ← zpow_natCast,
      Int.toNat_of_nonneg (by omega), zpow_neg, div_inv_eq_mul] at h
    exact h

/-- **Decimals are rounded correctly.** -/
theorem ofScientific_holds {m : Nat} {e : Int} (hm : 0 < m) (hhigh : e ≤ 2 ^ 11)
    (hlow : -(2 ^ 11 + (m.log2 : Int)) ≤ e) :
    ∃ f, parts (Float.ofScientific m (e < 0) e.natAbs) = refit f
      ∧ Holds f .positive (rounded (m * 10 ^ e)) := by
  by_cases hfew : m < 2 ^ 53 ∧ e.natAbs ≤ 22
  · exact ofScientific_holds_of_lt hm hfew.1 hfew.2
  · have hexponent : (if decide (e < 0) = true then Int.negOfNat e.natAbs
        else Int.ofNat e.natAbs) = e := by
      by_cases hneg : e < 0
      · rw [if_pos (decide_eq_true hneg), Int.negOfNat_eq, Int.ofNat_eq_natCast]
        omega
      · rw [if_neg (by simpa using hneg), Int.ofNat_eq_natCast]
        omega
    have hparts : parts (Float.ofScientific m (e < 0) e.natAbs)
        = refit (UnpackedFloat.ofScientific Format.binary64 m e) := by
      unfold Float.ofScientific
      rw [dif_neg hfew]
      simp only [hexponent]
      rfl
    exact ⟨_, hparts, unpacked_ofScientific_holds hm hhigh hlow⟩

end Annealing.Binary64
