/-
  Annealing.Proofs.Binary64.Operations
  ────────────────────────────────────
  **QUOTIENTS, PRODUCTS AND WHOLE NUMBERS ARE ROUNDED CORRECTLY.**

  An operation computes the first digits of its result, and remembers whether
  there is anything below them and how it compares with a half.  `Lies` says what
  is remembered.  Shifting digits out keeps it true, and rounding by it goes to
  the nearest integer; so the result stands for the rounded value.

    • `roundWithAccuracy_holds` — digits with what lies below them are rounded,
    • `div_holds` — quotients,
    • `mul_holds` — products,
    • `ofNat_holds` — whole numbers.
-/
import Annealing.Proofs.Binary64.Rounding

namespace Annealing.Binary64

open Float.Model Float.Model.UnpackedFloat

/-! ## §1. The digits that are lost -/

/-- Where a number lies above its integer part `m`. -/
def Lies (x : ℚ) (m : Nat) : Accuracy → Prop
  | .exact => x = m
  | .inexact .lt => m < x ∧ x < m + 1 / 2
  | .inexact .eq => x = m + 1 / 2
  | .inexact .gt => m + 1 / 2 < x ∧ x < m + 1

namespace Lies

variable {x : ℚ}

theorem le {m : Nat} {acc : Accuracy} (h : Lies x m acc) : (m : ℚ) ≤ x := by
  unfold Lies at h
  split at h <;> grind

theorem lt {m : Nat} {acc : Accuracy} (h : Lies x m acc) : x < m + 1 := by
  unfold Lies at h
  split at h <;> grind

/-- What is remembered is enough to round by. -/
theorem nearest_eq {m : Nat} {acc : Accuracy} (h : Lies x m acc) :
    nearest x = Accuracy.roundToNearestEven m acc := by
  have hfloor : ⌊x⌋₊ = m :=
    (Nat.floor_eq_iff (le_trans (Nat.cast_nonneg m) h.le)).mpr ⟨h.le, h.lt⟩
  unfold nearest
  rw [hfloor]
  rcases acc with _ | (_ | _ | _)
  · have hx : x = m := h
    rw [if_pos (by rw [hx]; norm_num)]
    rfl
  · obtain ⟨-, hlt⟩ := h
    rw [if_pos (by linarith)]
    rfl
  · have hx : x = m + 1 / 2 := h
    rw [if_neg (by rw [hx]; norm_num), if_pos (by rw [hx]; norm_num)]
    rfl
  · obtain ⟨hgt, -⟩ := h
    rw [if_neg (by linarith), if_neg (by intro heq; linarith)]
    rfl

/-- A digit is shifted out: it becomes the half, and the half joins what is below. -/
theorem shiftRightOne {em : ExtendedMantissa} (h : Lies x em.mantissa em.accuracy) :
    Lies (x / 2) em.shiftRightOne.mantissa em.shiftRightOne.accuracy := by
  obtain ⟨m, roundBit, stickyBit⟩ := em
  obtain ⟨q, hq | hq⟩ : ∃ q, m = 2 * q ∨ m = 2 * q + 1 := ⟨m / 2, by omega⟩
  · subst hq
    have h1 : 2 * q / 2 = q := by omega
    have h2 : 2 * q % 2 = 0 := by omega
    cases roundBit <;> cases stickyBit <;>
      simp only [ExtendedMantissa.shiftRightOne, ExtendedMantissa.accuracy, Lies, h1, h2,
        Nat.cast_mul, Bool.or_false, Bool.or_true, bne_self_eq_false] at h ⊢ <;> grind
  · subst hq
    have h1 : (2 * q + 1) / 2 = q := by omega
    have h2 : (2 * q + 1) % 2 = 1 := by omega
    cases roundBit <;> cases stickyBit <;>
      simp [ExtendedMantissa.shiftRightOne, ExtendedMantissa.accuracy, Lies, h1, h2] at h ⊢ <;>
      grind

theorem shiftRight {em : ExtendedMantissa} (h : Lies x em.mantissa em.accuracy) (n : Nat) :
    Lies (x / 2 ^ n) (em >>> n).mantissa (em >>> n).accuracy := by
  induction n with
  | zero =>
      rw [pow_zero, div_one]
      exact h
  | succ n ih =>
      rw [pow_succ, ← div_div]
      exact ih.shiftRightOne

end Lies

theorem accuracy_ofMantissaAndAccuracy (m : Nat) (acc : Accuracy) :
    (ExtendedMantissa.ofMantissaAndAccuracy m acc).accuracy = acc
      ∧ (ExtendedMantissa.ofMantissaAndAccuracy m acc).mantissa = m := by
  rcases acc with _ | (_ | _ | _) <;> exact ⟨rfl, rfl⟩

/-! ## §2. Shifting to the last place -/

theorem targetExponent_eq (m : Nat) (e : Int) :
    Format.binary64.targetExponent (totalExponent m e) = max (m.log2 + e - 52) (-1074) := by
  show max (_ - (53 : Int)) (-1074) = _
  unfold totalExponent
  omega

theorem shiftToTargetExponent_eq {m : Nat} {e : Int} (acc : Accuracy) {k : Nat}
    (hk : (max (m.log2 + e - 52) (-1074) - e).toNat = k) :
    shiftToTargetExponent Format.binary64 m e acc
      = (ExtendedMantissa.ofMantissaAndAccuracy m acc >>> k, e + k) := by
  have hshift : (Format.binary64.targetExponent (totalExponent m e) - e).toNat = k := by
    rw [targetExponent_eq, hk]
  show (ExtendedMantissa.ofMantissaAndAccuracy m acc
      >>> (Format.binary64.targetExponent (totalExponent m e) - e).toNat,
    e + ((Format.binary64.targetExponent (totalExponent m e) - e).toNat : Int)) = _
  rw [hshift]

/-- The place to which digits are shifted is the last place of the number they begin. -/
theorem targetPlace_eq {x : ℚ} {m : Nat} {e : Int} (hx : 0 < x) (hle : m ≤ x) (hlt : x < m + 1)
    (h : 0 < m ∨ e ≤ -1074) : max (m.log2 + e - 52) (-1074) = lastPlace (x * 2 ^ e) := by
  unfold lastPlace
  by_cases hm : 0 < m
  · rw [log_mul_two_zpow hm hle hlt]
  · obtain rfl : m = 0 := by omega
    -- the number is less than one unit of the least place of all
    have hlog : Int.log 2 (x * 2 ^ e) < e := by
      refine (Int.lt_zpow_iff_log_lt (by norm_num) (by positivity)).mp ?_
      calc x * 2 ^ e < 1 * 2 ^ e := by
            gcongr
            simpa using hlt
        _ = ((2 : Nat) : ℚ) ^ e := by simp
    have he := h.resolve_left hm
    have hz : Nat.log2 0 = 0 := by decide
    omega

/-- After rounding, a second shift makes room for a carry and loses nothing. -/
theorem exists_shift_exact {R : Nat} {e : Int} (hR : R ≤ 2 ^ 53) (he : -1074 ≤ e)
    (hnormal : 2 ^ 52 ≤ R ∨ e = -1074) :
    ∃ m e', shiftToTargetExponent Format.binary64 R e .exact = (.ofMantissaAndAccuracy m .exact, e')
      ∧ Canonical m e' ∧ scaled m e' = scaled R e := by
  by_cases hlt : R < 2 ^ 53
  · have hlog : R.log2 ≤ 52 := by
      by_cases hz : R = 0
      · subst hz
        decide
      · have := (Nat.log2_lt hz).mpr hlt
        omega
    refine ⟨R, e, ?_, ⟨hlt, he, hnormal⟩, rfl⟩
    rw [shiftToTargetExponent_eq .exact (k := 0) (by omega)]
    show (ExtendedMantissa.ofMantissaAndAccuracy R .exact, e + 0) = _
    rw [Int.add_zero]
  · obtain rfl : R = 2 ^ 53 := by omega
    refine ⟨2 ^ 52, e + 1, ?_, ⟨by decide, by omega, .inl le_rfl⟩, ?_⟩
    · rw [shiftToTargetExponent_eq .exact (k := 1) (by rw [Nat.log2_two_pow]; omega)]
      rfl
    · unfold scaled
      rw [zpow_add₀ (by norm_num)]
      push_cast
      ring

/-! ## §3. Rounding -/

/-- A result of this sign stands for this value, in canonical form. -/
def Holds (f : UnpackedFloat) (s : Sign) (v : ℚ) : Prop :=
  f = .zero s ∧ v = 0 ∨ ∃ m e hm, f = .finite s m e hm ∧ Canonical m e ∧ scaled m e = v

theorem roundWithAccuracy_eq {m R m' : Nat} {e E e' : Int} {acc : Accuracy}
    {em : ExtendedMantissa} (s : Sign)
    (first : shiftToTargetExponent Format.binary64 m e acc = (em, E))
    (rounds : em.roundedMantissa = R)
    (second : shiftToTargetExponent Format.binary64 R E .exact
      = (.ofMantissaAndAccuracy m' .exact, e')) :
    roundWithAccuracy Format.binary64 s m e acc
      = if h : m' = 0 then .zero s else .finite s m' e' (Nat.pos_of_ne_zero h) := by
  subst rounds
  unfold roundWithAccuracy
  simp only [first, second]
  rfl

/-- **Rounding is correct**, if the digits do not begin below the last place. -/
theorem roundWithAccuracy_holds {x : ℚ} {m : Nat} {e : Int} {acc : Accuracy} (s : Sign)
    (hx : Lies x m acc) (hpos : 0 < x) (hm : 0 < m ∨ e ≤ -1074)
    (he : e ≤ lastPlace (x * 2 ^ e)) :
    Holds (roundWithAccuracy Format.binary64 s m e acc) s (rounded (x * 2 ^ e)) := by
  have htarget := targetPlace_eq hpos hx.le hx.lt hm
  set v := x * 2 ^ e with hv
  have hvpos : 0 < v := by positivity
  -- the first shift goes to the last place, and what it leaves is rounded
  obtain ⟨k, hk⟩ : ∃ k : Nat, lastPlace v = e + k := ⟨(lastPlace v - e).toNat, by omega⟩
  have hfirst := shiftToTargetExponent_eq acc (m := m) (e := e) (k := k) (by omega)
  rw [← hk] at hfirst
  obtain ⟨hacc, hman⟩ := accuracy_ofMantissaAndAccuracy m acc
  have hall : Lies x (ExtendedMantissa.ofMantissaAndAccuracy m acc).mantissa
      (ExtendedMantissa.ofMantissaAndAccuracy m acc).accuracy := by
    rw [hacc, hman]
    exact hx
  have hlies := hall.shiftRight k
  have hquot : x / 2 ^ k = v / 2 ^ lastPlace v := by
    rw [hv, hk, zpow_add₀ (by norm_num), zpow_natCast]
    field_simp
  rw [hquot] at hlies
  obtain ⟨m', e', hsecond, hc, hval⟩ := exists_shift_exact (nearest_div_le v)
    (le_lastPlace v) (or_iff_not_imp_right.mpr (le_nearest_div hvpos))
  rw [roundWithAccuracy_eq s hfirst hlies.nearest_eq.symm hsecond]
  unfold rounded
  rw [← hval]
  by_cases hz : m' = 0
  · rw [dif_pos hz, hz]
    exact .inl ⟨rfl, by unfold scaled; simp⟩
  · rw [dif_neg hz]
    exact .inr ⟨m', e', _, rfl, hc, rfl⟩

/-! ## §4. Quotients -/

theorem lies_div (a : Nat) {b : Nat} (hb : 0 < b) :
    Lies (a / b : ℚ) (a / b) (accuracyOfFraction (a % b) b) := by
  have hbq : (0 : ℚ) < b := by exact_mod_cast hb
  have hx : (a / b : ℚ) = (a / b : Nat) + (a % b : Nat) / b := by
    have hdiv : (a : ℚ) = b * (a / b : Nat) + (a % b : Nat) := by
      exact_mod_cast (Nat.div_add_mod a b).symm
    rw [hdiv]
    field_simp
  have hlt : ((a % b : Nat) / b : ℚ) < 1 := by
    rw [div_lt_one hbq]
    exact_mod_cast Nat.mod_lt a hb
  rw [hx]
  unfold accuracyOfFraction
  by_cases hz : a % b = 0
  · rw [if_pos hz, hz]
    show ((a / b : Nat) + (0 : Nat) / b : ℚ) = _
    simp
  · rw [if_neg hz]
    have hpos : (0 : ℚ) < (a % b : Nat) / b := by
      have : (0 : ℚ) < (a % b : Nat) := by exact_mod_cast Nat.pos_of_ne_zero hz
      positivity
    -- twice the remainder is compared with the divisor
    rcases lt_trichotomy (2 * (a % b)) b with h | h | h
    · have hhalf : ((a % b : Nat) / b : ℚ) < 1 / 2 := by
        rw [div_lt_div_iff₀ hbq (by norm_num)]
        exact_mod_cast (by omega : a % b * 2 < 1 * b)
      rw [Nat.compare_eq_lt.mpr h]
      exact ⟨by linarith, by linarith⟩
    · have hhalf : ((a % b : Nat) / b : ℚ) = 1 / 2 := by
        rw [div_eq_div_iff hbq.ne' (by norm_num)]
        exact_mod_cast (by omega : a % b * 2 = 1 * b)
      rw [Nat.compare_eq_eq.mpr h, hhalf]
      rfl
    · have hhalf : 1 / 2 < ((a % b : Nat) / b : ℚ) := by
        rw [div_lt_div_iff₀ (by norm_num) hbq]
        exact_mod_cast (by omega : 1 * b < a % b * 2)
      rw [Nat.compare_eq_gt.mpr h]
      exact ⟨by linarith, by linarith⟩

/-- The first digit of a quotient is at the difference of the first digits, or the place
below it. -/
theorem le_log_div {m₁ m₂ : Nat} (e₁ e₂ : Int) (h₁ : 0 < m₁) (h₂ : 0 < m₂) :
    totalExponent m₁ e₁ - totalExponent m₂ e₂ - 1
      ≤ Int.log 2 (scaled m₁ e₁ / scaled m₂ e₂) := by
  set D : Int := totalExponent m₁ e₁ - totalExponent m₂ e₂ with hD
  have hpos : 0 < scaled m₁ e₁ / scaled m₂ e₂ := div_pos (scaled_pos h₁ e₁) (scaled_pos h₂ e₂)
  refine (Int.zpow_le_iff_le_log (by norm_num) hpos).mp ?_
  rw [le_div_iff₀ (scaled_pos h₂ e₂)]
  calc ((2 : Nat) : ℚ) ^ (D - 1) * scaled m₂ e₂
      ≤ ((2 : Nat) : ℚ) ^ (D - 1) * ((2 : Nat) : ℚ) ^ (m₂.log2 + e₂ + 1) := by
        rw [← log_scaled h₂]
        gcongr
        exact (Int.lt_zpow_succ_log_self (by norm_num) _).le
    _ = ((2 : Nat) : ℚ) ^ (m₁.log2 + e₁) := by
        rw [← zpow_add₀ (by norm_num)]
        congr 1
        rw [hD]
        unfold totalExponent
        omega
    _ ≤ scaled m₁ e₁ := by
        rw [← log_scaled h₁]
        exact Int.zpow_log_le_self (by norm_num) (scaled_pos h₁ e₁)

/-- **Quotients are rounded correctly.** -/
theorem div_holds {m₁ m₂ : Nat} {e₁ e₂ : Int} (s₁ s₂ : Sign) (h₁ : 0 < m₁) (h₂ : 0 < m₂) :
    Holds (UnpackedFloat.div Format.binary64 (.finite s₁ m₁ e₁ h₁) (.finite s₂ m₂ e₂ h₂))
      (s₁ / s₂) (rounded (scaled m₁ e₁ / scaled m₂ e₂)) := by
  have hlog := le_log_div e₁ e₂ h₁ h₂
  set D : Int := totalExponent m₁ e₁ - totalExponent m₂ e₂ with hD
  set t : Int := min (e₁ - e₂) (max (D - 53) (-1074)) with ht
  obtain ⟨k, hk⟩ : ∃ k : Nat, e₁ - e₂ = t + k := ⟨(e₁ - e₂ - t).toNat, by omega⟩
  have hcore : divCore Format.binary64 m₁ e₁ m₂ e₂
      = ((m₁ <<< k) / m₂, t, accuracyOfFraction ((m₁ <<< k) % m₂) m₂) := by
    have hk' : (e₁ - e₂ - t).toNat = k := by omega
    rw [← hk']
    rfl
  have hrun : UnpackedFloat.div Format.binary64 (.finite s₁ m₁ e₁ h₁) (.finite s₂ m₂ e₂ h₂)
      = roundWithAccuracy Format.binary64 (s₁ / s₂) ((m₁ <<< k) / m₂) t
          (accuracyOfFraction ((m₁ <<< k) % m₂) m₂) := by
    show (match divCore Format.binary64 m₁ e₁ m₂ e₂ with
      | (m, e, acc) => roundWithAccuracy Format.binary64 (s₁ / s₂) m e acc) = _
    rw [hcore]
  -- shifting the dividend does not change the quotient
  have hval : ((m₁ <<< k : Nat) / m₂ : ℚ) * 2 ^ t = scaled m₁ e₁ / scaled m₂ e₂ := by
    rw [← scaled_shiftLeft m₁ k e₁]
    unfold scaled
    rw [show t = (e₁ - k) - e₂ by omega, zpow_sub₀ (by norm_num)]
    field_simp
  have hpos : 0 < scaled m₁ e₁ / scaled m₂ e₂ := div_pos (scaled_pos h₁ e₁) (scaled_pos h₂ e₂)
  have hx : 0 < ((m₁ <<< k : Nat) / m₂ : ℚ) := by
    have h := hval ▸ hpos
    exact pos_of_mul_pos_left h (by positivity)
  rw [hrun, ← hval]
  refine roundWithAccuracy_holds _ (lies_div _ h₂) hx ?_ ?_
  · refine or_iff_not_imp_right.mpr fun hnormal => Nat.pos_of_ne_zero fun hzero => ?_
    -- a quotient without digits would have its first one below the place `t`
    have hlt : Int.log 2 (scaled m₁ e₁ / scaled m₂ e₂) < t := by
      refine (Int.lt_zpow_iff_log_lt (by norm_num) hpos).mp ?_
      rw [← hval]
      have hx1 := (lies_div (m₁ <<< k) h₂).lt
      rw [hzero] at hx1
      calc ((m₁ <<< k : Nat) / m₂ : ℚ) * 2 ^ t < 1 * 2 ^ t := by
            gcongr
            simpa using hx1
        _ = ((2 : Nat) : ℚ) ^ t := by simp
    omega
  · rw [hval]
    unfold lastPlace
    omega

/-! ## §5. Products -/

/-- **Products are rounded correctly**, if their digits do not begin below the last place. -/
theorem mul_holds {m₁ m₂ : Nat} {e₁ e₂ : Int} (s₁ s₂ : Sign) (h₁ : 0 < m₁) (h₂ : 0 < m₂)
    (hbig : 2 ^ 52 ≤ m₁ * m₂) :
    Holds (UnpackedFloat.mul Format.binary64 (.finite s₁ m₁ e₁ h₁) (.finite s₂ m₂ e₂ h₂))
      (s₁ * s₂) (rounded (scaled m₁ e₁ * scaled m₂ e₂)) := by
  have hpos : 0 < m₁ * m₂ := Nat.mul_pos h₁ h₂
  have hval : scaled m₁ e₁ * scaled m₂ e₂ = (m₁ * m₂ : Nat) * 2 ^ (e₁ + e₂) := by
    unfold scaled
    rw [zpow_add₀ (by norm_num)]
    push_cast
    ring
  have hexact : Lies ((m₁ * m₂ : Nat) : ℚ) (m₁ * m₂) .exact := rfl
  rw [hval]
  refine roundWithAccuracy_holds (s₁ * s₂) hexact (by exact_mod_cast hpos) (.inl hpos) ?_
  have hlog : 52 ≤ (m₁ * m₂).log2 := (Nat.le_log2 hpos.ne').mpr hbig
  have hfirst : Int.log 2 (((m₁ * m₂ : Nat) : ℚ) * 2 ^ (e₁ + e₂))
      = ((m₁ * m₂).log2 : Int) + (e₁ + e₂) := log_scaled hpos (e₁ + e₂)
  unfold lastPlace
  rw [hfirst]
  omega

/-! ## §6. Whole numbers -/

theorem round_holds {m : Nat} (s : Sign) (hm : 0 < m) (e : Int) :
    Holds (UnpackedFloat.round Format.binary64 s m e) s (rounded (scaled m e)) := by
  have htarget :
      Format.binary64.targetExponent (totalExponent m e) = lastPlace (scaled m e) := by
    rw [targetExponent_eq]
    unfold lastPlace
    rw [log_scaled hm]
  set k := (e - lastPlace (scaled m e)).toNat with hk
  have hval : ((m <<< k : Nat) : ℚ) * 2 ^ (e - k : Int) = scaled m e := scaled_shiftLeft m k e
  have hpos : 0 < m <<< k := by
    rw [Nat.shiftLeft_eq]
    positivity
  have hrun : UnpackedFloat.round Format.binary64 s m e
      = roundWithAccuracy Format.binary64 s (m <<< k) (e - k) .exact := by
    unfold UnpackedFloat.round
    rw [htarget]
    rfl
  have hexact : Lies (m <<< k : Nat) (m <<< k) .exact := rfl
  rw [hrun, ← hval]
  refine roundWithAccuracy_holds s hexact (by exact_mod_cast hpos) (.inl hpos) ?_
  rw [hval]
  omega

/-- **Whole numbers are rounded correctly.** -/
theorem ofNat_holds {n : Nat} (hn : 0 < n) :
    Holds (UnpackedFloat.ofNat Format.binary64 n) .positive (rounded n) := by
  have h := round_holds .positive hn 0
  unfold scaled at h
  rw [zpow_zero, mul_one] at h
  unfold UnpackedFloat.ofNat UnpackedFloat.ofInt UnpackedFloat.normalize
  rw [Int.compare_eq_gt.mpr (by omega)]
  exact h

end Annealing.Binary64
