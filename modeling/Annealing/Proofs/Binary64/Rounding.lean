/-
  Annealing.Proofs.Binary64.Rounding
  ──────────────────────────────────
  **ROUNDING TO A DOUBLE, AS A FUNCTION ON NUMBERS.**

  A positive number is rounded at its last place: the 53rd digit from its first
  one, but no place below the least one that a double has.  It goes to the nearest
  multiple of that place, and to the even one of two.

    • `rounded_mono` — rounding keeps the order,
    • `rounded_scaled`, `rounded_scaled_of_lt` — what has at most 53 digits is not
      changed by it.
-/
import Annealing.Proofs.Binary64.Packing

namespace Annealing.Binary64

/-! ## §1. The nearest integer -/

/-- The integer nearest to a number that is not negative; a tie goes to the even one. -/
def nearest (x : ℚ) : Nat :=
  if x - ⌊x⌋₊ < 1 / 2 then ⌊x⌋₊
  else if x - ⌊x⌋₊ = 1 / 2 then ⌊x⌋₊ + ⌊x⌋₊ % 2
  else ⌊x⌋₊ + 1

theorem nearest_natCast (n : Nat) : nearest n = n := by
  unfold nearest
  rw [Nat.floor_natCast, sub_self, if_pos (by norm_num)]

theorem floor_le_nearest (x : ℚ) : ⌊x⌋₊ ≤ nearest x := by
  unfold nearest
  split_ifs <;> omega

theorem nearest_le_floor_add_one (x : ℚ) : nearest x ≤ ⌊x⌋₊ + 1 := by
  unfold nearest
  split_ifs <;> omega

theorem nearest_mono {x y : ℚ} (h : x ≤ y) : nearest x ≤ nearest y := by
  rcases (Nat.floor_le_floor h).lt_or_eq with hlt | heq
  -- an integer lies between them, and neither is rounded past it
  · exact (nearest_le_floor_add_one x).trans ((Nat.succ_le_of_lt hlt).trans (floor_le_nearest y))
  · unfold nearest
    rw [heq]
    grind

theorem nearest_le {x : ℚ} {n : Nat} (h : x ≤ n) : nearest x ≤ n := by
  have hmono := nearest_mono h
  rwa [nearest_natCast] at hmono

theorem le_nearest {x : ℚ} {n : Nat} (h : n ≤ x) : n ≤ nearest x := by
  have hmono := nearest_mono h
  rwa [nearest_natCast] at hmono

/-! ## §2. Mantissas with an exponent -/

/-- The number that a mantissa and an exponent stand for. -/
def scaled (m : Nat) (e : Int) : ℚ := m * 2 ^ e

theorem scaled_pos {m : Nat} (hm : 0 < m) (e : Int) : 0 < scaled m e := by
  have : (0 : ℚ) < m := by exact_mod_cast hm
  unfold scaled
  positivity

@[simp] theorem scaled_zero_right (m : Nat) : scaled m 0 = m := by
  unfold scaled
  rw [zpow_zero, mul_one]

theorem scaled_shiftLeft (m k : Nat) (e : Int) : scaled (m <<< k) (e - k) = scaled m e := by
  unfold scaled
  rw [Nat.shiftLeft_eq, zpow_sub₀ (by norm_num), zpow_natCast]
  push_cast
  field_simp

/-- With a larger exponent, a mantissa of 53 digits reaches past all mantissas. -/
theorem two_pow_mul_le_scaled {m' : Nat} {e e' : Int} (hm' : 2 ^ 52 ≤ m') (h : e < e') :
    (2 : ℚ) ^ 53 * 2 ^ e ≤ scaled m' e' := by
  unfold scaled
  calc (2 : ℚ) ^ 53 * 2 ^ e = 2 ^ 52 * 2 ^ (e + 1) := by rw [zpow_add₀ (by norm_num)]; ring
    _ ≤ (m' : ℚ) * 2 ^ e' := by
        gcongr
        · exact_mod_cast hm'
        · norm_num
        · omega

theorem scaled_le_of_lt {m m' : Nat} {e e' : Int} (hm : m ≤ 2 ^ 53) (hm' : 2 ^ 52 ≤ m')
    (h : e < e') : scaled m e ≤ scaled m' e' := by
  refine le_trans ?_ (two_pow_mul_le_scaled hm' h)
  unfold scaled
  gcongr
  exact_mod_cast hm

theorem scaled_lt_of_lt {m m' : Nat} {e e' : Int} (hm : m < 2 ^ 53) (hm' : 2 ^ 52 ≤ m')
    (h : e < e') : scaled m e < scaled m' e' := by
  refine lt_of_lt_of_le ?_ (two_pow_mul_le_scaled hm' h)
  unfold scaled
  gcongr
  exact_mod_cast hm

/-- The first digit of a number whose integer part is `m`. -/
theorem log_mul_two_zpow {x : ℚ} {m : Nat} (hm : 0 < m) (hle : m ≤ x) (hlt : x < m + 1)
    (e : Int) : Int.log 2 (x * 2 ^ e) = m.log2 + e := by
  have hx : 0 < x := lt_of_lt_of_le (by exact_mod_cast hm) hle
  refine le_antisymm ?_ ?_
  · refine Int.lt_add_one_iff.mp
      ((Int.lt_zpow_iff_log_lt (by norm_num) (by positivity)).mp ?_)
    have hup : x < 2 ^ (m.log2 + 1) := hlt.trans_le (by exact_mod_cast Nat.lt_log2_self (n := m))
    calc x * 2 ^ e < 2 ^ (m.log2 + 1) * 2 ^ e := by gcongr
      _ = ((2 : Nat) : ℚ) ^ (m.log2 + e + 1 : Int) := by
        rw [← zpow_natCast, ← zpow_add₀ (by norm_num)]
        push_cast
        congr 1
        ring
  · refine (Int.zpow_le_iff_le_log (by norm_num) (by positivity)).mp ?_
    have hlow : 2 ^ m.log2 ≤ x := le_trans (by exact_mod_cast Nat.log2_self_le hm.ne') hle
    calc ((2 : Nat) : ℚ) ^ (m.log2 + e : Int) = 2 ^ m.log2 * 2 ^ e := by
          rw [zpow_add₀ (by norm_num)]
          norm_num
      _ ≤ x * 2 ^ e := by gcongr

theorem log_scaled {m : Nat} (hm : 0 < m) (e : Int) : Int.log 2 (scaled m e) = m.log2 + e :=
  log_mul_two_zpow hm le_rfl (lt_add_one _) e

/-! ## §3. The last place -/

/-- The exponent of the last digit that a double keeps of a positive number. -/
def lastPlace (v : ℚ) : Int := max (Int.log 2 v - 52) (-1074)

theorem le_lastPlace (v : ℚ) : -1074 ≤ lastPlace v := le_max_right _ _

theorem lastPlace_mono {v w : ℚ} (hv : 0 < v) (h : v ≤ w) : lastPlace v ≤ lastPlace w := by
  have hlog := Int.log_mono_right (b := 2) hv h
  unfold lastPlace
  omega

/-- In units of its last place a number has 53 digits, and rounding makes it no longer. -/
theorem nearest_div_le (v : ℚ) : nearest (v / 2 ^ lastPlace v) ≤ 2 ^ 53 := by
  refine nearest_le ?_
  rw [div_le_iff₀ (by positivity)]
  calc v ≤ 2 ^ (Int.log 2 v + 1) :=
        le_of_lt (mod_cast Int.lt_zpow_succ_log_self (b := 2) (by norm_num) v)
    _ ≤ 2 ^ (53 + lastPlace v) := zpow_le_zpow_right₀ (by norm_num) (by unfold lastPlace; omega)
    _ = ((2 ^ 53 : Nat) : ℚ) * 2 ^ lastPlace v := by rw [zpow_add₀ (by norm_num)]; norm_num

/-- It has no fewer, except at the least place of all. -/
theorem le_nearest_div {v : ℚ} (hv : 0 < v) (h : lastPlace v ≠ -1074) :
    2 ^ 52 ≤ nearest (v / 2 ^ lastPlace v) := by
  refine le_nearest ?_
  rw [le_div_iff₀ (by positivity)]
  have hlast : lastPlace v = Int.log 2 v - 52 := by
    unfold lastPlace at h ⊢
    omega
  calc ((2 ^ 52 : Nat) : ℚ) * 2 ^ lastPlace v = 2 ^ (Int.log 2 v) := by
        rw [hlast, Nat.cast_pow, Nat.cast_ofNat, ← zpow_natCast, ← zpow_add₀ (by norm_num)]
        congr 1
        norm_num
    _ ≤ v := mod_cast Int.zpow_log_le_self (b := 2) (by norm_num) hv

/-! ## §4. Rounding -/

/-- **The double nearest to a positive number**, as a number; too large a number is rounded
as if there were no largest exponent. -/
def rounded (v : ℚ) : ℚ := scaled (nearest (v / 2 ^ lastPlace v)) (lastPlace v)

/-- **Rounding keeps the order.** -/
theorem rounded_mono {v w : ℚ} (hv : 0 < v) (h : v ≤ w) : rounded v ≤ rounded w := by
  unfold rounded
  rcases (lastPlace_mono hv h).lt_or_eq with hlt | heq
  · have hne : lastPlace w ≠ -1074 := by
      have := le_lastPlace v
      omega
    exact scaled_le_of_lt (nearest_div_le v) (le_nearest_div (hv.trans_le h) hne) hlt
  · rw [heq]
    unfold scaled
    gcongr
    exact nearest_mono (by gcongr)

theorem lastPlace_scaled {m : Nat} {e : Int} (hm : 0 < m) (hc : Canonical m e) :
    lastPlace (scaled m e) = e := by
  have hlt : m.log2 < 53 := (Nat.log2_lt hm.ne').mpr hc.mantissa_lt
  have hge := hc.exponent_ge
  unfold lastPlace
  rw [log_scaled hm]
  rcases hc.normal with hbig | hsmall
  · have : 52 ≤ m.log2 := (Nat.le_log2 hm.ne').mpr hbig
    omega
  · omega

/-- **What a double stands for is not rounded.** -/
theorem rounded_scaled {m : Nat} {e : Int} (hm : 0 < m) (hc : Canonical m e) :
    rounded (scaled m e) = scaled m e := by
  unfold rounded
  rw [lastPlace_scaled hm hc]
  unfold scaled
  rw [mul_div_cancel_right₀ _ (by positivity), nearest_natCast]

/-- Nor is any other number of at most 53 digits. -/
theorem rounded_scaled_of_lt {n : Nat} {e : Int} (hn : 0 < n) (hlt : n < 2 ^ 53)
    (he : -1074 ≤ e) : rounded (scaled n e) = scaled n e := by
  have hlog : n.log2 < 53 := (Nat.log2_lt hn.ne').mpr hlt
  have hfirst := log_scaled hn e
  obtain ⟨k, hk⟩ : ∃ k : Nat, lastPlace (scaled n e) = e - k := by
    refine ⟨(e - lastPlace (scaled n e)).toNat, ?_⟩
    unfold lastPlace
    omega
  have hunits : scaled n e / 2 ^ (e - k) = (n <<< k : Nat) := by
    rw [← scaled_shiftLeft n k e]
    unfold scaled
    rw [mul_div_cancel_right₀ _ (by positivity)]
  unfold rounded
  rw [hk, hunits, nearest_natCast, scaled_shiftLeft]

/-- A whole number of at most 53 digits is not rounded. -/
theorem rounded_natCast {n : Nat} (hn : 0 < n) (hlt : n < 2 ^ 53) : rounded n = n := by
  have h := rounded_scaled_of_lt hn hlt (by norm_num : -1074 ≤ (0 : Int))
  rwa [scaled_zero_right] at h

end Annealing.Binary64
