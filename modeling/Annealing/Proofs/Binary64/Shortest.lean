/-
  Annealing.Proofs.Binary64.Shortest
  ──────────────────────────────────
  **THE SHORTEST DECIMAL OF A DOUBLE ROUNDS TO IT.**

  The numbers that round to a double are those nearer to it than to its
  neighbours: half a unit of its last place to either side, but only a quarter
  below a power of two, where the units are half as large; and both ends if the
  mantissa is even.  The search for the shortest decimal reads this interval off
  the bits, in whole steps, and only ever takes a decimal that lies in it.

    • `Near.rounded_eq` — what lies in the interval rounds to the double,
    • `Covers.near_of_holds` — what the search accepts lies in the interval,
    • `covers_ofBits` — the interval is the one of the double whose bits they are,
    • `shortest_near` — so is the shortest decimal.
-/
import Annealing.Proofs.Binary64.Bits

namespace Annealing

/-- The number that a decimal is. -/
def Decimal.value (d : Decimal) : ℚ := d.coefficient * 10 ^ d.exponent

namespace Binary64

open Decimal (Span)

/-! ## §1. The interval of a double -/

/-- How far the interval reaches below the double, in units of its last place. -/
def gapBelow (m : Nat) (e : Int) : ℚ := if m = 2 ^ 52 ∧ e ≠ -1074 then 1 / 4 else 1 / 2

/-- **The number lies in the interval of this mantissa and exponent.** -/
structure Near (m : Nat) (e : Int) (q : ℚ) : Prop where
  le : (m - gapBelow m e) * 2 ^ e ≤ q
  ge : q ≤ (m + 1 / 2) * 2 ^ e
  lt : m % 2 = 1 → (m - gapBelow m e) * 2 ^ e < q ∧ q < (m + 1 / 2) * 2 ^ e

theorem gapBelow_le (m : Nat) (e : Int) : gapBelow m e ≤ 1 / 2 := by
  unfold gapBelow
  split <;> norm_num

theorem gapBelow_pos (m : Nat) (e : Int) : 0 < gapBelow m e := by
  unfold gapBelow
  split <;> norm_num

theorem near_self (m : Nat) (e : Int) : Near m e (scaled m e) := by
  have hgap := gapBelow_pos m e
  have hlow : (m - gapBelow m e) * 2 ^ e < scaled m e := by
    unfold scaled
    gcongr
    linarith
  have hhigh : scaled m e < (m + 1 / 2) * 2 ^ e := by
    unfold scaled
    gcongr
    linarith
  exact ⟨hlow.le, hhigh.le, fun _ => ⟨hlow, hhigh⟩⟩

/-- A number at most half a unit from `m` is rounded to it; at a distance of just half a unit
only if `m` is even. -/
theorem nearest_eq_of_near {x : ℚ} {m : Nat} (hm : 0 < m) (hle : (m : ℚ) - 1 / 2 ≤ x)
    (hge : x ≤ m + 1 / 2) (hodd : m % 2 = 1 → (m : ℚ) - 1 / 2 < x ∧ x < m + 1 / 2) :
    nearest x = m := by
  have heven : x = m + 1 / 2 ∨ x = m - 1 / 2 → m % 2 = 0 := by
    rintro (h | h) <;> by_contra hne
    · exact absurd h (hodd (by omega)).2.ne
    · exact absurd h (hodd (by omega)).1.ne'
  unfold nearest
  by_cases hx : (m : ℚ) ≤ x
  · have hfloor : ⌊x⌋₊ = m :=
      (Nat.floor_eq_iff ((Nat.cast_nonneg m).trans hx)).mpr ⟨hx, by linarith⟩
    rw [hfloor]
    rcases hge.lt_or_eq with hlt | heq
    · rw [if_pos (by linarith)]
    · rw [if_neg (by linarith), if_pos (by linarith), heven (.inl heq)]
      rfl
  -- the number is in the upper half of the unit below
  · obtain ⟨k, rfl⟩ : ∃ k, m = k + 1 := ⟨m - 1, by omega⟩
    push_cast at hx hle hge heven
    have hk : (0 : ℚ) ≤ k := Nat.cast_nonneg k
    have hfloor : ⌊x⌋₊ = k := (Nat.floor_eq_iff (by linarith)).mpr ⟨by linarith, by linarith⟩
    rw [hfloor]
    rcases hle.lt_or_eq with hlt | heq
    · rw [if_neg (by linarith), if_neg (by intro h; linarith)]
    · have hdigit := heven (.inr (by linarith))
      rw [if_neg (by linarith), if_pos (by linarith)]
      omega

theorem lastPlace_of_bounds {q : ℚ} {e : Int} (hlow : (2 : ℚ) ^ (e + 52) ≤ q)
    (hhigh : q < 2 ^ (e + 53)) (he : -1074 ≤ e) : lastPlace q = e := by
  have hpos : 0 < q := lt_of_lt_of_le (by positivity) hlow
  have hle : e + 52 ≤ Int.log 2 q :=
    (Int.zpow_le_iff_le_log (by norm_num) hpos).mp (by exact_mod_cast hlow)
  have hlt : Int.log 2 q < e + 53 :=
    (Int.lt_zpow_iff_log_lt (by norm_num) hpos).mp (by exact_mod_cast hhigh)
  unfold lastPlace
  omega

namespace Near

variable {m : Nat} {e : Int} {q : ℚ}

theorem pos (h : Near m e q) (hm : 0 < m) : 0 < q := by
  have hgap := gapBelow_le m e
  have hone : (1 : ℚ) ≤ m := by exact_mod_cast hm
  have hlow : (0 : ℚ) < m - gapBelow m e := by linarith
  exact lt_of_lt_of_le (by positivity) h.le

theorem lt_two_zpow (h : Near m e q) (hc : Canonical m e) : q < 2 ^ (e + 53) := by
  have hdigits : (m : ℚ) + 1 ≤ 2 ^ 53 := by exact_mod_cast hc.mantissa_lt
  calc q ≤ (m + 1 / 2) * 2 ^ e := h.ge
    _ < 2 ^ 53 * 2 ^ e := by
      gcongr
      linarith
    _ = 2 ^ (e + 53) := by rw [zpow_add₀ (by norm_num), zpow_ofNat, mul_comm]

/-- Below a power of two the last place is the next one. -/
theorem rounded_of_lt (h : Near (2 ^ 52) e q) (hc : Canonical (2 ^ 52) e) (he : e ≠ -1074)
    (hq : q < 2 ^ 52 * 2 ^ e) : rounded q = scaled (2 ^ 52) e := by
  have hge := hc.exponent_ge
  have hunit : (0 : ℚ) < 2 ^ (e - 1) := by positivity
  have hsplit : (2 : ℚ) ^ e = 2 * 2 ^ (e - 1) := by
    rw [zpow_sub₀ (by norm_num)]
    ring
  have hgap : gapBelow (2 ^ 52) e = 1 / 4 := if_pos ⟨rfl, he⟩
  have hlow := h.le
  rw [hgap, hsplit] at hlow
  push_cast at hlow
  rw [hsplit] at hq
  have hlast : lastPlace q = e - 1 := by
    refine lastPlace_of_bounds ?_ ?_ (by omega)
    · refine le_trans ?_ hlow
      rw [zpow_add₀ (by norm_num), zpow_ofNat]
      linarith
    · refine lt_of_lt_of_eq hq ?_
      rw [zpow_add₀ (by norm_num), zpow_ofNat]
      ring
  have hnearest : nearest (q / 2 ^ (e - 1)) = 2 ^ 53 := by
    refine nearest_eq_of_near (by norm_num) ?_ ?_ (fun h => absurd h (by norm_num))
    · rw [le_div_iff₀ hunit]
      push_cast
      linarith
    · rw [div_le_iff₀ hunit]
      push_cast
      linarith
  unfold rounded scaled
  rw [hlast, hnearest, hsplit]
  push_cast
  ring

/-- Elsewhere it is that of the double. -/
theorem lastPlace_eq (h : Near m e q) (hm : 0 < m) (hc : Canonical m e)
    (hq : m = 2 ^ 52 → e ≠ -1074 → 2 ^ 52 * 2 ^ e ≤ q) : lastPlace q = e := by
  have hhigh := h.lt_two_zpow hc
  by_cases he : e = -1074
  · subst he
    have hlt : Int.log 2 q < -1074 + 53 :=
      (Int.lt_zpow_iff_log_lt (by norm_num) (h.pos hm)).mp (by exact_mod_cast hhigh)
    unfold lastPlace
    omega
  · refine lastPlace_of_bounds ?_ hhigh hc.exponent_ge
    rw [zpow_add₀ (by norm_num), mul_comm, zpow_ofNat]
    rcases (hc.normal.resolve_right he).lt_or_eq with hlt | heq
    · have hgap := gapBelow_le m e
      have hdigits : (2 : ℚ) ^ 52 + 1 ≤ m := by exact_mod_cast hlt
      refine le_trans ?_ h.le
      gcongr
      linarith
    · exact hq heq.symm he

/-- **Every number in the interval of a double is rounded to it.** -/
theorem rounded_eq (h : Near m e q) (hm : 0 < m) (hc : Canonical m e) :
    rounded q = scaled m e := by
  by_cases hbelow : (m = 2 ^ 52 ∧ e ≠ -1074) ∧ q < 2 ^ 52 * 2 ^ e
  · obtain ⟨⟨rfl, he⟩, hq⟩ := hbelow
    exact h.rounded_of_lt hc he hq
  · have hlast := h.lastPlace_eq hm hc fun hpower he =>
      not_lt.mp fun hq => hbelow ⟨⟨hpower, he⟩, hq⟩
    have hgap := gapBelow_le m e
    have hunit : (0 : ℚ) < 2 ^ e := by positivity
    have hnearest : nearest (q / 2 ^ e) = m := by
      refine nearest_eq_of_near hm ?_ ((div_le_iff₀ hunit).mpr h.ge) fun hodd => ?_
      · exact le_trans (by linarith) ((le_div_iff₀ hunit).mpr h.le)
      · obtain ⟨hlow, hhigh⟩ := h.lt hodd
        exact ⟨lt_of_le_of_lt (by linarith) ((lt_div_iff₀ hunit).mpr hlow),
          (div_lt_iff₀ hunit).mpr hhigh⟩
    unfold rounded
    rw [hlast, hnearest]

end Near

/-! ## §2. The search in an interval -/

/-- The decimal in the form in which the search compares it. -/
theorem value_eq_div (d : Decimal) :
    d.value = d.coefficient * 10 ^ d.exponent.toNat / 10 ^ (-d.exponent).toNat := by
  have hten : (10 : ℚ) ^ d.exponent = 10 ^ d.exponent.toNat / 10 ^ (-d.exponent).toNat := by
    rw [← zpow_natCast, ← zpow_natCast, ← zpow_sub₀ (by norm_num)]
    congr 1
    omega
  unfold Decimal.value
  rw [hten, mul_div_assoc]

/-- Moving zeros from the coefficient to the exponent does not change the number. -/
theorem value_trim (d : Decimal) : d.trim.value = d.value := by
  induction d using Decimal.trim.induct with
  | case1 d h ih =>
      obtain ⟨c, hc⟩ : ∃ c, d.coefficient = 10 * c := ⟨d.coefficient / 10, by omega⟩
      rw [Decimal.trim, dif_pos h, ih]
      unfold Decimal.value
      simp only [hc]
      rw [Nat.mul_div_cancel_left c (by norm_num), zpow_add₀ (by norm_num)]
      push_cast
      ring
  | case2 d h => rw [Decimal.trim, dif_neg h]

/-- **The span is the interval of this mantissa and exponent**, in its own steps. -/
structure Covers (s : Span) (m : Nat) (e : Int) : Prop where
  lower_eq : (s.lower : ℚ) = (m - gapBelow m e) * 2 ^ e * 2 ^ s.shift
  value_eq : (s.value : ℚ) = m * 2 ^ e * 2 ^ s.shift
  upper_eq : (s.upper : ℚ) = (m + 1 / 2) * 2 ^ e * 2 ^ s.shift
  closed_iff : s.closed = true ↔ m % 2 = 0

namespace Covers

variable {s : Span} {m : Nat} {e : Int}

/-- **What the search accepts lies in the interval.** -/
theorem near_of_holds (hs : Covers s m e) {d : Decimal} (h : s.holds d = true) :
    Near m e d.value := by
  have hdown : (0 : ℚ) < 10 ^ (-d.exponent).toNat := by positivity
  have hshift : (0 : ℚ) < 2 ^ s.shift := by positivity
  -- the decimal and the ends, as whole numbers of common steps
  have hvalue : ((d.coefficient * Nat.pow 10 d.exponent.toNat * Nat.pow 2 s.shift : Nat) : ℚ)
      = d.value * 2 ^ s.shift * 10 ^ (-d.exponent).toNat := by
    rw [value_eq_div]
    field_simp
    norm_num
  have hend : ∀ {a : Nat} {q : ℚ}, (a : ℚ) = q * 2 ^ s.shift →
      ((a * Nat.pow 10 (-d.exponent).toNat : Nat) : ℚ)
        = q * 2 ^ s.shift * 10 ^ (-d.exponent).toNat := by
    intro a q ha
    rw [← ha]
    norm_num
  have hlower := hend hs.lower_eq
  have hupper := hend hs.upper_eq
  unfold Span.holds at h
  cases hclosed : s.closed with
  | true =>
      have heven := hs.closed_iff.mp hclosed
      simp only [hclosed, if_true, Bool.and_eq_true, decide_eq_true_eq] at h
      have hlow := Nat.cast_le (α := ℚ).mpr h.1
      have hhigh := Nat.cast_le (α := ℚ).mpr h.2
      rw [hlower, hvalue] at hlow
      rw [hupper, hvalue] at hhigh
      exact ⟨le_of_mul_le_mul_right (le_of_mul_le_mul_right hlow hdown) hshift,
        le_of_mul_le_mul_right (le_of_mul_le_mul_right hhigh hdown) hshift,
        fun hodd => absurd heven (by omega)⟩
  | false =>
      simp only [hclosed, Bool.false_eq_true, if_false, Bool.and_eq_true, decide_eq_true_eq] at h
      have hlow := Nat.cast_lt (α := ℚ).mpr h.1
      have hhigh := Nat.cast_lt (α := ℚ).mpr h.2
      rw [hlower, hvalue] at hlow
      rw [hupper, hvalue] at hhigh
      have hleft := lt_of_mul_lt_mul_right (lt_of_mul_lt_mul_right hlow hdown.le) hshift.le
      have hright := lt_of_mul_lt_mul_right (lt_of_mul_lt_mul_right hhigh hdown.le) hshift.le
      exact ⟨hleft.le, hright.le, fun _ => ⟨hleft, hright⟩⟩

theorem near_of_onGrid (hs : Covers s m e) {tie : Decimal.Tie} {k : Int} {d : Decimal}
    (h : s.onGrid? tie k = some d) : Near m e d.value := by
  refine hs.near_of_holds ?_
  unfold Span.onGrid? at h
  simp only at h
  split at h
  next hlow hhigh =>
    obtain rfl := Option.some.inj h
    split
    · exact hlow
    · exact hhigh
  next hlow _ => exact Option.some.inj h ▸ hlow
  next _ hhigh => exact Option.some.inj h ▸ hhigh
  next => cases h

/-- Written out in full, the number is itself. -/
theorem value_exact (hs : Covers s m e) : s.exact.value = scaled m e := by
  have hfive : ((s.value * Nat.pow 5 s.shift : Nat) : ℚ) = (s.value : ℚ) * 5 ^ s.shift := by
    norm_num
  have hten : (10 : ℚ) ^ s.shift = 2 ^ s.shift * 5 ^ s.shift := by
    rw [← mul_pow]
    norm_num
  unfold Decimal.value Span.exact scaled
  simp only
  rw [hfive, hs.value_eq, zpow_neg, zpow_natCast, hten]
  field_simp

/-- Whichever grid the search ends on, what it takes lies in the interval. -/
theorem near_shortest (hs : Covers s m e) (tie : Decimal.Tie) :
    Near m e (s.shortest tie).value := by
  unfold Span.shortest
  simp only
  rw [value_trim]
  cases h : (List.range 17).findSome? fun (n : Nat) => s.onGrid? tie (s.magnitude - (n + 1)) with
  | none =>
      rw [Option.getD_none, hs.value_exact]
      exact near_self m e
  | some d =>
      obtain ⟨n, -, hn⟩ := List.exists_of_findSome?_eq_some h
      exact hs.near_of_onGrid hn

end Covers

/-! ## §3. The interval in the bits -/

/-- The steps of the search, in quarters of the last place of a double. -/
theorem two_pow_sub_eq (p : Nat) :
    ((2 ^ (p - 1077) : Nat) : ℚ) = 2 ^ ((p : Int) - 1075) * 2 ^ (1077 - p) / 4 := by
  rw [Nat.cast_pow, Nat.cast_ofNat, ← zpow_natCast, ← zpow_natCast, ← zpow_add₀ (by norm_num),
    eq_div_iff (by norm_num), show (4 : ℚ) = 2 ^ (2 : Int) by norm_num,
    ← zpow_add₀ (by norm_num)]
  congr 1
  omega

/-- The gap below the number, which is a power of two if its fraction is zero and its exponent
is not the least one. -/
theorem four_mul_sub_eq {f r m p : Nat} (hlt : r < 2 ^ 52)
    (hm : (if f = 0 then r else r + 2 ^ 52) = m) (hp : max f 1 = p) (hpos : 0 < m) :
    ((4 * m - (if r = 0 ∧ 1 < f then 1 else 2) : Nat) : ℚ) = 4 * (m - gapBelow m (p - 1075)) := by
  unfold gapBelow
  by_cases h : r = 0 ∧ 1 < f
  · have hpower : m = 2 ^ 52 ∧ (p : Int) - 1075 ≠ -1074 := by
      rw [if_neg (by omega)] at hm
      omega
    rw [if_pos h, if_pos hpower, Nat.cast_sub (by omega)]
    push_cast
    ring
  · have hpower : ¬ (m = 2 ^ 52 ∧ (p : Int) - 1075 ≠ -1074) := by
      split at hm <;> omega
    rw [if_neg h, if_neg hpower, Nat.cast_sub (by omega)]
    push_cast
    ring

/-- The interval is computed from the fields of the bits. -/
theorem covers_of_fields {bits : UInt64} {f r m p : Nat} (hf : (bits >>> 52).toNat % 2048 = f)
    (hr : bits.toNat % 2 ^ 52 = r) (hm : (if f = 0 then r else r + 2 ^ 52) = m)
    (hp : max f 1 = p) (hpos : 0 < m) : Covers (Span.ofBits bits) m (p - 1075) := by
  have hlt : r < 2 ^ 52 := by
    rw [← hr]
    exact Nat.mod_lt _ (by decide)
  have hstep := two_pow_sub_eq p
  have hgap := four_mul_sub_eq hlt hm hp hpos
  have hspan : Span.ofBits bits
      = { lower := (4 * m - (if r = 0 ∧ 1 < f then 1 else 2)) * 2 ^ (p - 1077)
          value := 4 * m * 2 ^ (p - 1077)
          upper := (4 * m + 2) * 2 ^ (p - 1077)
          shift := 1077 - p
          closed := m % 2 = 0 } := by
    subst hf hr hm hp
    rfl
  rw [hspan]
  constructor
  case lower_eq =>
    show (((4 * m - _) * 2 ^ (p - 1077) : Nat) : ℚ) = _ * 2 ^ (1077 - p)
    rw [Nat.cast_mul, hgap, hstep]
    ring
  case value_eq =>
    show ((4 * m * 2 ^ (p - 1077) : Nat) : ℚ) = _ * 2 ^ (1077 - p)
    rw [Nat.cast_mul, hstep]
    push_cast
    ring
  case upper_eq =>
    show (((4 * m + 2) * 2 ^ (p - 1077) : Nat) : ℚ) = _ * 2 ^ (1077 - p)
    rw [Nat.cast_mul, hstep]
    push_cast
    ring
  case closed_iff => exact decide_eq_true_iff

/-- **The bits of a double, without the sign, have its interval.** -/
theorem covers_ofBits {x : Float} (hm : 0 < mantissa x) :
    Covers (Span.ofBits (x.toBits &&& 0x7fffffffffffffff)) (mantissa x) (place x) := by
  have hbits := toNat_magnitudeBits x
  have hfield : ((x.toBits &&& 0x7fffffffffffffff) >>> 52).toNat % 2048 = exponentField x := by
    rw [UInt64.toNat_shiftRight, hbits, Nat.shiftRight_eq_div_pow]
    show x.toBits.toNat % 2 ^ 63 / 2 ^ 52 % 2048 = x.toBits.toNat / 2 ^ 52 % 2048
    omega
  have hfraction : (x.toBits &&& 0x7fffffffffffffff).toNat % 2 ^ 52 = fractionField x := by
    rw [hbits]
    show x.toBits.toNat % 2 ^ 63 % 2 ^ 52 = x.toBits.toNat % 2 ^ 52
    omega
  have hmantissa : (if exponentField x = 0 then fractionField x else fractionField x + 2 ^ 52)
      = mantissa x := by
    unfold mantissa
    rw [Nat.add_comm]
  have hplace : ((max (exponentField x) 1 : Nat) : Int) - 1075 = place x := by
    unfold place
    omega
  rw [← hplace]
  exact covers_of_fields hfield hfraction hmantissa rfl hm

/-- **The shortest decimal of a double lies in its interval.** -/
theorem shortest_near {x : Float} (hm : 0 < mantissa x) (tie : Decimal.Tie) :
    Near (mantissa x) (place x) (Decimal.shortest tie x).value := by
  have hbits : ¬ x.toBits &&& 0x7fffffffffffffff = 0 := fun h =>
    hm.ne' ((magnitudeBits_eq_zero_iff x).mp h)
  unfold Decimal.shortest
  simp only
  rw [if_neg hbits]
  exact (covers_ofBits hm).near_shortest tie

theorem shortest_of_mantissa_eq_zero {x : Float} (hm : mantissa x = 0) (tie : Decimal.Tie) :
    Decimal.shortest tie x = ⟨0, 0⟩ := if_pos ((magnitudeBits_eq_zero_iff x).mpr hm)

end Binary64

end Annealing
