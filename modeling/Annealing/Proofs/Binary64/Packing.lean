/-
  Annealing.Proofs.Binary64.Packing
  ─────────────────────────────────
  **DOUBLES AND WHAT THEIR BITS STAND FOR.**

  A double is NaN, an infinity, a zero, or a sign with a mantissa and an exponent;
  `parts` reads this off its bits.  Every operation works on the parts of its
  arguments and stores the result, and storing keeps a result as it is unless its
  exponent is too large.

    • `refit_finite` — a number in canonical form is kept, or overflows,
    • `signOf_refit` — storing keeps the sign, of zeros and infinities too.
-/
import Mathlib

namespace Annealing.Binary64

open Float.Model Float.Model.UnpackedFloat

/-! ## §1. Reading and storing -/

/-- What a double stands for. -/
def parts (x : Float) : UnpackedFloat := x.toModel.unpack

/-- What is read back when a result is stored. -/
def refit (f : UnpackedFloat) : UnpackedFloat := (pack f).unpack

theorem parts_mul (x y : Float) :
    parts (x * y) = refit (UnpackedFloat.mul Format.binary64 (parts x) (parts y)) := rfl

theorem parts_div (x y : Float) :
    parts (x / y) = refit (UnpackedFloat.div Format.binary64 (parts x) (parts y)) := rfl

theorem parts_add (x y : Float) :
    parts (x + y) = refit (UnpackedFloat.add Format.binary64 (parts x) (parts y)) := rfl

theorem parts_sub (x y : Float) :
    parts (x - y) = refit (UnpackedFloat.sub Format.binary64 (parts x) (parts y)) := rfl

theorem parts_neg (x : Float) :
    parts (-x) = refit (UnpackedFloat.neg (parts x)) := rfl

theorem parts_toFloat (n : UInt64) :
    parts n.toFloat = refit (UnpackedFloat.ofNat Format.binary64 n.toNat) := rfl

theorem le_iff (x y : Float) : x ≤ y ↔ (parts x).le (parts y) = true := by
  show decide (x.toModel ≤ y.toModel) = true ↔ _
  rw [decide_eq_true_eq]
  rfl

theorem lt_iff (x y : Float) : x < y ↔ (parts x).lt (parts y) = true := by
  show decide (x.toModel < y.toModel) = true ↔ _
  rw [decide_eq_true_eq]
  rfl

/-! ## §2. What storing keeps -/

@[simp] theorem refit_notANumber : refit .notANumber = .notANumber := by
  show UnpackedFloat.unpack Format.binary64 (packedNaN Format.binary64) = _
  exact unpack_packedNaN

@[simp] theorem refit_zero (s : Sign) : refit (.zero s) = .zero s := unpack_packedZero

@[simp] theorem refit_infinity (s : Sign) : refit (.infinity s) = .infinity s := by
  cases s <;> rfl

/-- A mantissa and an exponent as a double stores them: 53 digits, of which the first is
not zero unless the exponent is the least one. -/
structure Canonical (m : Nat) (e : Int) : Prop where
  mantissa_lt : m < 2 ^ 53
  exponent_ge : -1074 ≤ e
  normal : 2 ^ 52 ≤ m ∨ e = -1074

theorem ofNat_eleven_ne {n : Nat} (h : n + 1 < 2 ^ 11) : BitVec.ofNat 11 n ≠ -1#11 := by
  intro heq
  have hn := congrArg BitVec.toNat heq
  rw [BitVec.toNat_ofNat, Nat.mod_eq_of_lt (by omega)] at hn
  have : (-1#11).toNat = 2047 := by decide
  omega

theorem ofNat_ne_zero {w n : Nat} (hpos : 0 < n) (hlt : n < 2 ^ w) : BitVec.ofNat w n ≠ 0#w := by
  intro heq
  have hn := congrArg BitVec.toNat heq
  rw [BitVec.toNat_ofNat, Nat.mod_eq_of_lt hlt, BitVec.toNat_ofNat, Nat.zero_mod] at hn
  omega

theorem unpack_packComponents_normal (s : Sign) {e : BitVec 11} (m : BitVec 52)
    (htop : e ≠ -1#11) (hzero : e ≠ 0#11) :
    UnpackedFloat.unpack Format.binary64 (packComponents Format.binary64 s e m)
      = .finite s (2 ^ 52 + m.toNat) (e.toNat - 1075) (by omega) := by
  -- the leading digit is not stored; the exponent says that it is there
  have hval : (1#1 ++ m).toNat = 2 ^ 52 + m.toNat := by
    rw [BitVec.toNat_append, ← Nat.shiftLeft_add_eq_or_of_lt m.isLt]
    rfl
  unfold UnpackedFloat.unpack
  simp only [unpackMantissa_packComponents, unpackExponent_packComponents,
    unpackSign_packComponents, Sign.ofBitVec_toBitVec, if_neg htop, if_neg hzero, hval]
  rfl

theorem unpack_packComponents_subnormal (s : Sign) {m : BitVec 52} (hm : 0 < m.toNat) :
    UnpackedFloat.unpack Format.binary64 (packComponents Format.binary64 s 0#11 m)
      = .finite s m.toNat (-1074) hm := by
  have hne : m ≠ 0#52 := by
    rintro rfl
    exact absurd hm (by decide)
  unfold UnpackedFloat.unpack
  simp only [unpackMantissa_packComponents, unpackExponent_packComponents,
    unpackSign_packComponents, Sign.ofBitVec_toBitVec]
  rw [if_neg (by decide), if_pos trivial, dif_neg hne]
  rfl

/-- **A number in canonical form is stored as it is**, unless it is too large. -/
theorem refit_finite {m : Nat} {e : Int} (s : Sign) (hm : 0 < m) (hc : Canonical m e) :
    refit (.finite s m e hm) = if e ≤ 971 then .finite s m e hm else .infinity s := by
  obtain ⟨hlt, hge, hnormal⟩ := hc
  show UnpackedFloat.unpack Format.binary64 (UnpackedFloat.pack Format.binary64 _) = _
  unfold UnpackedFloat.pack
  show UnpackedFloat.unpack Format.binary64
    (if 2 ^ 11 ≤ (e + 1023 + 52).toNat + 1 then packedInfinity Format.binary64 s
      else if m.log2 + 1 = 53 then
        packComponents Format.binary64 s (.ofNat 11 (e + 1023 + 52).toNat) (.ofNat 52 m)
      else packComponents Format.binary64 s 0#11 (.ofNat 52 m)) = _
  by_cases he : e ≤ 971
  · rw [if_pos he, if_neg (by omega)]
    by_cases hbig : 2 ^ 52 ≤ m
    · have hlog : m.log2 = 52 := (Nat.log2_eq_iff (by omega)).mpr ⟨hbig, hlt⟩
      have hexp : (BitVec.ofNat 11 (e + 1023 + 52).toNat).toNat = (e + 1075).toNat := by
        rw [BitVec.toNat_ofNat]
        omega
      have hman : 2 ^ 52 + (BitVec.ofNat 52 m).toNat = m := by
        rw [BitVec.toNat_ofNat]
        omega
      rw [hlog, if_pos rfl, unpack_packComponents_normal _ _ (ofNat_eleven_ne (by omega))
        (ofNat_ne_zero (by omega) (by omega))]
      simp only [hexp, hman]
      congr 1
      omega
    · have hlog : m.log2 < 52 := (Nat.log2_lt (by omega)).mpr (by omega)
      have hman : (BitVec.ofNat 52 m).toNat = m := by
        rw [BitVec.toNat_ofNat]
        omega
      rw [if_neg (by omega), unpack_packComponents_subnormal s (by omega)]
      simp only [hman]
      congr 1
      omega
  · rw [if_neg he, if_pos (by omega)]
    exact refit_infinity s

/-! ## §3. Signs -/

/-- The sign of what is not NaN. -/
def signOf : UnpackedFloat → Option Sign
  | .notANumber => none
  | .infinity s => some s
  | .zero s => some s
  | .finite s _ _ _ => some s

theorem signOf_unpack_packComponents (s : Sign) {e : BitVec 11} (m : BitVec 52)
    (he : e ≠ -1#11) :
    signOf (UnpackedFloat.unpack Format.binary64 (packComponents Format.binary64 s e m))
      = some s := by
  unfold UnpackedFloat.unpack
  simp only [unpackMantissa_packComponents, unpackExponent_packComponents,
    unpackSign_packComponents, Sign.ofBitVec_toBitVec, if_neg he]
  split
  · split <;> rfl
  · rfl

/-- **Storing keeps the sign.** -/
theorem signOf_refit (f : UnpackedFloat) : signOf (refit f) = signOf f := by
  cases f with
  | notANumber => rw [refit_notANumber]
  | infinity s => rw [refit_infinity]
  | zero s => rw [refit_zero]
  | finite s m e hm =>
      show signOf (UnpackedFloat.unpack Format.binary64 (UnpackedFloat.pack Format.binary64 _))
        = some s
      unfold UnpackedFloat.pack
      simp only
      split
      · exact congrArg signOf (refit_infinity s)
      next hbiased =>
        split
        · exact signOf_unpack_packComponents s _ (ofNat_eleven_ne (by omega))
        · exact signOf_unpack_packComponents s _ (by decide)

end Annealing.Binary64
