/-
  Annealing.Proofs.Binary64.Bits
  ──────────────────────────────
  **A DOUBLE AND THE THREE FIELDS OF ITS BITS.**

  The bits of a double are a sign, eleven bits for the exponent and 52 for the
  digits after the first one.  What a double stands for is read off these fields,
  and they can be read off it: there is only one form of NaN, so no two doubles
  stand for the same.

    • `parts_injective` — a double is determined by what it stands for,
    • `isFinite_iff` — only the greatest exponent is not that of a finite double,
    • `parts_of_pos`, `parts_of_mantissa_eq_zero` — what the fields of a finite
      double say.
-/
import Annealing.Proofs.Binary64.Order
import Annealing.Decimal.Text

namespace Annealing.Binary64

open Float.Model Float.Model.UnpackedFloat

/-! ## §1. Cutting the bits and joining them -/

section
variable (b : BitVec 64)

/-- The bits of the exponent. -/
abbrev exponentOf : BitVec 11 := @unpackExponent Format.binary64 b

/-- The bits of the digits after the first one. -/
abbrev mantissaOf : BitVec 52 := @unpackMantissa Format.binary64 b

/-- The bit of the sign. -/
abbrev signBitOf : BitVec 1 := @unpackSign Format.binary64 b

theorem toNat_exponentOf : (exponentOf b).toNat = b.toNat / 2 ^ 52 % 2048 := by
  show (b.extractLsb' 52 11).toNat = _
  rw [BitVec.extractLsb'_toNat, Nat.shiftRight_eq_div_pow]

theorem toNat_mantissaOf : (mantissaOf b).toNat = b.toNat % 2 ^ 52 := by
  show (b.extractLsb' 0 52).toNat = _
  rw [BitVec.extractLsb'_toNat, Nat.shiftRight_eq_div_pow, pow_zero, Nat.div_one]

theorem toNat_signBitOf : (signBitOf b).toNat = b.toNat / 2 ^ 63 := by
  show (b.extractLsb' 63 1).toNat = _
  rw [BitVec.extractLsb'_toNat, Nat.shiftRight_eq_div_pow]
  have := b.isLt
  omega

/-- The fields of a pattern, joined, are the pattern. -/
theorem packComponents_fields :
    packComponents Format.binary64 (Sign.ofBitVec (signBitOf b)) (exponentOf b) (mantissaOf b)
      = b := by
  have hsign : ∀ s : BitVec 1, (Sign.ofBitVec s).toBitVec = s := by decide
  apply BitVec.eq_of_toNat_eq
  show (((Sign.ofBitVec (signBitOf b)).toBitVec ++ exponentOf b) ++ mantissaOf b).toNat = b.toNat
  rw [hsign, BitVec.toNat_append, BitVec.toNat_append,
    ← Nat.shiftLeft_add_eq_or_of_lt (exponentOf b).isLt,
    ← Nat.shiftLeft_add_eq_or_of_lt (mantissaOf b).isLt, toNat_exponentOf, toNat_mantissaOf,
    toNat_signBitOf, Nat.shiftLeft_eq, Nat.shiftLeft_eq]
  have := b.isLt
  omega

end

/-! ## §2. Storing what was read -/

/-- The first digit of a mantissa of 53 digits is left out. -/
theorem pack_normal (s : Sign) {e : BitVec 11} (m : BitVec 52) (htop : e ≠ -1#11)
    (hzero : e ≠ 0#11) :
    UnpackedFloat.pack Format.binary64
        (.finite s (2 ^ 52 + m.toNat) (e.toNat - 1075) (Nat.add_pos_left (Nat.two_pow_pos 52) _))
      = packComponents Format.binary64 s e m := by
  have hlog : (2 ^ 52 + m.toNat).log2 = 52 :=
    (Nat.log2_eq_iff (by omega)).mpr ⟨by omega, by have := m.isLt; omega⟩
  have htop' : e.toNat ≠ 2047 := fun h => htop (BitVec.eq_of_toNat_eq h)
  have hzero' : e.toNat ≠ 0 := fun h => hzero (BitVec.eq_of_toNat_eq h)
  have hlt := e.isLt
  have hbiased : ((e.toNat : Int) - 1075 + 1023 + 52).toNat = e.toNat := by omega
  show (if 2 ^ 11 ≤ ((e.toNat : Int) - 1075 + 1023 + 52).toNat + 1 then _
      else if (2 ^ 52 + m.toNat).log2 + 1 = 53 then
        packComponents Format.binary64 s (.ofNat 11 ((e.toNat : Int) - 1075 + 1023 + 52).toNat)
          (.ofNat 52 (2 ^ 52 + m.toNat))
      else _) = _
  rw [hbiased, if_neg (by omega), hlog, if_pos rfl]
  congr 1
  · exact BitVec.eq_of_toNat_eq (by rw [BitVec.toNat_ofNat]; omega)
  · exact BitVec.eq_of_toNat_eq (by rw [BitVec.toNat_ofNat]; have := m.isLt; omega)

/-- With fewer digits, all of them are stored, and zeros for the exponent. -/
theorem pack_subnormal (s : Sign) {m : BitVec 52} (hm : 0 < m.toNat) :
    UnpackedFloat.pack Format.binary64 (.finite s m.toNat (-1074) hm)
      = packComponents Format.binary64 s 0#11 m := by
  have hlog : m.toNat.log2 < 52 := (Nat.log2_lt (by omega)).mpr m.isLt
  show (if 2 ^ 11 ≤ ((-1074 : Int) + 1023 + 52).toNat + 1 then packedInfinity Format.binary64 s
      else if m.toNat.log2 + 1 = 53 then
        packComponents Format.binary64 s (.ofNat 11 ((-1074 : Int) + 1023 + 52).toNat)
          (.ofNat 52 m.toNat)
      else packComponents Format.binary64 s 0#11 (.ofNat 52 m.toNat)) = _
  rw [if_neg (by decide), if_neg (by omega)]
  congr 1
  exact BitVec.eq_of_toNat_eq (by rw [BitVec.toNat_ofNat]; have := m.isLt; omega)

/-- **What a double stands for, stored, is the double.** -/
theorem pack_parts (x : Float) :
    UnpackedFloat.pack Format.binary64 (parts x) = x.toModel.toBits.toBitVec := by
  obtain ⟨⟨bits, valid⟩⟩ := x
  have hnan := valid.eq_packedNaN
  show UnpackedFloat.pack Format.binary64 (UnpackedFloat.unpack Format.binary64 bits.toBitVec)
    = bits.toBitVec
  generalize bits.toBitVec = b at hnan ⊢
  have hb := packComponents_fields b
  by_cases htop : exponentOf b = -1#11
  · by_cases hm : mantissaOf b = 0#52
    · have hunpack : UnpackedFloat.unpack Format.binary64 b
          = .infinity (Sign.ofBitVec (signBitOf b)) := by
        unfold UnpackedFloat.unpack
        simp only
        rw [if_pos htop, if_pos hm]
      rw [htop, hm] at hb
      rw [hunpack]
      exact hb
    -- the one form of NaN
    · rw [hnan htop hm, unpack_packedNaN]
      rfl
  · by_cases hzero : exponentOf b = 0#11
    · rw [hzero] at hb
      by_cases hm : mantissaOf b = 0#52
      · rw [hm] at hb
        rw [← hb]
        exact congrArg (UnpackedFloat.pack Format.binary64) unpack_packedZero
      · have hpos : 0 < (mantissaOf b).toNat :=
          Nat.pos_of_ne_zero fun h => hm (BitVec.eq_of_toNat_eq h)
        rw [← hb, unpack_packComponents_subnormal _ hpos, pack_subnormal _ hpos]
    · rw [← hb, unpack_packComponents_normal _ _ htop hzero, pack_normal _ _ htop hzero]

/-- **A double is determined by what it stands for.** -/
theorem parts_injective {x y : Float} (h : parts x = parts y) : x = y := by
  have hbits : x.toModel.toBits.toBitVec = y.toModel.toBits.toBitVec := by
    rw [← pack_parts, ← pack_parts, h]
  obtain ⟨⟨bits, valid⟩⟩ := x
  obtain ⟨⟨bits', valid'⟩⟩ := y
  obtain rfl : bits = bits' := UInt64.toBitVec_inj.mp hbits
  rfl

/-! ## §3. The fields of a double -/

/-- The exponent as the bits store it. -/
def exponentField (x : Float) : Nat := x.toBits.toNat / 2 ^ 52 % 2048

/-- The digits after the first one, as the bits store them. -/
def fractionField (x : Float) : Nat := x.toBits.toNat % 2 ^ 52

/-- The sign as the bits store it. -/
def signField (x : Float) : Sign := if Decimal.isNegative x then .negative else .positive

theorem exponentField_lt (x : Float) : exponentField x < 2048 := Nat.mod_lt _ (by decide)

theorem fractionField_lt (x : Float) : fractionField x < 2 ^ 52 := Nat.mod_lt _ (by decide)

theorem toNat_exponentOf_toBits (x : Float) :
    (exponentOf x.toModel.toBits.toBitVec).toNat = exponentField x := toNat_exponentOf _

theorem toNat_mantissaOf_toBits (x : Float) :
    (mantissaOf x.toModel.toBits.toBitVec).toNat = fractionField x := toNat_mantissaOf _

theorem exponentOf_eq_iff {x : Float} {e : BitVec 11} :
    exponentOf x.toModel.toBits.toBitVec = e ↔ exponentField x = e.toNat := by
  rw [← toNat_exponentOf_toBits, BitVec.toNat_inj]

theorem signField_eq (x : Float) :
    Sign.ofBitVec (signBitOf x.toModel.toBits.toBitVec) = signField x := by
  have hbit : (signBitOf x.toModel.toBits.toBitVec).toNat = x.toBits.toNat / 2 ^ 63 :=
    toNat_signBitOf _
  have hnegative : Decimal.isNegative x = decide (x.toBits.toNat / 2 ^ 63 = 1) := by
    unfold Decimal.isNegative
    rw [decide_eq_decide, ← UInt64.toNat_inj, UInt64.toNat_shiftRight, Nat.shiftRight_eq_div_pow]
    rfl
  have hcases : ∀ s : BitVec 1, s = 0#1 ∨ s = 1#1 := by decide
  unfold signField
  rw [hnegative, ← hbit]
  rcases hcases (signBitOf x.toModel.toBits.toBitVec) with h | h <;> rw [h] <;> rfl

/-- The parts of a double, from its fields. -/
theorem parts_eq_unpack (x : Float) :
    parts x = UnpackedFloat.unpack Format.binary64 (packComponents Format.binary64 (signField x)
      (exponentOf x.toModel.toBits.toBitVec) (mantissaOf x.toModel.toBits.toBitVec)) := by
  rw [← signField_eq, packComponents_fields]
  rfl

theorem parts_of_normal {x : Float} (hzero : exponentField x ≠ 0)
    (htop : exponentField x ≠ 2047) :
    parts x = .finite (signField x) (2 ^ 52 + fractionField x) (exponentField x - 1075)
      (Nat.add_pos_left (Nat.two_pow_pos 52) _) := by
  rw [parts_eq_unpack, unpack_packComponents_normal _ _ (mt exponentOf_eq_iff.mp htop)
    (mt exponentOf_eq_iff.mp hzero)]
  simp only [toNat_exponentOf_toBits, toNat_mantissaOf_toBits]

theorem parts_of_subnormal {x : Float} (hzero : exponentField x = 0)
    (hpos : 0 < fractionField x) :
    parts x = .finite (signField x) (fractionField x) (-1074) hpos := by
  have hexponent : exponentOf x.toModel.toBits.toBitVec = 0#11 := exponentOf_eq_iff.mpr hzero
  rw [parts_eq_unpack, hexponent,
    unpack_packComponents_subnormal _ (by rw [toNat_mantissaOf_toBits]; exact hpos)]
  simp only [toNat_mantissaOf_toBits]

theorem parts_of_zero {x : Float} (hzero : exponentField x = 0) (hfraction : fractionField x = 0) :
    parts x = .zero (signField x) := by
  have hexponent : exponentOf x.toModel.toBits.toBitVec = 0#11 := exponentOf_eq_iff.mpr hzero
  have hmantissa : mantissaOf x.toModel.toBits.toBitVec = 0#52 :=
    BitVec.eq_of_toNat_eq ((toNat_mantissaOf_toBits x).trans hfraction)
  rw [parts_eq_unpack, hexponent, hmantissa]
  exact unpack_packedZero

theorem isFinite_iff (x : Float) : x.isFinite = true ↔ exponentField x ≠ 2047 := by
  show (parts x).isFinite = true ↔ _
  by_cases htop : exponentField x = 2047
  · have hparts : parts x = if mantissaOf x.toModel.toBits.toBitVec = 0#52 then
        .infinity (Sign.ofBitVec (signBitOf x.toModel.toBits.toBitVec)) else .notANumber := by
      show UnpackedFloat.unpack Format.binary64 _ = _
      unfold UnpackedFloat.unpack
      simp only
      rw [if_pos (exponentOf_eq_iff.mpr htop)]
    refine iff_of_false ?_ (fun h => h htop)
    rw [hparts]
    split <;> exact Bool.false_ne_true
  · refine iff_of_true ?_ htop
    by_cases hzero : exponentField x = 0
    · by_cases hfraction : fractionField x = 0
      · rw [parts_of_zero hzero hfraction]
        rfl
      · rw [parts_of_subnormal hzero (Nat.pos_of_ne_zero hfraction)]
        rfl
    · rw [parts_of_normal hzero htop]
      rfl

/-! ## §4. Finite doubles -/

/-- The digits of a finite double, read as one number. -/
def mantissa (x : Float) : Nat :=
  if exponentField x = 0 then fractionField x else 2 ^ 52 + fractionField x

/-- The place of the last of them. -/
def place (x : Float) : Int := max (exponentField x) 1 - 1075

theorem canonical (x : Float) : Canonical (mantissa x) (place x) := by
  have hlt := fractionField_lt x
  unfold mantissa place
  refine ⟨?_, by omega, ?_⟩ <;> split <;> omega

theorem place_le {x : Float} (h : x.isFinite = true) : place x ≤ 971 := by
  have htop := (isFinite_iff x).mp h
  have hlt := exponentField_lt x
  unfold place
  omega

/-- **What a finite double stands for**, if it is no zero. -/
theorem parts_of_pos {x : Float} (hfinite : x.isFinite = true) (hm : 0 < mantissa x) :
    parts x = .finite (signField x) (mantissa x) (place x) hm := by
  have htop := (isFinite_iff x).mp hfinite
  by_cases hzero : exponentField x = 0
  · have hmantissa : mantissa x = fractionField x := if_pos hzero
    have hplace : place x = -1074 := by
      unfold place
      omega
    rw [parts_of_subnormal hzero (by omega)]
    simp only [hmantissa, hplace]
  · have hmantissa : mantissa x = 2 ^ 52 + fractionField x := if_neg hzero
    have hplace : place x = exponentField x - 1075 := by
      unfold place
      omega
    rw [parts_of_normal hzero htop]
    simp only [hmantissa, hplace]

theorem parts_of_mantissa_eq_zero {x : Float} (hm : mantissa x = 0) :
    parts x = .zero (signField x) := by
  unfold mantissa at hm
  split at hm
  next hzero => exact parts_of_zero hzero hm
  next => omega

/-- Masking the sign leaves the bits below it. -/
theorem toNat_magnitudeBits (x : Float) :
    (x.toBits &&& 0x7fffffffffffffff).toNat = x.toBits.toNat % 2 ^ 63 := by
  rw [UInt64.toNat_and]
  exact Nat.and_two_pow_sub_one_eq_mod _ 63

/-- What is left is zero for the zeros only. -/
theorem magnitudeBits_eq_zero_iff (x : Float) :
    x.toBits &&& 0x7fffffffffffffff = 0 ↔ mantissa x = 0 := by
  rw [← UInt64.toNat_inj, toNat_magnitudeBits]
  show x.toBits.toNat % 2 ^ 63 = 0 ↔ _
  have hfields : x.toBits.toNat % 2 ^ 63 = exponentField x * 2 ^ 52 + fractionField x := by
    unfold exponentField fractionField
    omega
  rw [hfields]
  unfold mantissa
  split <;> omega

end Annealing.Binary64
