import Mathlib.Algebra.CharP.Two
import Mathlib.Algebra.Field.ZMod
import Mathlib.Data.Nat.Bitwise
import Mathlib.RingTheory.AdjoinRoot
import SlotCluster.Slot

/-!
# Checksums

The checksum of a key is a remainder of polynomials over the field of two elements. The bits of the
key, the most significant bit of its first byte in front, are the coefficients of the dividend, to
which sixteen zeros are appended. The divisor is x^16 + x^12 + x^5 + 1.
-/

namespace SlotCluster.Slot

open Polynomial

/-! ## Bits as coefficients -/

/-- The polynomial that has the lowest `w` bits of a number as coefficients. -/
noncomputable def ofBits (w n : Nat) : (ZMod 2)[X] :=
  ∑ i ∈ Finset.range w, if n.testBit i then X ^ i else 0

/-- The polynomial of a byte string. The first byte has the highest powers. -/
noncomputable def message : Bytes → (ZMod 2)[X]
  | [] => 0
  | b :: rest => ofBits 8 b.toNat * X ^ (8 * rest.length) + message rest

/-- The divisor. -/
noncomputable def generator : (ZMod 2)[X] := X ^ 16 + X ^ 12 + X ^ 5 + 1

theorem coeff_bit (bit : Bool) (j i : Nat) :
    (if bit then (X : (ZMod 2)[X]) ^ j else 0).coeff i = if i = j ∧ bit then 1 else 0 := by
  cases bit <;> simp [coeff_X_pow]

theorem coeff_ofBits (w n i : Nat) :
    (ofBits w n).coeff i = if i < w ∧ n.testBit i then 1 else 0 := by
  simp only [ofBits, finsetSum_coeff, coeff_bit, ite_and, Finset.sum_ite_eq, Finset.mem_range]

theorem degree_ofBits_lt (w n : Nat) : (ofBits w n).degree < w := by
  rw [degree_lt_iff_coeff_zero]
  intro i hi
  rw [coeff_ofBits, if_neg (by omega)]

theorem ofBits_xor (w a b : Nat) : ofBits w (a ^^^ b) = ofBits w a + ofBits w b := by
  simp only [ofBits, ← Finset.sum_add_distrib, Nat.testBit_xor]
  refine Finset.sum_congr rfl fun i _ => ?_
  cases a.testBit i <;> cases b.testBit i <;> simp [CharTwo.add_self_eq_zero]

theorem generator_eq : generator = X ^ 16 + ofBits 16 polynomial.toNat := by
  have hbits : ∀ i ∈ Finset.range 16,
      polynomial.toNat.testBit i = decide (i = 0 ∨ i = 5 ∨ i = 12) := by
    decide
  rw [ofBits, Finset.sum_congr rfl fun i hi => by rw [hbits i hi], generator]
  simp [Finset.sum_range_succ]
  ring

theorem degree_generator : generator.degree = 16 := by
  have hlower : (ofBits 16 polynomial.toNat).degree < (X ^ 16 : (ZMod 2)[X]).degree := by
    rw [degree_X_pow]
    exact degree_ofBits_lt 16 _
  rw [generator_eq, degree_add_eq_left_of_degree_lt hlower, degree_X_pow]
  rfl

theorem monic_generator : generator.Monic := by
  rw [generator_eq]
  exact monic_X_pow_add (degree_ofBits_lt 16 _)

/-! ## The shift register -/

theorem ofBits_toUInt16 (b : UInt8) :
    ofBits 16 (b.toUInt16 <<< 8).toNat = ofBits 8 b.toNat * X ^ 8 := by
  ext i
  have hshift : (b.toUInt16 <<< 8).toNat = b.toNat <<< 8 % 2 ^ 16 := by
    rw [UInt16.toNat_shiftLeft, UInt8.toNat_toUInt16]
    rfl
  rw [coeff_mul_X_pow', coeff_ofBits, coeff_ofBits, hshift, Nat.testBit_mod_two_pow,
    Nat.testBit_shiftLeft]
  by_cases hlow : 8 ≤ i
  · by_cases hhigh : i < 16
    · simp [hlow, hhigh, show i - 8 < 8 by omega]
    · simp [hlow, hhigh, show ¬ i - 8 < 8 by omega]
  · simp [hlow]

theorem X_mul_ofBits (crc : UInt16) :
    X * ofBits 16 crc.toNat =
      ofBits 16 (crc <<< 1).toNat + if crc.toNat.testBit 15 then X ^ 16 else 0 := by
  ext i
  have hshift : (crc <<< 1).toNat = crc.toNat <<< 1 % 2 ^ 16 := by
    rw [UInt16.toNat_shiftLeft]
    rfl
  rw [coeff_add, coeff_ofBits, coeff_bit, hshift, Nat.testBit_mod_two_pow, Nat.testBit_shiftLeft]
  cases i with
  | zero => simp
  | succ i =>
    rw [coeff_X_mul, coeff_ofBits]
    obtain hi | rfl | hi : i < 15 ∨ i = 15 ∨ 15 < i := by omega
    · simp [show i < 16 by omega, show i + 1 < 16 by omega, show i ≠ 15 by omega]
    · simp
    · simp [show ¬ i < 16 by omega, show ¬ i + 1 < 16 by omega, show i ≠ 15 by omega]

theorem and_top_eq_zero_iff (crc : UInt16) :
    crc &&& 0x8000 = 0 ↔ crc.toNat.testBit 15 = false := by
  have hand : (crc &&& 0x8000).toNat = (crc.toNat.testBit 15).toNat * 2 ^ 15 := by
    rw [UInt16.toNat_and, ← Nat.and_two_pow]
    rfl
  rw [← UInt16.toNat_inj, hand]
  cases crc.toNat.testBit 15 <;> simp

/-- A shift multiplies by `X`, up to a multiple of the divisor. -/
theorem X_mul_ofBits_shiftBit (crc : UInt16) :
    X * ofBits 16 crc.toNat =
      ofBits 16 (shiftBit crc).toNat + if crc.toNat.testBit 15 then generator else 0 := by
  rw [X_mul_ofBits, shiftBit]
  by_cases htop : crc.toNat.testBit 15
  · have hset : ¬ crc &&& 0x8000 = 0 := by simp [and_top_eq_zero_iff, htop]
    rw [if_pos htop, if_pos htop, if_neg hset, UInt16.toNat_xor, ofBits_xor, generator_eq]
    -- The lower terms cancel, as there are only two elements.
    linear_combination -CharTwo.add_self_eq_zero (ofBits 16 polynomial.toNat)
  · have hclear : crc &&& 0x8000 = 0 := by simp [and_top_eq_zero_iff, htop]
    rw [if_neg htop, if_neg htop, if_pos hclear]

/-- The residue class of a polynomial. -/
noncomputable def residue : (ZMod 2)[X] →+* AdjoinRoot generator := AdjoinRoot.mk generator

theorem residue_shiftBit (crc : UInt16) :
    residue (ofBits 16 (shiftBit crc).toNat) = residue X * residue (ofBits 16 crc.toNat) := by
  have hzero : residue (if crc.toNat.testBit 15 then generator else 0) = 0 := by
    split
    · exact AdjoinRoot.mk_self
    · exact map_zero residue
  rw [← map_mul, X_mul_ofBits_shiftBit, map_add, hzero, add_zero]

theorem residue_repeat (n : Nat) (crc : UInt16) :
    residue (ofBits 16 (Nat.repeat shiftBit n crc).toNat) =
      residue X ^ n * residue (ofBits 16 crc.toNat) := by
  induction n with
  | zero => simp [Nat.repeat]
  | succ n ih => rw [Nat.repeat, residue_shiftBit, ih, pow_succ', mul_assoc]

theorem residue_addByte (crc : UInt16) (b : UInt8) :
    residue (ofBits 16 (addByte crc b).toNat) =
      residue X ^ 8 * residue (ofBits 16 crc.toNat) +
        residue X ^ 16 * residue (ofBits 8 b.toNat) := by
  rw [addByte, residue_repeat, UInt16.toNat_xor, ofBits_xor, ofBits_toUInt16, map_add, map_mul,
    map_pow]
  ring

theorem residue_foldl (crc : UInt16) (b : Bytes) :
    residue (ofBits 16 (b.foldl addByte crc).toNat) =
      residue X ^ (8 * b.length) * residue (ofBits 16 crc.toNat) +
        residue X ^ 16 * residue (message b) := by
  induction b generalizing crc with
  | nil => simp [message]
  | cons b rest ih =>
    rw [List.foldl_cons, ih, residue_addByte, message, map_add, map_mul, map_pow, List.length_cons]
    ring

theorem ofBits_checksum (b : Bytes) :
    ofBits 16 (checksum b).toNat = (message b * X ^ 16) %ₘ generator := by
  have hsame : residue (ofBits 16 (checksum b).toNat) = residue (message b * X ^ 16) := by
    rw [checksum, residue_foldl, map_mul, map_pow]
    simp [ofBits, mul_comm]
  have hdivides : generator ∣ ofBits 16 (checksum b).toNat - message b * X ^ 16 :=
    AdjoinRoot.mk_eq_mk.mp hsame
  have hsmall : (ofBits 16 (checksum b).toNat).degree < generator.degree := by
    rw [degree_generator]
    exact degree_ofBits_lt 16 _
  rw [← modByMonic_eq_of_dvd_sub monic_generator hdivides]
  exact ((modByMonic_eq_self_iff monic_generator).mpr hsmall).symm

theorem ofBits_injective {a b : UInt16} (h : ofBits 16 a.toNat = ofBits 16 b.toNat) : a = b := by
  apply UInt16.toNat_inj.mp
  apply Nat.eq_of_testBit_eq
  intro i
  by_cases hi : i < 16
  · have hcoeff := congrArg (coeff · i) h
    simp only [coeff_ofBits, hi, true_and] at hcoeff
    cases ha : a.toNat.testBit i <;> cases hb : b.toNat.testBit i <;> simp [ha, hb] at hcoeff ⊢
  · have hbound : 2 ^ 16 ≤ 2 ^ i := Nat.pow_le_pow_right (by omega) (by omega)
    rw [Nat.testBit_lt_two_pow (a.toNat_lt.trans_le hbound),
      Nat.testBit_lt_two_pow (b.toNat_lt.trans_le hbound)]

theorem checksum_eq_iff (b : Bytes) (crc : UInt16) :
    checksum b = crc ↔ ofBits 16 crc.toNat = (message b * X ^ 16) %ₘ generator := by
  rw [← ofBits_checksum]
  constructor
  · rintro rfl
    rfl
  · intro h
    exact ofBits_injective h.symm

example : checksum (Bytes.ofText "123456789") = 0x31C3 := by decide +kernel

end SlotCluster.Slot
