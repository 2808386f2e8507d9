import Mathlib.Algebra.CharP.Two
import Mathlib.Algebra.Field.ZMod
import Mathlib.Data.LawfulXor.Basic
import Mathlib.RingTheory.AdjoinRoot
import Mathlib.Tactic.LinearCombination
import SessionAttributes.Crc32

namespace SessionAttributes

namespace Bytes

theorem littleEndian_lt (bytes : Bytes) : littleEndian bytes < 256 ^ bytes.length := by
  induction bytes with
  | nil => exact Nat.one_pos
  | cons byte bytes ih =>
    have hbyte := byte.toNat_lt
    rw [littleEndian, List.length_cons, Nat.pow_succ]
    omega

/-- Bytes are known from their number and the number they spell. -/
theorem littleEndian_injective {a b : Bytes} (hlength : a.length = b.length)
    (h : littleEndian a = littleEndian b) : a = b := by
  induction a generalizing b with
  | nil => exact (List.length_eq_zero_iff.mp hlength.symm).symm
  | cons x a ih =>
    cases b with
    | nil => cases hlength
    | cons y b =>
      have hx := x.toNat_lt
      have hy := y.toNat_lt
      simp only [littleEndian] at h
      have hhead : x = y := UInt8.toNat_inj.mp (by omega)
      have htail : a = b := ih (Nat.succ.inj hlength) (by omega)
      rw [hhead, htail]

end Bytes

namespace Crc32

open Polynomial

/-- The lowest bits of a number as coefficients. The first of them, the lowest, belongs to the
highest power. -/
noncomputable def poly : Nat → Nat → (ZMod 2)[X]
  | 0, _ => 0
  | width + 1, n => (if n.testBit 0 then X ^ width else 0) + poly width (n / 2)

theorem poly_zero (width : Nat) : poly width 0 = 0 := by
  induction width with
  | zero => rfl
  | succ width ih => simp [poly, ih]

/-- Two numbers are added bit by bit. -/
theorem poly_xor (width a b : Nat) : poly width (a ^^^ b) = poly width a + poly width b := by
  induction width generalizing a b with
  | zero => simp [poly]
  | succ width ih =>
    have hhalf : (a ^^^ b) / 2 = a / 2 ^^^ b / 2 := Nat.xor_div_two
    have htwice : (X : (ZMod 2)[X]) ^ width + X ^ width = 0 := CharTwo.add_self_eq_zero _
    simp only [poly, hhalf, ih, Nat.testBit_xor]
    cases a.testBit 0 <;> cases b.testBit 0 <;> simp
    · abel
    · abel
    · linear_combination -htwice

/-- The first bits of a number stand above the others. -/
theorem poly_add (first width n : Nat) :
    poly (first + width) n = X ^ width * poly first n + poly width (n / 2 ^ first) := by
  induction first generalizing n with
  | zero => simp [poly]
  | succ first ih =>
    rw [Nat.add_right_comm, poly, ih, poly, Nat.div_div_eq_div_mul, ← Nat.pow_succ']
    split_ifs <;> ring

/-- Higher bits play no part. -/
theorem poly_add_mul (width n m : Nat) : poly width (n + 2 ^ width * m) = poly width n := by
  induction width generalizing n with
  | zero => rfl
  | succ width ih =>
    have hpow : 2 ^ (width + 1) * m = 2 * (2 ^ width * m) := by rw [Nat.pow_succ', Nat.mul_assoc]
    have hbit : (n + 2 ^ (width + 1) * m).testBit 0 = n.testBit 0 := by
      simp [Nat.testBit_zero, hpow]
    have hhalf : (n + 2 ^ (width + 1) * m) / 2 = n / 2 + 2 ^ width * m := by omega
    rw [poly, poly, hbit, hhalf, ih]

theorem degree_poly_lt (width n : Nat) : (poly width n).degree < width := by
  induction width generalizing n with
  | zero => exact degree_zero.trans_lt (WithBot.bot_lt_coe _)
  | succ width ih =>
    have hlt : (width : WithBot ℕ) < (width + 1 : ℕ) := WithBot.coe_lt_coe.mpr width.lt_succ_self
    refine (degree_add_le _ _).trans_lt (max_lt ?_ ((ih _).trans hlt))
    split_ifs
    · exact (degree_X_pow_le width).trans_lt hlt
    · exact degree_zero.trans_lt (WithBot.bot_lt_coe _)

theorem eq_zero_of_poly {width n : Nat} (hn : n < 2 ^ width) (h : poly width n = 0) : n = 0 := by
  induction width generalizing n with
  | zero => simpa using hn
  | succ width ih =>
    -- No other power reaches the one of the lowest bit.
    have hrest : (poly width (n / 2)).coeff width = 0 :=
      coeff_eq_zero_of_degree_lt (degree_poly_lt width _)
    have hcoeff := congrArg (coeff · width) h
    have hbit : n.testBit 0 = false := by
      by_contra hbit
      rw [Bool.not_eq_false] at hbit
      simp only [poly, if_pos hbit, coeff_add, coeff_X_pow_self, hrest, coeff_zero] at hcoeff
      simp at hcoeff
    have hhalf : n / 2 = 0 := by
      refine ih (by omega) ?_
      simpa only [poly, hbit, Bool.false_eq_true, if_false, zero_add] using h
    have hmod : n % 2 = 0 := by simpa [Nat.testBit_zero] using hbit
    omega

theorem poly_injective {width a b : Nat} (ha : a < 2 ^ width) (hb : b < 2 ^ width)
    (h : poly width a = poly width b) : a = b := by
  have hzero : poly width (a ^^^ b) = 0 := by
    rw [poly_xor, h]
    exact CharTwo.add_self_eq_zero _
  exact xor_eq_zero_iff.mp (eq_zero_of_poly (Nat.xor_lt_two_pow ha hb) hzero)

noncomputable def modulus : (ZMod 2)[X] :=
  X ^ 32 + X ^ 26 + X ^ 23 + X ^ 22 + X ^ 16 + X ^ 12 + X ^ 11 + X ^ 10 + X ^ 8 + X ^ 7 + X ^ 5 +
    X ^ 4 + X ^ 2 + X + 1

theorem modulus_generator : modulus = X ^ 32 + poly 32 generator.toNat := by
  have hbits : generator.toNat = 0xEDB88320 := rfl
  simp [modulus, poly, hbits, Nat.testBit_zero]
  ring

theorem degree_modulus : modulus.degree = 32 := by
  have hlow : (poly 32 generator.toNat).degree < (X ^ 32 : (ZMod 2)[X]).degree := by
    rw [degree_X_pow]
    exact degree_poly_lt 32 _
  rw [modulus_generator, degree_add_eq_left_of_degree_lt hlow, degree_X_pow]
  rfl

theorem monic_modulus : modulus.Monic := by
  rw [modulus_generator]
  exact monic_X_pow_add (degree_poly_lt 32 _)

/-- A factor of powers of the unknown is of no use to the divisor. -/
theorem dvd_of_dvd_X_pow_mul {k : Nat} {p : (ZMod 2)[X]} (h : modulus ∣ X ^ k * p) :
    modulus ∣ p := by
  have hcoprime : IsCoprime modulus X := by
    refine ⟨1, X ^ 31 + X ^ 25 + X ^ 22 + X ^ 21 + X ^ 15 + X ^ 11 + X ^ 10 + X ^ 9 + X ^ 7 +
      X ^ 6 + X ^ 4 + X ^ 3 + X + 1, ?_⟩
    have htwo : (2 : (ZMod 2)[X]) = 0 := CharTwo.two_eq_zero
    rw [modulus]
    linear_combination (X ^ 32 + X ^ 26 + X ^ 23 + X ^ 22 + X ^ 16 + X ^ 12 + X ^ 11 + X ^ 10 +
      X ^ 8 + X ^ 7 + X ^ 5 + X ^ 4 + X ^ 2 + X) * htwo
  exact hcoprime.pow_right.dvd_of_dvd_mul_left h

/-- What is left of a polynomial, as an element of the quotient by the divisor. -/
noncomputable def residue : (ZMod 2)[X] →+* AdjoinRoot modulus := AdjoinRoot.mk modulus

theorem residue_eq_iff {p q : (ZMod 2)[X]} : residue p = residue q ↔ modulus ∣ p - q :=
  AdjoinRoot.mk_eq_mk

/-- One place down is one power more. -/
theorem residue_shift (r : UInt32) :
    residue (poly 32 (shift r).toNat) = residue X * residue (poly 32 r.toNat) := by
  have hhigh : r.toNat / 2 ^ 32 = 0 := Nat.div_eq_of_lt r.toNat_lt
  have hmove : X * poly 32 r.toNat =
      (if r.toNat.testBit 0 then X ^ 32 else 0) + poly 32 (r.toNat / 2) := by
    have hsplit := poly_add 32 1 r.toNat
    rw [hhigh, poly_zero, add_zero, pow_one] at hsplit
    exact hsplit.symm
  have hdown : (r >>> 1).toNat = r.toNat / 2 := by
    simp [UInt32.toNat_shiftRight, Nat.shiftRight_eq_div_pow]
  have hlow : (r &&& 1 = 1) ↔ r.toNat.testBit 0 = true := by
    rw [← UInt32.toNat_inj, UInt32.toNat_and, Nat.testBit_zero]
    simp
  rw [← map_mul, hmove, shift]
  by_cases hbit : r.toNat.testBit 0 = true
  · rw [if_pos (hlow.mpr hbit), if_pos hbit, UInt32.toNat_xor, poly_xor, hdown, residue_eq_iff,
      modulus_generator]
    have htwo : (2 : (ZMod 2)[X]) = 0 := CharTwo.two_eq_zero
    exact ⟨-1, by linear_combination poly 32 generator.toNat * htwo⟩
  · rw [if_neg (mt hlow.mp hbit), if_neg hbit, zero_add, hdown]

theorem residue_shifts (count : Nat) (r : UInt32) :
    residue (poly 32 (Nat.repeat shift count r).toNat) =
      residue X ^ count * residue (poly 32 r.toNat) := by
  induction count with
  | zero => simp [Nat.repeat]
  | succ count ih => rw [Nat.repeat, residue_shift, ih, pow_succ', mul_assoc]

theorem residue_absorb (r : UInt32) (byte : UInt8) :
    residue (poly 32 (absorb r byte).toNat) =
      residue X ^ 8 * residue (poly 32 r.toNat) + residue X ^ 32 * residue (poly 8 byte.toNat) := by
  have hhigh : byte.toNat / 2 ^ 8 = 0 := Nat.div_eq_of_lt byte.toNat_lt
  have hbyte : poly 32 byte.toNat = X ^ 24 * poly 8 byte.toNat := by
    rw [poly_add 8 24, hhigh, poly_zero, add_zero]
  rw [absorb, residue_shifts, UInt32.toNat_xor, UInt8.toNat_toUInt32, poly_xor, hbyte, map_add,
    map_mul, map_pow]
  ring

/-- A byte string as a polynomial: each byte with its lowest bit first. -/
noncomputable def message (bytes : Bytes) : (ZMod 2)[X] :=
  poly (8 * bytes.length) (Bytes.littleEndian bytes)

theorem message_cons (byte : UInt8) (bytes : Bytes) :
    message (byte :: bytes) = X ^ (8 * bytes.length) * poly 8 byte.toNat + message bytes := by
  have hbyte := byte.toNat_lt
  have hrest : (byte.toNat + 256 * Bytes.littleEndian bytes) / 2 ^ 8 =
      Bytes.littleEndian bytes := by
    omega
  have hlow := poly_add_mul 8 byte.toNat (Bytes.littleEndian bytes)
  have hlength : 8 * (byte :: bytes).length = 8 + 8 * bytes.length := by
    rw [List.length_cons]
    omega
  rw [message, hlength, Bytes.littleEndian, poly_add, hrest, message]
  exact congrArg (X ^ (8 * bytes.length) * · + _) hlow

theorem message_append (a b : Bytes) :
    message (a ++ b) = X ^ (8 * b.length) * message a + message b := by
  induction a with
  | nil => simp [message, poly]
  | cons byte a ih =>
    rw [List.cons_append, message_cons, ih, message_cons, List.length_append]
    ring

theorem message_injective {a b : Bytes} (hlength : a.length = b.length)
    (h : message a = message b) : a = b := by
  have hlt (bytes : Bytes) : Bytes.littleEndian bytes < 2 ^ (8 * bytes.length) := by
    rw [Nat.pow_mul]
    exact Bytes.littleEndian_lt bytes
  have hb := hlt b
  rw [message, message, ← hlength] at h
  rw [← hlength] at hb
  exact Bytes.littleEndian_injective hlength (poly_injective (hlt a) hb h)

theorem degree_message_lt (bytes : Bytes) : (message bytes).degree < (8 * bytes.length : ℕ) :=
  degree_poly_lt _ _

theorem residue_foldl (bytes : Bytes) (r : UInt32) :
    residue (poly 32 (bytes.foldl absorb r).toNat) =
      residue X ^ (8 * bytes.length) * residue (poly 32 r.toNat) +
        residue X ^ 32 * residue (message bytes) := by
  induction bytes generalizing r with
  | nil => simp [message, poly]
  | cons byte bytes ih =>
    rw [List.foldl_cons, ih, residue_absorb, message_cons, map_add, map_mul, map_pow,
      List.length_cons]
    ring

/-- The checksum, with all its bits turned, is what is left of the message after a division: the
message moved up by 32 places, with 32 ones added to its start. -/
theorem checksum_remainder (bytes : Bytes) :
    poly 32 (checksum bytes ^^^ 0xFFFFFFFF).toNat =
      (X ^ 32 * message bytes + X ^ (8 * bytes.length) * poly 32 0xFFFFFFFF) %ₘ modulus := by
  have hturned : checksum bytes ^^^ 0xFFFFFFFF = bytes.foldl absorb 0xFFFFFFFF := by
    rw [checksum, UInt32.xor_assoc, UInt32.xor_self, UInt32.xor_zero]
  have hdegree : (poly 32 (bytes.foldl absorb 0xFFFFFFFF).toNat).degree < modulus.degree := by
    rw [degree_modulus]
    exact degree_poly_lt 32 _
  have hresidue : residue (poly 32 (bytes.foldl absorb 0xFFFFFFFF).toNat) =
      residue (X ^ 32 * message bytes + X ^ (8 * bytes.length) * poly 32 0xFFFFFFFF) := by
    rw [residue_foldl, map_add, map_mul, map_mul, map_pow, map_pow, add_comm]
    rfl
  rw [hturned, ← modByMonic_eq_of_dvd_sub monic_modulus (residue_eq_iff.mp hresidue)]
  exact ((modByMonic_eq_self_iff monic_modulus).mpr hdegree).symm

/-- Two byte strings of one length that differ in up to four neighbouring bytes have different
checksums. -/
theorem checksum_ne (before after : Bytes) {a b : Bytes} (hlength : a.length = b.length)
    (hshort : a.length ≤ 4) (hne : a ≠ b) :
    checksum (before ++ a ++ after) ≠ checksum (before ++ b ++ after) := by
  intro hsame
  have hfold : (before ++ a ++ after).foldl absorb 0xFFFFFFFF =
      (before ++ b ++ after).foldl absorb 0xFFFFFFFF := (UInt32.xor_left_inj _).mp hsame
  have hresidue := congrArg (fun r => residue (poly 32 r.toNat)) hfold
  simp only [residue_foldl, List.length_append, hlength] at hresidue
  have hmessage : residue (X ^ 32 * message (before ++ a ++ after)) =
      residue (X ^ 32 * message (before ++ b ++ after)) := by
    simpa only [map_mul, map_pow] using add_left_cancel hresidue
  -- What comes before the bytes that differ cancels, what comes after is a power of the unknown.
  have hdifference : X ^ 32 * message (before ++ a ++ after) -
      X ^ 32 * message (before ++ b ++ after) =
        X ^ (32 + 8 * after.length) * (message a - message b) := by
    simp only [message_append, hlength]
    ring
  have hdvd : modulus ∣ message a - message b :=
    dvd_of_dvd_X_pow_mul (hdifference ▸ residue_eq_iff.mp hmessage)
  have hdegree : (message a - message b).degree < modulus.degree := by
    have hbits : ((8 * a.length : ℕ) : WithBot ℕ) ≤ 32 := by
      exact_mod_cast (by omega : 8 * a.length ≤ 32)
    rw [degree_modulus]
    refine (degree_sub_le _ _).trans_lt (max_lt ?_ ?_)
    · exact (degree_message_lt a).trans_le hbits
    · exact (degree_message_lt b).trans_le (hlength ▸ hbits)
  have hzero : message a - message b = 0 := eq_zero_of_dvd_of_degree_lt hdvd hdegree
  exact hne (message_injective hlength (sub_eq_zero.mp hzero))

end Crc32
end SessionAttributes
