import Mathlib.Data.BitVec
import Mathlib.Tactic

/-! Words whose two's complement value fits a smaller width, exact products at twice the width, and
truncating division. -/

namespace GsEmu.Signed
open BitVec

variable {w v : Nat} {x : BitVec w}

def Fits (v : Nat) (x : BitVec w) : Prop := -2 ^ (v - 1) ≤ x.toInt ∧ x.toInt < 2 ^ (v - 1)

theorem two_pow_eq_double (h0 : 0 < v) : 2 ^ v = 2 * 2 ^ (v - 1) :=
  (Nat.two_pow_pred_mul_two h0).symm.trans (Nat.mul_comm ..)

theorem fits_signExtend (h0 : 0 < v) (y : BitVec v) (hv : v ≤ w) : Fits v (y.signExtend w) := by
  have hlo := le_two_mul_toInt (x := y)
  have hhi := two_mul_toInt_lt (x := y)
  have hpow : (2 : Int) ^ v = 2 * 2 ^ (v - 1) := by exact_mod_cast two_pow_eq_double h0
  rw [Fits, toInt_signExtend_of_le hv]
  constructor
  · linarith
  · linarith

theorem bmod_two_pow {z : Int} (h0 : 0 < v) (hlo : -2 ^ (v - 1) ≤ z) (hhi : z < 2 ^ (v - 1)) :
    z.bmod (2 ^ v) = z := by
  apply Int.bmod_eq_of_le
  · rw [two_pow_eq_double h0]
    push_cast
    omega
  · rw [two_pow_eq_double h0]
    push_cast
    omega

theorem Fits.signExtend_setWidth (h : Fits v x) (h0 : 0 < v) (hv : v ≤ w) :
    (x.setWidth v).signExtend w = x := by
  have hmod : (x.toNat : Int).bmod (2 ^ v) = x.toInt.bmod (2 ^ v) := by
    rw [toInt_eq_toNat_bmod, Int.bmod_bmod_of_dvd (Nat.pow_dvd_pow 2 hv)]
  apply eq_of_toInt_eq
  rw [toInt_signExtend_of_le hv, toInt_setWidth, hmod, bmod_two_pow h0 h.1 h.2]

theorem fits_iff (h0 : 0 < v) (hv : v ≤ w) :
    Fits v x ↔ ∀ i, v ≤ i → i < w → x.getLsbD i = x.getLsbD (v - 1) := by
  have hbit : ∀ i, v ≤ i → i < w →
      ((x.setWidth v).signExtend w).getLsbD i = x.getLsbD (v - 1) := by
    intro i hi hw
    rw [getLsbD_signExtend, if_neg (Nat.not_lt.mpr hi), msb_eq_getLsbD_last, getLsbD_setWidth]
    simp [hw, h0]
  constructor
  · intro h i hi hw
    have hx := hbit i hi hw
    rwa [h.signExtend_setWidth h0 hv] at hx
  · intro h
    have hx : (x.setWidth v).signExtend w = x := by
      apply eq_of_getLsbD_eq
      intro i hw
      by_cases hi : i < v
      · rw [getLsbD_signExtend, if_pos hi, getLsbD_setWidth]
        simp [hw, hi]
      · rw [hbit i (Nat.le_of_not_lt hi) hw, h i (Nat.le_of_not_lt hi) hw]
    rw [← hx]
    exact fits_signExtend h0 _ hv

theorem two_dvd_toInt_iff (hw : 0 < w) : 2 ∣ x.toInt ↔ x.getLsbD 0 = false := by
  have hcond := toInt_eq_toNat_cond x
  rw [two_pow_eq_double hw] at hcond
  rw [BitVec.getLsbD, Nat.testBit_zero, decide_eq_false_iff_not]
  split at hcond <;> rw [hcond] <;> push_cast <;> omega

theorem two_pow_dvd_toNat_iff (n : Nat) :
    2 ^ n ∣ x.toNat ↔ ∀ i < n, x.getLsbD i = false := by
  rw [Nat.dvd_iff_mod_eq_zero]
  constructor
  · intro h i hi
    have hbit := congrArg (Nat.testBit · i) h
    simpa [Nat.testBit_mod_two_pow, hi, BitVec.getLsbD] using hbit
  · intro h
    apply Nat.eq_of_testBit_eq
    intro i
    rw [Nat.testBit_mod_two_pow, Nat.zero_testBit]
    by_cases hi : i < n
    · simpa [hi, BitVec.getLsbD] using h i hi
    · simp [hi]

/-! ## Products at twice the width -/

theorem append_halves (p : BitVec (w + w)) : (p >>> w).setWidth w ++ p.setWidth w = p := by
  apply eq_of_getLsbD_eq
  intro i hi
  rw [getLsbD_append]
  by_cases hlow : i < w
  · simp [hlow]
  · have hhigh : i - w < w := by omega
    simp [hlow, hhigh, show w + (i - w) = i by omega]

theorem setWidth_sshiftRight (p : BitVec (w + w)) :
    (p.sshiftRight w).setWidth w = (p >>> w).setWidth w := by
  apply eq_of_getLsbD_eq
  intro i hi
  simp [getLsbD_sshiftRight, hi, show ¬w + w ≤ i by omega]

theorem toInt_high (h0 : 0 < w) (p : BitVec (w + w)) :
    ((p >>> w).setWidth w).toInt = p.toInt / 2 ^ w := by
  have hp : p.toInt = 2 ^ w * ((p >>> w).setWidth w).toInt + (p.setWidth w).toNat := by
    conv_lhs => rw [← append_halves p, toInt_append, beq_false_of_ne h0.ne', if_neg Bool.false_ne_true]
  have hlow : ((p.setWidth w).toNat : Int) / 2 ^ w = 0 :=
    Int.ediv_eq_zero_of_lt (Int.natCast_nonneg _) (by exact_mod_cast (p.setWidth w).isLt)
  rw [hp, Int.add_comm, Int.add_mul_ediv_left _ _ (by positivity), hlow, Int.zero_add]

theorem toNat_high (p : BitVec (w + w)) : ((p >>> w).setWidth w).toNat = p.toNat / 2 ^ w := by
  rw [toNat_setWidth, toNat_ushiftRight, Nat.shiftRight_eq_div_pow]
  apply Nat.mod_eq_of_lt
  rw [Nat.div_lt_iff_lt_mul (Nat.two_pow_pos w), ← pow_add]
  exact p.isLt

theorem toNat_mul_ofInt (x y : BitVec w) : ((x * y).toNat : Int) = x.toInt * y.toInt % 2 ^ w := by
  have hxy : x * y = BitVec.ofInt w (x.toInt * y.toInt) := by
    rw [ofInt_mul, ofInt_toInt, ofInt_toInt]
  rw [hxy, toNat_ofInt, Int.toNat_of_nonneg (Int.emod_nonneg _ (by positivity))]
  push_cast
  rfl

theorem toNat_setWidth_mul (x y : BitVec w) :
    (x.setWidth (w + w) * y.setWidth (w + w)).toNat = x.toNat * y.toNat := by
  have hx := x.isLt
  have hy := y.isLt
  have hpow : 2 ^ (w + w) = 2 ^ w * 2 ^ w := pow_add 2 w w
  have hlt : x.toNat * y.toNat < 2 ^ (w + w) := by
    rw [hpow]
    exact Nat.mul_lt_mul'' hx hy
  rw [toNat_mul, toNat_setWidth_of_le (Nat.le_add_left w w),
    toNat_setWidth_of_le (Nat.le_add_left w w), Nat.mod_eq_of_lt hlt]

theorem toInt_signExtend_mul (h0 : 0 < w) (x y : BitVec w) :
    (x.signExtend (w + w) * y.signExtend (w + w)).toInt = x.toInt * y.toInt := by
  have hhi := toInt_mul_toInt_le (x := x) (y := y)
  have hlo := le_toInt_mul_toInt (x := x) (y := y)
  have hpow : (2 : Int) ^ (w + w - 1) = 2 * 2 ^ (w * 2 - 2) := by
    rw [← pow_succ']
    congr 1
    omega
  have hpos : (0 : Int) < 2 ^ (w * 2 - 2) := by positivity
  rw [toInt_mul, toInt_signExtend_of_le (Nat.le_add_left w w),
    toInt_signExtend_of_le (Nat.le_add_left w w)]
  apply bmod_two_pow (Nat.add_pos_left h0 w)
  · linarith
  · linarith

theorem toInt_setWidth_double (h0 : 0 < w) (x : BitVec w) :
    (x.setWidth (w + w)).toInt = x.toNat := by
  have hle : (2 : Int) ^ w ≤ 2 ^ (w + w - 1) := pow_le_pow_right₀ (by decide) (by omega)
  have hx : (x.toNat : Int) < 2 ^ w := by exact_mod_cast x.isLt
  rw [toInt_setWidth]
  apply bmod_two_pow (Nat.add_pos_left h0 w)
  · have hpos : (0 : Int) < 2 ^ (w + w - 1) := by positivity
    linarith [Int.natCast_nonneg x.toNat]
  · linarith

theorem toInt_signExtend_mul_setWidth (h0 : 0 < w) (x y : BitVec w) :
    (x.signExtend (w + w) * y.setWidth (w + w)).toInt = x.toInt * y.toNat := by
  have hlo : -2 ^ (w - 1) ≤ x.toInt := le_toInt x
  have hhi : x.toInt < 2 ^ (w - 1) := toInt_lt
  have hy : (y.toNat : Int) ≤ 2 ^ w := by exact_mod_cast y.isLt.le
  have hy0 : (0 : Int) ≤ y.toNat := Int.natCast_nonneg _
  have hw : (0 : Int) < 2 ^ w := by positivity
  have hpow : (2 : Int) ^ (w + w - 1) = 2 ^ (w - 1) * 2 ^ w := by
    rw [← pow_add]
    congr 1
    omega
  rw [toInt_mul, toInt_signExtend_of_le (Nat.le_add_left w w), toInt_setWidth_double h0]
  apply bmod_two_pow (Nat.add_pos_left h0 w)
  · nlinarith
  · rw [hpow]
    rcases le_or_gt 0 x.toInt with hx | hx
    · exact (mul_le_mul_of_nonneg_left hy hx).trans_lt (mul_lt_mul_of_pos_right hhi hw)
    · exact (mul_nonpos_of_nonpos_of_nonneg hx.le hy0).trans_lt (by positivity)

/-! ## Absolute values -/

/-- A bound on the absolute value is missed by the least integer, which is its own absolute value. -/
theorem slt_abs_iff (c : BitVec w) : c.slt x.abs = true ↔ x ≠ intMin w ∧ c.toInt < x.toInt.natAbs := by
  rw [slt_iff_toInt_lt]
  by_cases hx : x = intMin w
  · rw [hx, abs_intMin]
    exact ⟨fun h => absurd (toInt_intMin_le c) (not_le.mpr h), fun h => absurd rfl h.1⟩
  · rw [toInt_abs_eq_natAbs_of_ne_intMin hx]
    exact ⟨fun h => ⟨hx, h⟩, fun h => h.2⟩

theorem eq_intMin_iff (h0 : 0 < w) : x = intMin w ↔ x.toInt.natAbs = 2 ^ (w - 1) := by
  have hpow : ((2 ^ (w - 1) : Nat) : Int) = 2 ^ (w - 1) := by push_cast; rfl
  have hlo := le_toInt x
  have hhi := toInt_lt (x := x)
  constructor
  · rintro rfl
    rw [toInt_intMin_of_pos h0]
    omega
  · intro h
    apply eq_of_toInt_eq
    rw [toInt_intMin_of_pos h0]
    omega

/-! ## Division -/

structure TruncDiv (a b q r : Int) : Prop where
  exact : a = q * b + r
  small : |r| < |b|
  nonneg : 0 ≤ a → 0 ≤ r
  nonpos : a ≤ 0 → r ≤ 0

theorem truncDiv_tdiv (a : Int) {b : Int} (hb : b ≠ 0) :
    TruncDiv a b (a.tdiv b) (a.tmod b) where
  exact := (Int.tdiv_mul_add_tmod a b).symm
  small := by
    rw [Int.abs_eq_natAbs, Int.abs_eq_natAbs, Int.natAbs_tmod]
    exact_mod_cast Nat.mod_lt _ (Int.natAbs_pos.mpr hb)
  nonneg := fun ha => Int.tmod_nonneg b ha
  nonpos := by
    intro ha
    have h := Int.tmod_nonneg b (Int.neg_nonneg_of_nonpos ha)
    rw [Int.neg_tmod] at h
    exact Int.nonpos_of_neg_nonneg h

theorem truncDiv_sdiv (x : BitVec w) {y : BitVec w} (hy : y ≠ 0#w) (h : x ≠ intMin w ∨ y ≠ -1#w) :
    TruncDiv x.toInt y.toInt (x.sdiv y).toInt (x.srem y).toInt := by
  rw [toInt_sdiv_of_ne_or_ne x y h, toInt_srem]
  apply truncDiv_tdiv
  intro h0
  exact hy (eq_of_toInt_eq (h0.trans toInt_zero.symm))

end GsEmu.Signed
