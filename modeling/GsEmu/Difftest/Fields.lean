import GsEmu.Difftest.MiniRv32ima
import GsEmu.Riscv32.Encoding

/-! Instruction fields: the bit macros of the emulator and the masks of the reference pick the same
registers and immediates. -/

namespace GsEmu.Difftest
open Riscv32 MiniRv32ima

/-! ## Bits -/

theorem and_twoPow_ne_zero (x : Word) (k : Nat) :
    x &&& BitVec.twoPow 32 k ≠ 0 ↔ x.getLsbD k = true := by
  rw [BitVec.and_twoPow]
  cases h : x.getLsbD k
  · simp
  · have hk : k < 32 := BitVec.lt_of_getLsbD h
    simp only [if_true, ne_eq, iff_true]
    intro h0
    have hbit := congrArg (BitVec.getLsbD · k) h0
    simp [hk] at hbit

theorem and_shiftLeft (x m : Word) (k : Nat) : x &&& (m <<< k) = ((x >>> k) &&& m) <<< k := by
  apply BitVec.eq_of_getLsbD_eq
  intro i hi
  simp only [BitVec.getLsbD_and, BitVec.getLsbD_shiftLeft, BitVec.getLsbD_ushiftRight, hi,
    decide_true, Bool.true_and]
  by_cases hk : i < k
  · simp [hk]
  · simp [hk, show k + (i - k) = i by omega]

theorem eq_signFill {x y : Word} {len : Nat} (hlen : len < 32) (hfits : Signed.Fits (len + 1) x)
    (hlow : ∀ j < 32, y.getLsbD j = (decide (j ≤ len) && x.getLsbD j)) :
    x = if y &&& BitVec.twoPow 32 len ≠ 0 then y ||| BitVec.allOnes 32 <<< (len + 1) else y := by
  have hsign := (Signed.fits_iff (Nat.succ_pos len) hlen).mp hfits
  have hsame : ∀ j < 32, j ≤ len → y.getLsbD j = x.getLsbD j := by
    intro j hj hle
    rw [hlow j hj, decide_eq_true hle, Bool.true_and]
  have hclear : ∀ j < 32, len < j → y.getLsbD j = false := by
    intro j hj hlt
    rw [hlow j hj, decide_eq_false (by omega), Bool.false_and]
  simp only [and_twoPow_ne_zero]
  apply BitVec.eq_of_getLsbD_eq
  intro j hj
  rcases Nat.lt_or_ge len j with hlt | hle
  · rw [hsign j hlt hj, Nat.succ_sub_one, ← hsame len hlen le_rfl]
    split
    · rename_i hset
      rw [BitVec.getLsbD_or, BitVec.getLsbD_shiftLeft, BitVec.getLsbD_allOnes, hset, decide_eq_true hj,
        decide_eq_false (by omega), decide_eq_true (show j - (len + 1) < 32 by omega)]
      exact (Bool.or_true _).symm
    · rename_i hset
      rw [hclear j hj hlt, Bool.eq_false_iff.mpr hset]
  · rw [← hsame j hj hle]
    split
    · rw [BitVec.getLsbD_or, BitVec.getLsbD_shiftLeft, decide_eq_true (show j < len + 1 by omega)]
      simp
    · rfl

/-! ## Registers and immediates -/

theorem getLsbD_five (i : Nat) : (0x1f : Word).getLsbD i = decide (i < 5) := by
  rw [show (0x1f : Word) = (BitVec.allOnes 5).setWidth 32 from rfl, BitVec.getLsbD_setWidth,
    BitVec.getLsbD_allOnes]
  by_cases h5 : i < 5
  · simp [h5, show i < 32 by omega]
  · simp [h5]

theorem regField_eq (ir : Word) {hi lo : Nat} (hlo : lo < 28) (hhi : hi = lo + 4) :
    regField ir hi lo = regId ir lo := by
  subst hhi
  apply BitVec.eq_of_getLsbD_eq
  intro i hi
  rw [regField, regId, BitVec.getLsbD_setWidth, BitVec.getLsbD_setWidth, BitVec.getLsbD_and,
    BitVec.getLsbD_ushiftRight, getLsbD_five, getLsbD_bits ir (by omega) (by omega), decide_eq_true hi,
    decide_eq_true (show i ≤ lo + 4 - lo by omega), Bool.and_true, Bool.true_and]

theorem regField_rd (ir : Word) : regField ir 11 7 = regId ir 7 := regField_eq ir (by decide) rfl

theorem regField_rs1 (ir : Word) : regField ir 19 15 = regId ir 15 :=
  regField_eq ir (by decide) rfl

theorem regField_rs2 (ir : Word) : regField ir 24 20 = regId ir 20 :=
  regField_eq ir (by decide) rfl

theorem immU_eq (ir : Word) : immU ir = ir &&& 0xfffff000 := by
  apply BitVec.eq_of_getLsbD_eq
  intro i hi
  rw [getLsbD_immU ir hi]
  interval_cases i <;> simp

theorem immI_eq (ir : Word) : immI ir = immSe ir := by
  have hlow : ∀ j < 32, (ir >>> 20).getLsbD j = (decide (j ≤ 11) && (immI ir).getLsbD j) := by
    intro j hj
    rw [getLsbD_immI ir hj]
    interval_cases j <;> simp
  have hfill : immSe ir = if (ir >>> 20) &&& BitVec.twoPow 32 11 ≠ 0 then
      (ir >>> 20) ||| BitVec.allOnes 32 <<< 12 else (ir >>> 20) ||| 0#32 :=
    apply_ite ((ir >>> 20) ||| ·) _ _ _
  rw [hfill, BitVec.or_zero]
  exact eq_signFill (by decide) (immediate_immI ir) hlow

theorem immS_eq (ir : Word) : immS ir = storeImm ir := by
  have hlow : ∀ j < 32, (((ir >>> 7) &&& (0x1f : Word)) ||| ((ir &&& 0xfe000000) >>> 20)).getLsbD j =
      (decide (j ≤ 11) && (immS ir).getLsbD j) := by
    intro j hj
    rw [getLsbD_immS ir hj]
    interval_cases j <;> simp
  exact eq_signFill (by decide) (immediate_immS ir) hlow

theorem immJ_eq (ir : Word) : immJ ir = reladdy ir := by
  have hlow : ∀ j < 32, (((ir &&& 0x80000000) >>> 11) ||| ((ir &&& 0x7fe00000) >>> 20) |||
      ((ir &&& 0x00100000) >>> 9) ||| (ir &&& 0x000ff000)).getLsbD j =
        (decide (j ≤ 20) && (immJ ir).getLsbD j) := by
    intro j hj
    rw [getLsbD_immJ ir hj]
    interval_cases j <;> simp
  exact eq_signFill (by decide) (immediate_immJ ir).1 hlow

theorem immB_eq (ir : Word) : immB ir = immm4 ir := by
  have hlow : ∀ j < 32, (((ir &&& 0xf00) >>> 7) ||| ((ir &&& 0x7e000000) >>> 20) |||
      ((ir &&& 0x80) <<< 4) ||| ((ir >>> 31) <<< 12)).getLsbD j =
        (decide (j ≤ 12) && (immB ir).getLsbD j) := by
    intro j hj
    rw [getLsbD_immB ir hj]
    interval_cases j <;> simp
  exact eq_signFill (by decide) (immediate_immB ir).1 hlow

theorem sext_immB (ir : Word) : (sext ((immB ir).setWidth 64) 13).setWidth 32 = immm4 ir := by
  rw [← immB_eq]
  exact sext_sext _ (by decide) (by decide)

theorem regId_immSe (ir : Word) : regId (immSe ir) 0 = regId ir 20 := by
  rw [← immI_eq]
  apply BitVec.eq_of_getLsbD_eq
  intro i hi
  have hbit := getLsbD_immI ir (show i < 32 by omega)
  rw [if_pos (by omega)] at hbit
  rw [regId, regId, BitVec.getLsbD_setWidth, BitVec.getLsbD_setWidth, BitVec.getLsbD_and, BitVec.getLsbD_and,
    BitVec.getLsbD_ushiftRight, BitVec.getLsbD_ushiftRight, Nat.zero_add, hbit]

/-! ## Shift amounts -/

theorem bits_shamt (x : Word) {hi : Nat} (h4 : 4 ≤ hi) (h6 : hi ≤ 6)
    (hx : ∀ j, 5 ≤ j → j ≤ hi → x.getLsbD j = false) :
    (bits x hi 0).toNat = (x &&& 0x1f).toNat := by
  have hmask : bits x hi 0 = (x &&& 0x1f).setWidth 64 := by
    apply BitVec.eq_of_getLsbD_eq
    intro i hi64
    rw [getLsbD_bits x (by omega) (Nat.zero_le hi), BitVec.getLsbD_setWidth, BitVec.getLsbD_and, getLsbD_five,
      decide_eq_true hi64, Bool.true_and, Nat.zero_add, Nat.sub_zero]
    by_cases h5 : i < 5
    · simp [h5, show i ≤ hi by omega]
    · by_cases hle : i ≤ hi
      · rw [hx i (by omega) hle, Bool.and_false, Bool.false_and]
      · simp [h5, hle]
  rw [hmask, BitVec.toNat_setWidth]
  exact Nat.mod_eq_of_lt (lt_of_lt_of_le (BitVec.isLt _) (by decide))

end GsEmu.Difftest
