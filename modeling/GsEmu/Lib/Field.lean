import Mathlib.Data.BitVec
import Mathlib.Tactic

/-! Fields of a bit vector that are read by mask and division and written by mask and product. -/

namespace GsEmu.Field
open BitVec

variable {w : Nat}

theorem twoPow_ushiftRight {i j : Nat} (hi : i < w) (hj : j ≤ i) :
    twoPow w i >>> j = twoPow w (i - j) := by
  apply eq_of_getLsbD_eq
  intro n hn
  simp only [getLsbD_ushiftRight, getLsbD_twoPow, hi, show i - j < w by omega, decide_true,
    Bool.true_and]
  congr 1
  exact propext ⟨fun h => by omega, fun h => by omega⟩

theorem and_twoPow_udiv (x : BitVec w) {k : Nat} (hk : k < w) :
    (x &&& twoPow w k) / twoPow w k = if x.getLsbD k then 1 else 0 := by
  rw [udiv_twoPow_eq_of_lt hk, and_twoPow]
  cases x.getLsbD k <;> simp [twoPow_ushiftRight hk, twoPow_zero]

theorem and_pair_udiv (x : BitVec w) {k : Nat} (hk : k + 1 < w) :
    (x &&& (twoPow w k ||| twoPow w (k + 1))) / twoPow w k =
      (if x.getLsbD k then 1 else 0) ||| (if x.getLsbD (k + 1) then twoPow w 1 else 0) := by
  have hk' : k < w := by omega
  rw [udiv_twoPow_eq_of_lt hk', and_or_distrib_left, ushiftRight_or_distrib, and_twoPow,
    and_twoPow]
  cases x.getLsbD k <;> cases x.getLsbD (k + 1) <;>
    simp [twoPow_ushiftRight hk, twoPow_ushiftRight hk', twoPow_zero]

theorem getLsbD_write (x v mask : BitVec w) (k j : Nat) :
    ((x &&& ~~~mask) ||| ((v * twoPow w k) &&& mask)).getLsbD j =
      if mask.getLsbD j then decide (j < w) && (decide (k ≤ j) && v.getLsbD (j - k))
      else x.getLsbD j := by
  rw [mul_twoPow_eq_shiftLeft]
  by_cases hj : j < w
  · simp only [getLsbD_or, getLsbD_and, getLsbD_not, getLsbD_shiftLeft, hj]
    by_cases hk : k ≤ j
    · cases mask.getLsbD j <;> simp [hk, Nat.not_lt.mpr hk]
    · cases mask.getLsbD j <;> simp [hk, Nat.not_le.mp hk]
  · have hx := getLsbD_of_ge x j (Nat.le_of_not_lt hj)
    have hm := getLsbD_of_ge mask j (Nat.le_of_not_lt hj)
    simp [hj, hx, hm]

end GsEmu.Field
