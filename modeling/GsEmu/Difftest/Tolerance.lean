import GsEmu.Difftest.TimerSync
import GsEmu.Lib.Signed

/-! How far the registers of emulator and reference may be apart where `isa_difftest_checkregs` is content. -/

namespace GsEmu.Difftest
open Bytes Riscv32 Signed

variable {D R : Type} {P : Platform D} {A : Adapter R} {answer : Option Int} {refR : Memory} {st : State D}
  {r : R}

def gprDistance (refR : Memory) (st : State D) (i : Reg) : Nat :=
  ((regFileAt cpuState refR).x i - st.gpr i).toInt.natAbs

structure WithinTolerance (refR : Memory) (st : State D) : Prop where
  pc : st.pc = (regFileAt cpuState refR).pc
  gpr : ∀ i, gprDistance refR st i ≤ 0x100

def Overrides (answer : Option Int) (refR : Memory) (st : State D) : Prop :=
  st.pc ≠ (regFileAt cpuState refR).pc ∧ answer = some 0

/-- A register at the distance `2 ^ 31` never stands alone: something else differs. -/
def LeastNoticed (c : Config) (refR : Memory) (st : State D) : Prop :=
  (∃ i, gprDistance refR st i = 2 ^ 31) → st.pc ≠ (regFileAt cpuState refR).pc ∨
    (∃ i, 0x100 < gprDistance refR st i ∧ gprDistance refR st i ≠ 2 ^ 31) ∨ csrError c refR st = true

theorem gprError_iff (i : Reg) : gprError refR st i = true ↔
    0x100 < gprDistance refR st i ∧ gprDistance refR st i ≠ 2 ^ 31 := by
  have habs := slt_abs_iff (x := (regFileAt cpuState refR).x i - st.gpr i) (0x100 : Word)
  have hbound : (0x100 : Word).toInt = 256 := by decide
  rw [ne_eq, eq_intMin_iff (by decide), hbound] at habs
  change (decide _ && (0x100 : Word).slt _) = true ↔ _
  rw [Bool.and_eq_true, habs, decide_eq_true_iff, gprDistance]
  constructor
  · rintro ⟨-, hne, hlt⟩
    exact ⟨by omega, hne⟩
  · rintro ⟨hlt, hne⟩
    refine ⟨fun heq => ?_, hne, by omega⟩
    rw [heq, BitVec.sub_self, BitVec.toInt_zero] at hlt
    exact absurd hlt (by decide)

theorem regsDiffer_iff (c : Config) : regsDiffer c refR st = true ↔
    (∃ i, 0x100 < gprDistance refR st i ∧ gprDistance refR st i ≠ 2 ^ 31) ∨ csrError c refR st = true := by
  rw [regsDiffer, Bool.or_eq_true, List.any_eq_true]
  refine or_congr_left ⟨?_, ?_⟩
  · rintro ⟨i, -, hi⟩
    exact ⟨_, (gprError_iff _).mp hi⟩
  · rintro ⟨i, hi⟩
    exact ⟨i.toFin, List.mem_finRange _, (gprError_iff i).mpr hi⟩

theorem checkregs_true_iff (h : ¬Overrides answer refR st) :
    (isaDifftestCheckregs P A answer refR st r).1 = true ↔
      st.pc = (regFileAt cpuState refR).pc ∧ regsDiffer P.toConfig refR st = false := by
  unfold isaDifftestCheckregs
  by_cases hpc : st.pc = (regFileAt cpuState refR).pc
  · rw [if_neg (not_not.mpr hpc), Bool.not_eq_true']
    exact ⟨fun hok => ⟨hpc, hok⟩, fun hok => hok.2⟩
  · rw [if_pos hpc]
    refine ⟨fun hok => ?_, fun hok => absurd hok.1 hpc⟩
    split at hok
    · exact absurd ⟨hpc, rfl⟩ h
    · exact absurd hok Bool.false_ne_true
    · exact absurd hok Bool.false_ne_true
    · exact absurd hok Bool.false_ne_true

/-! ## Main result -/

theorem checkregs_sound_iff (P : Platform D) (A : Adapter R) (answer : Option Int) (refR : Memory)
    (st : State D) (r : R) :
    (¬Overrides answer refR st → (isaDifftestCheckregs P A answer refR st r).1 = true →
      WithinTolerance refR st) ↔
    (Overrides answer refR st ∨ LeastNoticed P.toConfig refR st) := by
  by_cases hover : Overrides answer refR st
  · exact ⟨fun _ => .inl hover, fun _ h => absurd hover h⟩
  rw [checkregs_true_iff hover, or_iff_right hover, ← Bool.not_eq_true, regsDiffer_iff, not_or]
  constructor
  · rintro h ⟨i, hi⟩
    by_contra hno
    obtain ⟨hpc, hsame⟩ := not_or.mp hno
    have hnear := (h hover ⟨not_not.mp hpc, not_or.mp hsame⟩).gpr i
    rw [hi] at hnear
    exact absurd hnear (by decide)
  · rintro hnoticed - ⟨hpc, hgpr, hcsr⟩
    refine ⟨hpc, fun i => ?_⟩
    by_contra hfar
    by_cases hleast : gprDistance refR st i = 2 ^ 31
    · rcases hnoticed ⟨i, hleast⟩ with hne | hothers | herror
      · exact hne hpc
      · exact hgpr hothers
      · exact hcsr herror
    · exact hgpr ⟨i, not_le.mp hfar, hleast⟩

def leastInA0 : State Unit := (booted miniBoard []).setR 10 0x80000000

def resetRegs : Memory := putRegs cpuState ⟨(booted miniBoard []).gpr, resetVector⟩ fun _ => 0

theorem checkregs_sound_refuted : ¬Overrides none resetRegs leastInA0 ∧
    (isaDifftestCheckregs miniBoard idleMini none resetRegs leastInA0 (timedMini 0 0)).1 = true ∧
    ¬WithinTolerance resetRegs leastInA0 := by
  refine ⟨fun h => absurd h.2 (by simp), by decide +kernel, fun h => ?_⟩
  have hfar : gprDistance resetRegs leastInA0 10 = 2 ^ 31 := by decide +kernel
  have hnear := h.gpr 10
  rw [hfar] at hnear
  exact absurd hnear (by decide)

end GsEmu.Difftest
