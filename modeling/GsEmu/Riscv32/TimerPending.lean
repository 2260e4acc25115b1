import GsEmu.Device.Clint
import GsEmu.Riscv32.Boundary

/-! `mip.MTIP` after the interrupt check. `irp_and` compares the halves of `mtime` and `mtimecmp` apart
from each other, and takes the timer to be late when either of them is. -/

namespace GsEmu.Riscv32
open Bytes

variable {D : Type} {P : Platform D} {st st' g : State D} {base : Nat}

/-- `MTIP` says whether `mtime` is past `mtimecmp`, and before that the timer's interrupt is not the one
selected. -/
structure TimerSound (P : Platform D) (base : Nat) (io : Io D) (st' : State D) : Prop where
  pending : (csr P st' csrMip).getLsbD 7 = decide (mtimecmp base io < mtime base io)
  early : mtime base io ≤ mtimecmp base io → findIrqTypeVal (haveIP P st') ≠ 7

def HalvesDisagree (base : Nat) (io : Io D) : Prop :=
  clintWord base mtimehi io < clintWord base mtimecmphi io ∧
    clintWord base mtimecmplo io < clintWord base mtimelo io

/-! ## The check on a CLINT -/

theorem mr_clintWord (hclint : ClintAt P.maps base) {off : Word} (hoff : off < 0x10000)
    (halign : (configClintMmio + off).toNat % 4 = 0) :
    mr P (configClintMmio + off) 4 st = some (clintWord base off st.io,
      st.setBus st.pmem st.io (difftestSkipRef P.difftest st.skip)) := by
  rw [mr, if_pos (.inr halign)]
  exact paddrRead_clintWord hclint hoff

theorem timerLate_clint (st : State D) (hclint : ClintAt P.maps base) : ∃ skip, timerLate P st =
    some (decide (clintWord base mtimecmphi st.io < clintWord base mtimehi st.io ∨
      clintWord base mtimecmplo st.io < clintWord base mtimelo st.io),
      st.setBus st.pmem st.io skip) := by
  have hword : ∀ off : Word, off < 0x10000 → (configClintMmio + off).toNat % 4 = 0 → ∀ u : State D,
      mr P (configClintMmio + off) 4 u = some (clintWord base off u.io,
        u.setBus u.pmem u.io (difftestSkipRef P.difftest u.skip)) :=
    fun off hoff halign u => mr_clintWord hclint hoff halign
  unfold timerLate
  simp only [hword mtimehi (by decide) (by decide), hword mtimecmphi (by decide) (by decide),
    hword mtimelo (by decide) (by decide), hword mtimecmplo (by decide) (by decide),
    Option.bind_eq_bind, Option.bind_some, State.setBus_io]
  by_cases hhi : clintWord base mtimecmphi st.io < clintWord base mtimehi st.io
  · refine ⟨difftestSkipRef P.difftest (difftestSkipRef P.difftest st.skip), ?_⟩
    rw [if_pos hhi, decide_eq_true (.inl hhi)]
    rfl
  · refine ⟨difftestSkipRef P.difftest (difftestSkipRef P.difftest
      (difftestSkipRef P.difftest (difftestSkipRef P.difftest st.skip))), ?_⟩
    rw [if_neg hhi]
    simp only [hhi, false_or]
    rfl

theorem mtip_setMtip (late : Bool) : (csr P (setMtip P late st) csrMip).getLsbD 7 = late := by
  rw [setMtip, csr_setCsr, if_pos rfl, getLsbD_setField (k := 7) rfl, if_pos (by decide)]
  cases late <;> rfl

theorem takeIrq_pending (irq : Word) : csr P (takeIrq P irq g) csrMip = csr P g csrMip ∧
    haveIP P (takeIrq P irq g) = haveIP P g := by
  have hmip : csr P (takeIrq P irq g) csrMip = csr P g csrMip := by
    simp [csr, takeIrq_csr]
  have hmie : csr P (takeIrq P irq g) csrMie = csr P g csrMie := by
    simp [csr, takeIrq_csr]
  exact ⟨hmip, by rw [haveIP, haveIP, hmip, hmie]⟩

theorem irpTake_pending : csr P (irpTake P g).2 csrMip = csr P g csrMip ∧
    haveIP P (irpTake P g).2 = haveIP P g := by
  rcases irpTake_cases P g with ⟨-, h⟩ | ⟨-, h⟩ | ⟨-, -, h⟩
  · rw [h]
    exact ⟨rfl, rfl⟩
  · rw [h]
    exact takeIrq_pending _
  · rw [h]
    exact ⟨rfl, rfl⟩

theorem pending_of_selected {n : Nat} (hn : n < 32) (h : findIrqTypeVal (haveIP P g) = BitVec.ofNat 32 n) :
    (csr P g csrMip).getLsbD n = true := by
  rw [findIrqTypeVal_eq, highestIrq_twelve] at h
  cases hfind : scanOrder.find? (haveIP P g).getLsbD with
  | none =>
    rw [hfind] at h
    have hnat := congrArg BitVec.toNat h
    rw [BitVec.toNat_ofNat, Nat.mod_eq_of_lt (by omega)] at hnat
    change 0xffffffff = n at hnat
    omega
  | some m =>
    rw [hfind] at h
    have hm : m < 32 := by
      have hall : ∀ k ∈ scanOrder, k < 32 := by decide
      exact hall m (List.mem_of_find?_eq_some hfind)
    have hmn : m = n := by
      have hnat := congrArg BitVec.toNat h
      rw [irqWord, BitVec.toNat_ofNat, BitVec.toNat_ofNat, Nat.mod_eq_of_lt (by omega),
        Nat.mod_eq_of_lt (by omega)] at hnat
      exact hnat
    have hset : (haveIP P g).getLsbD m = true := List.find?_some hfind
    rw [haveIP, BitVec.getLsbD_and, BitVec.getLsbD_and, Bool.and_eq_true, Bool.and_eq_true] at hset
    exact hmn ▸ hset.1.2

/-! ## The comparison -/

theorem halves_late_iff (hi lo cmphi cmplo : Word) :
    (decide (cmphi < hi ∨ cmplo < lo) = decide (cmphi ++ cmplo < hi ++ lo)) ↔
      ¬(hi < cmphi ∧ cmplo < lo) := by
  have heq : cmphi = hi ↔ cmphi.toNat = hi.toNat := BitVec.toNat_inj.symm
  rw [decide_eq_decide, words_lt_iff, heq, BitVec.lt_def, BitVec.lt_def, BitVec.lt_def]
  omega

theorem timerSound_iff_pending : TimerSound P base st.io st' ↔
    (csr P st' csrMip).getLsbD 7 = decide (mtimecmp base st.io < mtime base st.io) := by
  constructor
  · exact fun h => h.pending
  · intro h
    refine ⟨h, fun hle hsel => ?_⟩
    have hset := pending_of_selected (n := 7) (by decide) hsel
    rw [h, decide_eq_true_eq] at hset
    exact absurd hset (BitVec.not_lt.mpr hle)

/-- With a CLINT on the board every interrupt check returns, and it leaves `MTIP` as the 64-bit comparison
asks for exactly when the halves do not disagree. -/
theorem timerPending_iff {H : Handlers D} {c : DeviceConfig} {s : Setup D} (cfg : Config)
    (hinit : initDevice H c = some s) (hclint : c.hasClint = true)
    (hH : H.clintIoHandler = clintIoHandler) :
    ∃ base, clintMapAt base ∈ s.maps ∧ ∀ st : State D, ∃ taken st',
      irpAnd { cfg with maps := s.maps } st = some (taken, st') ∧
        (TimerSound { cfg with maps := s.maps } base st.io st' ↔ ¬HalvesDisagree base st.io) := by
  obtain ⟨base, hmem, hat⟩ := initDevice_clint hinit hclint hH
  refine ⟨base, hmem, fun st => ?_⟩
  obtain ⟨P, hP⟩ : ∃ P : Platform D, P = { cfg with maps := s.maps } := ⟨_, rfl⟩
  have hat : ClintAt P.maps base := by
    rw [hP]
    exact hat
  rw [← hP]
  obtain ⟨skip, hlate⟩ := timerLate_clint st hat
  obtain ⟨late, hlate'⟩ : ∃ late, decide (clintWord base mtimecmphi st.io < clintWord base mtimehi st.io ∨
      clintWord base mtimecmplo st.io < clintWord base mtimelo st.io) = late := ⟨_, rfl⟩
  rw [hlate'] at hlate
  obtain ⟨g, hg⟩ : ∃ g, setMtip P late (st.setBus st.pmem st.io skip) = g := ⟨_, rfl⟩
  refine ⟨(irpTake P g).1, (irpTake P g).2, ?_, ?_⟩
  · rw [irpAnd, hlate]
    exact congrArg (fun g => some (irpTake P g)) hg
  · rw [timerSound_iff_pending, irpTake_pending.1, ← hg, mtip_setMtip, ← hlate']
    exact halves_late_iff _ _ _ _

/-! ## A board where they disagree -/

def clintHandlers : Handlers Unit := { idleHandlers with clintIoHandler := clintIoHandler }

def clintDevices : DeviceConfig :=
  { hasSerial := false, hasTimer := false, hasVga := false, hasKeyboard := false, hasAudio := false,
    hasDisk := false, hasSdcard := false, hasClint := true, hasSyscon := false, vgaSize := .size400x300 }

def futureDeadline : State Unit :=
  let st := booted clintBoard [0x13]
  { st with io := ⟨writeLE (writeLE (fun _ => 0) mtimelo.toNat 4 5) mtimecmphi.toNat 4 1, ()⟩ }

theorem timerPending_refuted : ∃ s : Setup Unit, initDevice clintHandlers clintDevices = some s ∧
    clintMapAt 0 ∈ s.maps ∧ mtime 0 futureDeadline.io < mtimecmp 0 futureDeadline.io ∧
    ∃ taken st', irpAnd { Config.default with maps := s.maps } futureDeadline = some (taken, st') ∧
      (csr { Config.default with maps := s.maps } st' csrMip).getLsbD 7 = true := by
  have hbit : ((irpAnd { Config.default with maps := [clintMapAt 0] } futureDeadline).map fun x =>
      (csr { Config.default with maps := [clintMapAt 0] } x.2 csrMip).getLsbD 7) = some true := by
    decide +kernel
  obtain ⟨⟨taken, st'⟩, hst', hmip⟩ := Option.map_eq_some_iff.mp hbit
  exact ⟨⟨pageSize, [clintMapAt 0]⟩, rfl, List.mem_singleton_self _, by decide +kernel, taken, st', hst',
    hmip⟩

theorem timerPending_iff_futureDeadline : ∃ s : Setup Unit,
    initDevice clintHandlers clintDevices = some s ∧ ∃ base, clintMapAt base ∈ s.maps ∧
      ∀ st : State Unit, ∃ taken st',
        irpAnd { Config.default with maps := s.maps } st = some (taken, st') ∧
          (TimerSound { Config.default with maps := s.maps } base st.io st' ↔
            ¬HalvesDisagree base st.io) :=
  ⟨_, rfl, timerPending_iff (H := clintHandlers) (c := clintDevices) Config.default rfl rfl rfl⟩

end GsEmu.Riscv32
