import GsEmu.Lib.Bytes
import GsEmu.Riscv32.CpuBits

/-! The build configuration, the interpreter's globals and the CSR slots of `reg.h`. -/

namespace GsEmu.Riscv32
open Bytes

/-- `CONFIG_RVPrivM`, `CONFIG_RVPrivMU` or `CONFIG_RVPrivMSU`. -/
inductive PrivModes
  | M
  | MU
  | MSU
  deriving DecidableEq, Repr

/-- The reference design of differential testing; `none` is a build without `CONFIG_DIFFTEST`. -/
inductive DifftestRef
  | none
  | qemu
  | spike
  | minirv32i
  deriving DecidableEq, Repr

/-- The Kconfig options the modelled code reads. `CONFIG_RVC` is off: with it the braces of
`decode_exec` do not match and nothing is built. `CONFIG_RV64` and `CONFIG_RVE` are off too. -/
structure Config where
  priv : PrivModes
  rva : Bool
  rvZicsr : Bool
  rvZifencei : Bool
  rvMemMisalignAccess : Bool
  difftest : DifftestRef
  deriving DecidableEq

def Config.default : Config where
  priv := .MSU
  rva := true
  rvZicsr := true
  rvZifencei := true
  rvMemMisalignAccess := true
  difftest := .none

def configMbase : Word := 0x80000000
def configMsize : Word := 0x8000000
def configClintMmio : Word := 0x11000000

def mtimecmplo : Word := 0x4000
def mtimecmphi : Word := 0x4004
def mtimelo : Word := 0xBFF8
def mtimehi : Word := 0xBFFC

def resetVector : Word := configMbase
def pmemDtb : Word := configMbase + configMsize - 1 + 1 - 1024 * 1024 * 20

structure Decode where
  pc : Word
  snpc : Word
  dnpc : Word
  inst : Word

/-- A node of the reservation list; the list itself stands for the `next_node` links. -/
structure AtomicMemWord where
  memWord : Word
  reserved : Bool
  deriving DecidableEq

inductive NemuRun
  | nemuRunning
  | nemuStop
  | nemuEnd
  | nemuAbort
  | nemuQuit
  deriving DecidableEq, Repr

structure NemuState where
  state : NemuRun
  haltPc : Word
  haltRet : Word
  deriving DecidableEq

/-- The three skip variables of `difftest/dut.c`. -/
structure DifftestSkip where
  isSkipRef : Bool
  skipDutNrInst : Int
  skipDutOneInst : Bool
  deriving DecidableEq

/-- The MMIO backing store and the globals of the devices. -/
structure Io (D : Type) where
  space : Memory
  dev : D

abbrev Reg := BitVec 5

/-- `cpu`, the globals of `init.c`, `pmem` and what a step touches besides; `s` is the record
`isa_exec_once` works on. Index `i` of `pmem` is the host byte `pmem + i`. -/
structure State (D : Type) where
  gpr : Reg → Word
  csr : Nat → Word
  amw : List AtomicMemWord
  pc : Word
  curPri : Word
  haveRISCVException : Word
  riscvExceptionTval : Word
  pmem : Memory
  io : Io D
  nemuState : NemuState
  skip : DifftestSkip
  s : Decode

/-! ## CSR slots -/

def csrIdxMapOther : PrivModes → List Word
  | .MSU => [csrMedeleg, csrMideleg, csrMcounteren, csrSstatus, csrSie, csrStvec, csrScounteren,
      csrSenvcfg, csrSscratch, csrSepc, csrScause, csrStval, csrSip, csrSatp]
  | _ => []

def csrIdxMap (priv : PrivModes) : List Word :=
  [csrMvendorid, csrMhartid, csrMstatus, csrMip, csrMie, csrMcause, csrMtvec, csrMtval, csrMepc,
    csrMscratch, csrMisa, csrMarchid, csrMimpid, csrPmpaddr0, csrPmpaddr1, csrPmpcfg0, csrTselect,
    csrTdata1, csrTdata2, csrTdata3, csrTinfo, csrDcsr, csrDpc, csrDscratch0] ++ csrIdxMapOther priv

def nrCsr : PrivModes → Nat
  | .MSU => 1 + 37
  | _ => 1 + 22

def zeroCsr : Word := 63

def checkCsrIdx (priv : PrivModes) (idx : Word) : Nat :=
  if idx = zeroCsr then 63 else ((csrIdxMap priv).take (nrCsr priv)).idxOf idx

/-- Whether `CSR_RW_CHECK` lets an instruction use this number. -/
def csrPresent (priv : PrivModes) (idx : Word) : Prop := checkCsrIdx priv idx ≠ nrCsr priv

instance (priv : PrivModes) (idx : Word) : Decidable (csrPresent priv idx) :=
  inferInstanceAs (Decidable (_ ≠ _))

@[simp] theorem slot_mstatus (p : PrivModes) : checkCsrIdx p csrMstatus = 2 := by
  cases p <;> rfl

@[simp] theorem slot_mip (p : PrivModes) : checkCsrIdx p csrMip = 3 := by cases p <;> rfl

@[simp] theorem slot_mie (p : PrivModes) : checkCsrIdx p csrMie = 4 := by cases p <;> rfl

@[simp] theorem slot_mcause (p : PrivModes) : checkCsrIdx p csrMcause = 5 := by cases p <;> rfl

@[simp] theorem slot_mtvec (p : PrivModes) : checkCsrIdx p csrMtvec = 6 := by cases p <;> rfl

@[simp] theorem slot_mtval (p : PrivModes) : checkCsrIdx p csrMtval = 7 := by cases p <;> rfl

@[simp] theorem slot_mepc (p : PrivModes) : checkCsrIdx p csrMepc = 8 := by cases p <;> rfl

@[simp] theorem slot_misa (p : PrivModes) : checkCsrIdx p csrMisa = 10 := by cases p <;> rfl

@[simp] theorem slot_mhartid (p : PrivModes) : checkCsrIdx p csrMhartid = 1 := by cases p <;> rfl

@[simp] theorem slot_marchid (p : PrivModes) : checkCsrIdx p csrMarchid = 11 := by cases p <;> rfl

@[simp] theorem slot_pmpaddr0 (p : PrivModes) : checkCsrIdx p csrPmpaddr0 = 13 := by
  cases p <;> rfl

@[simp] theorem slot_pmpcfg0 (p : PrivModes) : checkCsrIdx p csrPmpcfg0 = 15 := by cases p <;> rfl

@[simp] theorem slot_tdata1 (p : PrivModes) : checkCsrIdx p csrTdata1 = 17 := by cases p <;> rfl

@[simp] theorem slot_tinfo (p : PrivModes) : checkCsrIdx p csrTinfo = 20 := by cases p <;> rfl

@[simp] theorem slot_dcsr (p : PrivModes) : checkCsrIdx p csrDcsr = 21 := by cases p <;> rfl

@[simp] theorem slot_zero (p : PrivModes) : checkCsrIdx p zeroCsr = 63 := rfl

theorem slot_sstatus_any (p : PrivModes) :
    checkCsrIdx p csrSstatus = if p = .MSU then 27 else 23 := by
  cases p <;> rfl

theorem slot_sepc_any (p : PrivModes) :
    checkCsrIdx p csrSepc = if p = .MSU then 33 else 23 := by
  cases p <;> rfl

@[simp] theorem slot_medeleg : checkCsrIdx .MSU csrMedeleg = 24 := rfl

@[simp] theorem slot_mideleg : checkCsrIdx .MSU csrMideleg = 25 := rfl

@[simp] theorem slot_sstatus : checkCsrIdx .MSU csrSstatus = 27 := rfl

@[simp] theorem slot_sie : checkCsrIdx .MSU csrSie = 28 := rfl

@[simp] theorem slot_stvec : checkCsrIdx .MSU csrStvec = 29 := rfl

@[simp] theorem slot_sepc : checkCsrIdx .MSU csrSepc = 33 := rfl

@[simp] theorem slot_scause : checkCsrIdx .MSU csrScause = 34 := rfl

@[simp] theorem slot_stval : checkCsrIdx .MSU csrStval = 35 := rfl

@[simp] theorem slot_sip : checkCsrIdx .MSU csrSip = 36 := rfl

theorem csrIdxMap_take_length (p : PrivModes) :
    ((csrIdxMap p).take (nrCsr p)).length = nrCsr p := by
  cases p <;> rfl

theorem checkCsrIdx_le (p : PrivModes) (i : Word) : checkCsrIdx p i ≤ nrCsr p ∨ i = zeroCsr := by
  unfold checkCsrIdx
  split
  · exact .inr ‹_›
  · left
    have h := List.idxOf_le_length (a := i) (l := (csrIdxMap p).take (nrCsr p))
    rwa [csrIdxMap_take_length] at h

theorem nrCsr_lt (p : PrivModes) : nrCsr p < 63 := by cases p <;> decide

theorem checkCsrIdx_inj {p : PrivModes} {i j : Word} (hj : csrPresent p j) :
    checkCsrIdx p i = checkCsrIdx p j ↔ i = j := by
  refine ⟨fun h => ?_, fun h => h ▸ rfl⟩
  have hlt := nrCsr_lt p
  by_cases hi0 : i = zeroCsr <;> by_cases hj0 : j = zeroCsr
  · exact hi0.trans hj0.symm
  · rcases checkCsrIdx_le p j with hle | hz
    · simp only [hi0, checkCsrIdx, if_true] at h
      simp only [checkCsrIdx, if_neg hj0] at hle
      rw [if_neg hj0] at h
      omega
    · exact absurd hz hj0
  · rcases checkCsrIdx_le p i with hle | hz
    · rw [h] at hle
      simp only [hj0, checkCsrIdx, if_true] at hle
      omega
    · exact absurd hz hi0
  · simp only [checkCsrIdx, if_neg hi0, if_neg hj0] at h
    have hmem : j ∈ (csrIdxMap p).take (nrCsr p) := by
      rw [← List.idxOf_lt_length_iff, csrIdxMap_take_length]
      have hne : checkCsrIdx p j ≠ nrCsr p := hj
      rcases checkCsrIdx_le p j with hle | hz
      · simp only [checkCsrIdx, if_neg hj0] at hle hne
        omega
      · exact absurd hz hj0
    exact ((List.idxOf_inj hmem).mp h.symm).symm

theorem csrPresent_mstatus (p : PrivModes) : csrPresent p csrMstatus := by
  rw [csrPresent, slot_mstatus]
  cases p <;> decide

theorem csrPresent_mtvec (p : PrivModes) : csrPresent p csrMtvec := by
  rw [csrPresent, slot_mtvec]
  cases p <;> decide

theorem csrPresent_misa (p : PrivModes) : csrPresent p csrMisa := by
  rw [csrPresent, slot_misa]
  cases p <;> decide

end GsEmu.Riscv32
