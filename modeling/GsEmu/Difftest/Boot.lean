import GsEmu.Difftest.Agreement
import GsEmu.Difftest.Step
import GsEmu.Lib.Words

/-! `init_difftest` against `rv32ima-diff`: `init_vm` of `mini-rv32ima.c` sets the reference up, and the
emulator takes its RAM and its registers over. -/

namespace GsEmu.Difftest
open Bytes Layout Riscv32 MiniRv32ima

variable {D : Type} {P : Platform D} {st st' : State D} {file : List Byte} {dtb : Memory} {m : Memory}
  {core : MiniRV32IMAState} {image : Memory} {amw : BitVec 64} {a n : Nat}

/-! ## `init_vm` -/

def ramAmt : Word := 64 * 1024 * 1024

def coreSize : Nat := 4 * 48

def dtbSize : Nat := 0x600

/-- The core lives at the end of RAM. -/
def corePtr : Nat := ramAmt.toNat - coreSize

def dtbPtr : Nat := ramAmt.toNat - dtbSize - coreSize

/-- The bytes at `a` read as a `MiniRV32IMAState`. -/
def coreAt (m : Memory) (a : Nat) : MiniRV32IMAState :=
  let word := fun k => readLE m (a + 4 * k) 4
  { regs := fun i => word i.toNat
    pc := word 32
    mstatus := word 33
    cyclel := word 34
    cycleh := word 35
    timerl := word 36
    timerh := word 37
    timermatchl := word 38
    timermatchh := word 39
    mscratch := word 40
    mtvec := word 41
    mie := word 42
    mip := word 43
    mepc := word 44
    mtval := word 45
    mcause := word 46
    extraflags := word 47 }

def bigEndian (v : Word) : Word :=
  (v >>> 24) ||| (((v >>> 16) &&& 0xff) <<< 8) ||| (((v >>> 8) &&& 0xff) <<< 16) ||| ((v &&& 0xff) <<< 24)

/-- The file, and the default device tree in front of the core. -/
def loadRam (file : List Byte) (default64mbdtb : Memory) : Memory :=
  copyTo (copyTo (fun _ => 0) 0 file.length fun i => file.getD i 0) dtbPtr dtbSize default64mbdtb

/-- What is in RAM at its place, with the fields that are set. -/
def bootCore (image : Memory) : MiniRV32IMAState :=
  let core := coreAt image corePtr
  { core with
    pc := ramImageOffset
    regs := Function.update (Function.update core.regs 10 0) 11
      (if dtbPtr = 0 then 0 else BitVec.ofNat 32 dtbPtr + ramImageOffset)
    extraflags := core.extraflags ||| 3 }

/-- The device tree says how much RAM is in front of it. -/
def patchDtb (image : Memory) : Memory :=
  if readLE image (dtbPtr + 0x13c) 4 = 0x00c0ff03 then
    writeLE image (dtbPtr + 0x13c) 4 (bigEndian (BitVec.ofNat 32 dtbPtr))
  else image

/-- The core and the RAM it lives in, with no other device tree and no command line. `none` is an exit: the
file does not fit, or `fread` gets no item because it is empty. -/
def initVm (file : List Byte) (default64mbdtb : Memory) : Option (MiniRV32IMAState × Memory) :=
  if ramAmt.toNat < file.length ∨ file.length = 0 then none
  else
    let image := loadRam file default64mbdtb
    some (bootCore image, copyTo (patchDtb image) corePtr coreSize (stateBytes (bootCore image)))

/-! ## `si` -/

/-- The reference between two calls. `elapsedUs` is how far the clock moves between the two times that a call
looks at it. After `exit` the emulator is gone as well. -/
structure Ref where
  core : MiniRV32IMAState
  image : Memory
  elapsedUs : Nat → Word
  calls : Nat
  exited : Bool

def addCycles (n : BitVec 64) (s : MiniRV32IMAState) : MiniRV32IMAState :=
  let ccount := (s.cycleh ++ s.cyclel) + n
  { s with cyclel := ccount.setWidth 32, cycleh := (ccount >>> 32).setWidth 32 }

def si (h : MiniRv32ima.Host) (r : Ref) : Ref :=
  let (ret, core, image, _) := miniRV32IMAStep h (r.elapsedUs r.calls) 1 r.core r.image
  let r := { r with core := core, image := image, calls := r.calls + 1 }
  if ret = 1 then { r with core := addCycles 1 r.core }
  else if ret = 0x7777 ∨ ret = 0x5555 then { r with exited := true }
  else r

def rv32imaDiff (rva : Bool) (priv : PrivModes) (h : MiniRv32ima.Host) : Adapter Ref where
  exec := si h
  toRef dut r :=
    let (dut, core) := (minirv32Adapter rva priv id).toRef dut r.core
    (dut, { r with core := core })
  toDut r dut := (minirv32Adapter rva priv id).toDut r.core dut

/-! ## `init_difftest` -/

/-- The first `difftest_memcpy` to the emulator copies all of RAM, then `difftest_regcpy` has filled `cpu`. -/
def adopt (cpu image : Memory) (st : State D) : State D :=
  { st with
    gpr := (regFileAt cpuState cpu).x
    pc := (regFileAt cpuState cpu).pc
    csr := fun k => if k < 64 then csrAt cpuState cpu k else st.csr k
    pmem := copyTo st.pmem (guestToHost resetVector) ramAmt.toNat image }

def initDifftest (P : Platform D) (h : MiniRv32ima.Host) (file : List Byte) (default64mbdtb : Memory)
    (elapsedUs : Nat → Word) (amw : BitVec 64) (st : State D) : Option (State D × Ref) := do
  let (core, image) ← initVm file default64mbdtb
  let r : Ref := ⟨core, image, elapsedUs, 0, false⟩
  return (adopt ((rv32imaDiff P.rva P.priv h).toDut r (cpuBytes amw st)) image st, r)

/-! ## The reference after `init_vm` -/

structure Booted (file : List Byte) (core : MiniRV32IMAState) (image : Memory) : Prop where
  zero : core.regs 0 = 0
  pc : core.pc = ramImageOffset
  mstatus : core.mstatus = 0
  awake : core.extraflags &&& 4 = 0
  dtb : core.regs 11 = BitVec.ofNat 32 dtbPtr + ramImageOffset
  loaded : ∀ i, i < file.length → i < dtbPtr → image i = file.getD i 0

theorem initVm_booted (dtb : Memory) (hempty : file ≠ []) (hroom : file.length ≤ corePtr) :
    ∃ core image, initVm file dtb = some (core, image) ∧ Booted file core image := by
  have hram : corePtr + coreSize = ramAmt.toNat := by decide
  have hdtb : dtbPtr + dtbSize = corePtr := by decide
  have hlen : file.length ≠ 0 := mt List.eq_nil_of_length_eq_zero hempty
  have hclear : ∀ k < 48, readLE (loadRam file dtb) (corePtr + 4 * k) 4 = 0 := by
    intro k hk
    refine readLE_zero fun i hi => ?_
    rw [loadRam, copyTo_outside (.inr (by omega)), copyTo_outside (.inr (by omega))]
  have hloaded : ∀ i, i < file.length → i < dtbPtr → loadRam file dtb i = file.getD i 0 := by
    intro i hi hbelow
    rw [loadRam, copyTo_outside (.inl hbelow), copyTo, if_pos (by omega), Nat.sub_zero]
  refine ⟨_, _, if_neg (by omega), hclear 0 (by decide), rfl, hclear 33 (by decide), ?_, ?_, fun i hi hbelow => ?_⟩
  · change (readLE (loadRam file dtb) (corePtr + 4 * 47) 4 ||| 3) &&& 4 = 0
    rw [hclear 47 (by decide)]
    rfl
  · have hne : dtbPtr ≠ 0 := by decide
    rw [bootCore]
    dsimp only
    rw [Function.update_self, if_neg hne]
  · rw [copyTo_outside (.inl (by omega)), patchDtb]
    split
    · rw [writeLE_outside _ _ (by omega), hloaded i hi hbelow]
    · exact hloaded i hi hbelow

/-! ## The emulator after `init_difftest` -/

theorem csrAt_mstatus (core : MiniRV32IMAState) (exec : MiniRV32IMAState → MiniRV32IMAState) (priv : PrivModes)
    (dut : Memory) :
    csrAt cpuState ((minirv32Adapter true priv exec).toDut core dut) 2 = core.mstatus := by
  have hcsr : off (minirv32Regs true) "csr" = off cpuState "csr" := off_csr_minirv32Regs
  have hmvendorid : checkCsrIdx priv csrMvendorid = 0 := by cases priv <;> rfl
  simp only [csrAt, minirv32Adapter, tGetRegs, miniCsrs, List.foldl_cons, List.foldl_nil, hcsr, slot_mtval,
    slot_mtvec, slot_misa, slot_mstatus, hmvendorid]
  rw [readLE_writeLE_outside _ (by omega), readLE_writeLE_outside _ (by omega),
    readLE_writeLE_outside _ (by omega), readLE_writeLE_outside _ (by omega), readLE_writeLE]

theorem reset_clean (h : Reset P st) :
    st.haveRISCVException = riscvExcpNone ∧ st.skip = ⟨false, 0, false⟩ := by
  obtain ⟨st₀, -, -, hskip, rfl⟩ := h
  refine ⟨?_, ?_⟩
  · rfl
  · rw [← hskip]
    unfold restart csrInit
    cases P.priv <;> rfl

theorem adopt_lockstep (hP : Standard P) (amw : BitVec 64) (hclean : st.haveRISCVException = riscvExcpNone)
    (hboot : Booted file core image) : Lockstep P corePtr
      (adopt ((minirv32Adapter P.rva P.priv id).toDut core (cpuBytes amw st)) image st) core image := by
  obtain ⟨cpu, hcpu⟩ : ∃ cpu, (minirv32Adapter P.rva P.priv id).toDut core (cpuBytes amw st) = cpu := ⟨_, rfl⟩
  have hregs : regFileAt cpuState cpu = ⟨core.regs, core.pc⟩ := by
    rw [← hcpu, minirv32_toDut, if_pos hP.rva]
  have hmst : csrAt cpuState cpu 2 = core.mstatus := by
    rw [← hcpu, hP.rva]
    exact csrAt_mstatus core id P.priv _
  rw [hcpu]
  have hx : (adopt cpu image st).gpr = core.regs := congrArg RegFile.x hregs
  have hpc : (adopt cpu image st).pc = core.pc := congrArg RegFile.pc hregs
  refine ⟨⟨?_, ?_, hclean, ?_⟩, hx, hpc, fun i hi => ?_, hboot.awake, ?_⟩
  · rw [hx, hboot.zero]
  · rw [hpc, hboot.pc]
    decide
  · have hslot : csr P (adopt cpu image st) csrMstatus = csrAt cpuState cpu 2 := by
      rw [csr, slot_mstatus]
      rfl
    rw [hslot, hmst, hboot.mstatus]
    rfl
  · have hin : guestToHost resetVector = 0 ∧ corePtr ≤ ramAmt.toNat := by decide
    change copyTo st.pmem (guestToHost resetVector) ramAmt.toNat image i = image i
    rw [hin.1, copyTo, if_pos (by omega), Nat.sub_zero]
  · rw [hboot.mstatus]
    rfl

theorem initDifftest_lockstep (hP : Standard P) (h : MiniRv32ima.Host) (dtb : Memory) (elapsedUs : Nat → Word)
    (amw : BitVec 64) (hclean : st.haveRISCVException = riscvExcpNone) (hempty : file ≠ [])
    (hroom : file.length ≤ corePtr) :
    ∃ st' r, initDifftest P h file dtb elapsedUs amw st = some (st', r) ∧
      Lockstep P corePtr st' r.core r.image ∧ Booted file r.core r.image ∧ r.exited = false ∧
      st'.nemuState = st.nemuState ∧ st'.skip = st.skip := by
  obtain ⟨core, image, hvm, hboot⟩ := initVm_booted dtb hempty hroom
  refine ⟨_, ⟨core, image, elapsedUs, 0, false⟩, ?_, adopt_lockstep hP amw hclean hboot, hboot, rfl, rfl, rfl⟩
  rw [initDifftest, hvm]
  rfl

end GsEmu.Difftest
