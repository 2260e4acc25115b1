import GsEmu.Lib.Format
import GsEmu.Riscv32.State

/-! `MiniRV32IMAStep` of `rv32ima-diff`, the reference that comes with the repository. -/

namespace GsEmu.MiniRv32ima
open Bytes Riscv32

structure MiniRV32IMAState where
  regs : Reg → Word
  pc : Word
  mstatus : Word
  cyclel : Word
  cycleh : Word
  timerl : Word
  timerh : Word
  timermatchl : Word
  timermatchh : Word
  mscratch : Word
  mtvec : Word
  mie : Word
  mip : Word
  mepc : Word
  mtval : Word
  mcause : Word
  extraflags : Word

/-- `ram_amt`, and what the terminal answers `IsKBHit` and `ReadKBByte` at the instruction with a given
`cycle`; one instruction asks each of them once at most. -/
structure Host where
  ramAmt : Word
  isKBHit : Word → Word
  readKBByte : Word → Word

def ramImageOffset : Word := 0x80000000

/-! ## The hooks of `mini-rv32ima.c` -/

def handleControlLoad (h : Host) (cycle addy : Word) : Word :=
  if addy = 0x10000005 then 0x60 ||| h.isKBHit cycle
  else if addy = 0x10000000 ∧ h.isKBHit cycle ≠ 0 then h.readKBByte cycle
  else 0

def handleControlStore (addy val : Word) : List Byte := if addy = 0x10000000 then [val.setWidth 8] else []

def handleOtherCSRRead (h : Host) (cycle csrno : Word) : Word :=
  if csrno = 0x140 then if h.isKBHit cycle = 0 then -1 else h.readKBByte cycle
  else 0

/-- The bytes up to a zero, from `ptr` on, `n` of them at most. -/
def stringAt (image : Memory) : Nat → Nat → List Byte
  | 0, _ => []
  | n + 1, ptr => if image ptr = 0 then [] else image ptr :: stringAt image n (ptr + 1)

/-- The string at an address of the guest, which ends at the end of the RAM if not before. -/
def debugString (h : Host) (image : Memory) (value : Word) : List Byte :=
  let ptrstart := value - ramImageOffset
  (if h.ramAmt ≤ ptrstart then text "DEBUG PASSED INVALID PTR (" ++ hexPadded 8 value.toNat ++ text ")\n" else []) ++
    stringAt image (h.ramAmt.toNat - ptrstart.toNat) ptrstart.toNat

def handleOtherCSRWrite (h : Host) (image : Memory) (csrno value : Word) : List Byte :=
  match csrno with
  | 0x136 => dec value.toInt
  | 0x137 => hexPadded 8 value.toNat
  | 0x138 => debugString h image value
  | 0x139 => [value.setWidth 8]
  | _ => []

/-! ## One instruction -/

def regId (ir : Word) (lo : Nat) : Reg := ((ir >>> lo) &&& 0x1f).setWidth 5

/-- How the switch on the opcode is left: with a value for the write back and what the instruction has
printed, with `trap` set, or by a `return`. -/
inductive Outcome
  | next (rdid : Reg) (rval pc : Word) (state : MiniRV32IMAState) (image : Memory) (out : List Byte := [])
  | trap (trap rval pc : Word) (state : MiniRV32IMAState) (image : Memory)
  | ret (code : Word) (state : MiniRV32IMAState) (image : Memory)

def immSe (ir : Word) : Word :=
  let imm := ir >>> 20
  imm ||| (if imm &&& 0x800 ≠ 0 then 0xfffff000 else 0)

def reladdy (ir : Word) : Word :=
  let r := ((ir &&& 0x80000000) >>> 11) ||| ((ir &&& 0x7fe00000) >>> 20) |||
    ((ir &&& 0x00100000) >>> 9) ||| (ir &&& 0x000ff000)
  if r &&& 0x00100000 ≠ 0 then r ||| 0xffe00000 else r

def immm4 (ir : Word) : Word :=
  let r := ((ir &&& 0xf00) >>> 7) ||| ((ir &&& 0x7e000000) >>> 20) ||| ((ir &&& 0x80) <<< 4) |||
    ((ir >>> 31) <<< 12)
  if r &&& 0x1000 ≠ 0 then r ||| 0xffffe000 else r

def storeImm (ir : Word) : Word :=
  let addy := ((ir >>> 7) &&& (0x1f : Word)) ||| ((ir &&& 0xfe000000) >>> 20)
  if addy &&& 0x800 ≠ 0 then addy ||| 0xfffff000 else addy

def funct3 (ir : Word) : Word := (ir >>> 12) &&& 0x7

def branchTaken (sel rs1 rs2 : Word) : Option Bool :=
  match sel with
  | 0 => some (rs1 = rs2)
  | 1 => some (rs1 ≠ rs2)
  | 4 => some (rs1.slt rs2)
  | 5 => some (rs2.sle rs1)
  | 6 => some (rs1.ult rs2)
  | 7 => some (rs2.ule rs1)
  | _ => none

def execBranch (ir pc : Word) (s : MiniRV32IMAState) (image : Memory) : Outcome :=
  match branchTaken (funct3 ir) (s.regs (regId ir 15)) (s.regs (regId ir 20)) with
  | some true => .next 0 0 (pc + immm4 ir - 4) s image
  | some false => .next 0 0 pc s image
  | none => .trap (2 + 1) 0 pc s image

def loadValue (image : Memory) (rsval sel : Word) : Option Word :=
  match sel with
  | 0 => some (((readLE image rsval.toNat 1).setWidth 8).signExtend 32)
  | 1 => some (((readLE image rsval.toNat 2).setWidth 16).signExtend 32)
  | 2 => some (readLE image rsval.toNat 4)
  | 4 => some (readLE image rsval.toNat 1)
  | 5 => some (readLE image rsval.toNat 2)
  | _ => none

def execLoad (h : Host) (cycle ir pc : Word) (s : MiniRV32IMAState) (image : Memory) : Outcome :=
  let rdid := regId ir 7
  let addr := s.regs (regId ir 15) + immSe ir
  let rsval := addr - ramImageOffset
  if h.ramAmt - 3 ≤ rsval then
    if 0x10000000 ≤ addr ∧ addr < 0x12000000 then
      if addr = 0x1100bffc then .next rdid s.timerh pc s image
      else if addr = 0x1100bff8 then .next rdid s.timerl pc s image
      else .next rdid (handleControlLoad h cycle addr) pc s image
    else .trap (5 + 1) addr pc s image
  else
    match loadValue image rsval (funct3 ir) with
    | some rval => .next rdid rval pc s image
    | none => .trap (2 + 1) 0 pc s image

def storeLen (sel : Word) : Option Nat :=
  match sel with
  | 0 => some 1
  | 1 => some 2
  | 2 => some 4
  | _ => none

def execStore (h : Host) (ir pc : Word) (s : MiniRV32IMAState) (image : Memory) : Outcome :=
  let rs2 := s.regs (regId ir 20)
  let addr := storeImm ir + s.regs (regId ir 15)
  let addy := addr - ramImageOffset
  if h.ramAmt - 3 ≤ addy then
    if 0x10000000 ≤ addr ∧ addr < 0x12000000 then
      if addr = 0x11004004 then .next 0 0 pc { s with timermatchh := rs2 } image
      else if addr = 0x11004000 then .next 0 0 pc { s with timermatchl := rs2 } image
      else if addr = 0x11100000 then .ret rs2 { s with pc := pc + 4 } image
      else .next 0 0 pc s image (handleControlStore addr rs2)
    else .trap (7 + 1) addr pc s image
  else
    match storeLen (funct3 ir) with
    | some len => .next 0 0 pc s (writeLE image addy.toNat len rs2)
    | none => .trap (2 + 1) 0 pc s image

def muldiv (sel rs1 rs2 : Word) : Word :=
  match sel with
  | 0 => rs1 * rs2
  | 1 => ((rs1.signExtend 64 * rs2.signExtend 64).sshiftRight 32).setWidth 32
  | 2 => ((rs1.signExtend 64 * rs2.setWidth 64) >>> 32).setWidth 32
  | 3 => ((rs1.setWidth 64 * rs2.setWidth 64) >>> 32).setWidth 32
  | 4 => if rs2 = 0 then -1 else if rs1 = 0x80000000 ∧ rs2 = -1 then rs1 else rs1.sdiv rs2
  | 5 => if rs2 = 0 then 0xffffffff else rs1.udiv rs2
  | 6 => if rs2 = 0 then rs1 else if rs1 = 0x80000000 ∧ rs2 = -1 then 0 else rs1.srem rs2
  | 7 => if rs2 = 0 then rs1 else rs1.umod rs2
  | _ => 0

/-- Op-immediate and op in one switch; `bit30` is `ir & 0x40000000`. -/
def alu (sel : Word) (isReg bit30 : Bool) (rs1 rs2 : Word) : Word :=
  match sel with
  | 0 => if isReg && bit30 then rs1 - rs2 else rs1 + rs2
  | 1 => rs1 <<< (rs2 &&& 0x1f).toNat
  | 2 => if rs1.slt rs2 then 1 else 0
  | 3 => if rs1.ult rs2 then 1 else 0
  | 4 => rs1 ^^^ rs2
  | 5 => if bit30 then rs1.sshiftRight (rs2 &&& 0x1f).toNat else rs1 >>> (rs2 &&& 0x1f).toNat
  | 6 => rs1 ||| rs2
  | 7 => rs1 &&& rs2
  | _ => 0

def opRs2 (ir : Word) (isReg : Bool) (s : MiniRV32IMAState) : Word :=
  if isReg then s.regs (regId (immSe ir) 0) else immSe ir

def opResult (sel : Word) (isReg isM bit30 : Bool) (rs1 rs2 : Word) : Word :=
  if isReg && isM then muldiv sel rs1 rs2 else alu sel isReg bit30 rs1 rs2

def opValue (ir : Word) (s : MiniRV32IMAState) : Word :=
  let isReg : Bool := ir &&& 0x20 ≠ 0
  opResult (funct3 ir) isReg (ir &&& 0x02000000 ≠ 0) (ir &&& 0x40000000 ≠ 0)
    (s.regs (regId ir 15)) (opRs2 ir isReg s)

def csrRead (h : Host) (cycle csrno : Word) (s : MiniRV32IMAState) : Word :=
  match csrno with
  | 0x340 => s.mscratch
  | 0x305 => s.mtvec
  | 0x304 => s.mie
  | 0xC00 => cycle
  | 0x344 => s.mip
  | 0x341 => s.mepc
  | 0x300 => s.mstatus
  | 0x342 => s.mcause
  | 0x343 => s.mtval
  | 0xf11 => 0xff0ff0ff
  | 0x301 => 0x40401101
  | _ => handleOtherCSRRead h cycle csrno

def csrWrite (h : Host) (image : Memory) (csrno writeval : Word) (s : MiniRV32IMAState) :
    MiniRV32IMAState × List Byte :=
  match csrno with
  | 0x340 => ({ s with mscratch := writeval }, [])
  | 0x305 => ({ s with mtvec := writeval }, [])
  | 0x304 => ({ s with mie := writeval }, [])
  | 0x344 => ({ s with mip := writeval }, [])
  | 0x341 => ({ s with mepc := writeval }, [])
  | 0x300 => ({ s with mstatus := writeval }, [])
  | 0x342 => ({ s with mcause := writeval }, [])
  | 0x343 => ({ s with mtval := writeval }, [])
  | _ => (s, handleOtherCSRWrite h image csrno writeval)

def csrWriteval (microop rval rs1 rs1imm : Word) : Word :=
  match microop with
  | 1 => rs1
  | 2 => rval ||| rs1
  | 3 => rval &&& ~~~rs1
  | 5 => rs1imm
  | 6 => rval ||| rs1imm
  | 7 => rval &&& ~~~rs1imm
  | _ => rs1

def execSystem (h : Host) (cycle ir pc : Word) (s : MiniRV32IMAState) (image : Memory) : Outcome :=
  let csrno := ir >>> 20
  let microop := funct3 ir
  if microop &&& 3 ≠ 0 then
    let rval := csrRead h cycle csrno s
    let writeval := csrWriteval microop rval (s.regs (regId ir 15)) ((ir >>> 15) &&& 0x1f)
    let (s, out) := csrWrite h image csrno writeval s
    .next (regId ir 7) rval pc s image out
  else if microop = 0 then
    if csrno = 0x105 then
      .ret 1 { s with mstatus := s.mstatus ||| 8, extraflags := s.extraflags ||| 4, pc := pc + 4 }
        image
    else if csrno &&& 0xff = 0x02 then
      .next 0 0 (s.mepc - 4)
        { s with
          mstatus := ((s.mstatus &&& 0x80) >>> 4) ||| ((s.extraflags &&& 3) <<< 11) ||| 0x80
          extraflags := (s.extraflags &&& ~~~(3 : Word)) ||| ((s.mstatus >>> 11) &&& 3) } image
    else if csrno = 0 then
      .trap (if s.extraflags &&& 3 ≠ 0 then 11 + 1 else 8 + 1) 0 pc s image
    else if csrno = 1 then .trap (3 + 1) 0 pc s image
    else .trap (2 + 1) 0 pc s image
  else .trap (2 + 1) 0 pc s image

def amoValue (irmid rs2 rval : Word) : Option Word :=
  match irmid with
  | 1 => some rs2
  | 0 => some (rs2 + rval)
  | 4 => some (rs2 ^^^ rval)
  | 12 => some (rs2 &&& rval)
  | 8 => some (rs2 ||| rval)
  | 16 => some (if rs2.slt rval then rs2 else rval)
  | 20 => some (if rval.slt rs2 then rs2 else rval)
  | 24 => some (if rs2.ult rval then rs2 else rval)
  | 28 => some (if rval.ult rs2 then rs2 else rval)
  | _ => none

def execAtomic (h : Host) (ir pc : Word) (s : MiniRV32IMAState) (image : Memory) : Outcome :=
  let rdid := regId ir 7
  let addr := s.regs (regId ir 15)
  let rs1 := addr - ramImageOffset
  let rs2 := s.regs (regId ir 20)
  let irmid := (ir >>> 27) &&& 0x1f
  if h.ramAmt - 3 ≤ rs1 then .trap (7 + 1) addr pc s image
  else
    let rval := readLE image rs1.toNat 4
    if irmid = 2 then
      .next rdid rval pc { s with extraflags := (s.extraflags &&& (0x07 : Word)) ||| (rs1 <<< 3) } image
    else if irmid = 3 then
      if s.extraflags >>> 3 ≠ rs1 &&& 0x1fffffff then .next rdid 1 pc s image
      else .next rdid 0 pc s (writeLE image rs1.toNat 4 rs2)
    else
      match amoValue irmid rs2 rval with
      | some v => .next rdid rval pc s (writeLE image rs1.toNat 4 v)
      | none => .trap (2 + 1) rval pc s image

def execOpcode (h : Host) (cycle ir pc : Word) (s : MiniRV32IMAState) (image : Memory) : Outcome :=
  let rdid := regId ir 7
  match ir &&& 0x7f with
  | 0x37 => .next rdid (ir &&& 0xfffff000) pc s image
  | 0x17 => .next rdid (pc + (ir &&& 0xfffff000)) pc s image
  | 0x6f => .next rdid (pc + 4) (pc + reladdy ir - 4) s image
  | 0x67 =>
    .next rdid (pc + 4) (((s.regs (regId ir 15) + immSe ir) &&& ~~~(1 : Word)) - 4) s image
  | 0x63 => execBranch ir pc s image
  | 0x03 => execLoad h cycle ir pc s image
  | 0x23 => execStore h ir pc s image
  | 0x13 => .next rdid (opValue ir s) pc s image
  | 0x33 => .next rdid (opValue ir s) pc s image
  | 0x0f => .next 0 0 pc s image
  | 0x73 => execSystem h cycle ir pc s image
  | 0x2f => execAtomic h ir pc s image
  | _ => .trap (2 + 1) 0 pc s image

/-! ## The step -/

/-- How the loop over `count` is left, with what it has printed. -/
inductive Exit
  | done (pc cycle : Word) (state : MiniRV32IMAState) (image : Memory) (out : List Byte := [])
  | trap (trap rval pc cycle : Word) (state : MiniRV32IMAState) (image : Memory) (out : List Byte := [])
  | ret (code : Word) (state : MiniRV32IMAState) (image : Memory) (out : List Byte := [])

def Exit.after (first : List Byte) : Exit → Exit
  | .done pc cycle s image out => .done pc cycle s image (first ++ out)
  | .trap t rval pc cycle s image out => .trap t rval pc cycle s image (first ++ out)
  | .ret code s image out => .ret code s image (first ++ out)

def instLoop (h : Host) : Nat → Word → Word → MiniRV32IMAState → Memory → Exit
  | 0, pc, cycle, s, image => .done pc cycle s image
  | count + 1, pc, cycle, s, image =>
    let cycle := cycle + 1
    let ofsPc := pc - ramImageOffset
    if h.ramAmt ≤ ofsPc then .trap (1 + 1) 0 pc cycle s image
    else if ofsPc &&& 3 ≠ 0 then .trap (1 + 0) 0 pc cycle s image
    else
      match execOpcode h cycle (readLE image ofsPc.toNat 4) pc s image with
      | .next rdid rval pc s image out =>
        let s := if rdid = 0 then s else { s with regs := Function.update s.regs rdid rval }
        (instLoop h count (pc + 4) cycle s image).after out
      | .trap trap rval pc s image => .trap trap rval pc cycle s image
      | .ret code s image => .ret code s image

def advanceTimer (elapsedUs : Word) (s : MiniRV32IMAState) : MiniRV32IMAState :=
  let newTimer := s.timerl + elapsedUs
  let s := if newTimer < s.timerl then { s with timerh := s.timerh + 1 } else s
  let s := { s with timerl := newTimer }
  if (s.timermatchh < s.timerh ∨ s.timerh = s.timermatchh ∧ s.timermatchl < s.timerl) ∧
      (s.timermatchh ≠ 0 ∨ s.timermatchl ≠ 0) then
    { s with extraflags := s.extraflags &&& ~~~(4 : Word), mip := s.mip ||| 0x80 }
  else { s with mip := s.mip &&& ~~~(0x80 : Word) }

def enterTrap (trap rval pc : Word) (s : MiniRV32IMAState) : Word × MiniRV32IMAState :=
  let (pc, s) :=
    if trap &&& 0x80000000 ≠ 0 then (pc + 4, { s with mcause := trap, mtval := 0 })
    else
      (pc, { s with
        mcause := trap - 1
        mtval := if 5 < trap ∧ trap ≤ 8 then rval else pc })
  (s.mtvec - 4 + 4,
    { s with
      mepc := pc
      mstatus := ((s.mstatus &&& 0x08) <<< 4) ||| ((s.extraflags &&& 3) <<< 11)
      extraflags := s.extraflags ||| 3 })

def finish (pc cycle : Word) (s : MiniRV32IMAState) : MiniRV32IMAState :=
  let s := if cycle < s.cyclel then { s with cycleh := s.cycleh + 1 } else s
  { s with cyclel := cycle, pc := pc }

/-- The return value, the state, the image and what has been printed. -/
def miniRV32IMAStep (h : Host) (elapsedUs : Word) (count : Nat) (s : MiniRV32IMAState)
    (image : Memory) : Word × MiniRV32IMAState × Memory × List Byte :=
  let s := advanceTimer elapsedUs s
  if s.extraflags &&& 4 ≠ 0 then (1, s, image, [])
  else
    let exit :=
      if s.mip &&& 0x80 ≠ 0 ∧ s.mie &&& 0x80 ≠ 0 ∧ s.mstatus &&& 0x8 ≠ 0 then
        Exit.trap 0x80000007 0 (s.pc - 4) s.cyclel s image
      else instLoop h count s.pc s.cyclel s image
    match exit with
    | .done pc cycle s image out => (0, finish pc cycle s, image, out)
    | .trap trap rval pc cycle s image out =>
      let (pc, s) := enterTrap trap rval pc s
      (0, finish pc cycle s, image, out)
    | .ret code s image out => (code, s, image, out)

end GsEmu.MiniRv32ima
