import GsEmu.Riscv32.Decode

/-! `irp_and`, the trap tail of `decode_exec`, `isa_exec_once`, `exec_once` and the reset state. -/

namespace GsEmu.Riscv32

variable {D : Type}

/-! ## Interrupts -/

def irqLoop : Nat → Word → Word → Word
  | 0, _, _ => 0xffffffff
  | n + 1, y, x =>
    if y = 0 then 0xffffffff
    else if y &&& 0x80000000 = 0x80000000 ∧ (31 - x) % 2 ≠ 0 then 31 - x
    else irqLoop n (y <<< 1) (x + 1)

def findIrqTypeVal (y : Word) : Word := irqLoop 32 (y <<< 20) 20

def haveIP (P : Platform D) (st : State D) : Word :=
  (csr P st csrMie &&& csr P st csrMip) &&& 0x0aaa

/-- The comparison of `MTIME` with `MTIMECMP`, with the short circuit of `||`. -/
def timerLate (P : Platform D) (st : State D) : Option (Bool × State D) := do
  let (hi, st) ← mr P (configClintMmio + mtimehi) 4 st
  let (cmphi, st) ← mr P (configClintMmio + mtimecmphi) 4 st
  if cmphi < hi then return (true, st)
  let (lo, st) ← mr P (configClintMmio + mtimelo) 4 st
  let (cmplo, st) ← mr P (configClintMmio + mtimecmplo) 4 st
  return (decide (cmplo < lo), st)

def setMtip (P : Platform D) (late : Bool) (st : State D) : State D :=
  setCsr P csrMip (setField (csr P st csrMip) mipMtip (if late then 1 else 0)) st

/-- The branch of `irp_and` that reports a taken interrupt and does nothing else. -/
def irpStub (P : Platform D) (st : State D) : Prop :=
  csr P st csrMideleg ≠ 0 ∧ st.curPri = prvS ∧ csr P st csrSstatus &&& 0x8 ≠ 0 ∧
    (csr P st csrSie &&& csr P st csrSip) &&& 0x0aaa ≠ 0

instance (P : Platform D) (st : State D) : Decidable (irpStub P st) :=
  inferInstanceAs (Decidable (_ ∧ _))

def takeIrq (P : Platform D) (irqType : Word) (st : State D) : State D :=
  let st := setCsr P csrMcause (irqType ||| 0x80000000) st
  let st := setCsr P csrMepc st.s.pc st
  let st := dnpcAndCheck
    (csr P st csrMtvec + (4 * irqType - 1) * getField (csr P st csrMtvec) 0x01) st
  let st := setCsr P csrMstatus
    (setField (csr P st csrMstatus) mstatusMpie (getField (csr P st csrMstatus) mstatusMie)) st
  let st := setCsr P csrMstatus (csr P st csrMstatus &&& ~~~mstatusMie) st
  let st := setCsr P csrMstatus (setField (csr P st csrMstatus) mstatusMpp st.curPri) st
  st.setCurPri prvM

/-- `irp_and` once `MTIP` is set; the messages of its delegation branches are left out. -/
def irpTake (P : Platform D) (st : State D) : Bool × State D :=
  if csr P st csrMstatus &&& 0x8 ≠ 0 then
    let irqType := findIrqTypeVal (haveIP P st)
    if irpStub P st then (true, st)
    else if irqType ≠ 0xffffffff then (true, takeIrq P irqType st)
    else (false, st)
  else (false, st)

def irpAnd (P : Platform D) (st : State D) : Option (Bool × State D) := do
  let (late, st) ← timerLate P st
  return irpTake P (setMtip P late st)

/-! ## Synchronous traps -/

def recyException (st : State D) : State D := st.trapPeekException riscvExcpNone 0

def ecallExit (P : Platform D) (st : State D) : State D :=
  if st.haveRISCVException < riscvExcpUEcall ∨ riscvExcpMEcall < st.haveRISCVException then st
  else if st.gpr 17 = 93 ∨ st.gpr 17 = 0x53525354 then nemuTrap P st
  else st

def illegalInstruction (P : Platform D) (st : State D) : State D :=
  let st := setCsr P csrMstatus
    ((csr P st csrMstatus &&& ~~~mstatusMpp) ||| (st.curPri <<< 11)) st
  let st := setCsr P csrMcause st.haveRISCVException st
  let st := setCsr P csrMepc st.s.pc st
  let st := setCsr P csrMtval st.riscvExceptionTval st
  let st := setCsr P csrMstatus (csr P st csrMstatus &&& ~~~0x80) st
  let st := setCsr P csrMstatus
    (((csr P st csrMstatus &&& 0x8) <<< 4) ||| csr P st csrMstatus) st
  let st := setCsr P csrMstatus (csr P st csrMstatus &&& ~~~0x8) st
  ecallExit P (dnpcAndCheck (csr P st csrMtvec) st)

def delegateException (P : Platform D) (st : State D) : State D :=
  let st := setCsr P csrScause st.haveRISCVException st
  let st := setCsr P csrSepc st.s.pc st
  let st := setCsr P csrStval st.riscvExceptionTval st
  let st := setCsr P csrSstatus
    (setField (csr P st csrSstatus) sstatusSpie (getField (csr P st csrSstatus) sstatusSie)) st
  let st := setCsr P csrMstatus
    (setField (csr P st csrMstatus) mstatusSpie (getField (csr P st csrMstatus) mstatusSie)) st
  let st := setCsr P csrSstatus (setField (csr P st csrSstatus) sstatusSie 0) st
  let st := dnpcAndCheck (csr P st csrStvec) st
  let st := setCsr P csrSstatus (setField (csr P st csrSstatus) sstatusSpp st.curPri) st
  let st := st.setCurPri prvS
  setCsr P csrMstatus (setField (csr P st csrMstatus) mstatusSpp st.curPri) st

def delegated (P : Platform D) (st : State D) : Prop :=
  P.priv = .MSU ∧ st.curPri ≤ prvS ∧
    csr P st csrMedeleg &&& (1 <<< st.haveRISCVException.toNat) ≠ 0

instance (P : Platform D) (st : State D) : Decidable (delegated P st) :=
  inferInstanceAs (Decidable (_ ∧ _))

def trapTail (P : Platform D) (st : State D) : State D :=
  if st.haveRISCVException ≠ riscvExcpNone then
    if delegated P st then recyException (delegateException P st)
    else recyException (illegalInstruction P st)
  else st

/-! ## One step -/

def execSelected (P : Platform D) (st : State D) : Option (State D) :=
  match selectInst P.toConfig st.s.inst with
  | some p => execBody P p.body (decodeOperand st.s.inst p.type st.gpr) st
  | none => some st

def resetFixed (P : Platform D) (st : State D) : State D :=
  let st := st.setR 0 0
  setCsr P csrMisa (csr P st csrMisa &&& ~~~0x4) st

/-- `decode_exec` up to its test of `have_RISCVException`. -/
def decodeBody (P : Platform D) (st : State D) : Option (State D) := do
  let st ← execSelected P (dnpcAndCheck st.s.snpc st)
  return resetFixed P st

def decodeExec (P : Platform D) (st : State D) : Option (State D) := do
  let st ← decodeBody P st
  return trapTail P st

def instFetch (P : Platform D) (st : State D) : Option (State D) := do
  let (inst, st) ← vaddrIfetch P st.s.snpc 4 st
  return { st with s := { st.s with inst := inst, snpc := st.s.snpc + 4 } }

def fetchAndCheck (P : Platform D) (st : State D) : Option (Bool × State D) := do
  let st ← instFetch P st
  irpAnd P st

def isaExecOnce (P : Platform D) (st : State D) : Option (State D) := do
  let (taken, st) ← fetchAndCheck P st
  if taken then return st
  decodeExec P st

/-- `s->pc = pc; s->snpc = pc` of `exec_once(s, cpu.pc)`; `dnpc` and the word keep what they held. -/
def State.enter (st : State D) : State D :=
  { st with s := { st.s with pc := st.pc, snpc := st.pc } }

def execOnce (P : Platform D) (st : State D) : Option (State D) := do
  let st ← isaExecOnce P st.enter
  return { st with pc := st.s.dnpc }

/-! ## Reset -/

def csrInit (P : Platform D) (st : State D) : State D :=
  let st := setCsr P csrMstatus 0 st
  let st := setCsr P csrMhartid 0 st
  let st := setCsr P csrMstatus 0x1800 st
  let st := setCsr P csrMarchid (if P.difftest = .minirv32i then 0 else 5) st
  let st := setCsr P csrPmpaddr0 0xffffffff st
  let st := setCsr P csrPmpcfg0 0x1f st
  let st := setCsr P zeroCsr 0 st
  let st := setCsr P csrTdata1 0xf0000000 st
  let st := setCsr P csrTinfo 0x807c st
  let st := setCsr P csrDcsr 0x40000000 st
  let st := match P.priv with
    | .M => setCsr P csrMisa 0x40001101 st
    | .MU => setCsr P csrMedeleg 0 (setCsr P csrMisa 0x40101101 st)
    | .MSU => setCsr P csrMedeleg 0 (setCsr P csrMisa 0x40141101 st)
  { st with
    curPri := prvM
    haveRISCVException := riscvExcpNone
    riscvExceptionTval := 0
    amw := [] }

def restart (P : Platform D) (st : State D) : State D :=
  let st := { st with pc := resetVector }
  let st := ((st.setR 0 0).setR 10 0).setR 11 pmemDtb
  csrInit P st

/-- What `init_isa` leaves of a machine whose `cpu` is still zero; memory, devices and the local
`Decode` record are whatever they are. -/
def Reset (P : Platform D) (st : State D) : Prop :=
  ∃ st₀ : State D, st₀.gpr = (fun _ => 0) ∧ st₀.csr = (fun _ => 0) ∧
    st₀.skip = ⟨false, 0, false⟩ ∧ st = restart P st₀

/-! ## A small board -/

def clintMap : IOMap D := ⟨"clint", configClintMmio, configClintMmio + 0xffff, 0, some fun _ _ _ io => io⟩

def clintBoard : Platform Unit := { Config.default with maps := [clintMap] }

def clintSpace : Bytes.Memory :=
  Bytes.writeLE (Bytes.writeLE (fun _ => 0) mtimecmplo.toNat 4 (~~~0)) mtimecmphi.toNat 4 (~~~0)

def image : List Word → Nat → Bytes.Memory
  | [], _ => fun _ => 0
  | w :: ws, a => Bytes.writeLE (image ws (a + 4)) a 4 w

def booted (P : Platform Unit) (prog : List Word) : State Unit :=
  restart P
    { gpr := fun _ => 0
      csr := fun _ => 0
      amw := []
      pc := 0
      curPri := 0
      haveRISCVException := 0
      riscvExceptionTval := 0
      pmem := image prog 0
      io := ⟨clintSpace, ()⟩
      nemuState := ⟨.nemuRunning, 0, 0⟩
      skip := ⟨false, 0, false⟩
      s := ⟨0, 0, 0, 0⟩ }

theorem booted_reset (P : Platform Unit) (prog : List Word) : Reset P (booted P prog) :=
  ⟨_, rfl, rfl, rfl, rfl⟩

end GsEmu.Riscv32
