import GsEmu.Device.Bus

/-! The execute bodies of `decode_exec` and the macros they are made of. -/

namespace GsEmu.Riscv32
open Bytes

variable {D : Type}

/-! ## Macros -/

namespace State

@[simps -fullyApplied] def setR (st : State D) (r : Reg) (v : Word) : State D :=
  { st with gpr := Function.update st.gpr r v }

@[simps -fullyApplied gpr csr amw pc curPri haveRISCVException riscvExceptionTval pmem io
  nemuState skip s]
def setDnpc (st : State D) (v : Word) : State D := { st with s := { st.s with dnpc := v } }

@[simps -fullyApplied] def setCurPri (st : State D) (v : Word) : State D := { st with curPri := v }

@[simps -fullyApplied] def setAmw (st : State D) (l : List AtomicMemWord) : State D := { st with amw := l }

@[simps -fullyApplied] def trapPeekException (st : State D) (cause tval : Word) : State D :=
  { st with haveRISCVException := cause, riscvExceptionTval := tval }

end State

def csr (P : Platform D) (st : State D) (n : Word) : Word := st.csr (checkCsrIdx P.priv n)

@[simps -fullyApplied] def setCsr (P : Platform D) (n v : Word) (st : State D) : State D :=
  { st with csr := Function.update st.csr (checkCsrIdx P.priv n) v }

@[simp] theorem csr_setCsr (P : Platform D) (st : State D) (n v m : Word) :
    csr P (setCsr P n v st) m =
      if checkCsrIdx P.priv m = checkCsrIdx P.priv n then v else csr P st m :=
  Function.update_apply ..

/-- `CSR_W_MSTATUS_CHECK(n) csr(n) = v`: the M-only build keeps its `mstatus`. -/
def setCsrChecked (P : Platform D) (n v : Word) (st : State D) : State D :=
  if P.priv = .M ∧ n = csrMstatus then st else setCsr P n v st

@[simp] theorem csr_setCurPri (P : Platform D) (st : State D) (v n : Word) :
    csr P (st.setCurPri v) n = csr P st n := rfl

@[simp] theorem csr_setDnpc (P : Platform D) (st : State D) (v n : Word) :
    csr P (st.setDnpc v) n = csr P st n := rfl

theorem csr_setCsrChecked_self (P : Platform D) (st : State D) (n v : Word) :
    csr P (setCsrChecked P n v st) n =
      if P.priv = .M ∧ n = csrMstatus then csr P st n else v := by
  unfold setCsrChecked
  split
  · rfl
  · simp

theorem csr_setCsrChecked_ne (P : Platform D) (st : State D) {n m : Word} (v : Word)
    (hm : csrPresent P.priv m) (hne : n ≠ m) : csr P (setCsrChecked P n v st) m = csr P st m := by
  unfold setCsrChecked
  split
  · rfl
  · rw [csr_setCsr, if_neg fun h => hne ((checkCsrIdx_inj hm).mp h.symm)]

def memAccess (P : Platform D) (addr : Word) (len : Nat) : Prop :=
  P.rvMemMisalignAccess = true ∨ addr.toNat % len = 0

instance (P : Platform D) (addr : Word) (len : Nat) : Decidable (memAccess P addr len) :=
  inferInstanceAs (Decidable (_ ∨ _))

def mr (P : Platform D) (addr : Word) (len : Nat) (st : State D) : Option (Word × State D) :=
  if memAccess P addr len then vaddrRead P addr len st
  else some (0, st.trapPeekException riscvExcpLoadAddrMis addr)

def mw (P : Platform D) (addr : Word) (len : Nat) (data : Word) (st : State D) :
    Option (State D) :=
  if memAccess P addr len then vaddrWrite P addr len data st
  else some (st.trapPeekException riscvExcpStoreAmoAddrMis addr)

def instAligned (target : Word) : Prop := target.toNat % 4 = 0

instance (target : Word) : Decidable (instAligned target) := inferInstanceAs (Decidable (_ = _))

theorem instAligned_iff (target : Word) : instAligned target ↔ target &&& 3 = 0 := by
  have hmod : target.toNat &&& 2 ^ 2 - 1 = target.toNat % 2 ^ 2 := Nat.and_two_pow_sub_one_eq_mod _ 2
  rw [← BitVec.toNat_inj, BitVec.toNat_and]
  exact ⟨fun h => hmod.trans h, fun h => hmod.symm.trans h⟩

theorem instAligned_add_four {a : Word} (h : instAligned a) : instAligned (a + 4) := by
  have hmod : a.toNat % 4 = 0 := h
  have h4 : (4 : Word).toNat = 4 := rfl
  rw [instAligned, BitVec.toNat_add, h4]
  omega

theorem instAligned.base {target : Word} (h : instAligned target) : target &&& ~~~3 = target := by
  have hall : (~~~3 ||| 3 : Word) = BitVec.allOnes 32 := rfl
  have hsplit : (target &&& ~~~3) ||| (target &&& 3) = target := by
    rw [← BitVec.and_or_distrib_left, hall, BitVec.and_allOnes]
  rw [(instAligned_iff target).mp h] at hsplit
  exact BitVec.or_zero.symm.trans hsplit

def dnpcAndCheck (target : Word) (st : State D) : State D :=
  if instAligned target then st.setDnpc target
  else st.trapPeekException riscvExcpInstAddrMis target

section dnpcAndCheck
variable (target : Word) (st : State D)

@[simp] theorem dnpcAndCheck_gpr : (dnpcAndCheck target st).gpr = st.gpr := by
  unfold dnpcAndCheck
  split <;> rfl

@[simp] theorem dnpcAndCheck_csr : (dnpcAndCheck target st).csr = st.csr := by
  unfold dnpcAndCheck
  split <;> rfl

@[simp] theorem dnpcAndCheck_amw : (dnpcAndCheck target st).amw = st.amw := by
  unfold dnpcAndCheck
  split <;> rfl

@[simp] theorem dnpcAndCheck_pc : (dnpcAndCheck target st).pc = st.pc := by
  unfold dnpcAndCheck
  split <;> rfl

@[simp] theorem dnpcAndCheck_curPri : (dnpcAndCheck target st).curPri = st.curPri := by
  unfold dnpcAndCheck
  split <;> rfl

@[simp] theorem dnpcAndCheck_pmem : (dnpcAndCheck target st).pmem = st.pmem := by
  unfold dnpcAndCheck
  split <;> rfl

@[simp] theorem dnpcAndCheck_io : (dnpcAndCheck target st).io = st.io := by
  unfold dnpcAndCheck
  split <;> rfl

@[simp] theorem dnpcAndCheck_skip : (dnpcAndCheck target st).skip = st.skip := by
  unfold dnpcAndCheck
  split <;> rfl

@[simp] theorem dnpcAndCheck_s : (dnpcAndCheck target st).s =
    { st.s with dnpc := if instAligned target then target else st.s.dnpc } := by
  unfold dnpcAndCheck
  split <;> rfl

@[simp] theorem dnpcAndCheck_haveRISCVException :
    (dnpcAndCheck target st).haveRISCVException =
      if instAligned target then st.haveRISCVException else riscvExcpInstAddrMis := by
  unfold dnpcAndCheck
  split <;> rfl

@[simp] theorem dnpcAndCheck_riscvExceptionTval :
    (dnpcAndCheck target st).riscvExceptionTval =
      if instAligned target then st.riscvExceptionTval else target := by
  unfold dnpcAndCheck
  split <;> rfl

@[simp] theorem csr_dnpcAndCheck (P : Platform D) (n : Word) :
    csr P (dnpcAndCheck target st) n = csr P st n := by
  rw [csr, dnpcAndCheck_csr, csr]

end dnpcAndCheck

def setNemuState (P : Platform D) (state : NemuRun) (pc haltRet : Word) (st : State D) : State D :=
  { st with
    nemuState := ⟨state, pc, haltRet⟩
    skip := difftestSkipRef P.difftest st.skip }

attribute [simps -fullyApplied gpr csr amw pc curPri haveRISCVException riscvExceptionTval pmem io
  nemuState skip s] setNemuState

@[simp] def nemuTrap (P : Platform D) (st : State D) : State D :=
  setNemuState P .nemuEnd st.s.pc (st.gpr 10) st

/-! ## The reservation list -/

def insertNode (l : List AtomicMemWord) (data : Word) (reserved : Bool) : List AtomicMemWord :=
  l ++ [⟨data, reserved⟩]

def deleteNode (l : List AtomicMemWord) (data : Word) : List AtomicMemWord :=
  l.eraseP (·.memWord = data)

def searchNode (l : List AtomicMemWord) (data : Word) : Option AtomicMemWord :=
  l.find? (·.memWord = data)

/-! ## Values of RV32M -/

/-- The operators of C that have no result for some operands: `*` on `int64_t`, `/` and `%` on `int32_t` and on
`uint32_t`. -/
structure HostOps (m : Type → Type) where
  mul64 : BitVec 64 → BitVec 64 → m (BitVec 64)
  sdiv : Word → Word → m Word
  srem : Word → Word → m Word
  udiv : Word → Word → m Word
  umod : Word → Word → m Word

inductive MulDiv
  | mul
  | mulh
  | mulhsu
  | mulhu
  | div
  | divu
  | rem
  | remu

/-- `int64_t * uint64_t` is an unsigned product, shifted logically. -/
def MulDiv.on {m : Type → Type} [Monad m] (host : HostOps m) (src1 src2 : Word) : MulDiv → m Word
  | .mul => pure (src1 * src2)
  | .mulh => do
    let product ← host.mul64 (src1.signExtend 64) (src2.signExtend 64)
    return (product.sshiftRight 32).setWidth 32
  | .mulhsu => pure (((src1.signExtend 64 * src2.setWidth 64) >>> 32).setWidth 32)
  | .mulhu => pure (((src1.setWidth 64 * src2.setWidth 64) >>> 32).setWidth 32)
  | .div =>
    if src1 = 0x80000000 ∧ src2 = 0xffffffff then pure src1
    else if src2 ≠ 0 then host.sdiv src1 src2
    else pure (~~~0)
  | .divu => if src2 ≠ 0 then host.udiv src1 src2 else pure (~~~0)
  | .rem =>
    if src1 = 0x80000000 ∧ src2 = 0xffffffff then pure 0
    else if src2 ≠ 0 then host.srem src1 src2
    else pure src1
  | .remu => if src2 ≠ 0 then host.umod src1 src2 else pure src1

/-- What the operators compute. -/
def computed : HostOps Id := ⟨(· * ·), BitVec.sdiv, BitVec.srem, BitVec.udiv, BitVec.umod⟩

def mul (src1 src2 : Word) : Word := MulDiv.on computed src1 src2 .mul

def mulh (src1 src2 : Word) : Word := MulDiv.on computed src1 src2 .mulh

def mulhsu (src1 src2 : Word) : Word := MulDiv.on computed src1 src2 .mulhsu

def mulhu (src1 src2 : Word) : Word := MulDiv.on computed src1 src2 .mulhu

def div (src1 src2 : Word) : Word := MulDiv.on computed src1 src2 .div

def divu (src1 src2 : Word) : Word := MulDiv.on computed src1 src2 .divu

def rem (src1 src2 : Word) : Word := MulDiv.on computed src1 src2 .rem

def remu (src1 src2 : Word) : Word := MulDiv.on computed src1 src2 .remu

def ofCond (b : Bool) : Word := if b then 1 else 0

/-! ## Bodies -/

/-- What `decode_operand` hands to a body. -/
structure Operands where
  rd : Reg
  src1 : Word
  src2 : Word
  imm : Word

/-- The bodies of the pattern table, those of one shape folded into one constructor. `write` is
`R(rd) = f(s->pc, operands)`. -/
inductive Body
  | write (f : Word → Operands → Word)
  | jal
  | jalr
  | branch (cond : Word → Word → Bool)
  | load (len : Nat) (ext : Word → Word)
  | store (len : Nat)
  | slli
  | ecall
  | ebreak
  | lrW
  | scW
  | amo (op : Word → Word → Word)
  | csr (op : Word → Word → Word)
  | sret
  | mret
  | wfi
  | nop
  | inv

def jalTarget (o : Operands) (st : State D) : Word := st.s.pc + o.imm

def jalrTarget (o : Operands) : Word := (o.src1 + o.imm) &&& ~~~1

def branchTarget (o : Operands) (st : State D) : Word :=
  st.s.pc + (sext (o.imm.setWidth 64) 13).setWidth 32

def execJal (o : Operands) (st : State D) : State D :=
  if instAligned (jalTarget o st) then (st.setR o.rd (st.s.pc + 4)).setDnpc (st.s.pc + o.imm)
  else st.trapPeekException riscvExcpInstAddrMis (jalTarget o st)

def execJalr (o : Operands) (st : State D) : State D :=
  if instAligned (jalrTarget o) then (st.setDnpc (jalrTarget o)).setR o.rd (st.s.pc + 4)
  else (st.trapPeekException riscvExcpInstAddrMis (jalrTarget o)).setR o.rd 0

def execBranch (cond : Word → Word → Bool) (o : Operands) (st : State D) : State D :=
  if cond o.src1 o.src2 then dnpcAndCheck (branchTarget o st) st else st

def execLoad (P : Platform D) (len : Nat) (ext : Word → Word) (o : Operands) (st : State D) :
    Option (State D) := do
  let (v, st) ← mr P (o.src1 + o.imm) len st
  return st.setR o.rd (ext v)

def execSlli (o : Operands) (st : State D) : State D :=
  if o.imm &&& 0x20 ≠ 0 then st.trapPeekException riscvExcpIllegalInst st.s.inst
  else st.setR o.rd (o.src1 <<< (bits o.imm 6 0).toNat)

def execEcall (P : Platform D) (st : State D) : State D :=
  let st := st.trapPeekException (riscvExcpUEcall + st.curPri) st.s.pc
  if st.gpr 17 = 8 then nemuTrap P st else st

def execEbreak (P : Platform D) (st : State D) : State D :=
  nemuTrap P (setCsr P csrMepc st.s.pc st)

def execLr (P : Platform D) (o : Operands) (st : State D) : Option (State D) := do
  let (v, st) ← mr P o.src1 4 st
  let st := st.setR o.rd v
  return st.setAmw (insertNode st.amw o.src1 true)

def execSc (P : Platform D) (o : Operands) (st : State D) : Option (State D) :=
  match searchNode st.amw o.src1 with
  | some ⟨_, true⟩ => do
    let st ← mw P o.src1 4 o.src2 st
    let st := st.setR o.rd 0
    return st.setAmw (deleteNode st.amw o.src1)
  | _ => some (st.setR o.rd 1)

def execAmo (P : Platform D) (op : Word → Word → Word) (o : Operands) (st : State D) :
    Option (State D) := do
  let (t, st) ← mr P o.src1 4 st
  let st ← mw P o.src1 4 (op t o.src2) st
  return st.setR o.rd t

/-- The six CSR instructions; `op` makes the new value out of the old one and the operand. -/
def execCsr (P : Platform D) (op : Word → Word → Word) (o : Operands) (st : State D) : State D :=
  if csrPresent P.priv o.imm then
    let t := Riscv32.csr P st o.imm
    (setCsrChecked P o.imm (op t o.src1) st).setR o.rd t
  else st.trapPeekException riscvExcpIllegalInst st.s.inst

def execSret (P : Platform D) (st : State D) : State D :=
  let st := st.setDnpc (csr P st csrSepc)
  let st := setCsr P csrSstatus
    (csr P st csrSstatus ||| (getField (csr P st csrSstatus) sstatusSpie <<< 1)) st
  let st := st.setCurPri (getField (csr P st csrSstatus) sstatusSpp)
  let st := setCsr P csrSstatus ((csr P st csrSstatus &&& ~~~sstatusSpp) ||| sstatusSpie) st
  setCsrChecked P csrMstatus ((csr P st csrMstatus &&& ~~~mstatusSpp) ||| sstatusSpie) st

def execMret (P : Platform D) (st : State D) : State D :=
  let st := st.setDnpc (csr P st csrMepc)
  let st := setCsr P csrMstatus
    (setField (csr P st csrMstatus) mstatusMie (getField (csr P st csrMstatus) mstatusMpie)) st
  let st := setCsr P csrMstatus (setField (csr P st csrMstatus) mstatusMpie 1) st
  let st := st.setCurPri (getField (csr P st csrMstatus) mstatusMpp)
  setCsrChecked P csrMstatus (setField (csr P st csrMstatus) mstatusMpp 0) st

/-- `usleep` and a store of `MTIMELO + 2000`; the load is the argument of `vaddr_write`. -/
def execWfi (P : Platform D) (st : State D) : Option (State D) :=
  if memAccess P (configClintMmio + mtimelo) 4 then do
    let (t, st) ← mr P (configClintMmio + mtimelo) 4 st
    vaddrWrite P (configClintMmio + mtimelo) 4 (t + 2000) st
  else some (st.trapPeekException riscvExcpStoreAmoAddrMis (configClintMmio + mtimelo))

def execBody (P : Platform D) (b : Body) (o : Operands) (st : State D) : Option (State D) :=
  match b with
  | .write f => some (st.setR o.rd (f st.s.pc o))
  | .jal => some (execJal o st)
  | .jalr => some (execJalr o st)
  | .branch cond => some (execBranch cond o st)
  | .load len ext => execLoad P len ext o st
  | .store len => mw P (o.src1 + o.imm) len o.src2 st
  | .slli => some (execSlli o st)
  | .ecall => some (execEcall P st)
  | .ebreak => some (execEbreak P st)
  | .lrW => execLr P o st
  | .scW => execSc P o st
  | .amo op => execAmo P op o st
  | .csr op => some (execCsr P op o st)
  | .sret => some (execSret P st)
  | .mret => some (execMret P st)
  | .wfi => execWfi P st
  | .nop => some st
  | .inv => some (st.trapPeekException riscvExcpIllegalInst st.s.inst)

end GsEmu.Riscv32
