import GsEmu.Riscv32.Step

/-! Entry into the machine-mode handler for a synchronous exception. -/

namespace GsEmu.Riscv32

variable {D : Type} {P : Platform D} {st st' f t : State D}

/-! ## `illegal_instruction` -/

@[simp] theorem ecallExit_csr (st : State D) : (ecallExit P st).csr = st.csr := by
  unfold ecallExit
  split
  · rfl
  · split <;> rfl

@[simp] theorem ecallExit_curPri (st : State D) : (ecallExit P st).curPri = st.curPri := by
  unfold ecallExit
  split
  · rfl
  · split <;> rfl

@[simp] theorem ecallExit_s (st : State D) : (ecallExit P st).s = st.s := by
  unfold ecallExit
  split
  · rfl
  · split <;> rfl

def trapMstatus (mstatus curPri : Word) : Word :=
  let m := ((mstatus &&& ~~~mstatusMpp) ||| (curPri <<< 11)) &&& ~~~0x80
  (((m &&& 0x8) <<< 4) ||| m) &&& ~~~0x8

theorem illegalInstruction_csr : (illegalInstruction P st).csr =
    Function.update (Function.update (Function.update (Function.update st.csr
      2 (trapMstatus (csr P st csrMstatus) st.curPri)) 5 st.haveRISCVException) 8 st.s.pc)
      7 st.riscvExceptionTval := by
  funext k
  simp only [illegalInstruction, ecallExit_csr, dnpcAndCheck_csr, setCsr_csr, csr, slot_mstatus,
    slot_mcause, slot_mepc, slot_mtval, Function.update_apply]
  by_cases h2 : k = 2
  · simp [h2, trapMstatus]
  · simp [h2]

@[simp] theorem illegalInstruction_curPri : (illegalInstruction P st).curPri = st.curPri := by
  simp [illegalInstruction]

theorem illegalInstruction_s : (illegalInstruction P st).s = { st.s with
    dnpc := if instAligned (csr P st csrMtvec) then csr P st csrMtvec else st.s.dnpc } := by
  simp [illegalInstruction]

theorem trapMstatus_low (m c : Word) {j : Nat} (hj : j < 11) (h3 : j ≠ 3) (h7 : j ≠ 7) :
    (trapMstatus m c).getLsbD j = m.getLsbD j := by
  have h11 : ¬11 ≤ j := by omega
  simp only [trapMstatus, mstatusMpp, BitVec.getLsbD_and, BitVec.getLsbD_or, BitVec.getLsbD_not,
    BitVec.getLsbD_shiftLeft]
  interval_cases j <;> simp_all

theorem trapMstatus_of_ne (m : Word) {c : Word} (hc : c ≤ prvM) {j : Nat} (hj : j < 32) (h3 : j ≠ 3)
    (h7 : j ≠ 7) (h11 : j ≠ 11) (h12 : j ≠ 12) : (trapMstatus m c).getLsbD j = m.getLsbD j := by
  by_cases hlow : j < 11
  · exact trapMstatus_low m c hlow h3 h7
  · have hbit : c.getLsbD (j - 11) = false := by
      have hle : c.toNat ≤ 3 := hc
      have hpow : 2 ^ 2 ≤ 2 ^ (j - 11) := Nat.pow_le_pow_right (by decide) (by omega)
      exact Nat.testBit_lt_two_pow (by omega)
    simp only [trapMstatus, mstatusMpp, BitVec.getLsbD_and, BitVec.getLsbD_or, BitVec.getLsbD_not,
      BitVec.getLsbD_shiftLeft]
    interval_cases j <;> simp_all

theorem trapMstatus_mpie (m c : Word) : (trapMstatus m c).getLsbD 7 = m.getLsbD 3 := by
  simp [trapMstatus, mstatusMpp]

theorem trapMstatus_mie (m c : Word) : (trapMstatus m c).getLsbD 3 = false := by
  simp [trapMstatus]

theorem trapMstatus_mpp (m : Word) : getField (trapMstatus m prvM) mstatusMpp = prvM := by
  have h11 : (trapMstatus m prvM).getLsbD 11 = true := by simp [trapMstatus, prvM]
  have h12 : (trapMstatus m prvM).getLsbD 12 = true := by simp [trapMstatus, prvM]
  rw [getField_mstatusMpp, h11, h12]
  rfl

/-! ## The contract of a machine trap -/

/-- A step that takes no interrupt and whose body, run from `f` to `t`, leaves an exception that is
not delegated. -/
structure MachineTrap (P : Platform D) (st f t st' : State D) : Prop where
  fetched : fetchAndCheck P st = some (false, f)
  executed : decodeBody P f = some t
  raised : t.haveRISCVException ≠ riscvExcpNone
  notDelegated : ¬delegated P t
  result : isaExecOnce P st = some st'

/-- What the privileged architecture asks of the entry, from the state before the step, the code
and the value recorded for the exception, and the state after it. -/
structure TrapEntered (P : Platform D) (st : State D) (cause tval : Word) (st' : State D) :
    Prop where
  mcause : csr P st' csrMcause = cause
  mepc : csr P st' csrMepc = st.s.pc
  mtval : csr P st' csrMtval = tval
  mpp : getField (csr P st' csrMstatus) mstatusMpp = st.curPri
  mpie : getField (csr P st' csrMstatus) mstatusMpie = getField (csr P st csrMstatus) mstatusMie
  mie : getField (csr P st' csrMstatus) mstatusMie = 0
  mode : st'.curPri = prvM
  dnpc : st'.s.dnpc = csr P st' csrMtvec &&& ~~~3

def Body.keepsMode (P : Platform D) (o : Operands) (st : State D) : Body → Prop
  | .sret => False
  | .mret => getField (Riscv32.csr P st csrMstatus) mstatusMpp = prvM ∧
      (Riscv32.csr P st csrMstatus).getLsbD 7 = (Riscv32.csr P st csrMstatus).getLsbD 3
  | .csr op => o.imm = csrMstatus → P.priv ≠ .M →
      (op (Riscv32.csr P st csrMstatus) o.src1).getLsbD 3 =
        (Riscv32.csr P st csrMstatus).getLsbD 3
  | _ => True

def fallThrough (st : State D) : Word :=
  if instAligned (st.s.snpc + 4) then st.s.snpc + 4 else st.s.dnpc

/-- When the entry for an exception raised by the word `inst` is right: in M-mode, with a body that
keeps the mode and `MIE`, and with an `mtvec` that `dnpc_and_check` accepts (or that the body's own
`dnpc` happens to agree with). -/
def TrapSound (P : Platform D) (st : State D) (inst : Word) : Prop :=
  st.curPri = prvM ∧ ∃ p, selectInst P.toConfig inst = some p ∧
    p.body.keepsMode P (decodeOperand inst p.type st.gpr) st ∧
    (instAligned (p.body.csrAfter P (decodeOperand inst p.type st.gpr) st csrMtvec) ∨
      p.body.next P (decodeOperand inst p.type st.gpr) (st.setDnpc (fallThrough st)) =
        p.body.csrAfter P (decodeOperand inst p.type st.gpr) st csrMtvec &&& ~~~3)

/-! ## What the body leaves of the mode and `MIE` -/

variable {o : Operands}

theorem Body.keepsMode_iff (b : Body) (hpri : st.curPri = prvM) : b.keepsMode P o st ↔
    b.mode P st = prvM ∧ (b.csrAfter P o st csrMstatus).getLsbD 3 =
      (Riscv32.csr P st csrMstatus).getLsbD 3 := by
  cases b with
  | ebreak => simp [Body.keepsMode, Body.mode, Body.csrAfter, hpri, csrMepc, csrMstatus]
  | csr op =>
    simp only [Body.keepsMode, Body.mode, Body.csrAfter, hpri, true_and]
    by_cases hi : o.imm = csrMstatus
    · by_cases hM : P.priv = .M
      · simp [hM, hi]
      · simp [hM, hi]
    · simp [hi, Ne.symm hi]
  | sret =>
    simp only [Body.keepsMode, Body.mode, getField_sstatusSpp, false_iff]
    rintro ⟨h, -⟩
    split at h <;> exact absurd h (by decide)
  | mret =>
    simp only [Body.keepsMode, Body.mode, Body.csrAfter, if_true]
    refine and_congr_right fun _ => ?_
    split
    · rw [mretMstatus_mie]
    · rw [getLsbD_setField (k := 11) rfl, if_neg (by decide), mretMstatus_mie]
  | _ => simp [Body.keepsMode, Body.mode, Body.csrAfter, hpri]

/-! ## The entry is right exactly in the sound states -/

variable {inst : Word} {io : Io D} {skip : DifftestSkip} {late : Bool}

theorem csrAfter_afterFetch (b : Body) {n : Word} (hn : checkCsrIdx P.priv n ≠ 3) :
    b.csrAfter P o (afterFetch P st inst io skip late) n = b.csrAfter P o st n := by
  cases b <;> simp only [Body.csrAfter, csr_afterFetch P st inst io skip late hn, afterFetch_s]

theorem bodyStart_s : (bodyStart (afterFetch P st inst io skip late)).s =
    { st.s with inst := inst, snpc := st.s.snpc + 4, dnpc := fallThrough st } := by
  rw [dnpcAndCheck_s]
  rfl

theorem Body.mode_afterFetch (b : Body) :
    b.mode P (afterFetch P st inst io skip late) = b.mode P st := by
  have hs : checkCsrIdx P.priv csrSstatus ≠ 3 := by
    rw [slot_sstatus_any]
    split <;> decide
  cases b <;> simp [Body.mode, csr_afterFetch, hs]

theorem Body.next_bodyStart (b : Body) :
    b.next P o (bodyStart (afterFetch P st inst io skip late)) =
      b.next P o (st.setDnpc (fallThrough st)) := by
  have hs : checkCsrIdx P.priv csrSepc ≠ 3 := by
    rw [slot_sepc_any]
    split <;> decide
  have hset : ∀ n, Riscv32.csr P (st.setDnpc (fallThrough st)) n = Riscv32.csr P st n := fun _ => rfl
  have hm : checkCsrIdx P.priv csrMepc ≠ 3 := by simp
  cases b <;>
    simp only [Body.next, csr_bodyStart, csr_afterFetch _ _ _ _ _ _ hs,
      csr_afterFetch _ _ _ _ _ _ hm, hset, jalTarget, branchTarget,
      bodyStart_s, State.setDnpc_s]

theorem dnpc_base_iff (mtvec dnpc : Word) :
    (if instAligned mtvec then mtvec else dnpc) = mtvec &&& ~~~3 ↔
      instAligned mtvec ∨ dnpc = mtvec &&& ~~~3 := by
  by_cases h : instAligned mtvec
  · simp only [h, if_true, true_or, iff_true]
    exact h.base.symm
  · simp [h]

theorem trapEntered_illegalInstruction (hpc : t.s.pc = st.s.pc) :
    TrapEntered P st t.haveRISCVException t.riscvExceptionTval
        (recyException (illegalInstruction P t)) ↔
      st.curPri = prvM ∧ t.curPri = prvM ∧
        (csr P t csrMstatus).getLsbD 3 = (csr P st csrMstatus).getLsbD 3 ∧
        (instAligned (csr P t csrMtvec) ∨ t.s.dnpc = csr P t csrMtvec &&& ~~~3) := by
  have hcsr : ∀ n, csr P (recyException (illegalInstruction P t)) n =
      (illegalInstruction P t).csr (checkCsrIdx P.priv n) := fun _ => rfl
  have hmstatus : csr P (recyException (illegalInstruction P t)) csrMstatus =
      trapMstatus (csr P t csrMstatus) t.curPri := by
    simp [hcsr, illegalInstruction_csr]
  have hmtvec : csr P (recyException (illegalInstruction P t)) csrMtvec = csr P t csrMtvec := by
    rw [hcsr, illegalInstruction_csr]
    simp [csr]
  have hdnpc : (recyException (illegalInstruction P t)).s.dnpc =
      if instAligned (csr P t csrMtvec) then csr P t csrMtvec else t.s.dnpc :=
    congrArg Decode.dnpc illegalInstruction_s
  constructor
  · intro h
    have hmode : t.curPri = prvM := illegalInstruction_curPri.symm.trans h.mode
    have hmpp := h.mpp
    have hmpie := h.mpie
    have hbase := h.dnpc
    rw [hmstatus, hmode, trapMstatus_mpp] at hmpp
    rw [hmstatus, getField_mstatusMpie, trapMstatus_mpie, getField_mstatusMie] at hmpie
    rw [hdnpc, hmtvec, dnpc_base_iff] at hbase
    refine ⟨hmpp.symm, hmode, ?_, hbase⟩
    -- `MPIE` is the `MIE` that the body left, the contract asks for the one before it
    cases h₁ : (csr P t csrMstatus).getLsbD 3 <;> cases h₂ : (csr P st csrMstatus).getLsbD 3 <;>
      simp_all
  · rintro ⟨hpri, hmode, hmie, hbase⟩
    exact {
      mcause := by simp [hcsr, illegalInstruction_csr]
      mepc := by simp [hcsr, illegalInstruction_csr, hpc]
      mtval := by simp [hcsr, illegalInstruction_csr]
      mpp := by rw [hmstatus, hmode, trapMstatus_mpp, hpri]
      mpie := by rw [hmstatus, getField_mstatusMpie, trapMstatus_mpie, getField_mstatusMie, hmie]
      mie := by rw [hmstatus, getField_mstatusMie, trapMstatus_mie]; rfl
      mode := illegalInstruction_curPri.trans hmode
      dnpc := by rw [hdnpc, hmtvec, dnpc_base_iff]; exact hbase }

theorem isaExecOnce_executed (hf : fetchAndCheck P st = some (false, f))
    (ht : decodeBody P f = some t) : isaExecOnce P st = some (trapTail P t) :=
  isaExecOnce_iff.mpr (.inr ⟨f, t, hf, ht, rfl⟩)

theorem executed_body (hf : fetchAndCheck P st = some (false, f)) (ht : decodeBody P f = some t) :
    ∃ p, selectInst P.toConfig f.s.inst = some p ∧ t.s.pc = st.s.pc ∧ t.curPri = p.body.mode P st ∧
      t.s.dnpc = p.body.next P (decodeOperand f.s.inst p.type st.gpr)
        (st.setDnpc (fallThrough st)) ∧
      ∀ n, csrPresent P.priv n → n ≠ csrMisa → checkCsrIdx P.priv n ≠ 3 → csr P t n =
        p.body.csrAfter P (decodeOperand f.s.inst p.type st.gpr) st n := by
  obtain ⟨inst, io, skip, late, rfl⟩ := fetchAndCheck_not_taken hf
  obtain ⟨p, t₀, hp, hbody, rfl⟩ := decodeBody_cases ht
  have hs := (execBody_control hbody).2.2
  refine ⟨p, hp, ?_, ?_, ?_, fun n hn hmisa h3 => ?_⟩
  · rw [resetFixed_s, hs, bodyStart_s]
  · rw [decodeBody_mode hp ht, Body.mode_afterFetch]
  · rw [resetFixed_s, hs, Body.next_bodyStart]
    rfl
  · rw [decodeBody_csr hp ht hn hmisa, csrAfter_afterFetch _ h3]
    rfl

/-- The machine-mode entry meets its contract exactly in the states `TrapSound` describes. -/
theorem machineTrap_entered_iff (h : MachineTrap P st f t st') :
    TrapEntered P st t.haveRISCVException t.riscvExceptionTval st' ↔ TrapSound P st f.s.inst := by
  have hst' : st' = recyException (illegalInstruction P t) := by
    have hres := isaExecOnce_executed h.fetched h.executed
    rw [Option.some.inj (h.result.symm.trans hres), trapTail, if_pos h.raised, if_neg h.notDelegated]
  obtain ⟨p, hp, hpc, hmode, hdnpc, hcsr⟩ := executed_body h.fetched h.executed
  have hmstatus := hcsr csrMstatus (csrPresent_mstatus _) (by decide) (by simp)
  have hmtvec := hcsr csrMtvec (csrPresent_mtvec _) (by decide) (by simp)
  rw [hst', trapEntered_illegalInstruction hpc, hmstatus, hmtvec, hdnpc, hmode]
  constructor
  · rintro ⟨hM, hmode, hmie, hbase⟩
    exact ⟨hM, p, hp, (p.body.keepsMode_iff hM).mpr ⟨hmode, hmie⟩, hbase⟩
  · rintro ⟨hM, q, hq, hkeeps, hbase⟩
    obtain rfl := Option.some.inj (hp.symm.trans hq)
    obtain ⟨hmode, hmie⟩ := (p.body.keepsMode_iff hM).mp hkeeps
    exact ⟨hM, hmode, hmie, hbase⟩

def findMachineTrap (P : Platform D) (st : State D) : Option (State D × State D × State D) := do
  let (taken, f) ← fetchAndCheck P st
  if taken then none
  let t ← decodeBody P f
  if t.haveRISCVException ≠ riscvExcpNone ∧ ¬delegated P t then return (f, t, trapTail P t)
  none

theorem findMachineTrap_sound (h : findMachineTrap P st = some (f, t, st')) :
    MachineTrap P st f t st' := by
  simp only [findMachineTrap, Option.bind_eq_bind, Option.pure_def, Option.bind_eq_some_iff] at h
  obtain ⟨⟨taken, f'⟩, hf, h⟩ := h
  cases taken with
  | true => simp at h
  | false =>
    obtain ⟨t', ht, h⟩ := Option.bind_eq_some_iff.mp (show (decodeBody P f').bind _ = _ from h)
    split at h
    · rename_i htrap
      simp only [Option.some.injEq, Prod.mk.injEq] at h
      obtain ⟨rfl, rfl, rfl⟩ := h
      exact ⟨hf, ht, htrap.1, htrap.2, isaExecOnce_executed hf ht⟩
    · simp at h

def userEcall : State Unit := (booted clintBoard [0x73]).enter.setCurPri prvU

def vectoredEcall : State Unit :=
  setCsr clintBoard csrMtvec 0x80001001 (booted clintBoard [0x73]).enter

theorem machineTrap_refuted :
    (∃ f t st', MachineTrap clintBoard userEcall f t st' ∧ st'.curPri = prvU ∧
      ¬TrapEntered clintBoard userEcall t.haveRISCVException t.riscvExceptionTval st') ∧
    ∃ f t st', MachineTrap clintBoard vectoredEcall f t st' ∧ st'.s.dnpc = 0x80000004 ∧
      ¬TrapEntered clintBoard vectoredEcall t.haveRISCVException t.riscvExceptionTval st' := by
  have huser : (findMachineTrap clintBoard userEcall).map (·.2.2.curPri) = some prvU := by
    decide +kernel
  have hvec : (findMachineTrap clintBoard vectoredEcall).map
      (fun x => (x.2.2.s.dnpc, csr clintBoard x.2.2 csrMtvec)) =
        some (0x80000004, 0x80001001) := by
    decide +kernel
  obtain ⟨⟨f, t, st'⟩, h, hpri⟩ := Option.map_eq_some_iff.mp huser
  obtain ⟨⟨g, u, su'⟩, h', hdnpc⟩ := Option.map_eq_some_iff.mp hvec
  obtain ⟨hdnpc, hmtvec⟩ := Prod.mk.inj hdnpc
  refine ⟨⟨f, t, st', findMachineTrap_sound h, hpri, fun he => ?_⟩,
    ⟨g, u, su', findMachineTrap_sound h', hdnpc, fun he => ?_⟩⟩
  · exact absurd (hpri.symm.trans he.mode) (by decide)
  · have hbase := he.dnpc
    rw [show su'.s.dnpc = _ from hdnpc, show csr clintBoard su' csrMtvec = _ from hmtvec] at hbase
    exact absurd hbase (by decide)

theorem machineTrap_entered_iff_vectored :
    ∃ f t st', MachineTrap clintBoard vectoredEcall f t st' ∧
      (TrapEntered clintBoard vectoredEcall t.haveRISCVException t.riscvExceptionTval st' ↔
        TrapSound clintBoard vectoredEcall f.s.inst) := by
  have hsome : (findMachineTrap clintBoard vectoredEcall).isSome = true := by decide +kernel
  obtain ⟨⟨f, t, st'⟩, h⟩ := Option.isSome_iff_exists.mp hsome
  exact ⟨f, t, st', findMachineTrap_sound h, machineTrap_entered_iff (findMachineTrap_sound h)⟩

end GsEmu.Riscv32
