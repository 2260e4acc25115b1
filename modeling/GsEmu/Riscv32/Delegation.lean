import GsEmu.Riscv32.ProgramCounter
import GsEmu.Riscv32.Supervisor

/-! Entry into the supervisor-mode handler for a delegated exception. -/

namespace GsEmu.Riscv32

variable {D : Type} {P : Platform D} {st st' f t : State D} {o : Operands}

/-! ## The contract of a delegated trap -/

/-- A step that takes no interrupt and whose body, run from `f` to `t`, leaves an exception. -/
structure ExceptionStep (P : Platform D) (st f t st' : State D) : Prop where
  fetched : fetchAndCheck P st = some (false, f)
  executed : decodeBody P f = some t
  raised : t.haveRISCVException ≠ riscvExcpNone
  result : isaExecOnce P st = some st'

/-- The code of the pending exception is set in `medeleg`. -/
def medelegHas (P : Platform D) (st : State D) (cause : Word) : Prop :=
  csr P st csrMedeleg &&& (1 <<< cause.toNat) ≠ 0

structure SameMachine (x y : Word) : Prop where
  mpp : getField x mstatusMpp = getField y mstatusMpp
  mpie : getField x mstatusMpie = getField y mstatusMpie
  mie : getField x mstatusMie = getField y mstatusMie

def machineTrapCsrs : List Word := [csrMepc, csrMcause, csrMtval]

/-- What the privileged architecture asks of the entry, from the state before the step, the code and the
value recorded for the exception, and the state after it. -/
structure DelegationEntered (P : Platform D) (st : State D) (cause tval : Word) (st' : State D) :
    Prop where
  scause : csr P st' csrScause = cause
  sepc : csr P st' csrSepc = st.s.pc
  stval : csr P st' csrStval = tval
  spie : getField (csr P st' csrSstatus) sstatusSpie = getField (csr P st csrSstatus) sstatusSie
  sie : getField (csr P st' csrSstatus) sstatusSie = 0
  spp : getField (csr P st' csrSstatus) sstatusSpp = st.curPri
  mode : st'.curPri = prvS
  dnpc : st'.s.dnpc = csr P st' csrStvec &&& ~~~3
  machineCsrs : ∀ n ∈ machineTrapCsrs, csr P st' n = csr P st n
  machine : SameMachine (csr P st' csrMstatus) (csr P st csrMstatus)

/-- The body leaves the mode, `sstatus.SIE` and the machine-mode trap state as they were. -/
def Body.keepsTrapState (P : Platform D) (o : Operands) (st : State D) : Body → Prop
  | .sret => getField (Riscv32.csr P st csrSstatus) sstatusSpp = st.curPri ∧
      ((Riscv32.csr P st csrSstatus).getLsbD 5 = true →
        (Riscv32.csr P st csrSstatus).getLsbD 1 = true)
  | .mret => st.curPri = prvU ∧ getField (Riscv32.csr P st csrMstatus) mstatusMpp = prvU ∧
      (Riscv32.csr P st csrMstatus).getLsbD 7 = true ∧ (Riscv32.csr P st csrMstatus).getLsbD 3 = true
  | .ebreak => Riscv32.csr P st csrMepc = st.s.pc
  | .csr op =>
      (o.imm = csrSstatus → (op (Riscv32.csr P st csrSstatus) o.src1).getLsbD 1 =
        (Riscv32.csr P st csrSstatus).getLsbD 1) ∧
      (o.imm = csrMstatus →
        SameMachine (op (Riscv32.csr P st csrMstatus) o.src1) (Riscv32.csr P st csrMstatus)) ∧
      ∀ n ∈ machineTrapCsrs, o.imm = n → op (Riscv32.csr P st n) o.src1 = Riscv32.csr P st n
  | _ => True

/-- When the entry for an exception raised by the word `inst` is right: with a body that keeps what the
trap must save or leave alone, and with an `stvec` that `dnpc_and_check` accepts (or that the body's own
`dnpc` happens to agree with). -/
def DelegationSound (P : Platform D) (st : State D) (inst : Word) : Prop :=
  ∃ p, selectInst P.toConfig inst = some p ∧
    p.body.keepsTrapState P (decodeOperand inst p.type st.gpr) st ∧
    (instAligned (p.body.csrAfter P (decodeOperand inst p.type st.gpr) st csrStvec) ∨
      p.body.next P (decodeOperand inst p.type st.gpr) (st.setDnpc (fallThrough st)) =
        p.body.csrAfter P (decodeOperand inst p.type st.gpr) st csrStvec &&& ~~~3)

/-- The body goes from M-mode to a mode that delegates. -/
def Body.leavesMachine (P : Platform D) (st : State D) : Body → Prop
  | .sret => True
  | .mret => getField (Riscv32.csr P st csrMstatus) mstatusMpp ≤ prvS
  | _ => False

/-! ## What the body leaves of the trap state -/

theorem sameMachine_iff {x y : Word} : SameMachine x y ↔ x.getLsbD 11 = y.getLsbD 11 ∧
    x.getLsbD 12 = y.getLsbD 12 ∧ x.getLsbD 7 = y.getLsbD 7 ∧ x.getLsbD 3 = y.getLsbD 3 := by
  constructor
  · rintro ⟨hmpp, hmpie, hmie⟩
    rw [getField_mstatusMpp, getField_mstatusMpp] at hmpp
    rw [getField_mstatusMpie, getField_mstatusMpie] at hmpie
    rw [getField_mstatusMie, getField_mstatusMie] at hmie
    revert hmpp hmpie hmie
    cases x.getLsbD 11 <;> cases y.getLsbD 11 <;> cases x.getLsbD 12 <;> cases y.getLsbD 12 <;>
      cases x.getLsbD 7 <;> cases y.getLsbD 7 <;> cases x.getLsbD 3 <;> cases y.getLsbD 3 <;> decide
  · rintro ⟨h11, h12, h7, h3⟩
    exact ⟨by rw [getField_mstatusMpp, getField_mstatusMpp, h11, h12],
      by rw [getField_mstatusMpie, getField_mstatusMpie, h7],
      by rw [getField_mstatusMie, getField_mstatusMie, h3]⟩

theorem sretMstatus_machine (m : Word) : SameMachine (sretMstatus m) m := by
  rw [sameMachine_iff]
  refine ⟨?_, ?_, ?_, ?_⟩ <;> simp [sretMstatus, mstatusSpp, sstatusSpie]

theorem mretMstatus_machine_iff (m : Word) :
    SameMachine (setField (mretMstatus m) mstatusMpp 0) m ↔
      getField m mstatusMpp = prvU ∧ m.getLsbD 7 = true ∧ m.getLsbD 3 = true := by
  have h7 : (mretMstatus m).getLsbD 7 = true := by
    rw [mretMstatus, getLsbD_setField (k := 7) rfl, if_pos (by decide)]
    rfl
  have hset : ∀ j, (setField (mretMstatus m) mstatusMpp 0).getLsbD j =
      if mstatusMpp.getLsbD j then false else (mretMstatus m).getLsbD j := by
    intro j
    have hzero : (0 : Word).getLsbD (j - 11) = false := BitVec.getLsbD_zero
    rw [getLsbD_setField (k := 11) rfl, hzero, Bool.and_false, Bool.and_false]
  rw [sameMachine_iff, hset 11, hset 12, hset 7, hset 3, if_pos (by decide), if_pos (by decide),
    if_neg (by decide), if_neg (by decide), h7, mretMstatus_mie, getField_mstatusMpp]
  cases m.getLsbD 11 <;> cases m.getLsbD 12 <;> cases m.getLsbD 7 <;> cases m.getLsbD 3 <;> decide

theorem Body.keepsTrapState_iff (hP : P.priv = .MSU) (b : Body) (o : Operands) (st : State D) :
    b.keepsTrapState P o st ↔
    b.mode P st = st.curPri ∧ (b.csrAfter P o st csrSstatus).getLsbD 1 =
      (Riscv32.csr P st csrSstatus).getLsbD 1 ∧
    (∀ n ∈ machineTrapCsrs, b.csrAfter P o st n = Riscv32.csr P st n) ∧
    SameMachine (b.csrAfter P o st csrMstatus) (Riscv32.csr P st csrMstatus) := by
  have hne : csrSstatus ≠ csrMstatus := by decide
  have hmachine : ∀ n ∈ machineTrapCsrs, n ≠ csrSstatus ∧ n ≠ csrMstatus := by
    simp [machineTrapCsrs, csrMepc, csrMcause, csrMtval, csrSstatus, csrMstatus]
  have hrefl : ∀ m, SameMachine m m := fun m => ⟨rfl, rfl, rfl⟩
  cases b with
  | ebreak =>
    have hs : csrSstatus ≠ csrMepc := by decide
    have hm : csrMstatus ≠ csrMepc := by decide
    have hcause : csrMcause ≠ csrMepc := by decide
    have htval : csrMtval ≠ csrMepc := by decide
    simp [Body.keepsTrapState, Body.mode, Body.csrAfter, machineTrapCsrs, hs, hm, hcause, htval, hrefl,
      eq_comm]
  | csr op =>
    simp only [Body.keepsTrapState, Body.mode, Body.csrAfter, true_and, hP, reduceCtorEq, false_and,
      not_false_eq_true, and_true]
    refine and_congr ?_ (and_comm.trans (and_congr ?_ ?_))
    · by_cases hi : csrSstatus = o.imm
      · simp [← hi]
      · simp [hi, Ne.symm hi]
    · refine forall₂_congr fun n _ => ?_
      by_cases hi : n = o.imm
      · simp [← hi]
      · simp [hi, Ne.symm hi]
    · by_cases hi : csrMstatus = o.imm
      · simp [← hi]
      · simp [hi, Ne.symm hi, hrefl]
  | sret =>
    have hsie := (sretSstatus_view (Riscv32.csr P st csrSstatus)).1
    have hcsrs : ∀ n ∈ machineTrapCsrs, Body.sret.csrAfter P o st n = Riscv32.csr P st n := by
      intro n hn
      simp [Body.csrAfter, hmachine n hn]
    simp only [Body.keepsTrapState, Body.mode, Body.csrAfter, hne, hP, ne_eq, reduceCtorEq,
      not_false_eq_true, false_and, and_self, if_true, if_false, hsie]
    refine and_congr_right fun _ => ?_
    have hbits : ((Riscv32.csr P st csrSstatus).getLsbD 5 = true →
        (Riscv32.csr P st csrSstatus).getLsbD 1 = true) ↔
        ((Riscv32.csr P st csrSstatus).getLsbD 1 || (Riscv32.csr P st csrSstatus).getLsbD 5) =
          (Riscv32.csr P st csrSstatus).getLsbD 1 := by
      cases (Riscv32.csr P st csrSstatus).getLsbD 5 <;>
        cases (Riscv32.csr P st csrSstatus).getLsbD 1 <;> decide
    rw [hbits]
    constructor
    · intro h
      refine ⟨h, fun n hn => ?_, sretMstatus_machine _⟩
      have := hcsrs n hn
      simpa [Body.csrAfter, hP] using this
    · exact fun h => h.1
  | mret =>
    have hcsrs : ∀ n ∈ machineTrapCsrs, n ≠ csrMstatus := fun n hn => (hmachine n hn).2
    simp only [Body.keepsTrapState, Body.mode, Body.csrAfter, hne, hP, reduceCtorEq, if_true, if_false,
      mretMstatus_machine_iff, true_and]
    constructor
    · rintro ⟨hU, hmpp, hbits⟩
      exact ⟨hmpp.trans hU.symm, fun n hn => if_neg (hcsrs n hn), hmpp, hbits⟩
    · rintro ⟨hmode, -, hmpp, hbits⟩
      exact ⟨hmode.symm.trans hmpp, hmpp, hbits⟩
  | _ => simp [Body.keepsTrapState, Body.mode, Body.csrAfter, hrefl]

/-! ## The entry is right exactly in the sound states -/

theorem delegateMstatus_machine (m : Word) : SameMachine (delegateMstatus m) m := by
  have hspp : mstatusSpp &&& ~~~(mstatusSpp <<< 1) = BitVec.twoPow 32 8 := rfl
  have hspie : mstatusSpie &&& ~~~(mstatusSpie <<< 1) = BitVec.twoPow 32 5 := rfl
  rw [sameMachine_iff]
  refine ⟨?_, ?_, ?_, ?_⟩ <;>
    rw [delegateMstatus, getLsbD_setField hspp, if_neg (by decide), getLsbD_setField hspie,
      if_neg (by decide)]

theorem SameMachine.trans {x y z : Word} (h : SameMachine x y) (h' : SameMachine y z) :
    SameMachine x z := ⟨h.mpp.trans h'.mpp, h.mpie.trans h'.mpie, h.mie.trans h'.mie⟩

theorem SameMachine.symm {x y : Word} (h : SameMachine x y) : SameMachine y x :=
  ⟨h.mpp.symm, h.mpie.symm, h.mie.symm⟩

theorem spp_delegateSstatus (s : Word) {c : Word} (h : c ≤ prvS) :
    getField (delegateSstatus s c) sstatusSpp = c := by
  rw [getField_sstatusSpp, (delegateSstatus_view s c).2.2]
  have hle : c.toNat ≤ 1 := h
  have hcase : c = prvU ∨ c = prvS := by
    rw [← BitVec.toNat_inj, ← BitVec.toNat_inj]
    change c.toNat = 0 ∨ c.toNat = 1
    omega
  rcases hcase with rfl | rfl <;> rfl

theorem delegateException_csrs (hP : P.priv = .MSU) :
    csr P (delegateException P t) csrScause = t.haveRISCVException ∧
      csr P (delegateException P t) csrSepc = t.s.pc ∧
      csr P (delegateException P t) csrStval = t.riscvExceptionTval ∧
      csr P (delegateException P t) csrStvec = csr P t csrStvec ∧
      ∀ n ∈ machineTrapCsrs, csr P (delegateException P t) n = csr P t n := by
  refine ⟨?_, ?_, ?_, ?_, ?_⟩
  iterate 4 simp [delegateException, hP]
  intro n hn
  simp only [machineTrapCsrs, List.mem_cons, List.not_mem_nil, or_false] at hn
  rcases hn with rfl | rfl | rfl <;> simp [delegateException, hP]

def ReachesUnchanged (P : Platform D) (st t : State D) : Prop :=
  t.curPri = st.curPri ∧
    (csr P t csrSstatus).getLsbD 1 = (csr P st csrSstatus).getLsbD 1 ∧
    (∀ n ∈ machineTrapCsrs, csr P t n = csr P st n) ∧
    SameMachine (csr P t csrMstatus) (csr P st csrMstatus) ∧
    (instAligned (csr P t csrStvec) ∨ t.s.dnpc = csr P t csrStvec &&& ~~~3)

theorem delegationEntered_delegateException (hP : P.priv = .MSU) (hpc : t.s.pc = st.s.pc)
    (hpri : t.curPri ≤ prvS) :
    DelegationEntered P st t.haveRISCVException t.riscvExceptionTval
        (recyException (delegateException P t)) ↔
      ReachesUnchanged P st t := by
  have hcsr : ∀ n, csr P (recyException (delegateException P t)) n =
      csr P (delegateException P t) n := fun _ => rfl
  obtain ⟨hscause, hsepc, hstval, hstvec, hmachine⟩ := delegateException_csrs (t := t) hP
  obtain ⟨hsstatus, hmstatus⟩ := delegateException_views (t := t) hP
  obtain ⟨hsie, hspie, -⟩ := delegateSstatus_view (csr P t csrSstatus) t.curPri
  have hdnpc : (recyException (delegateException P t)).s.dnpc =
      if instAligned (csr P t csrStvec) then csr P t csrStvec else t.s.dnpc :=
    congrArg Decode.dnpc (delegateException_s hP)
  have hbit : ∀ b c : Bool, (if b then (1 : Word) else 0) = (if c then 1 else 0) ↔ b = c := by decide
  constructor
  · intro h
    have hspp := h.spp
    have hspie' := h.spie
    have hbase := h.dnpc
    have hsame := h.machine
    rw [hcsr, hsstatus, spp_delegateSstatus _ hpri] at hspp
    rw [hcsr, hsstatus, getField_sstatusSpie, hspie, getField_sstatusSie, hbit] at hspie'
    rw [hdnpc, hcsr, hstvec, dnpc_base_iff] at hbase
    rw [hcsr, hmstatus] at hsame
    exact ⟨hspp, hspie', fun n hn => (hmachine n hn).symm.trans (h.machineCsrs n hn),
      (delegateMstatus_machine _).symm.trans hsame, hbase⟩
  · rintro ⟨hpri', hsie', hcsrs, hsame, hbase⟩
    exact {
      scause := hscause
      sepc := hsepc.trans hpc
      stval := hstval
      spie := by rw [hcsr, hsstatus, getField_sstatusSpie, hspie, getField_sstatusSie, hsie']
      sie := by
        rw [hcsr, hsstatus, getField_sstatusSie, hsie]
        rfl
      spp := by rw [hcsr, hsstatus, spp_delegateSstatus _ hpri, hpri']
      mode := rfl
      dnpc := by
        rw [hdnpc, hcsr, hstvec, dnpc_base_iff]
        exact hbase
      machineCsrs := fun n hn => (hmachine n hn).trans (hcsrs n hn)
      machine := by
        rw [hcsr, hmstatus]
        exact (delegateMstatus_machine _).trans hsame }

theorem ExceptionStep.eq_trapTail (h : ExceptionStep P st f t st') : st' = trapTail P t :=
  Option.some.inj (h.result.symm.trans (isaExecOnce_executed h.fetched h.executed))

theorem ExceptionStep.medeleg (h : ExceptionStep P st f t st') (hP : P.priv = .MSU) :
    ∃ p, selectInst P.toConfig f.s.inst = some p ∧
      ((∀ op, p.body = .csr op → (decodeOperand f.s.inst p.type st.gpr).imm ≠ csrMedeleg) →
        csr P t csrMedeleg = csr P st csrMedeleg) := by
  obtain ⟨p, hp, -, -, -, hcsr⟩ := executed_body h.fetched h.executed
  have hpresent : csrPresent P.priv csrMedeleg := by
    rw [hP]
    decide
  refine ⟨p, hp, fun hother => ?_⟩
  have hslot : checkCsrIdx P.priv csrMedeleg ≠ 3 := by
    rw [hP]
    decide
  rw [hcsr csrMedeleg hpresent (by decide) hslot]
  obtain ⟨o, ho⟩ : ∃ o, decodeOperand f.s.inst p.type st.gpr = o := ⟨_, rfl⟩
  rw [ho] at hother ⊢
  cases hb : p.body with
  | csr op =>
    have hne : csrMedeleg ≠ o.imm := (hother op hb).symm
    simp [Body.csrAfter, hne]
  | ebreak => rfl
  | sret => rfl
  | mret => rfl
  | _ => rfl

theorem ExceptionStep.delegationSound_iff (h : ExceptionStep P st f t st') (hP : P.priv = .MSU) :
    DelegationSound P st f.s.inst ↔ ReachesUnchanged P st t := by
  obtain ⟨p, hp, -, hpri, hdnpc, hcsr⟩ := executed_body h.fetched h.executed
  have hpresent : ∀ n ∈ csrSstatus :: csrStvec :: csrMstatus :: machineTrapCsrs,
      csrPresent P.priv n ∧ n ≠ csrMisa ∧ checkCsrIdx P.priv n ≠ 3 := by
    intro n hn
    rw [hP]
    simp only [machineTrapCsrs, List.mem_cons, List.not_mem_nil, or_false] at hn
    rcases hn with rfl | rfl | rfl | rfl | rfl | rfl <;>
      exact ⟨by simp [csrPresent, nrCsr], by decide, by simp⟩
  have hvalue : ∀ n ∈ csrSstatus :: csrStvec :: csrMstatus :: machineTrapCsrs, csr P t n =
      p.body.csrAfter P (decodeOperand f.s.inst p.type st.gpr) st n := by
    intro n hn
    obtain ⟨hpr, hmisa, hslot⟩ := hpresent n hn
    exact hcsr n hpr hmisa hslot
  have hmachine : (∀ n ∈ machineTrapCsrs, csr P t n = csr P st n) ↔ ∀ n ∈ machineTrapCsrs,
      p.body.csrAfter P (decodeOperand f.s.inst p.type st.gpr) st n = csr P st n := by
    refine forall₂_congr fun n hn => ?_
    rw [hvalue n (by simp [hn])]
  rw [ReachesUnchanged, hmachine, hvalue csrSstatus (by simp), hvalue csrMstatus (by simp),
    hvalue csrStvec (by simp), hpri, hdnpc]
  have hbody := p.body.keepsTrapState_iff hP (decodeOperand f.s.inst p.type st.gpr) st
  constructor
  · rintro ⟨q, hq, hkeeps, hbase⟩
    obtain rfl := Option.some.inj (hp.symm.trans hq)
    obtain ⟨hm, hsie, hcsrs, hsame⟩ := hbody.mp hkeeps
    exact ⟨hm, hsie, hcsrs, hsame, hbase⟩
  · rintro ⟨hm, hsie, hcsrs, hsame, hbase⟩
    exact ⟨p, hp, hbody.mpr ⟨hm, hsie, hcsrs, hsame⟩, hbase⟩

theorem delegationEntered_iff (hP : P.priv = .MSU) (h : ExceptionStep P st f t st')
    (hmode : st.curPri ≤ prvS) (hbit : medelegHas P t t.haveRISCVException) :
    DelegationEntered P st t.haveRISCVException t.riscvExceptionTval st' ↔
      DelegationSound P st f.s.inst := by
  obtain ⟨p, -, hpc, -⟩ := executed_body h.fetched h.executed
  rw [h.delegationSound_iff hP, h.eq_trapTail, trapTail, if_pos h.raised]
  by_cases hd : t.curPri ≤ prvS
  · rw [if_pos ⟨hP, hd, hbit⟩]
    exact delegationEntered_delegateException hP hpc hd
  · rw [if_neg fun hdel => hd hdel.2.1]
    constructor
    · intro hentry
      have hS : t.curPri = prvS := illegalInstruction_curPri.symm.trans hentry.mode
      exact absurd (hS ▸ BitVec.le_refl prvS) hd
    · rintro ⟨hsame, -⟩
      exact absurd (hsame ▸ hmode) hd

theorem Body.leavesMachine_iff (b : Body) (h : st.curPri = prvM) :
    b.leavesMachine P st ↔ b.mode P st ≤ prvS := by
  cases b with
  | sret =>
    refine iff_of_true trivial ?_
    rw [Body.mode, getField_sstatusSpp]
    split <;> decide
  | mret => exact Iff.rfl
  | _ =>
    refine iff_of_false id ?_
    change ¬st.curPri ≤ prvS
    rw [h]
    decide

theorem delegated_machine_iff (hP : P.priv = .MSU) (h : ExceptionStep P st f t st')
    (hmode : st.curPri = prvM) : delegatesTrap P t ↔
      medelegHas P t t.haveRISCVException ∧
        ∃ p, selectInst P.toConfig f.s.inst = some p ∧ p.body.leavesMachine P st := by
  obtain ⟨p, hp, -, hpri, -, -⟩ := executed_body h.fetched h.executed
  constructor
  · rintro ⟨-, -, hle, hbit⟩
    refine ⟨hbit, p, hp, ?_⟩
    rw [p.body.leavesMachine_iff hmode, ← hpri]
    exact hle
  · rintro ⟨hbit, q, hq, hleaves⟩
    obtain rfl := Option.some.inj (hp.symm.trans hq)
    refine ⟨h.raised, hP, ?_, hbit⟩
    rw [hpri]
    exact (p.body.leavesMachine_iff hmode).mp hleaves

/-- In U- and S-mode the entry for an exception with its code in `medeleg` meets its contract exactly in the
states `DelegationSound` describes, and in M-mode no exception is delegated exactly as long as the word is
not a return to a lower mode. -/
theorem delegatedTrap_iff (hP : P.priv = .MSU) (h : ExceptionStep P st f t st') :
    (st.curPri ≤ prvS → medelegHas P t t.haveRISCVException →
      (DelegationEntered P st t.haveRISCVException t.riscvExceptionTval st' ↔
        DelegationSound P st f.s.inst)) ∧
    (st.curPri = prvM → (¬delegatesTrap P t ↔ ¬(medelegHas P t t.haveRISCVException ∧
      ∃ p, selectInst P.toConfig f.s.inst = some p ∧ p.body.leavesMachine P st))) :=
  ⟨delegationEntered_iff hP h, fun hmode => not_congr (delegated_machine_iff hP h hmode)⟩

def delegatedEcall : State Unit :=
  setCsr clintBoard csrMedeleg 0x100 (setCsr clintBoard csrStvec 0x80001001
    ((booted clintBoard [0x73]).enter.setCurPri prvU))

theorem delegatedTrap_refuted : ∃ f t st', ExceptionStep clintBoard delegatedEcall f t st' ∧
    delegatedEcall.curPri = prvU ∧ medelegHas clintBoard t t.haveRISCVException ∧
    csr clintBoard st' csrStvec = 0x80001001 ∧ st'.s.dnpc = 0x80000004 ∧
    ¬DelegationEntered clintBoard delegatedEcall t.haveRISCVException t.riscvExceptionTval st' := by
  have h : ((fetchAndCheck clintBoard delegatedEcall).bind fun x =>
      (decodeBody clintBoard x.2).map fun t => (x.1, t.haveRISCVException, csr clintBoard t csrMedeleg,
        (trapTail clintBoard t).s.dnpc, csr clintBoard (trapTail clintBoard t) csrStvec)) =
      some (false, 8, 0x100, 0x80000004, 0x80001001) := by decide +kernel
  obtain ⟨⟨taken, f⟩, hf, h⟩ := Option.bind_eq_some_iff.mp h
  obtain ⟨t, ht, hvalues⟩ := Option.map_eq_some_iff.mp h
  simp only [Prod.mk.injEq] at hvalues
  obtain ⟨rfl, hcause, hmedeleg, hdnpc, hstvec⟩ := hvalues
  refine ⟨f, t, _, ⟨hf, ht, ?_, isaExecOnce_executed hf ht⟩, rfl, ?_, hstvec, hdnpc, fun hentry => ?_⟩
  · rw [hcause]
    decide
  · rw [medelegHas, hcause, hmedeleg]
    decide
  · have hbase := hentry.dnpc
    rw [hdnpc, hstvec] at hbase
    exact absurd hbase (by decide)

theorem delegatedTrap_iff_ecall : ∃ f t st', ExceptionStep clintBoard delegatedEcall f t st' ∧
    (delegatedEcall.curPri ≤ prvS → medelegHas clintBoard t t.haveRISCVException →
      (DelegationEntered clintBoard delegatedEcall t.haveRISCVException t.riscvExceptionTval st' ↔
        DelegationSound clintBoard delegatedEcall f.s.inst)) ∧
    (delegatedEcall.curPri = prvM → (¬delegatesTrap clintBoard t ↔
      ¬(medelegHas clintBoard t t.haveRISCVException ∧
        ∃ p, selectInst clintBoard.toConfig f.s.inst = some p ∧
          p.body.leavesMachine clintBoard delegatedEcall))) := by
  have h : ((fetchAndCheck clintBoard delegatedEcall).bind fun x =>
      (decodeBody clintBoard x.2).map fun t => (x.1, t.haveRISCVException)) = some (false, 8) := by
    decide +kernel
  obtain ⟨⟨taken, f⟩, hf, h⟩ := Option.bind_eq_some_iff.mp h
  obtain ⟨t, ht, hvalues⟩ := Option.map_eq_some_iff.mp h
  obtain ⟨rfl, hcause⟩ := Prod.mk.inj hvalues
  have hstep : ExceptionStep clintBoard delegatedEcall f t (trapTail clintBoard t) := by
    refine ⟨hf, ht, ?_, isaExecOnce_executed hf ht⟩
    rw [hcause]
    decide
  exact ⟨f, t, _, hstep, delegatedTrap_iff rfl hstep⟩

end GsEmu.Riscv32
