import GsEmu.Riscv32.Delegation
import GsEmu.Riscv32.InterruptEntry
import GsEmu.Riscv32.Precise
import GsEmu.Riscv32.ProgramCounter
import GsEmu.Riscv32.StatusStack

/-! A synchronous trap and the return that follows it. -/

namespace GsEmu.Riscv32

variable {D : Type} {P : Platform D} {st st' f t g v : State D} {p q : Instpat} {o : Operands}

/-- The return took the hart from the handler, entered at `u`, back to where the trap of `t` came
from; `ie` is the enable bit in the status register `n`. -/
structure Restored (P : Platform D) (t u v : State D) (n : Word) (ie : Nat) : Prop where
  pc : v.s.dnpc = t.s.pc
  mode : v.curPri = t.curPri
  enable : (csr P v n).getLsbD ie = (csr P t n).getLsbD ie
  gpr : v.gpr = u.gpr
  pmem : v.pmem = u.pmem

/-! ## The trapping instruction -/

theorem execBody_raised {b : Body} (h : execBody P b o st = some st')
    (hclear : st.haveRISCVException = riscvExcpNone)
    (hraised : st'.haveRISCVException ≠ riscvExcpNone) :
    (∀ n, csrPresent P.priv n → b.csrAfter P o st n = csr P st n) ∧ b.mode P st = st.curPri := by
  cases b with
  | ebreak =>
    obtain rfl := Option.some.inj h
    exact absurd hclear hraised
  | csr op =>
    obtain rfl := Option.some.inj h
    by_cases hp : csrPresent P.priv o.imm
    · refine absurd ?_ hraised
      rw [execCsr, if_pos hp]
      exact (setCsrChecked_have ..).trans hclear
    · refine ⟨fun n hn => if_neg ?_, rfl⟩
      rintro ⟨rfl, -⟩
      exact hp hn
  | sret =>
    obtain rfl := Option.some.inj h
    exact absurd (execSret_haveRISCVException.trans hclear) hraised
  | mret =>
    obtain rfl := Option.some.inj h
    exact absurd (execMret_haveRISCVException.trans hclear) hraised
  | _ => exact ⟨fun _ _ => rfl, rfl⟩

theorem Body.csrAfter_of_return {b : Body} {a : Word} (h : a ∈ b.returnTarget P st) {n : Word}
    (hm : n ≠ csrMstatus) (hs : n ≠ csrSstatus) : b.csrAfter P o st n = Riscv32.csr P st n := by
  cases b with
  | sret => simp only [Body.csrAfter, hm, hs, false_and, if_false]
  | mret => simp only [Body.csrAfter, hm, if_false]
  | _ => simp [Body.returnTarget] at h

theorem trap_dnpc_aligned (hpc : instAligned f.s.snpc) (hP : P.priv = .MSU)
    (hmtvec : instAligned (csr P f csrMtvec)) (hstvec : instAligned (csr P f csrStvec))
    (hp : selectInst P.toConfig f.s.inst = some p) (ht : decodeBody P f = some t)
    (hraised : t.haveRISCVException ≠ riscvExcpNone) : instAligned (trapTail P t).s.dnpc := by
  have hstart : instAligned (bodyStart f).s.dnpc := by
    rw [dnpcAndCheck_s, if_pos hpc]
    exact hpc
  rw [trapTail_dnpc]
  split
  · exact (‹EntersAligned P t›).2
  · rw [(body_control hp ht).2, Body.next_aligned_iff _ hstart]
    intro a ha
    have hvec : ∀ n, csrPresent P.priv n → n ≠ csrMstatus → n ≠ csrSstatus → n ≠ csrMisa →
        csr P t n = csr P f n := by
      intro n hn hm hs hmisa
      rw [decodeBody_csr hp ht hn hmisa, ← Body.csrAfter_bodyStart, Body.csrAfter_of_return ha hm hs,
        csr_bodyStart]
    refine absurd ⟨hraised, ?_⟩ ‹¬EntersAligned P t›
    rw [trapVector]
    split
    · rw [hvec csrStvec (by rw [hP]; decide) (by decide) (by decide) (by decide)]
      exact hstvec
    · rw [hvec csrMtvec (csrPresent_mtvec _) (by decide) (by decide) (by decide)]
      exact hmtvec

/-! ## The entry -/

theorem trapMstatus_mpp_le (m : Word) {c : Word} (h : c ≤ prvM) :
    getField (trapMstatus m c) mstatusMpp = c := by
  have hle : c.toNat ≤ 3 := h
  have h11 : (trapMstatus m c).getLsbD 11 = c.getLsbD 0 := by simp [trapMstatus, mstatusMpp]
  have h12 : (trapMstatus m c).getLsbD 12 = c.getLsbD 1 := by simp [trapMstatus, mstatusMpp]
  have hc : c = BitVec.ofNat 32 c.toNat := by simp
  rw [getField_mstatusMpp, h11, h12, hc]
  interval_cases c.toNat <;> rfl

theorem return_frame (hp : selectInst P.toConfig g.s.inst = some q)
    (hb : q.body = .mret ∨ q.body = .sret) (hv : decodeBody P g = some v) (hzero : g.gpr 0 = 0) :
    v.gpr = g.gpr ∧ v.pmem = g.pmem := by
  obtain ⟨q', v₀, hq', hbody, rfl⟩ := decodeBody_cases hv
  obtain rfl := Option.some.inj (hp.symm.trans hq')
  have hoff : q.body.usesBus = false := by rcases hb with hb | hb <;> rw [hb] <;> rfl
  have hgpr : v₀.gpr = (bodyStart g).gpr := by
    rw [execBody_gpr hbody]
    rcases hb with hb | hb <;> rw [hb] <;> rfl
  constructor
  · rw [resetFixed_gpr, hgpr, dnpcAndCheck_gpr]
    exact Function.update_eq_self_iff.mpr hzero.symm
  · rw [resetFixed_pmem, (execBody_offBus hoff hbody).pmem, dnpcAndCheck_pmem]

theorem mret_undoes (hmode : t.curPri ≤ prvM)
    (hmstatus : csr P g csrMstatus = trapMstatus (csr P t csrMstatus) t.curPri)
    (hmepc : csr P g csrMepc = t.s.pc) (h : MretPops P g v) :
    v.s.dnpc = t.s.pc ∧ v.curPri = t.curPri ∧
      (csr P v csrMstatus).getLsbD 3 = (csr P t csrMstatus).getLsbD 3 := by
  refine ⟨h.dnpc.trans hmepc, ?_, ?_⟩
  · rw [h.mode, hmstatus, trapMstatus_mpp_le _ hmode]
  · rw [h.mstatus 3 (by decide), if_pos rfl, hmstatus, trapMstatus_mpie]

/-- `sret` undoes the delegated entry: the entry cleared `SIE`, so the OR is an assignment. -/
theorem sret_undoes (hP : P.priv = .MSU) (hmode : t.curPri ≤ prvS)
    (hsstatus : csr P g csrSstatus = delegateSstatus (csr P t csrSstatus) t.curPri)
    (hsepc : csr P g csrSepc = t.s.pc) (hq : selectInst P.toConfig g.s.inst = some q)
    (hb : q.body = .sret) (hv : decodeBody P g = some v) :
    v.s.dnpc = t.s.pc ∧ v.curPri = t.curPri ∧
      (csr P v csrSstatus).getLsbD 1 = (csr P t csrSstatus).getLsbD 1 := by
  obtain ⟨hsie, hspie, -⟩ := delegateSstatus_view (csr P t csrSstatus) t.curPri
  have hs : csr P v csrSstatus = sretSstatus (csr P g csrSstatus) := by
    have hne : ¬(csrSstatus = csrMstatus ∧ P.priv ≠ .M) := fun h => absurd h.1 (by decide)
    rw [decodeBody_csr hq hv (csrPresent_sstatus hP) (by decide), hb, Body.csrAfter, if_neg hne,
      if_pos rfl]
  refine ⟨?_, ?_, ?_⟩
  · rw [(body_control hq hv).2, hb, Body.next, csr_bodyStart, hsepc]
  · rw [decodeBody_mode hq hv, hb, Body.mode, hsstatus, spp_delegateSstatus _ hmode]
  · rw [hs, (sretSstatus_view _).1, hsstatus, hsie, hspie, Bool.false_or]

/-! ## Trap and return -/

section
variable {io : Io D} {nemuState : NemuState} {skip : DifftestSkip}

theorem Executes.before (h : Executes P st f p t) (hP : P.priv = .MSU) (hpc : instAligned st.pc)
    (hclear : st.haveRISCVException = riscvExcpNone)
    (hraised : t.haveRISCVException ≠ riscvExcpNone) : t.curPri = st.curPri ∧
      csr P t csrMstatus = csr P st csrMstatus ∧ csr P t csrSstatus = csr P st csrSstatus := by
  obtain ⟨inst, io, skip, late, rfl⟩ := fetchAndCheck_not_taken h.fetched
  obtain ⟨p', t₀, hp', hbody, rfl⟩ := decodeBody_cases h.executed
  obtain rfl := Option.some.inj (h.selected.symm.trans hp')
  have hsnpc : instAligned (afterFetch P st.enter inst io skip late).s.snpc := instAligned_add_four hpc
  have hstart : (bodyStart (afterFetch P st.enter inst io skip late)).haveRISCVException =
      riscvExcpNone := by
    rw [dnpcAndCheck_haveRISCVException, if_pos hsnpc]
    exact hclear
  obtain ⟨hcsrs, hkept⟩ := execBody_raised hbody hstart hraised
  have hcsr : ∀ n, csrPresent P.priv n → n ≠ csrMisa → checkCsrIdx P.priv n ≠ 3 →
      csr P (resetFixed P t₀) n = csr P st n := by
    intro n hn hmisa h3
    rw [csr_resetFixed_of_ne _ _ hmisa, execBody_csr hbody hn, hcsrs n hn, csr_bodyStart,
      csr_afterFetch _ _ _ _ _ _ h3, State.enter, csr, csr]
  refine ⟨?_, ?_, ?_⟩
  · rw [resetFixed_curPri, (execBody_control hbody).2.1, hkept, dnpcAndCheck_curPri]
    rfl
  · exact hcsr _ (csrPresent_mstatus _) (by decide) (by simp)
  · exact hcsr _ (csrPresent_sstatus hP) (by decide) (by rw [hP]; decide)

theorem Executes.mode_le (h : Executes P st f p t) (hmode : st.curPri ∈ [prvU, prvS, prvM]) :
    t.curPri ≤ prvM := by
  obtain ⟨inst, io, skip, late, rfl⟩ := fetchAndCheck_not_taken h.fetched
  have hle : st.curPri ≤ prvM := by
    simp only [List.mem_cons, List.not_mem_nil, or_false] at hmode
    rcases hmode with hm | hm | hm <;> rw [hm] <;> decide
  rw [decodeBody_mode h.selected h.executed]
  exact p.body.mode_le hle

theorem Executes.returns (h : Executes P st f p t) (hP : P.priv = .MSU) (hpc : instAligned st.pc)
    (hmtvec : instAligned (csr P st csrMtvec)) (hstvec : instAligned (csr P st csrStvec))
    (hraised : t.haveRISCVException ≠ riscvExcpNone)
    (hnext : Executes P { moveOn (trapTail P t) with io := io, nemuState := nemuState, skip := skip }
      g q v) (hb : q.body = .mret ∨ q.body = .sret) : decodeExec P g = some v ∧
      v.gpr = (trapTail P t).gpr ∧ v.pmem = (trapTail P t).pmem := by
  obtain ⟨inst, io₁, skip₁, late, hf⟩ := fetchAndCheck_not_taken h.fetched
  obtain ⟨inst', io₂, skip₂, late', hg⟩ := fetchAndCheck_not_taken hnext.fetched
  have hfcsr : ∀ n, checkCsrIdx P.priv n ≠ 3 → csr P f n = csr P st n := fun n hn => by
    rw [hf, csr_afterFetch _ _ _ _ _ _ hn, State.enter, csr, csr]
  have hfsnpc : instAligned f.s.snpc := by
    rw [hf]
    exact instAligned_add_four hpc
  have hal : instAligned (trapTail P t).s.dnpc := by
    refine trap_dnpc_aligned hfsnpc hP ?_ ?_ h.selected h.executed hraised
    · rwa [hfcsr _ (by simp)]
    · rwa [hfcsr _ (by rw [hP]; decide)]
  have hgsnpc : instAligned g.s.snpc := by
    rw [hg]
    exact instAligned_add_four hal
  have hzero : g.gpr 0 = 0 := by
    obtain ⟨p', t₀, -, -, ht₀⟩ := decodeBody_cases h.executed
    rw [hg]
    change (trapTail P t).gpr 0 = 0
    rw [trapTail_gpr, ht₀, resetFixed_gpr, Function.update_self]
  obtain ⟨v', hv', hhave⟩ := return_runs hnext.selected hb
  obtain rfl := Option.some.inj (hnext.executed.symm.trans hv')
  obtain ⟨hgpr, hpmem⟩ := return_frame hnext.selected hb hnext.executed hzero
  refine ⟨decodeExec_of_clear hnext.executed ?_, ?_, ?_⟩
  · rw [hhave, dnpcAndCheck_haveRISCVException, if_pos hgsnpc, hg]
    exact trapTail_haveRISCVException
  · rw [hgpr, hg]
    rfl
  · rw [hpmem, hg]
    rfl

/-- A trap into the machine handler followed by `mret`, or into the supervisor handler followed by
`sret`, goes back to the instruction, the mode and the enable bit that the trap found; devices and
skip requests may change in between. -/
theorem trap_return (hP : P.priv = .MSU) (hmode : st.curPri ∈ [prvU, prvS, prvM])
    (hpc : instAligned st.pc) (hmtvec : instAligned (csr P st csrMtvec))
    (hstvec : instAligned (csr P st csrStvec)) (h : Executes P st f p t)
    (hraised : t.haveRISCVException ≠ riscvExcpNone) (hstep : execOnce P st = some st')
    (hnext : Executes P { st' with io := io, nemuState := nemuState, skip := skip } g q v) :
    (¬delegated P t → q.body = .mret →
      decodeExec P g = some v ∧ t.s.pc = st.pc ∧ Restored P t st' v csrMstatus 3) ∧
    (delegated P t → q.body = .sret →
      decodeExec P g = some v ∧ t.s.pc = st.pc ∧ Restored P t st' v csrSstatus 1) ∧
    (st.haveRISCVException = riscvExcpNone → t.curPri = st.curPri ∧
      csr P t csrMstatus = csr P st csrMstatus ∧ csr P t csrSstatus = csr P st csrSstatus) := by
  have hst' : st' = moveOn (trapTail P t) := by
    obtain ⟨u, hu, rfl⟩ := execOnce_iff.mp hstep
    rw [Option.some.inj (hu.symm.trans (isaExecOnce_executed h.fetched h.executed))]
  subst hst'
  have hpcs : t.s.pc = st.pc := by
    obtain ⟨inst, io, skip, late, hf⟩ := fetchAndCheck_not_taken h.fetched
    rw [(body_control h.selected h.executed).1, hf]
    rfl
  have hgcsr : ∀ n, checkCsrIdx P.priv n ≠ 3 → csr P g n = csr P (trapTail P t) n := fun n hn => by
    obtain ⟨inst, io, skip, late, hg⟩ := fetchAndCheck_not_taken hnext.fetched
    rw [hg, csr_afterFetch _ _ _ _ _ _ hn, State.enter, csr, csr]
  have hret := h.returns hP hpc hmtvec hstvec hraised hnext
  refine ⟨fun hd hb => ?_, fun hd hb => ?_, fun hclear => h.before hP hpc hclear hraised⟩
  · have hentry : ∀ n, csr P (trapTail P t) n = (illegalInstruction P t).csr (checkCsrIdx P.priv n) := by
      intro n
      rw [trapTail, if_pos hraised, if_neg hd]
      rfl
    have hmstatus : csr P g csrMstatus = trapMstatus (csr P t csrMstatus) t.curPri := by
      rw [hgcsr _ (by simp), hentry, illegalInstruction_csr]
      simp
    have hmepc : csr P g csrMepc = t.s.pc := by
      rw [hgcsr _ (by simp), hentry, illegalInstruction_csr]
      simp
    obtain ⟨hexec, hgpr, hpmem⟩ := hret (.inl hb)
    obtain ⟨hdnpc, hpri, hbit⟩ := mret_undoes (h.mode_le hmode) hmstatus hmepc
      (mret_pops hP hnext.selected hb hnext.executed)
    exact ⟨hexec, hpcs, hdnpc, hpri, hbit, hgpr, hpmem⟩
  · have hentry : ∀ n, csr P (trapTail P t) n = csr P (delegateException P t) n := by
      intro n
      rw [trapTail, if_pos hraised, if_pos hd, csr_recyException]
    have hsstatus : csr P g csrSstatus = delegateSstatus (csr P t csrSstatus) t.curPri := by
      rw [hgcsr _ (by rw [hP]; decide), hentry, (delegateException_views hP).1]
    have hsepc : csr P g csrSepc = t.s.pc := by
      rw [hgcsr _ (by rw [hP]; decide), hentry, (delegateException_csrs hP).2.1]
    obtain ⟨hexec, hgpr, hpmem⟩ := hret (.inr hb)
    obtain ⟨hdnpc, hpri, hbit⟩ := sret_undoes hP hd.2.1 hsstatus hsepc hnext.selected hb
      hnext.executed
    exact ⟨hexec, hpcs, hdnpc, hpri, hbit, hgpr, hpmem⟩

end

/-! ## An `ecall` and its `mret` -/

theorem selectInst_mret : ∃ p, selectInst clintBoard.toConfig 0x30200073 = some p ∧ p.body = .mret := by
  refine ⟨_, selectInst_of_mem (p := rvZicsr.get ⟨7, by decide⟩) ?_ (by decide +kernel), rfl⟩
  exact List.mem_append_left _ (List.mem_append_right _ (List.get_mem _ _))

def ecallHandled : State Unit :=
  setCsr clintBoard csrMtvec 0x80000004 (booted clintBoard [0x73, 0x30200073])

theorem trap_return_ecall : ∃ f p t st' g q v,
    Executes clintBoard ecallHandled f p t ∧ execOnce clintBoard ecallHandled = some st' ∧
      t.haveRISCVException = riscvExcpMEcall ∧ st'.pc = 0x80000004 ∧
      Executes clintBoard st' g q v ∧ q.body = .mret ∧ decodeExec clintBoard g = some v ∧
      v.s.dnpc = 0x80000000 ∧ Restored clintBoard t st' v csrMstatus 3 := by
  have h : (do
      let x ← findExecutes clintBoard ecallHandled
      let st' ← execOnce clintBoard ecallHandled
      let y ← findExecutes clintBoard st'
      return (x.2.2.haveRISCVException, st'.pc, y.1.s.inst)) =
        some (riscvExcpMEcall, 0x80000004, 0x30200073) := by
    decide +kernel
  simp only [Option.bind_eq_bind, Option.pure_def, Option.bind_eq_some_iff, Option.some.injEq,
    Prod.mk.injEq] at h
  obtain ⟨⟨f, p, t⟩, hx, st', hst', ⟨g, q, v⟩, hy, hcause, hpc, hinst⟩ := h
  have hexec := findExecutes_sound hx
  have hnext := findExecutes_sound hy
  have hb : q.body = .mret := by
    obtain ⟨q', hq', hb⟩ := selectInst_mret
    obtain rfl := Option.some.inj (hq'.symm.trans (hinst ▸ hnext.selected))
    exact hb
  have hraised : t.haveRISCVException ≠ riscvExcpNone := by
    rw [show t.haveRISCVException = _ from hcause]
    decide
  obtain ⟨hmachine, -, hbefore⟩ := trap_return (show clintBoard.priv = .MSU from rfl) (by decide)
    (by decide) (by decide) (by decide) hexec hraised hst' hnext
  have hnd : ¬delegated clintBoard t := by
    rintro ⟨-, hle, -⟩
    rw [(hbefore rfl).1] at hle
    exact absurd hle (by decide)
  obtain ⟨hdec, hpcs, hrestored⟩ := hmachine hnd hb
  exact ⟨f, p, t, st', g, q, v, hexec, hst', hcause, hpc, hnext, hb, hdec, hrestored.pc.trans hpcs,
    hrestored⟩

end GsEmu.Riscv32
