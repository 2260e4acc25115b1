import GsEmu.Riscv32.Interrupt
import GsEmu.Riscv32.TrapEntry

/-! What stands between the modes: the CSR map and nothing else. -/

namespace GsEmu.Riscv32

variable {D : Type} {P : Platform D} {st₀ st st' f t : State D} {o : Operands} {p : Instpat}

/-- A step from `st` fetches, takes no interrupt and runs the line `p` from `f` to `t`. -/
structure Executes (P : Platform D) (st f : State D) (p : Instpat) (t : State D) : Prop where
  fetched : fetchAndCheck P st.enter = some (false, f)
  selected : selectInst P.toConfig f.s.inst = some p
  executed : decodeBody P f = some t

/-- A CSR instruction goes by the CSR map alone: a number in the map is read and written whatever
the mode, and only that register; any other number is an illegal instruction. -/
structure CsrAccess (P : Platform D) (f : State D) (o : Operands) (op : Word → Word → Word)
    (t : State D) : Prop where
  accepted : csrPresent P.priv o.imm →
    t.haveRISCVException = (bodyStart f).haveRISCVException
  read : csrPresent P.priv o.imm → o.rd ≠ 0 → t.gpr o.rd = csr P f o.imm
  written : csrPresent P.priv o.imm → o.imm ≠ csrMisa → ¬(P.priv = .M ∧ o.imm = csrMstatus) →
    csr P t o.imm = op (csr P f o.imm) o.src1
  frame : ∀ n, csrPresent P.priv n → n ≠ csrMisa → n ≠ o.imm → csr P t n = csr P f n
  refused : ¬csrPresent P.priv o.imm → t.haveRISCVException = riscvExcpIllegalInst ∧
    (∀ r ≠ 0, t.gpr r = f.gpr r) ∧
    ∀ n, csrPresent P.priv n → n ≠ csrMisa → csr P t n = csr P f n

@[simp] theorem csr_setR (r : Reg) (v n : Word) : csr P (st.setR r v) n = csr P st n := rfl

@[simp] theorem csr_trapPeekException (c v n : Word) :
    csr P (st.trapPeekException c v) n = csr P st n := rfl

theorem setCsrChecked_have (n v : Word) :
    (setCsrChecked P n v st).haveRISCVException = st.haveRISCVException := by
  unfold setCsrChecked
  split <;> rfl

theorem execCsr_access (op : Word → Word → Word) :
    CsrAccess P f o op (resetFixed P (execCsr P op o (bodyStart f))) := by
  by_cases hp : csrPresent P.priv o.imm
  · have hexec : execCsr P op o (bodyStart f) = (setCsrChecked P o.imm
        (op (csr P f o.imm) o.src1) (bodyStart f)).setR o.rd (csr P f o.imm) := by
      rw [execCsr, if_pos hp, csr_bodyStart]
    rw [hexec]
    exact {
      accepted := fun _ => setCsrChecked_have ..
      read := fun _ hrd => by
        rw [resetFixed_gpr, Function.update_of_ne hrd, State.setR_gpr, Function.update_self]
      written := fun _ hmisa hM => by
        rw [csr_resetFixed_of_ne _ _ hmisa, csr_setR, csr_setCsrChecked_self, if_neg hM]
      frame := fun n hn hmisa hne => by
        rw [csr_resetFixed_of_ne _ _ hmisa, csr_setR, csr_setCsrChecked_ne P _ _ hn (Ne.symm hne),
          csr_bodyStart]
      refused := fun h => absurd hp h }
  · have hexec : execCsr P op o (bodyStart f) =
        (bodyStart f).trapPeekException riscvExcpIllegalInst (bodyStart f).s.inst := by
      rw [execCsr, if_neg hp]
    rw [hexec]
    have hframe : ∀ n, n ≠ csrMisa → csr P (resetFixed P ((bodyStart f).trapPeekException
        riscvExcpIllegalInst (bodyStart f).s.inst)) n = csr P f n := fun n hn => by
      rw [csr_resetFixed_of_ne _ _ hn, csr_trapPeekException, csr_bodyStart]
    exact {
      accepted := fun h => absurd h hp
      read := fun h => absurd h hp
      written := fun h => absurd h hp
      frame := fun n _ hmisa _ => hframe n hmisa
      refused := fun _ => ⟨rfl, fun r hr => by
        rw [resetFixed_gpr, Function.update_of_ne hr, State.trapPeekException_gpr,
          dnpcAndCheck_gpr], fun n _ hmisa => hframe n hmisa⟩ }

/-- Neither a trap nor an interrupt. -/
def Quiet (P : Platform D) (st : State D) : Event D → Prop
  | .outside .. => True
  | .inst => ∃ f p t, Executes P st f p t ∧ t.haveRISCVException = riscvExcpNone

/-- An `mret` or an `sret`. -/
def Returns (P : Platform D) (st : State D) : Event D → Prop
  | .outside .. => False
  | .inst => ∃ f p t, Executes P st f p t ∧ (p.body = .mret ∨ p.body = .sret)

theorem quiet_step_curPri {e : Event D} (h : MachineStep P st e st') (hquiet : Quiet P st e)
    (hret : ¬Returns P st e) : st'.curPri = st.curPri := by
  cases e with
  | outside io nemuState skip => rw [show st' = _ from h]
  | inst =>
    obtain ⟨f, p, t, hexec, hnone⟩ := hquiet
    obtain ⟨u, hu, rfl⟩ := execOnce_iff.mp h
    rcases isaExecOnce_iff.mp hu with hf | ⟨f', t', hf, ht, rfl⟩
    · exact absurd (hexec.fetched.symm.trans hf) (by simp)
    · obtain rfl := (Prod.mk.inj (Option.some.inj (hexec.fetched.symm.trans hf))).2
      obtain rfl := Option.some.inj (hexec.executed.symm.trans ht)
      obtain ⟨inst, io, skip, late, hafter⟩ := fetchAndCheck_not_taken hf
      have hbody : p.body.mode P f = f.curPri := by
        rcases hb : p.body with _ | _ | _ | _ | _ | _ | _ | _ | _ | _ | _ | _ | _ | _ | _ | _ | _ | _
        all_goals first | rfl | exact absurd ⟨f, p, t, hexec, by simp [hb]⟩ hret
      change (trapTail P t).curPri = st.curPri
      rw [trapTail, if_neg (not_not.mpr hnone), decodeBody_mode hexec.selected hexec.executed,
        hbody, hafter]
      rfl

/-- In every run: CSR instructions go by the CSR map in every mode, an `mret` goes to `MPP` and an
`sret` to `SPP` from every mode, and without those two nothing but a trap or an interrupt changes
the mode. -/
theorem privilege_unchecked {tr : List (State D × Event D)} (hrun : MachineRun P st₀ tr st) :
    (∀ q ∈ tr, ∀ f p t, Executes P q.1 f p t →
      (∀ op, p.body = .csr op → CsrAccess P f (operands f p) op t) ∧
      (p.body = .mret → t.curPri = getField (csr P f csrMstatus) mstatusMpp) ∧
      (p.body = .sret → t.curPri = getField (csr P f csrSstatus) sstatusSpp)) ∧
    ((∀ q ∈ tr, Quiet P q.1 q.2 ∧ ¬Returns P q.1 q.2) → st.curPri = st₀.curPri) := by
  refine ⟨fun q _ f p t h => ⟨fun op hop => ?_, fun hb => ?_, fun hb => ?_⟩, fun hquiet => ?_⟩
  · obtain ⟨p', t₀, hp', hbody, rfl⟩ := decodeBody_cases h.executed
    obtain rfl := Option.some.inj (h.selected.symm.trans hp')
    rw [hop] at hbody
    obtain rfl := Option.some.inj hbody
    exact execCsr_access op
  · rw [decodeBody_mode h.selected h.executed, hb]
    rfl
  · rw [decodeBody_mode h.selected h.executed, hb]
    rfl
  · exact hrun.state_invariant (I := fun s => s.curPri = st₀.curPri)
      (C := fun s e => Quiet P s e ∧ ¬Returns P s e) rfl
      (fun s e s' hI hC hs => (quiet_step_curPri hs hC.1 hC.2).trans hI) hquiet

def findExecutes (P : Platform D) (st : State D) : Option (State D × Instpat × State D) := do
  let (taken, f) ← fetchAndCheck P st.enter
  let p ← selectInst P.toConfig f.s.inst
  let t ← decodeBody P f
  if taken then none else return (f, p, t)

theorem findExecutes_sound (h : findExecutes P st = some (f, p, t)) : Executes P st f p t := by
  simp only [findExecutes, Option.bind_eq_bind, Option.pure_def, Option.bind_eq_some_iff] at h
  obtain ⟨⟨taken, f'⟩, hf, p', hp, t', ht, h⟩ := h
  cases taken with
  | true => simp at h
  | false =>
    simp only [Bool.false_eq_true, if_false, Option.some.injEq, Prod.mk.injEq] at h
    obtain ⟨rfl, rfl, rfl⟩ := h
    exact ⟨hf, hp, ht⟩

def climb : State Unit :=
  booted clintBoard [0x00000097, 0x01408093, 0x34109073, 0x30001073, 0x30200073, 0x00002137,
    0x80010113, 0x30011073, 0x30200073]

theorem privilege_isolation_refuted :
    ∃ u w v, runInst clintBoard 5 climb = some u ∧ runInst clintBoard 3 u = some w ∧
      execOnce clintBoard w = some v ∧
      u.curPri = prvU ∧ csr clintBoard u csrMstatus = 0x80 ∧
      w.curPri = prvU ∧ csr clintBoard w csrMstatus = 0x1800 ∧
      v.curPri = prvM ∧ csr clintBoard v csrMcause = 0 := by
  have h : (do
      let u ← runInst clintBoard 5 climb
      let w ← runInst clintBoard 3 u
      let v ← execOnce clintBoard w
      return (u.curPri, csr clintBoard u csrMstatus, w.curPri, csr clintBoard w csrMstatus,
        v.curPri, csr clintBoard v csrMcause)) = some (prvU, 0x80, prvU, 0x1800, prvM, 0) := by
    decide +kernel
  simp only [Option.bind_eq_bind, Option.pure_def, Option.bind_eq_some_iff, Option.some.injEq,
    Prod.mk.injEq] at h
  obtain ⟨u, hu, w, hw, v, hv, hfacts⟩ := h
  exact ⟨u, w, v, hu, hw, hv, hfacts⟩

theorem privilege_unchecked_climb :
    ∃ tr st, MachineRun clintBoard climb tr st ∧ st.curPri = prvU ∧
      (∀ q ∈ tr, ∀ f p t, Executes clintBoard q.1 f p t →
        (∀ op, p.body = .csr op → CsrAccess clintBoard f (operands f p) op t) ∧
        (p.body = .mret → t.curPri = getField (csr clintBoard f csrMstatus) mstatusMpp) ∧
        (p.body = .sret → t.curPri = getField (csr clintBoard f csrSstatus) sstatusSpp)) ∧
      ((∀ q ∈ tr, Quiet clintBoard q.1 q.2 ∧ ¬Returns clintBoard q.1 q.2) →
        st.curPri = climb.curPri) := by
  have h : (runInst clintBoard 5 climb).map (·.curPri) = some prvU := by decide +kernel
  obtain ⟨st, hst, hpri⟩ := Option.map_eq_some_iff.mp h
  obtain ⟨tr, hrun, -⟩ := runInst_run hst
  exact ⟨tr, st, hrun, hpri, privilege_unchecked hrun⟩

end GsEmu.Riscv32
