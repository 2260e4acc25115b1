import GsEmu.Riscv32.CsrFile
import GsEmu.Riscv32.TrapValue

/-! The immediate against the register form of the CSR instructions. -/

namespace GsEmu.Riscv32
open BitVec

variable {D : Type} {P : Platform D} {f t u : State D} {w w' : Word}

/-- Decoded as `w` or as `w'`, the instruction raises the same exception, if any, and leaves the same
state up to the word itself. -/
def Agree (P : Platform D) (w w' : Word) (f : State D) : Prop :=
  ∃ t u, decodeBody P (f.setInst w) = some t ∧ decodeBody P (f.setInst w') = some u ∧
    u.haveRISCVException = t.haveRISCVException ∧
    SameButWord w w' (trapTail P t) (trapTail P u)

theorem Agree.decodeExec (h : Agree P w w' f) : ∃ t u, decodeExec P (f.setInst w) = some t ∧
    decodeExec P (f.setInst w') = some u ∧ SameButWord w w' t u := by
  obtain ⟨t, u, ht, hu, -, hsame⟩ := h
  refine ⟨trapTail P t, trapTail P u, ?_, ?_, hsame⟩
  · rw [Riscv32.decodeExec, ht]
    rfl
  · rw [Riscv32.decodeExec, hu]
    rfl

theorem agree_of_same (ht : decodeBody P (f.setInst w) = some t)
    (hu : decodeBody P (f.setInst w') = some u) (h : SameButWord w w' t u) : Agree P w w' f :=
  ⟨t, u, ht, hu, h.fields.2.2.1, h.trapTail⟩

theorem bodyStart_setInst (w : Word) (f : State D) :
    bodyStart (f.setInst w) = (bodyStart f).setInst w := by
  change dnpcAndCheck f.s.snpc (f.setInst w) = (dnpcAndCheck f.s.snpc f).setInst w
  unfold dnpcAndCheck
  split <;> rfl

/-! ## The CSR body -/

variable {op : Word → Word → Word} {o : Operands}

theorem execCsr_accepted (h : csrPresent P.priv o.imm) (w : Word) :
    execCsr P op o (f.setInst w) = (execCsr P op o f).setInst w := by
  unfold execCsr setCsrChecked
  rw [if_pos h, if_pos h]
  split <;> rfl

theorem execCsr_refused (h : ¬csrPresent P.priv o.imm) (w : Word) :
    execCsr P op o (f.setInst w) = (f.trapPeekException riscvExcpIllegalInst w).setInst w := by
  unfold execCsr
  rw [if_neg h]
  rfl

/-! ## The two forms -/

/-- The number has its top bit clear, or no CSR of the build has it. -/
def FormsMeet (priv : PrivModes) (n : BitVec 12) : Prop :=
  n.getLsbD 11 = false ∨ ¬csrPresent priv (n.setWidth 32)

instance (priv : PrivModes) (n : BitVec 12) : Decidable (FormsMeet priv n) :=
  inferInstanceAs (Decidable (_ ∨ _))

section
variable {c : CsrOp} {n : BitVec 12} {z : BitVec 5} {rd rs : Reg}

theorem agree_of_meet (hZ : P.rvZicsr = true) (hz : f.gpr rs = z.setWidth 32)
    (h : FormsMeet P.priv n) : Agree P (c.word n (.imm z) rd) (c.word n (.reg rs) rd) f := by
  have himm := decodeBody_csrWord hZ (f := f.setInst (c.word n (.imm z) rd)) rfl
  have hreg := decodeBody_csrWord hZ (f := f.setInst (c.word n (.reg rs) rd)) rfl
  refine agree_of_same himm hreg (SameButWord.resetFixed ?_)
  have hvalue : CsrOperand.value (f.setInst (c.word n (.reg rs) rd)).gpr (.reg rs) = z.setWidth 32 := hz
  rw [bodyStart_setInst, bodyStart_setInst, hvalue]
  by_cases hpres : csrPresent P.priv (n.setWidth 32)
  · have htop : ¬((CsrOperand.imm z).isImm = true ∧ n.getLsbD 11 = true) := fun hno => by
      rw [h.resolve_right (not_not.mpr hpres)] at hno
      exact Bool.false_ne_true hno.2
    rw [number_eq htop, execCsr_accepted hpres]
    change SameButWord _ _ _ (execCsr P c.new ⟨rd, z.setWidth 32, 0, n.setWidth 32⟩ _)
    rw [execCsr_accepted hpres]
    exact SameButWord.of_setInst _
  · have habs : ¬csrPresent P.priv ((CsrOperand.imm z).number n) := fun hno =>
      hpres ((number_present_iff ..).mp hno).1
    rw [execCsr_refused habs]
    change SameButWord _ _ _ (execCsr P c.new ⟨rd, z.setWidth 32, 0, n.setWidth 32⟩ _)
    rw [execCsr_refused hpres]
    exact SameButWord.of_illegal _ _

theorem meet_of_agree (hZ : P.rvZicsr = true) (hclear : f.haveRISCVException ≠ riscvExcpIllegalInst)
    (h : Agree P (c.word n (.imm z) rd) (c.word n (.reg rs) rd) f) : FormsMeet P.priv n := by
  obtain ⟨t, u, ht, hu, hex, -⟩ := h
  refine or_iff_not_imp_left.mpr fun htop hpres => ?_
  have htop : n.getLsbD 11 = true := by simpa using htop
  have habs : ¬csrPresent P.priv ((CsrOperand.imm z).number n) := fun hno =>
    ((number_present_iff ..).mp hno).2 ⟨rfl, htop⟩
  rw [decodeBody_csrWord hZ rfl] at ht hu
  obtain rfl := Option.some.inj ht
  obtain rfl := Option.some.inj hu
  rw [(csrRefused_of_absent rfl habs).1, resetFixed_haveRISCVException, execCsr,
    if_pos (show csrPresent P.priv ((CsrOperand.reg rs).number n) from hpres)] at hex
  have hstart : (bodyStart (f.setInst (c.word n (.reg rs) rd))).haveRISCVException =
      riscvExcpIllegalInst := (setCsrChecked_have ..).symm.trans hex
  rw [dnpcAndCheck_haveRISCVException] at hstart
  split at hstart
  · exact hclear hstart
  · exact absurd hstart (by decide)

/-- The two forms agree on every number of `FormsMeet`, in every state; on the others they disagree
in every state where no illegal instruction was pending already. -/
theorem csrForms_iff (hZ : P.rvZicsr = true) (hz : f.gpr rs = z.setWidth 32) :
    (FormsMeet P.priv n → Agree P (c.word n (.imm z) rd) (c.word n (.reg rs) rd) f) ∧
    (f.haveRISCVException ≠ riscvExcpIllegalInst →
      (Agree P (c.word n (.imm z) rd) (c.word n (.reg rs) rd) f ↔ FormsMeet P.priv n)) :=
  ⟨agree_of_meet hZ hz, fun hclear => ⟨meet_of_agree hZ hclear, agree_of_meet hZ hz⟩⟩

end

/-- `csrrsi x1, mvendorid, 0` traps where `csrrs x1, mvendorid, x0` reads the register. -/
theorem csrForms_refuted : csrPresent clintBoard.priv csrMvendorid ∧
    (decodeBody clintBoard ((booted clintBoard []).setInst (CsrOp.rs.word 0xf11 (.imm 0) 1))).map
      (·.haveRISCVException) = some riscvExcpIllegalInst ∧
    (decodeBody clintBoard ((booted clintBoard []).setInst (CsrOp.rs.word 0xf11 (.reg 0) 1))).map
      (·.haveRISCVException) = some riscvExcpNone ∧
    ¬Agree clintBoard (CsrOp.rs.word 0xf11 (.imm 0) 1) (CsrOp.rs.word 0xf11 (.reg 0) 1)
      (booted clintBoard []) := by
  have himm : (decodeBody clintBoard ((booted clintBoard []).setInst
      (CsrOp.rs.word 0xf11 (.imm 0) 1))).map (·.haveRISCVException) = some riscvExcpIllegalInst := by
    decide +kernel
  have hreg : (decodeBody clintBoard ((booted clintBoard []).setInst
      (CsrOp.rs.word 0xf11 (.reg 0) 1))).map (·.haveRISCVException) = some riscvExcpNone := by
    decide +kernel
  refine ⟨by decide, himm, hreg, ?_⟩
  rintro ⟨t, u, ht, hu, hex, -⟩
  rw [ht] at himm
  rw [hu] at hreg
  have hne : riscvExcpNone ≠ riscvExcpIllegalInst := by decide
  exact hne ((Option.some.inj hreg).symm.trans (hex.trans (Option.some.inj himm)))

theorem csrForms_iff_mscratch :
    Agree clintBoard (CsrOp.rs.word 0x340 (.imm 21) 6) (CsrOp.rs.word 0x340 (.reg 5) 6)
      { booted clintBoard [] with gpr := Function.update 0 5 21 } :=
  (csrForms_iff (f := { booted clintBoard [] with gpr := Function.update 0 5 21 }) rfl rfl).1 (.inl (by decide))

end GsEmu.Riscv32
