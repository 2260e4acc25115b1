import GsEmu.Riscv32.Boundary
import GsEmu.Riscv32.Precise

/-! The CSRs with read-only numbers. `CSR_RW_CHECK` only asks whether a number is in the map, so the
three CSR instructions with a register operand write these like any other. -/

namespace GsEmu.Riscv32

variable {D : Type} {P : Platform D} {st₀ st st' g t : State D} {o : Operands} {n : Word}

/-- A CSR of the build whose number has both of its top bits set. -/
def ReadOnly (p : PrivModes) (n : Word) : Prop :=
  csrPresent p n ∧ n.getLsbD 11 = true ∧ n.getLsbD 10 = true

def Body.keepsCsr (P : Platform D) (o : Operands) (st : State D) (n : Word) : Body → Prop
  | .csr op => o.imm = n → op (Riscv32.csr P st n) o.src1 = Riscv32.csr P st n
  | _ => True

/-- The condition on a step: the instruction it executes, if it does, keeps `n`. -/
def KeepsCsr (P : Platform D) (n : Word) (st : State D) : CallEvent D → Prop
  | .event .inst => ∀ g, sampled P st.enter = some g → ¬Stubs P g → ¬Interrupts P g →
      ∀ p, selectInst P.toConfig g.s.inst = some p → p.body.keepsCsr P (operands g p) st n
  | _ => True

def readOnlyCsrs : List Word := [csrMvendorid, csrMhartid, csrMarchid, csrMimpid]

theorem filter_readOnly (p : PrivModes) : ((csrIdxMap p).take (nrCsr p)).filter
    (fun n => n.getLsbD 11 && n.getLsbD 10) = readOnlyCsrs := by
  cases p <;> rfl

theorem ReadOnly.mem {p : PrivModes} (h : ReadOnly p n) : n ∈ readOnlyCsrs := by
  obtain ⟨hn, h11, h10⟩ := h
  have hmap : n ∈ (csrIdxMap p).take (nrCsr p) := by
    by_contra hno
    have hzero : n ≠ zeroCsr := by
      rintro rfl
      cases h11
    refine hn ?_
    rw [checkCsrIdx, if_neg hzero, List.idxOf_eq_length_iff.mpr hno, csrIdxMap_take_length]
  rw [← filter_readOnly p, List.mem_filter, h11, h10]
  exact ⟨hmap, rfl⟩

theorem ReadOnly.ne {p : PrivModes} (h : ReadOnly p n) {m : Word} (hm : m ∉ readOnlyCsrs) :
    n ≠ m := by
  rintro rfl
  exact hm h.mem

theorem ReadOnly.csr_takeIrq (h : ReadOnly P.priv n) (irq : Word) :
    csr P (takeIrq P irq g) n = csr P g n := by
  have hslot : ∀ m, m ∉ readOnlyCsrs → checkCsrIdx P.priv n ≠ checkCsrIdx P.priv m :=
    fun m hm heq => h.ne hm ((checkCsrIdx_inj h.1).mp heq.symm).symm
  have hmcause := hslot csrMcause (by decide)
  have hmepc := hslot csrMepc (by decide)
  have hmstatus := hslot csrMstatus (by decide)
  rw [slot_mcause] at hmcause
  rw [slot_mepc] at hmepc
  rw [slot_mstatus] at hmstatus
  rw [csr, takeIrq_csr, Function.update_of_ne hmstatus, Function.update_of_ne hmepc,
    Function.update_of_ne hmcause, csr]

theorem ReadOnly.csr_trapTail (h : ReadOnly P.priv n) : csr P (trapTail P t) n = csr P t n := by
  refine Riscv32.csr_trapTail ?_
  intro hentry
  have hdisj : ∀ m ∈ readOnlyCsrs, m ∉ entryCsrs P t := by
    unfold entryCsrs
    split <;> simp [readOnlyCsrs, csrMvendorid, csrMhartid, csrMarchid, csrMimpid, csrScause,
      csrSepc, csrStval, csrSstatus, csrMstatus, csrMcause, csrMepc, csrMtval]
  exact hdisj n h.mem hentry

theorem ReadOnly.csrAfter_iff (h : ReadOnly P.priv n) (b : Body) :
    b.csrAfter P o st n = csr P st n ↔ b.keepsCsr P o st n := by
  have hmepc := h.ne (m := csrMepc) (by decide)
  have hmstatus := h.ne (m := csrMstatus) (by decide)
  have hsstatus := h.ne (m := csrSstatus) (by decide)
  cases b with
  | csr op =>
    simp only [Body.csrAfter, Body.keepsCsr]
    by_cases hn : n = o.imm
    · subst hn
      simp [hmstatus]
    · simp [hn, Ne.symm hn]
  | ebreak => simp [Body.csrAfter, Body.keepsCsr, hmepc]
  | sret => simp [Body.csrAfter, Body.keepsCsr, hmstatus, hsstatus]
  | mret => simp [Body.csrAfter, Body.keepsCsr, hmstatus]
  | _ => exact iff_of_true rfl trivial

theorem callStep_csr_iff (e : CallEvent D) (hn : ReadOnly P.priv n) (h : CallStep P st e st') :
    csr P st' n = csr P st n ↔ KeepsCsr P n st e := by
  rcases e with (_ | ⟨io, nemuState, skip⟩) | s
  · obtain ⟨g, hg, hcase⟩ := execOnce_cases h
    have hsampled : csr P g n = csr P st n := csr_sampled hg (hn.ne (by decide))
    have hone : KeepsCsr P n st (.event .inst) ↔ (¬Stubs P g → ¬Interrupts P g →
        ∀ p, selectInst P.toConfig g.s.inst = some p → p.body.keepsCsr P (operands g p) st n) := by
      simp only [KeepsCsr, hg, Option.some.injEq, forall_eq']
    rw [hone, ← hsampled]
    rcases hcase with ⟨hs, rfl⟩ | ⟨hi, rfl⟩ | ⟨hs, hi, t, ht, rfl⟩
    · exact iff_of_true rfl fun hno => absurd hs hno
    · exact iff_of_true (hn.csr_takeIrq _) fun _ hno => absurd hi hno
    · obtain ⟨p, hp⟩ := selectInst_exists P.toConfig g.s.inst
      have hbody : csr P t n = p.body.csrAfter P (operands g p) g n :=
        decodeBody_csr hp ht hn.1 (hn.ne (by decide))
      have hkeeps : p.body.keepsCsr P (operands g p) g n ↔
          p.body.keepsCsr P (operands g p) st n := by
        cases p.body <;> simp only [Body.keepsCsr, hsampled]
      change csr P (trapTail P t) n = _ ↔ _
      rw [hn.csr_trapTail, hbody, hn.csrAfter_iff, hkeeps]
      constructor
      · intro hkept _ _ q hq
        obtain rfl := Option.some.inj (hp.symm.trans hq)
        exact hkept
      · exact fun hall => hall hs hi p hp
  · obtain rfl : st' = { st with io := io, nemuState := nemuState, skip := skip } := h
    exact iff_of_true rfl trivial
  · obtain rfl : st' = { st with s := s } := h
    exact iff_of_true rfl trivial

/-- From any state, so also from reset, a CSR with a read-only number keeps its value exactly as long as
no CSR instruction gives it another. -/
theorem readOnly_constant_iff {tr : List (State D × CallEvent D)} (hrun : CallRun P st₀ tr st)
    (hn : ReadOnly P.priv n) :
    ((∀ q ∈ tr, csr P q.1 n = csr P st₀ n) ∧ csr P st n = csr P st₀ n) ↔
      ∀ q ∈ tr, KeepsCsr P n q.1 q.2 := by
  refine hrun.invariant_iff (I := fun s => csr P s n = csr P st₀ n) rfl fun s e s' hs hstep => ?_
  rw [← callStep_csr_iff e hn hstep, hs]

def writeHartid : State Unit := booted clintBoard [0xfff00093, 0xf1409073]

theorem readOnly_constant_refuted : ReadOnly .MSU csrMhartid ∧ ∃ tr st,
    Reset clintBoard writeHartid ∧ CallRun clintBoard writeHartid tr st ∧
      csr clintBoard writeHartid csrMhartid = 0 ∧ csr clintBoard st csrMhartid = 0xffffffff := by
  have hro : ReadOnly .MSU csrMhartid := ⟨by decide, rfl, rfl⟩
  have h : (runInst clintBoard 2 writeHartid).map (csr clintBoard · csrMhartid) =
      some 0xffffffff := by decide +kernel
  obtain ⟨st, hst, hvalue⟩ := Option.map_eq_some_iff.mp h
  obtain ⟨tr, hrun, -⟩ := runInst_callRun hst
  exact ⟨hro, tr, st, booted_reset _ _, hrun, rfl, hvalue⟩

theorem readOnly_constant_iff_writeHartid : ∃ tr st, CallRun clintBoard writeHartid tr st ∧
    (((∀ q ∈ tr, csr clintBoard q.1 csrMhartid = csr clintBoard writeHartid csrMhartid) ∧
        csr clintBoard st csrMhartid = csr clintBoard writeHartid csrMhartid) ↔
      ∀ q ∈ tr, KeepsCsr clintBoard csrMhartid q.1 q.2) := by
  have hro : ReadOnly .MSU csrMhartid := ⟨by decide, rfl, rfl⟩
  have h : (runInst clintBoard 2 writeHartid).isSome = true := by decide +kernel
  obtain ⟨st, hst⟩ := Option.isSome_iff_exists.mp h
  obtain ⟨tr, hrun, -⟩ := runInst_callRun hst
  exact ⟨tr, st, hrun, readOnly_constant_iff hrun hro⟩

end GsEmu.Riscv32
