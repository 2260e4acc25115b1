import GsEmu.Riscv32.Boundary

/-! The alignment of `pc` between two instructions. -/

namespace GsEmu.Riscv32

variable {D : Type} {P : Platform D} {st₀ st st' g t : State D} {o : Operands}

def Body.returnTarget (P : Platform D) (st : State D) : Body → Option Word
  | .sret => some (Riscv32.csr P st csrSepc)
  | .mret => some (Riscv32.csr P st csrMepc)
  | _ => none

def EntersAligned (P : Platform D) (t : State D) : Prop :=
  t.haveRISCVException ≠ riscvExcpNone ∧ instAligned (trapVector P t)

instance : Decidable (EntersAligned P t) := inferInstanceAs (Decidable (_ ∧ _))

/-- The condition on a step: an `sret` or `mret` goes to a multiple of 4 (or traps to one), and where
an interrupt leaves `dnpc` unassigned, what the record holds is a multiple of 4. -/
def ReturnsAligned (P : Platform D) (st : State D) : CallEvent D → Prop
  | .event .inst => ∀ g, sampled P st.enter = some g →
      (Stubs P g → instAligned st.s.dnpc) ∧
      (Interrupts P g → (csr P st csrMtvec).getLsbD 1 = false ∨ instAligned st.s.dnpc) ∧
      (¬Stubs P g → ¬Interrupts P g → ∀ p t, selectInst P.toConfig g.s.inst = some p →
        decodeBody P g = some t → ∀ a ∈ p.body.returnTarget P st, instAligned a ∨ EntersAligned P t)
  | _ => True

theorem delegateException_s (hP : P.priv = .MSU) : (delegateException P t).s = { t.s with
    dnpc := if instAligned (csr P t csrStvec) then csr P t csrStvec else t.s.dnpc } := by
  simp only [delegateException, setCsr_s, State.setCurPri_s, dnpcAndCheck_s, csr_setCsr, hP,
    slot_stvec, slot_mstatus, slot_sstatus, slot_stval, slot_sepc, slot_scause]
  rfl

theorem trapTail_dnpc : (trapTail P t).s.dnpc =
    if EntersAligned P t then trapVector P t else t.s.dnpc := by
  unfold trapTail
  by_cases hr : t.haveRISCVException ≠ riscvExcpNone
  · have henter : EntersAligned P t ↔ instAligned (trapVector P t) := and_iff_right hr
    rw [if_pos hr]
    by_cases hd : delegated P t
    · have hvec : trapVector P t = csr P t csrStvec := if_pos hd
      rw [if_pos hd]
      change (delegateException P t).s.dnpc = _
      simp only [delegateException_s hd.1, henter, hvec]
    · have hvec : trapVector P t = csr P t csrMtvec := if_neg hd
      rw [if_neg hd]
      change (illegalInstruction P t).s.dnpc = _
      simp only [illegalInstruction_s, henter, hvec]
  · rw [if_neg hr, if_neg fun h : EntersAligned P t => hr h.1]

theorem Body.next_aligned_iff (b : Body) (h : instAligned st.s.dnpc) :
    instAligned (b.next P o st) ↔ ∀ a ∈ b.returnTarget P st, instAligned a := by
  cases b with
  | jal | jalr | branch =>
    refine iff_of_true ?_ (by simp [Body.returnTarget])
    simp only [Body.next]
    split
    · first | exact ‹_› | exact ‹_ ∧ _›.2
    · exact h
  | sret | mret => simp [Body.next, Body.returnTarget]
  | _ => exact iff_of_true h (by simp [Body.returnTarget])

theorem callStep_aligned_iff (e : CallEvent D) (hpc : instAligned st.pc) (h : CallStep P st e st') :
    instAligned st'.pc ↔ ReturnsAligned P st e := by
  rcases e with (_ | ⟨io, nemuState, skip⟩) | s
  · obtain ⟨g, hg, hcase⟩ := execOnce_cases h
    have hrecord : g.s.dnpc = st.s.dnpc := by
      obtain ⟨inst, io, skip, late, rfl⟩ := sampled_afterFetch hg
      rfl
    have hone : ReturnsAligned P st (.event .inst) ↔ (Stubs P g → instAligned st.s.dnpc) ∧
        (Interrupts P g → instAligned (irqVector P g) ∨ instAligned st.s.dnpc) ∧
        (¬Stubs P g → ¬Interrupts P g → ∀ p t, selectInst P.toConfig g.s.inst = some p →
          decodeBody P g = some t →
            ∀ a ∈ p.body.returnTarget P st, instAligned a ∨ EntersAligned P t) := by
      rw [irqVector_aligned_iff, csr_sampled hg (by decide)]
      simp only [ReturnsAligned, hg, Option.some.injEq, forall_eq']
    rw [hone]
    rcases hcase with ⟨hs, rfl⟩ | ⟨hi, rfl⟩ | ⟨hs, hi, t, ht, rfl⟩
    · change instAligned g.s.dnpc ↔ _
      simp [hs, hs.not_interrupts, hrecord]
    · have hs : ¬Stubs P g := fun hs => hs.not_interrupts hi
      change instAligned (takeIrq P _ g).s.dnpc ↔ _
      rw [takeIrq_s]
      by_cases ha : instAligned (irqVector P g) <;> simp [hs, hi, ha, hrecord]
    · obtain ⟨p, t₀, hp, hbody, rfl⟩ := decodeBody_cases ht
      have hstart : instAligned (bodyStart g).s.dnpc := by
        obtain ⟨inst, io, skip, late, rfl⟩ := sampled_afterFetch hg
        have hseq : instAligned (st.pc + 4) := instAligned_add_four hpc
        rw [dnpcAndCheck_s]
        change instAligned (if instAligned (st.pc + 4) then st.pc + 4 else _)
        rwa [if_pos hseq]
      have htarget : p.body.returnTarget P (bodyStart g) = p.body.returnTarget P st := by
        cases p.body <;> simp only [Body.returnTarget, csr_bodyStart] <;>
          rw [csr_sampled hg (by decide)]
      have hdnpc : instAligned (resetFixed P t₀).s.dnpc ↔
          ∀ a ∈ p.body.returnTarget P st, instAligned a := by
        rw [resetFixed_s, (execBody_control hbody).2.2, ← htarget]
        exact p.body.next_aligned_iff hstart
      have hnext : instAligned (trapTail P (resetFixed P t₀)).s.dnpc ↔
          instAligned (resetFixed P t₀).s.dnpc ∨ EntersAligned P (resetFixed P t₀) := by
        rw [trapTail_dnpc]
        split
        · exact iff_of_true (‹EntersAligned P _›).2 (.inr ‹_›)
        · exact (or_iff_left ‹_›).symm
      change instAligned (trapTail P (resetFixed P t₀)).s.dnpc ↔ _
      rw [hnext, hdnpc]
      constructor
      · intro hor
        refine ⟨fun h => absurd h hs, fun h => absurd h hi, fun _ _ q u hq hu a ha => ?_⟩
        obtain rfl := Option.some.inj (hp.symm.trans hq)
        obtain rfl := Option.some.inj (ht.symm.trans hu)
        exact hor.imp (fun hall => hall a ha) id
      · rintro ⟨-, -, hall⟩
        by_cases hE : EntersAligned P (resetFixed P t₀)
        · exact .inr hE
        · exact .inl fun a ha => (hall hs hi p _ hp ht a ha).resolve_right hE
  · obtain rfl : st' = { st with io := io, nemuState := nemuState, skip := skip } := h
    exact iff_of_true hpc trivial
  · obtain rfl : st' = { st with s := s } := h
    exact iff_of_true hpc trivial

theorem reset_aligned (h : Reset P st) : instAligned st.pc := by
  obtain ⟨st₀, -, -, -, rfl⟩ := h
  have hpc : (restart P st₀).pc = resetVector := by
    cases hp : P.priv <;> simp [restart, csrInit, hp]
  rw [hpc]
  decide

/-- From reset `pc` is a multiple of 4 at every boundary exactly as long as every step meets the
condition. -/
theorem pc_aligned_iff {tr : List (State D × CallEvent D)} (hreset : Reset P st₀)
    (hrun : CallRun P st₀ tr st) :
    ((∀ q ∈ tr, instAligned q.1.pc) ∧ instAligned st.pc) ↔ ∀ q ∈ tr, ReturnsAligned P q.1 q.2 :=
  hrun.invariant_iff (I := fun s => instAligned s.pc) (reset_aligned hreset)
    fun _ e _ hpc hstep => callStep_aligned_iff e hpc hstep

def oddReturn : State Unit := booted clintBoard [0x34115073, 0x30200073]

theorem pc_aligned_refuted :
    ∃ tr st, Reset clintBoard oddReturn ∧ CallRun clintBoard oddReturn tr st ∧ st.pc = 2 := by
  have h : (runInst clintBoard 2 oddReturn).map (·.pc) = some 2 := by decide +kernel
  obtain ⟨st, hst, hpc⟩ := Option.map_eq_some_iff.mp h
  obtain ⟨tr, hrun, -⟩ := runInst_callRun hst
  exact ⟨tr, st, booted_reset _ _, hrun, hpc⟩

theorem pc_aligned_iff_oddReturn :
    ∃ tr st, CallRun clintBoard oddReturn tr st ∧
      (((∀ q ∈ tr, instAligned q.1.pc) ∧ instAligned st.pc) ↔
        ∀ q ∈ tr, ReturnsAligned clintBoard q.1 q.2) := by
  have h : (runInst clintBoard 2 oddReturn).isSome = true := by decide +kernel
  obtain ⟨st, hst⟩ := Option.isSome_iff_exists.mp h
  obtain ⟨tr, hrun, -⟩ := runInst_callRun hst
  exact ⟨tr, st, hrun, pc_aligned_iff (booted_reset _ _) hrun⟩

end GsEmu.Riscv32
