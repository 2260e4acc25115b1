import GsEmu.Riscv32.Modes
import GsEmu.Riscv32.TimerPending

/-! What stands in the machine once `irp_and` has reported an interrupt and the fetched instruction is
skipped. -/

namespace GsEmu.Riscv32

variable {D : Type} {P : Platform D} {st₀ st st' g t : State D}

/-- Everything the entry into the handler of interrupt `n` has to leave behind, from the state before the
step and the state after it. -/
structure EntryComplete (P : Platform D) (st : State D) (n : Nat) (st' : State D) : Prop where
  pending : (csr P st' csrMip).getLsbD n = true
  enabled : (csr P st' csrMie).getLsbD n = true
  mcause : csr P st' csrMcause = BitVec.ofNat 32 n ||| 0x80000000
  mepc : csr P st' csrMepc = st.pc
  mpp : getField (csr P st' csrMstatus) mstatusMpp = st.curPri
  mpie : getField (csr P st' csrMstatus) mstatusMpie = getField (csr P st csrMstatus) mstatusMie
  mie : getField (csr P st' csrMstatus) mstatusMie = 0
  mode : st'.curPri = prvM
  pc : st'.pc = (csr P st csrMtvec &&& ~~~3) +
    if (csr P st csrMtvec).getLsbD 0 then 4 * BitVec.ofNat 32 n else 0
  gpr : st'.gpr = st.gpr
  pmem : st'.pmem = st.pmem

/-! ## The vector -/

theorem base_add_one {m : Word} (h0 : m.getLsbD 0 = true) (h1 : m.getLsbD 1 = false) :
    (m &&& ~~~3) + 1 = m := by
  have hsmall : ∀ i < 32, (1 : Word).getLsbD i = decide (i = 0) ∧
      (3 : Word).getLsbD i = (decide (i = 0) || decide (i = 1)) := by decide
  have hand : (m &&& ~~~3) &&& 1 = 0 := by
    rw [BitVec.and_assoc]
    exact BitVec.and_zero
  rw [BitVec.add_eq_or_of_and_eq_zero _ _ hand]
  apply BitVec.eq_of_getLsbD_eq
  intro i hi
  obtain ⟨hone, hthree⟩ := hsmall i hi
  rw [BitVec.getLsbD_or, BitVec.getLsbD_and, BitVec.getLsbD_not, hone, hthree]
  by_cases hi0 : i = 0
  · simp [hi0, h0]
  · by_cases hi1 : i = 1
    · rw [hi1, h1]
      rfl
    · simp [hi0, hi1, hi]

theorem irqVector_eq (h1 : (csr P g csrMtvec).getLsbD 1 = false) : irqVector P g =
    (csr P g csrMtvec &&& ~~~3) +
      if (csr P g csrMtvec).getLsbD 0 then 4 * findIrqTypeVal (haveIP P g) else 0 := by
  obtain ⟨m, hm⟩ : ∃ m, csr P g csrMtvec = m := ⟨_, rfl⟩
  obtain ⟨n, hn⟩ : ∃ n, findIrqTypeVal (haveIP P g) = n := ⟨_, rfl⟩
  rw [irqVector, hm, hn, getField_one]
  rw [hm] at h1
  cases h0 : m.getLsbD 0 with
  | true =>
    have hbase := base_add_one h0 h1
    simp only [if_true]
    calc m + (4 * n - 1) * 1 = ((m &&& ~~~3) + 1) + (4 * n - 1) * 1 := by rw [hbase]
      _ = (m &&& ~~~3) + 4 * n := by ring
  | false =>
    have hbit0 : m.getLsbD 0 = decide (m.toNat % 2 = 1) := Nat.testBit_zero ..
    have hbit1 : m.getLsbD 1 = decide (m.toNat / 2 % 2 = 1) := by
      rw [BitVec.getLsbD, Nat.testBit_succ, Nat.testBit_zero]
    have halign : instAligned m := by
      rw [h0, eq_comm, decide_eq_false_iff_not] at hbit0
      rw [h1, eq_comm, decide_eq_false_iff_not] at hbit1
      rw [instAligned]
      omega
    simp only [Bool.false_eq_true, if_false, mul_zero, add_zero]
    exact halign.base.symm

/-! ## The entry -/

theorem irq_selected (h : Interrupts P g) : ∃ n, findIrqTypeVal (haveIP P g) = BitVec.ofNat 32 n ∧
    (csr P g csrMip).getLsbD n = true ∧ (csr P g csrMie).getLsbD n = true := by
  have hsel := h.2.2
  rw [findIrqTypeVal_eq, highestIrq_twelve] at hsel ⊢
  cases hfind : scanOrder.find? (haveIP P g).getLsbD with
  | none => exact absurd (by rw [hfind]; rfl) hsel
  | some n =>
    have hset : (haveIP P g).getLsbD n = true := List.find?_some hfind
    rw [haveIP, BitVec.getLsbD_and, BitVec.getLsbD_and, Bool.and_eq_true, Bool.and_eq_true] at hset
    exact ⟨n, rfl, hset.1.2, hset.1.1⟩

theorem irpStub_sampled (hg : sampled P st.enter = some g) : irpStub P g ↔ irpStub P st := by
  have hpri : g.curPri = st.curPri := by
    obtain ⟨inst, io, skip, late, rfl⟩ := sampled_afterFetch hg
    rfl
  rw [irpStub, irpStub, hpri, csr_sampled hg (n := csrMideleg) (by decide),
    csr_sampled hg (n := csrSstatus) (by decide), csr_sampled hg (n := csrSie) (by decide),
    csr_sampled hg (n := csrSip) (by decide)]

theorem entryComplete_takeIrq (hg : sampled P st.enter = some g) (hi : Interrupts P g)
    (hvec : (csr P st csrMtvec).getLsbD 1 = false) (hmode : st.curPri ≤ prvM) :
    ∃ n, EntryComplete P st n (moveOn (takeIrq P (findIrqTypeVal (haveIP P g)) g)) := by
  obtain ⟨n, hn, hpending, henabled⟩ := irq_selected hi
  have hcsr : ∀ m, csr P (moveOn (takeIrq P (findIrqTypeVal (haveIP P g)) g)) m =
      (takeIrq P (findIrqTypeVal (haveIP P g)) g).csr (checkCsrIdx P.priv m) := fun _ => rfl
  have hmstatus : csr P (moveOn (takeIrq P (findIrqTypeVal (haveIP P g)) g)) csrMstatus =
      irqMstatus (csr P st csrMstatus) g.curPri := by
    rw [hcsr, takeIrq_csr, slot_mstatus, Function.update_self, csr_sampled hg (by decide)]
  have hmtvec : csr P g csrMtvec = csr P st csrMtvec := csr_sampled hg (by decide)
  have halign : instAligned (irqVector P g) := by
    rw [irqVector_aligned_iff, hmtvec]
    exact hvec
  have hvector := irqVector_eq (hmtvec ▸ hvec)
  rw [hmtvec, hn] at hvector
  have hs : (takeIrq P (findIrqTypeVal (haveIP P g)) g).s.dnpc = irqVector P g := by
    rw [takeIrq_s, if_pos halign]
  obtain ⟨inst, io, skip, late, rfl⟩ := sampled_afterFetch hg
  refine ⟨n, ?_⟩
  exact {
    pending := by
      rw [hcsr, takeIrq_csr, slot_mip]
      simpa [csr] using hpending
    enabled := by
      rw [hcsr, takeIrq_csr, slot_mie]
      simpa [csr] using henabled
    mcause := by
      rw [hcsr, takeIrq_csr, slot_mcause, hn]
      simp
    mepc := by
      rw [hcsr, takeIrq_csr, slot_mepc]
      simp [State.enter]
    mpp := by
      rw [hmstatus]
      exact mpp_irqMstatus _ hmode
    mpie := by rw [hmstatus, getField_mstatusMpie, irqMstatus_mpie, getField_mstatusMie]
    mie := by
      rw [hmstatus, getField_mstatusMie, irqMstatus_mie]
      rfl
    mode := rfl
    pc := hs.trans hvector
    gpr := by simp [takeIrq, State.enter]
    pmem := by simp [takeIrq, State.enter] }

/-! ## Complete entries -/

/-- Whenever `irp_and` reports an interrupt under a legal `mtvec`, the entry is complete exactly when the
report does not come from the unfinished S-mode branch, which enters nothing. -/
theorem interruptEntry_iff (h : execOnce P st = some st') (htaken : takesInterrupt P st.enter)
    (hvec : (csr P st csrMtvec).getLsbD 1 = false) (hmode : st.curPri ≤ prvM) :
    (∃ n, EntryComplete P st n st') ↔ ¬irpStub P st := by
  obtain ⟨g, hg, hcase⟩ := execOnce_cases h
  rw [← irpStub_sampled hg]
  rcases hcase with ⟨hs, rfl⟩ | ⟨hi, rfl⟩ | ⟨hs, hi, -⟩
  · refine iff_of_false ?_ (not_not.mpr hs.2)
    rintro ⟨n, hentry⟩
    have hM : g.curPri = prvM := hentry.mode
    have hS : g.curPri = prvS := hs.2.2.1
    exact absurd (hM.symm.trans hS) (by decide)
  · exact iff_of_true (entryComplete_takeIrq hg hi hvec hmode) hi.2.1
  · obtain ⟨f, hf⟩ := htaken
    rw [fetchAndCheck_eq_sampled, hg, Option.map_some] at hf
    rcases irpTake_cases P g with ⟨hs', -⟩ | ⟨hi', -⟩ | ⟨-, -, heq⟩
    · exact absurd hs' hs
    · exact absurd hi' hi
    · rw [heq] at hf
      simp at hf

def delegatedSoft : State Unit :=
  setCsr clintBoard csrMideleg 0x2 (setCsr clintBoard csrSstatus 0x8 (setCsr clintBoard csrSie 0x2
    (setCsr clintBoard csrSip 0x2 (setCsr clintBoard csrMstatus 0x8
      ((booted clintBoard [0x13]).setCurPri prvS)))))

theorem interruptEntry_refuted : takesInterrupt clintBoard delegatedSoft.enter ∧
    (csr clintBoard delegatedSoft csrMtvec).getLsbD 1 = false ∧ delegatedSoft.curPri ≤ prvM ∧
    ∃ st', execOnce clintBoard delegatedSoft = some st' ∧
      ∀ n, ¬EntryComplete clintBoard delegatedSoft n st' := by
  have htaken : (fetchAndCheck clintBoard delegatedSoft.enter).map (·.1) = some true := by
    decide +kernel
  have hpri : (execOnce clintBoard delegatedSoft).map (·.curPri) = some prvS := by decide +kernel
  obtain ⟨⟨taken, f⟩, hf, rfl⟩ := Option.map_eq_some_iff.mp htaken
  obtain ⟨st', hst', hS⟩ := Option.map_eq_some_iff.mp hpri
  refine ⟨⟨f, hf⟩, by decide +kernel, by decide, st', hst', fun n hentry => ?_⟩
  exact absurd (hentry.mode.symm.trans hS) (by decide)

def vectoredSoft : State Unit :=
  setCsr clintBoard csrMtvec 0x80001001 (setCsr clintBoard csrMip 0x8 (setCsr clintBoard csrMie 0x8
    (setCsr clintBoard csrMstatus 0x8 (booted clintBoard [0x13]))))

theorem interruptEntry_iff_vectored : ∃ st', execOnce clintBoard vectoredSoft = some st' ∧
    ((∃ n, EntryComplete clintBoard vectoredSoft n st') ↔ ¬irpStub clintBoard vectoredSoft) := by
  have htaken : (fetchAndCheck clintBoard vectoredSoft.enter).map (·.1) = some true := by
    decide +kernel
  have h : (execOnce clintBoard vectoredSoft).isSome = true := by decide +kernel
  obtain ⟨⟨taken, f⟩, hf, rfl⟩ := Option.map_eq_some_iff.mp htaken
  obtain ⟨st', hst'⟩ := Option.isSome_iff_exists.mp h
  exact ⟨st', hst', interruptEntry_iff hst' ⟨f, hf⟩ (by decide +kernel) (by decide)⟩

end GsEmu.Riscv32
