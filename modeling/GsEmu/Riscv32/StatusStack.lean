import GsEmu.Riscv32.Privilege
import GsEmu.Riscv32.Select
import GsEmu.Riscv32.Supervisor

/-! `mret` and `sret` as pops of the three-field stack of a status register. -/

namespace GsEmu.Riscv32

variable {D : Type} {P : Platform D} {f t : State D} {p : Instpat}

/-- The enable bit `ie` takes the previous one `pie`, which is then set; the bits of `pp` are
cleared and nothing else changes. -/
def Popped (ie pie : Nat) (pp : List Nat) (old new : Word) : Prop :=
  ∀ j < 32, new.getLsbD j = if j = ie then old.getLsbD pie else if j = pie then true
    else if j ∈ pp then false else old.getLsbD j

/-! ## The values written -/

theorem mret_popped (m : Word) : Popped 3 7 [11, 12] m (setField (mretMstatus m) mstatusMpp 0) := by
  have hmpp : mstatusMpp &&& ~~~(mstatusMpp <<< 1) = BitVec.twoPow 32 11 := rfl
  have hmpie : mstatusMpie &&& ~~~(mstatusMpie <<< 1) = BitVec.twoPow 32 7 := rfl
  have hmie : mstatusMie &&& ~~~(mstatusMie <<< 1) = BitVec.twoPow 32 3 := rfl
  intro j hj
  simp only [mretMstatus, getLsbD_setField hmpp, getLsbD_setField hmpie, getLsbD_setField hmie,
    getField_mstatusMpie]
  interval_cases j <;> cases m.getLsbD 7 <;> rfl

/-- `sstatus` is popped by an OR, which cannot clear `SIE`. -/
theorem sretSstatus_popped_iff (s : Word) :
    Popped 1 5 [8] s (sretSstatus s) ↔ (s.getLsbD 1 = true → s.getLsbD 5 = true) := by
  constructor
  · intro h hsie
    have h1 := h 1 (by decide)
    rw [sretSstatus_bit s (by decide), if_pos rfl, if_pos rfl, hsie, Bool.true_or] at h1
    exact h1.symm
  · intro h j hj
    rw [sretSstatus_bit s hj]
    split
    · cases hsie : s.getLsbD 1
      · rfl
      · rw [h hsie]
        rfl
    · simp only [List.mem_singleton]

theorem sretMstatus_popped_iff (m : Word) :
    Popped 1 5 [8] m (sretMstatus m) ↔ m.getLsbD 1 = m.getLsbD 5 := by
  constructor
  · intro h
    have h1 := h 1 (by decide)
    rw [sretMstatus_bit m (by decide), if_pos rfl] at h1
    exact h1
  · intro h j hj
    rw [sretMstatus_bit m hj]
    by_cases h1 : j = 1
    · subst h1
      exact h
    · rw [if_neg h1]
      simp only [List.mem_singleton]

/-! ## The returns -/

/-- What the architecture asks of the two returns; `sret` keeps its fields in both registers. -/
structure MretPops (P : Platform D) (f t : State D) : Prop where
  mstatus : Popped 3 7 [11, 12] (csr P f csrMstatus) (csr P t csrMstatus)
  sstatus : csr P t csrSstatus = csr P f csrSstatus
  mode : t.curPri = getField (csr P f csrMstatus) mstatusMpp
  dnpc : t.s.dnpc = csr P f csrMepc

structure SretPops (P : Platform D) (f t : State D) : Prop where
  mstatus : Popped 1 5 [8] (csr P f csrMstatus) (csr P t csrMstatus)
  sstatus : Popped 1 5 [8] (csr P f csrSstatus) (csr P t csrSstatus)
  mode : t.curPri = getField (csr P f csrSstatus) sstatusSpp
  dnpc : t.s.dnpc = csr P f csrSepc

def Body.Pops (P : Platform D) (f t : State D) : Body → Prop
  | .mret => MretPops P f t
  | .sret => SretPops P f t
  | _ => True

/-- `SIE` is not set alone in `sstatus` and agrees with `SPIE` in `mstatus`. -/
def SretSound (P : Platform D) (f : State D) : Prop :=
  ((csr P f csrSstatus).getLsbD 1 = true → (csr P f csrSstatus).getLsbD 5 = true) ∧
    (csr P f csrMstatus).getLsbD 1 = (csr P f csrMstatus).getLsbD 5

instance (P : Platform D) (f : State D) : Decidable (SretSound P f) :=
  inferInstanceAs (Decidable (_ ∧ _))

theorem csrPresent_sstatus (hP : P.priv = .MSU) : csrPresent P.priv csrSstatus := by
  rw [hP]
  decide

theorem decodeExec_of_clear (ht : decodeBody P f = some t)
    (hclear : t.haveRISCVException = riscvExcpNone) : decodeExec P f = some t := by
  rw [decodeExec, ht]
  exact congrArg some (if_neg fun h => h hclear)

theorem body_control (hp : selectInst P.toConfig f.s.inst = some p) (ht : decodeBody P f = some t) :
    t.s.pc = f.s.pc ∧ t.s.dnpc = p.body.next P (operands f p) (bodyStart f) := by
  obtain ⟨q, t₀, hq, hbody, rfl⟩ := decodeBody_cases ht
  obtain rfl := Option.some.inj (hp.symm.trans hq)
  rw [resetFixed_s, (execBody_control hbody).2.2, dnpcAndCheck_s]
  exact ⟨rfl, rfl⟩

theorem mret_pops (hP : P.priv = .MSU) (hp : selectInst P.toConfig f.s.inst = some p)
    (hb : p.body = .mret) (ht : decodeBody P f = some t) : MretPops P f t := by
  have hM : P.priv ≠ .M := by simp [hP]
  refine ⟨?_, ?_, ?_, ?_⟩
  · rw [decodeBody_csr hp ht (csrPresent_mstatus _) (by decide), hb, Body.csrAfter, if_pos rfl,
      if_neg hM]
    exact mret_popped _
  · have hne : csrSstatus ≠ csrMstatus := by decide
    rw [decodeBody_csr hp ht (csrPresent_sstatus hP) (by decide), hb, Body.csrAfter, if_neg hne]
  · rw [decodeBody_mode hp ht, hb, Body.mode]
  · rw [(body_control hp ht).2, hb, Body.next, csr_bodyStart]

theorem sret_pops_iff (hP : P.priv = .MSU) (hp : selectInst P.toConfig f.s.inst = some p)
    (hb : p.body = .sret) (ht : decodeBody P f = some t) : SretPops P f t ↔ SretSound P f := by
  have hM : P.priv ≠ .M := by simp [hP]
  have hm : csr P t csrMstatus = sretMstatus (csr P f csrMstatus) := by
    rw [decodeBody_csr hp ht (csrPresent_mstatus _) (by decide), hb]
    exact if_pos ⟨rfl, hM⟩
  have hs : csr P t csrSstatus = sretSstatus (csr P f csrSstatus) := by
    have hne : ¬(csrSstatus = csrMstatus ∧ P.priv ≠ .M) := fun h => absurd h.1 (by decide)
    rw [decodeBody_csr hp ht (csrPresent_sstatus hP) (by decide), hb, Body.csrAfter, if_neg hne,
      if_pos rfl]
  have hmode : t.curPri = getField (csr P f csrSstatus) sstatusSpp := by
    rw [decodeBody_mode hp ht, hb, Body.mode]
  have hdnpc : t.s.dnpc = csr P f csrSepc := by
    rw [(body_control hp ht).2, hb, Body.next, csr_bodyStart]
  rw [SretSound, ← sretSstatus_popped_iff, ← sretMstatus_popped_iff, ← hm, ← hs]
  exact ⟨fun h => ⟨h.sstatus, h.mstatus⟩, fun h => ⟨h.2, h.1, hmode, hdnpc⟩⟩

theorem execMret_haveRISCVException : (execMret P f).haveRISCVException = f.haveRISCVException := by
  simp only [execMret, setCsrChecked_have, State.setCurPri_haveRISCVException,
    setCsr_haveRISCVException, State.setDnpc_haveRISCVException]

theorem execSret_haveRISCVException : (execSret P f).haveRISCVException = f.haveRISCVException := by
  simp only [execSret, setCsrChecked_have, State.setCurPri_haveRISCVException,
    setCsr_haveRISCVException, State.setDnpc_haveRISCVException]

theorem return_runs (hp : selectInst P.toConfig f.s.inst = some p)
    (hb : p.body = .mret ∨ p.body = .sret) :
    ∃ t, decodeBody P f = some t ∧ t.haveRISCVException = (bodyStart f).haveRISCVException := by
  rw [decodeBody_eq hp]
  rcases hb with hb | hb
  · rw [hb]
    exact ⟨_, rfl, execMret_haveRISCVException⟩
  · rw [hb]
    exact ⟨_, rfl, execSret_haveRISCVException⟩

/-- A return always ends; `mret` pops the whole stack, and `sret` does exactly in the states of
`SretSound`. -/
theorem return_pops_iff (hP : P.priv = .MSU) (hp : selectInst P.toConfig f.s.inst = some p)
    (hb : p.body = .mret ∨ p.body = .sret) :
    ∃ t, decodeBody P f = some t ∧
      (f.haveRISCVException = riscvExcpNone → instAligned f.s.snpc → decodeExec P f = some t) ∧
      (p.body.Pops P f t ↔ (p.body = .sret → SretSound P f)) := by
  obtain ⟨t, ht, hex⟩ := return_runs hp hb
  refine ⟨t, ht, fun hnone hal => ?_, ?_⟩
  · apply decodeExec_of_clear ht
    rw [hex, dnpcAndCheck_haveRISCVException, if_pos hal, hnone]
  · rcases hb with hb | hb
    · rw [hb]
      exact iff_of_true (mret_pops hP hp hb ht) fun h => Body.noConfusion h
    · rw [hb]
      exact (sret_pops_iff hP hp hb ht).trans ⟨fun h _ => h, fun h => h rfl⟩

/-! ## A nested return -/

def nestedSret : State Unit :=
  { setCsr clintBoard csrSstatus 0x2 (setCsr clintBoard csrMstatus 0x2 (booted clintBoard [])) with
    s := ⟨0x80000000, 0x80000004, 0, 0x10200073⟩ }

theorem selectInst_sret : ∃ p, selectInst clintBoard.toConfig 0x10200073 = some p ∧ p.body = .sret := by
  refine ⟨_, selectInst_of_mem (p := rvZicsr.get ⟨6, by decide⟩) ?_ (by decide +kernel), rfl⟩
  exact List.mem_append_left _ (List.mem_append_right _ (List.get_mem _ _))

theorem return_pops_refuted : ∃ p t, selectInst clintBoard.toConfig nestedSret.s.inst = some p ∧
    p.body = .sret ∧ decodeExec clintBoard nestedSret = some t ∧
    (csr clintBoard nestedSret csrSstatus).getLsbD 5 = false ∧
    (csr clintBoard t csrSstatus).getLsbD 1 = true ∧ ¬p.body.Pops clintBoard nestedSret t := by
  obtain ⟨p, hp, hb⟩ := selectInst_sret
  have hrun : (decodeExec clintBoard nestedSret).map (fun t => csr clintBoard t csrSstatus) =
      some 0x22 := by
    decide +kernel
  obtain ⟨t, ht, hs⟩ := Option.map_eq_some_iff.mp hrun
  refine ⟨p, t, hp, hb, ht, by decide +kernel, ?_, ?_⟩
  · rw [hs]
    decide
  · rw [hb]
    intro h
    have h1 := h.sstatus 1 (by decide)
    rw [hs] at h1
    revert h1
    decide +kernel

theorem return_pops_iff_nestedSret :
    ∃ (p : Instpat) (t : State Unit), p.body = .sret ∧ decodeBody clintBoard nestedSret = some t ∧
      (p.body.Pops clintBoard nestedSret t ↔ (p.body = .sret → SretSound clintBoard nestedSret)) := by
  obtain ⟨p, hp, hb⟩ := selectInst_sret
  obtain ⟨t, ht, -, hiff⟩ := return_pops_iff (f := nestedSret) rfl hp (.inr hb)
  exact ⟨p, t, hb, ht, hiff⟩

end GsEmu.Riscv32
