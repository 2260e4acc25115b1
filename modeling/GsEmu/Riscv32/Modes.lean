import GsEmu.Riscv32.Boundary
import GsEmu.Riscv32.Supervisor

/-! The modes that `cur_pri` and `mstatus.MPP` go through. -/

namespace GsEmu.Riscv32

variable {D : Type} {P : Platform D} {st₀ st st' g t : State D} {o : Operands}

def modes : PrivModes → List Word
  | .M => [prvM]
  | .MU => [prvU, prvM]
  | .MSU => [prvU, prvS, prvM]

/-- `cur_pri` and `mstatus.MPP` are modes of the build. -/
structure Supported (P : Platform D) (st : State D) : Prop where
  curPri : st.curPri ∈ modes P.priv
  mpp : getField (csr P st csrMstatus) mstatusMpp ∈ modes P.priv

theorem mode_cases {p : PrivModes} {c : Word} (h : c ∈ modes p) : c = prvU ∨ c = prvS ∨ c = prvM := by
  cases p <;> simp only [modes, List.mem_cons, List.not_mem_nil, or_false] at h
  · exact .inr (.inr h)
  · exact h.imp_right .inr
  · exact h

theorem prvM_mem (p : PrivModes) : prvM ∈ modes p := by
  cases p <;> simp [modes]

theorem mode_cases_le {c : Word} (h : c ≤ prvM) : c = 0 ∨ c = 1 ∨ c = 2 ∨ c = 3 := by
  have hle : c.toNat ≤ 3 := h
  simp only [← BitVec.toNat_inj]
  change c.toNat = 0 ∨ c.toNat = 1 ∨ c.toNat = 2 ∨ c.toNat = 3
  omega

theorem le_prvM_of_mem {p : PrivModes} {c : Word} (hc : c ∈ modes p) : c ≤ prvM := by
  rcases mode_cases hc with rfl | rfl | rfl <;> decide

theorem mpp_of_bits {x c : Word} (hc : c ≤ prvM) (h11 : x.getLsbD 11 = c.getLsbD 0)
    (h12 : x.getLsbD 12 = c.getLsbD 1) : getField x mstatusMpp = c := by
  rw [getField_mstatusMpp, h11, h12]
  rcases mode_cases_le hc with rfl | rfl | rfl | rfl <;> rfl

theorem mpp_trapMstatus (m : Word) {c : Word} (hc : c ≤ prvM) :
    getField (trapMstatus m c) mstatusMpp = c := by
  apply mpp_of_bits hc <;> simp [trapMstatus, mstatusMpp]

theorem mpp_irqMstatus (m : Word) {c : Word} (hc : c ≤ prvM) :
    getField (irqMstatus m c) mstatusMpp = c := by
  apply mpp_of_bits hc <;>
    · rw [irqMstatus, getLsbD_setField (k := 11) rfl, if_pos (by decide)]
      simp

theorem mpp_congr {x y : Word} (h11 : x.getLsbD 11 = y.getLsbD 11)
    (h12 : x.getLsbD 12 = y.getLsbD 12) : getField x mstatusMpp = getField y mstatusMpp := by
  rw [getField_mstatusMpp, getField_mstatusMpp, h11, h12]

def TrapsToM (P : Platform D) (t : State D) : Prop :=
  t.haveRISCVException ≠ riscvExcpNone ∧ ¬delegated P t

/-- A CSR instruction gives `MPP` a mode of the build (or a trap to M-mode puts one there), and an
`sret` goes to a mode of the build. -/
def Body.keepsModes (P : Platform D) (o : Operands) (st t : State D) : Body → Prop
  | .csr op => o.imm = csrMstatus → P.priv ≠ .M →
      getField (op (Riscv32.csr P st csrMstatus) o.src1) mstatusMpp ∈ modes P.priv ∨ TrapsToM P t
  | .sret => getField (Riscv32.csr P st csrSstatus) sstatusSpp ∈ modes P.priv
  | _ => True

/-- The condition on a step. -/
def KeepsModes (P : Platform D) (st : State D) : CallEvent D → Prop
  | .event .inst => ∀ g, sampled P st.enter = some g → ¬Stubs P g → ¬Interrupts P g →
      ∀ p t, selectInst P.toConfig g.s.inst = some p → decodeBody P g = some t →
        p.body.keepsModes P (operands g p) st t
  | _ => True

theorem Body.mode_mem_iff (b : Body) (h : Supported P st) : b.mode P st ∈ modes P.priv ↔
    (b = .sret → getField (Riscv32.csr P st csrSstatus) sstatusSpp ∈ modes P.priv) := by
  cases b with
  | sret => simp [Body.mode]
  | mret => exact iff_of_true h.mpp (by simp)
  | _ => exact iff_of_true h.curPri (by simp)

theorem Body.mpp_mem_iff (b : Body) (h : Supported P st) :
    getField (b.csrAfter P o st csrMstatus) mstatusMpp ∈ modes P.priv ↔
      ∀ op, b = .csr op → o.imm = csrMstatus → P.priv ≠ .M →
        getField (op (Riscv32.csr P st csrMstatus) o.src1) mstatusMpp ∈ modes P.priv := by
  cases b with
  | csr op =>
    simp only [Body.csrAfter, Body.csr.injEq, forall_eq']
    by_cases hw : o.imm = csrMstatus ∧ P.priv ≠ .M
    · simp [hw.1, hw.2]
    · have hno : ¬(csrMstatus = o.imm ∧ ¬(P.priv = .M ∧ True)) := by
        rintro ⟨hi, hM⟩
        exact hw ⟨hi.symm, fun h => hM ⟨h, trivial⟩⟩
      rw [if_neg hno]
      exact iff_of_true h.mpp fun hi hM => absurd ⟨hi, hM⟩ hw
  | ebreak =>
    have hne : csrMstatus ≠ csrMepc := by decide
    simpa [Body.csrAfter, hne] using h.mpp
  | sret =>
    have hne : csrMstatus ≠ csrSstatus := by decide
    refine iff_of_true ?_ (by simp)
    simp only [Body.csrAfter, hne, if_false, true_and]
    split
    · rw [mpp_congr (y := Riscv32.csr P st csrMstatus) (by simp [sretMstatus, mstatusSpp, sstatusSpie])
        (by simp [sretMstatus, mstatusSpp, sstatusSpie])]
      exact h.mpp
    · exact h.mpp
  | mret =>
    refine iff_of_true ?_ (by simp)
    simp only [Body.csrAfter, if_true]
    split
    · rw [mpp_congr (mretMstatus_of_ne _ rfl rfl) (mretMstatus_of_ne _ rfl rfl)]
      exact h.mpp
    · have hU : prvU ∈ modes P.priv := by
        cases hP : P.priv <;> simp_all [modes]
      rw [mpp_of_bits (le_prvM_of_mem hU)]
      · exact hU
      · rw [getLsbD_setField (k := 11) rfl]
        rfl
      · rw [getLsbD_setField (k := 11) rfl]
        rfl
  | _ => exact iff_of_true h.mpp (by simp)

theorem trapTail_supported_iff (hS : prvS ∈ modes P.priv → t.curPri ≤ prvS → t.curPri ∈ modes P.priv) :
    Supported P (trapTail P t) ↔ t.curPri ∈ modes P.priv ∧
      (getField (csr P t csrMstatus) mstatusMpp ∈ modes P.priv ∨ TrapsToM P t) := by
  unfold trapTail
  by_cases hr : t.haveRISCVException ≠ riscvExcpNone
  · rw [if_pos hr]
    by_cases hd : delegated P t
    · have hmem : prvS ∈ modes P.priv := by rw [hd.1]; decide
      have hnot : ¬TrapsToM P t := fun h => h.2 hd
      have hmst : csr P (recyException (delegateException P t)) csrMstatus =
          delegateMstatus (csr P t csrMstatus) := (delegateException_views hd.1).2
      have hmpp : getField (delegateMstatus (csr P t csrMstatus)) mstatusMpp =
          getField (csr P t csrMstatus) mstatusMpp := by
        have hspp : mstatusSpp &&& ~~~(mstatusSpp <<< 1) = BitVec.twoPow 32 8 := rfl
        have hspie : mstatusSpie &&& ~~~(mstatusSpie <<< 1) = BitVec.twoPow 32 5 := rfl
        refine mpp_congr ?_ ?_ <;>
          rw [delegateMstatus, getLsbD_setField hspp, if_neg (by decide), getLsbD_setField hspie,
            if_neg (by decide)]
      rw [if_pos hd]
      constructor
      · rintro ⟨-, hm⟩
        rw [hmst, hmpp] at hm
        exact ⟨hS hmem hd.2.1, .inl hm⟩
      · rintro ⟨-, hm⟩
        refine ⟨hmem, ?_⟩
        rw [hmst, hmpp]
        exact hm.resolve_right hnot
    · have hmst : csr P (recyException (illegalInstruction P t)) csrMstatus =
          trapMstatus (csr P t csrMstatus) t.curPri := by
        change (illegalInstruction P t).csr _ = _
        rw [illegalInstruction_csr, slot_mstatus]
        simp
      have hpri : (recyException (illegalInstruction P t)).curPri = t.curPri :=
        illegalInstruction_curPri
      rw [if_neg hd]
      constructor
      · rintro ⟨hc, -⟩
        exact ⟨hpri ▸ hc, .inr ⟨hr, hd⟩⟩
      · rintro ⟨hc, -⟩
        refine ⟨hpri ▸ hc, ?_⟩
        rw [hmst, mpp_trapMstatus _ (le_prvM_of_mem hc)]
        exact hc
  · have hnot : ¬TrapsToM P t := fun h => hr h.1
    rw [if_neg hr, or_iff_left hnot]
    exact ⟨fun h => ⟨h.curPri, h.mpp⟩, fun h => ⟨h.1, h.2⟩⟩

theorem supported_sampled (hg : sampled P st.enter = some g) :
    Supported P g ↔ Supported P st := by
  have hpri : g.curPri = st.curPri := by
    obtain ⟨inst, io, skip, late, rfl⟩ := sampled_afterFetch hg
    rfl
  have hmst := csr_sampled hg (n := csrMstatus) (by decide)
  constructor <;> rintro ⟨hc, hm⟩
  · exact ⟨hpri ▸ hc, hmst ▸ hm⟩
  · exact ⟨hpri.symm ▸ hc, hmst.symm ▸ hm⟩

theorem callStep_supported_iff (e : CallEvent D) (hsup : Supported P st) (h : CallStep P st e st') :
    Supported P st' ↔ KeepsModes P st e := by
  rcases e with (_ | ⟨io, nemuState, skip⟩) | s
  · obtain ⟨g, hg, hcase⟩ := execOnce_cases h
    have hgsup := (supported_sampled hg).mpr hsup
    have hone : KeepsModes P st (.event .inst) ↔ (¬Stubs P g → ¬Interrupts P g →
        ∀ p t, selectInst P.toConfig g.s.inst = some p → decodeBody P g = some t →
          p.body.keepsModes P (operands g p) st t) := by
      simp only [KeepsModes, hg, Option.some.injEq, forall_eq']
    rw [hone]
    rcases hcase with ⟨hs, rfl⟩ | ⟨hi, rfl⟩ | ⟨hs, hi, t, ht, rfl⟩
    · exact iff_of_true ⟨hgsup.curPri, hgsup.mpp⟩ fun h => absurd hs h
    · refine iff_of_true ⟨prvM_mem _, ?_⟩ fun _ h => absurd hi h
      change getField ((takeIrq P _ g).csr (checkCsrIdx P.priv csrMstatus)) mstatusMpp ∈ _
      rw [takeIrq_csr, slot_mstatus, Function.update_self, mpp_irqMstatus _ (le_prvM_of_mem hgsup.curPri)]
      exact hgsup.curPri
    · obtain ⟨p, hp⟩ := selectInst_exists P.toConfig g.s.inst
      have hmode := decodeBody_mode hp ht
      have hmst := decodeBody_csr hp ht (csrPresent_mstatus _) (by decide)
      have hS : prvS ∈ modes P.priv → t.curPri ≤ prvS → t.curPri ∈ modes P.priv := by
        intro hmem hle
        have hle : t.curPri.toNat ≤ 1 := hle
        have hcase : t.curPri = prvU ∨ t.curPri = prvS := by
          rw [← BitVec.toNat_inj, ← BitVec.toNat_inj]
          change t.curPri.toNat = 0 ∨ t.curPri.toNat = 1
          omega
        cases hP : P.priv with
        | M | MU =>
          rw [hP] at hmem
          exact absurd hmem (by decide)
        | MSU => rcases hcase with hc | hc <;> rw [hc] <;> decide
      have hmove : Supported P (moveOn (trapTail P t)) ↔ Supported P (trapTail P t) :=
        ⟨fun h => ⟨h.curPri, h.mpp⟩, fun h => ⟨h.curPri, h.mpp⟩⟩
      rw [hmove, trapTail_supported_iff hS, hmode, hmst, p.body.mode_mem_iff hgsup,
        p.body.mpp_mem_iff hgsup, csr_sampled hg (n := csrMstatus) (by decide),
        csr_sampled hg (n := csrSstatus) (by decide)]
      have hkeep : (¬Stubs P g → ¬Interrupts P g →
          ∀ q u, selectInst P.toConfig g.s.inst = some q → decodeBody P g = some u →
            q.body.keepsModes P (operands g q) st u) ↔
          p.body.keepsModes P (operands g p) st t := by
        constructor
        · exact fun hall => hall hs hi p t hp ht
        · intro hone _ _ q u hq hu
          obtain rfl := Option.some.inj (hp.symm.trans hq)
          obtain rfl := Option.some.inj (ht.symm.trans hu)
          exact hone
      rw [hkeep]
      cases p.body with
      | csr op =>
        simp only [Body.keepsModes, reduceCtorEq, false_imp_iff, true_and, Body.csr.injEq, forall_eq']
        constructor
        · rintro (hmpp | htrap) hi hM
          · exact .inl (hmpp hi hM)
          · exact .inr htrap
        · intro hor
          by_cases htrap : TrapsToM P t
          · exact .inr htrap
          · exact .inl fun hi hM => (hor hi hM).resolve_right htrap
      | sret => simp [Body.keepsModes]
      | _ => simp [Body.keepsModes]
  · obtain rfl : st' = { st with io := io, nemuState := nemuState, skip := skip } := h
    exact iff_of_true ⟨hsup.curPri, hsup.mpp⟩ trivial
  · obtain rfl : st' = { st with s := s } := h
    exact iff_of_true ⟨hsup.curPri, hsup.mpp⟩ trivial

theorem reset_supported (h : Reset P st) : Supported P st := by
  obtain ⟨st₀, -, -, -, rfl⟩ := h
  refine ⟨prvM_mem _, ?_⟩
  have hmst : csr P (restart P st₀) csrMstatus = 0x1800 := by
    have hMU : checkCsrIdx .MU csrMedeleg = 23 := rfl
    cases hP : P.priv <;> simp [restart, csrInit, hP, csr, hMU]
  rw [hmst]
  exact prvM_mem _

/-- From reset the mode and `MPP` are modes of the build exactly as long as no CSR instruction leaves
another encoding in `MPP` and no `sret` goes to a mode that the build does not have. -/
theorem modes_supported_iff {tr : List (State D × CallEvent D)} (hreset : Reset P st₀)
    (hrun : CallRun P st₀ tr st) :
    ((∀ q ∈ tr, Supported P q.1) ∧ Supported P st) ↔ ∀ q ∈ tr, KeepsModes P q.1 q.2 :=
  hrun.invariant_iff (reset_supported hreset) fun _ e _ hsup hstep =>
    callStep_supported_iff e hsup hstep

def reservedReturn : State Unit := booted clintBoard [0x000010b7, 0x30009073, 0x30200073]

theorem modes_supported_refuted :
    ∃ tr st, Reset clintBoard reservedReturn ∧ CallRun clintBoard reservedReturn tr st ∧
      st.curPri = 2 := by
  have h : (runInst clintBoard 3 reservedReturn).map (·.curPri) = some 2 := by decide +kernel
  obtain ⟨st, hst, hpri⟩ := Option.map_eq_some_iff.mp h
  obtain ⟨tr, hrun, -⟩ := runInst_callRun hst
  exact ⟨tr, st, booted_reset _ _, hrun, hpri⟩

theorem modes_supported_iff_reservedReturn :
    ∃ tr st, CallRun clintBoard reservedReturn tr st ∧
      (((∀ q ∈ tr, Supported clintBoard q.1) ∧ Supported clintBoard st) ↔
        ∀ q ∈ tr, KeepsModes clintBoard q.1 q.2) := by
  have h : (runInst clintBoard 3 reservedReturn).isSome = true := by decide +kernel
  obtain ⟨st, hst⟩ := Option.isSome_iff_exists.mp h
  obtain ⟨tr, hrun, -⟩ := runInst_callRun hst
  exact ⟨tr, st, hrun, modes_supported_iff (booted_reset _ _) hrun⟩

end GsEmu.Riscv32
