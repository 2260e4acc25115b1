import GsEmu.Riscv32.Boundary

/-! `sstatus` as a view of `mstatus`: which steps keep the two stored copies equal in every bit that the two
registers share. -/

namespace GsEmu.Riscv32

variable {D : Type} {P : Platform D} {st st' g t : State D} {o : Operands}

/-! ## The shared bits -/

def stackBits : Word := sstatusSie ||| sstatusSpie ||| sstatusSpp

/-- The other fields of `sstatus`, each a field of `mstatus` too. -/
def otherBits : Word :=
  sstatusUie ||| sstatusUpie ||| mstatusUbe ||| sstatusVs ||| sstatusFs ||| sstatusXs ||| sstatusSum |||
    sstatusMxr ||| sstatus32Sd

def viewBits : Word := stackBits ||| otherBits

theorem and_eq_iff (m x y : Word) : x &&& m = y &&& m ↔
    ∀ i < 32, m.getLsbD i = true → x.getLsbD i = y.getLsbD i := by
  constructor
  · intro h i _ hm
    have := congrArg (BitVec.getLsbD · i) h
    simpa [hm] using this
  · intro h
    apply BitVec.eq_of_getLsbD_eq
    intro i hi
    rw [BitVec.getLsbD_and, BitVec.getLsbD_and]
    cases hm : m.getLsbD i with
    | false => simp
    | true => rw [h i hi hm]

theorem view_eq_iff (x y : Word) : x &&& viewBits = y &&& viewBits ↔
    (x.getLsbD 1 = y.getLsbD 1 ∧ x.getLsbD 5 = y.getLsbD 5 ∧ x.getLsbD 8 = y.getLsbD 8) ∧
      x &&& otherBits = y &&& otherBits := by
  rw [and_eq_iff, and_eq_iff]
  have hview : ∀ i < 32, viewBits.getLsbD i = true →
      i = 1 ∨ i = 5 ∨ i = 8 ∨ otherBits.getLsbD i = true := by decide
  have hother : ∀ i < 32, otherBits.getLsbD i = true → viewBits.getLsbD i = true := by decide
  constructor
  · exact fun h => ⟨⟨h 1 (by decide) rfl, h 5 (by decide) rfl, h 8 (by decide) rfl⟩,
      fun i hi hm => h i hi (hother i hi hm)⟩
  · rintro ⟨⟨h1, h5, h8⟩, h⟩ i hi hm
    rcases hview i hi hm with rfl | rfl | rfl | hm
    · exact h1
    · exact h5
    · exact h8
    · exact h i hi hm

/-- The supervisor register agrees with the machine one. -/
def Coherent (P : Platform D) (st : State D) : Prop :=
  csr P st csrSstatus &&& viewBits = csr P st csrMstatus &&& viewBits

/-! ## What the operations do to the two copies -/

/-- A CSR instruction on either register leaves the bits of `m` as they are. -/
def Body.keepsBits (P : Platform D) (m : Word) (o : Operands) (st : State D) : Body → Prop
  | .csr op =>
    (o.imm = csrSstatus →
      op (Riscv32.csr P st csrSstatus) o.src1 &&& m = Riscv32.csr P st csrSstatus &&& m) ∧
    (o.imm = csrMstatus →
      op (Riscv32.csr P st csrMstatus) o.src1 &&& m = Riscv32.csr P st csrMstatus &&& m)
  | _ => True

/-- The shared bits stay as they are, and `sret` is executed with `SPIE` clear or `SIE` set. -/
def Body.keepsViews (P : Platform D) (o : Operands) (st : State D) (b : Body) : Prop :=
  b.keepsBits P viewBits o st ∧ (b = .sret → (Riscv32.csr P st csrSstatus).getLsbD 5 = true →
    (Riscv32.csr P st csrSstatus).getLsbD 1 = true)

theorem sretMstatus_bit (m : Word) {j : Nat} (hj : j < 32) : (sretMstatus m).getLsbD j =
    if j = 5 then true else if j = 8 then false else m.getLsbD j := by
  simp only [sretMstatus, BitVec.getLsbD_or, BitVec.getLsbD_and, BitVec.getLsbD_not]
  interval_cases j <;> simp [mstatusSpp, sstatusSpie]

theorem sretSstatus_bit (s : Word) {j : Nat} (hj : j < 32) : (sretSstatus s).getLsbD j =
    if j = 1 then s.getLsbD 1 || s.getLsbD 5 else if j = 5 then true
      else if j = 8 then false else s.getLsbD j := by
  simp only [sretSstatus, getField_sstatusSpie, BitVec.getLsbD_or, BitVec.getLsbD_and,
    BitVec.getLsbD_not]
  interval_cases j <;> cases s.getLsbD 5 <;> simp [sstatusSpp, sstatusSpie]

theorem sretSstatus_view (s : Word) : (sretSstatus s).getLsbD 1 = (s.getLsbD 1 || s.getLsbD 5) ∧
    (sretSstatus s).getLsbD 5 = true ∧ (sretSstatus s).getLsbD 8 = false :=
  ⟨sretSstatus_bit s (by decide), sretSstatus_bit s (by decide), sretSstatus_bit s (by decide)⟩

theorem sretMstatus_view (m : Word) : (sretMstatus m).getLsbD 1 = m.getLsbD 1 ∧
    (sretMstatus m).getLsbD 5 = true ∧ (sretMstatus m).getLsbD 8 = false :=
  ⟨sretMstatus_bit m (by decide), sretMstatus_bit m (by decide), sretMstatus_bit m (by decide)⟩

theorem sretSstatus_other (s : Word) : sretSstatus s &&& otherBits = s &&& otherBits := by
  have hne : ∀ i < 32, otherBits.getLsbD i = true → i ≠ 1 ∧ i ≠ 5 ∧ i ≠ 8 := by decide
  rw [and_eq_iff]
  intro i hi hm
  obtain ⟨h1, h5, h8⟩ := hne i hi hm
  rw [sretSstatus_bit s hi, if_neg h1, if_neg h5, if_neg h8]

theorem sretMstatus_other (m : Word) : sretMstatus m &&& otherBits = m &&& otherBits := by
  have hne : ∀ i < 32, otherBits.getLsbD i = true → i ≠ 5 ∧ i ≠ 8 := by decide
  rw [and_eq_iff]
  intro i hi hm
  obtain ⟨h5, h8⟩ := hne i hi hm
  rw [sretMstatus_bit m hi, if_neg h5, if_neg h8]

theorem mretMstatus_view (m : Word) :
    setField (mretMstatus m) mstatusMpp 0 &&& viewBits = m &&& viewBits := by
  rw [setField_and (by decide), mretMstatus, setField_and (by decide), setField_and (by decide)]

theorem Body.csr_keeps_iff (op : Word → Word → Word) {m : Word} (hP : P.priv = .MSU)
    (h : Riscv32.csr P st csrSstatus &&& m = Riscv32.csr P st csrMstatus &&& m) :
    Body.csrAfter P o st csrSstatus (.csr op) &&& m = Body.csrAfter P o st csrMstatus (.csr op) &&& m ↔
      Body.keepsBits P m o st (.csr op) := by
  have hne : csrSstatus ≠ csrMstatus := by decide
  simp only [Body.csrAfter, Body.keepsBits]
  by_cases hs : o.imm = csrSstatus
  · simp [hs, hne, hne.symm, hP, h]
  · by_cases hm : o.imm = csrMstatus
    · simp [hm, hne, hne.symm, hP, h, eq_comm]
    · simp [hs, hm, Ne.symm hs, Ne.symm hm, h]

theorem Body.keepsViews_iff (b : Body) (hP : P.priv = .MSU) (h : Coherent P st) :
    b.csrAfter P o st csrSstatus &&& viewBits = b.csrAfter P o st csrMstatus &&& viewBits ↔
      b.keepsViews P o st := by
  have hne : csrSstatus ≠ csrMstatus := by decide
  unfold Coherent at h
  cases b with
  | ebreak =>
    have hs : csrSstatus ≠ csrMepc := by decide
    have hm : csrMstatus ≠ csrMepc := by decide
    simp [Body.csrAfter, Body.keepsViews, Body.keepsBits, hs, hm, h]
  | csr op =>
    rw [Body.csr_keeps_iff op hP h]
    simp [Body.keepsViews]
  | sret =>
    obtain ⟨⟨h1, -, -⟩, hother⟩ := (view_eq_iff _ _).mp h
    have hs : Body.csrAfter P o st csrSstatus .sret = sretSstatus (Riscv32.csr P st csrSstatus) := by
      simp [Body.csrAfter, hne]
    have hm : Body.csrAfter P o st csrMstatus .sret = sretMstatus (Riscv32.csr P st csrMstatus) := by
      simp [Body.csrAfter, hP]
    obtain ⟨hs1, hs5, hs8⟩ := sretSstatus_view (Riscv32.csr P st csrSstatus)
    obtain ⟨hm1, hm5, hm8⟩ := sretMstatus_view (Riscv32.csr P st csrMstatus)
    rw [hs, hm, view_eq_iff, sretSstatus_other, sretMstatus_other, and_iff_left hother, hs1, hs5, hs8,
      hm1, hm5, hm8]
    simp only [Body.keepsViews, Body.keepsBits, ← h1]
    -- both registers take `SIE` from `SPIE`, but only one of them the old bit
    cases (Riscv32.csr P st csrSstatus).getLsbD 1 <;>
      cases (Riscv32.csr P st csrSstatus).getLsbD 5 <;> decide
  | mret =>
    simp only [Body.csrAfter, Body.keepsViews, Body.keepsBits, hne, hP, reduceCtorEq, if_true, if_false,
      mretMstatus_view, h, false_imp_iff, and_self]
  | _ => simp [Body.csrAfter, Body.keepsViews, Body.keepsBits, h]

theorem Body.keepsOther_iff (b : Body) (hP : P.priv = .MSU) (h : Coherent P st) :
    b.csrAfter P o st csrSstatus &&& otherBits = b.csrAfter P o st csrMstatus &&& otherBits ↔
      b.keepsBits P otherBits o st := by
  have hne : csrSstatus ≠ csrMstatus := by decide
  have hother := ((view_eq_iff _ _).mp h).2
  cases b with
  | ebreak =>
    have hs : csrSstatus ≠ csrMepc := by decide
    have hm : csrMstatus ≠ csrMepc := by decide
    simp [Body.csrAfter, Body.keepsBits, hs, hm, hother]
  | csr op => exact Body.csr_keeps_iff op hP hother
  | sret =>
    simp [Body.csrAfter, Body.keepsBits, hne, hP, sretSstatus_other, sretMstatus_other, hother]
  | mret =>
    have hmret : setField (mretMstatus (Riscv32.csr P st csrMstatus)) mstatusMpp 0 &&& otherBits =
        Riscv32.csr P st csrMstatus &&& otherBits := ((view_eq_iff _ _).mp (mretMstatus_view _)).2
    simp only [Body.csrAfter, Body.keepsBits, hne, hP, reduceCtorEq, if_true, if_false, hmret, hother]
  | _ => simp [Body.csrAfter, Body.keepsBits, hother]

/-! ## Traps -/

def delegateSstatus (sstatus curPri : Word) : Word :=
  setField (setField (setField sstatus sstatusSpie (getField sstatus sstatusSie)) sstatusSie 0)
    sstatusSpp curPri

def delegateMstatus (mstatus : Word) : Word :=
  setField (setField mstatus mstatusSpie (getField mstatus mstatusSie)) mstatusSpp prvS

theorem delegateException_views (hP : P.priv = .MSU) :
    csr P (delegateException P t) csrSstatus = delegateSstatus (csr P t csrSstatus) t.curPri ∧
      csr P (delegateException P t) csrMstatus = delegateMstatus (csr P t csrMstatus) := by
  constructor <;> simp [delegateException, delegateSstatus, delegateMstatus, hP]

theorem delegateSstatus_view (s c : Word) : (delegateSstatus s c).getLsbD 1 = false ∧
    (delegateSstatus s c).getLsbD 5 = s.getLsbD 1 ∧
    (delegateSstatus s c).getLsbD 8 = c.getLsbD 0 := by
  have hspp : sstatusSpp &&& ~~~(sstatusSpp <<< 1) = BitVec.twoPow 32 8 := rfl
  have hspie : sstatusSpie &&& ~~~(sstatusSpie <<< 1) = BitVec.twoPow 32 5 := rfl
  have hsie : sstatusSie &&& ~~~(sstatusSie <<< 1) = BitVec.twoPow 32 1 := rfl
  simp only [delegateSstatus, getLsbD_setField hspp, getLsbD_setField hsie,
    getLsbD_setField hspie, getField_sstatusSie]
  cases s.getLsbD 1 <;> cases c.getLsbD 0 <;> exact ⟨rfl, rfl, rfl⟩

theorem delegateSstatus_other (s c : Word) : delegateSstatus s c &&& otherBits = s &&& otherBits := by
  rw [delegateSstatus, setField_and (by decide), setField_and (by decide), setField_and (by decide)]

theorem delegateMstatus_view (m : Word) : (delegateMstatus m).getLsbD 1 = m.getLsbD 1 ∧
    (delegateMstatus m).getLsbD 5 = m.getLsbD 1 ∧ (delegateMstatus m).getLsbD 8 = true := by
  have hspp : mstatusSpp &&& ~~~(mstatusSpp <<< 1) = BitVec.twoPow 32 8 := rfl
  have hspie : mstatusSpie &&& ~~~(mstatusSpie <<< 1) = BitVec.twoPow 32 5 := rfl
  simp only [delegateMstatus, getLsbD_setField hspp, getLsbD_setField hspie, getField_mstatusSie]
  cases m.getLsbD 1 <;> exact ⟨rfl, rfl, rfl⟩

theorem delegateMstatus_other (m : Word) : delegateMstatus m &&& otherBits = m &&& otherBits := by
  rw [delegateMstatus, setField_and (by decide), setField_and (by decide)]

/-- A delegated trap keeps the copies equal only from S-mode with both `SIE` bits clear. -/
theorem delegateException_coherent_iff (hP : P.priv = .MSU) (hmode : t.curPri ≤ prvS) :
    Coherent P (delegateException P t) ↔
      (csr P t csrSstatus).getLsbD 1 = false ∧ (csr P t csrMstatus).getLsbD 1 = false ∧
        t.curPri = prvS ∧ csr P t csrSstatus &&& otherBits = csr P t csrMstatus &&& otherBits := by
  have hbit : t.curPri.getLsbD 0 = true ↔ t.curPri = prvS := by
    have hle : t.curPri.toNat ≤ 1 := hmode
    rw [BitVec.getLsbD, Nat.testBit_zero, decide_eq_true_eq, ← BitVec.toNat_inj]
    change t.curPri.toNat % 2 = 1 ↔ t.curPri.toNat = 1
    omega
  obtain ⟨hs, hm⟩ := delegateException_views (t := t) hP
  obtain ⟨hs1, hs5, hs8⟩ := delegateSstatus_view (csr P t csrSstatus) t.curPri
  obtain ⟨hm1, hm5, hm8⟩ := delegateMstatus_view (csr P t csrMstatus)
  rw [Coherent, hs, hm, view_eq_iff, hs1, hs5, hs8, hm1, hm5, hm8, hbit, delegateSstatus_other,
    delegateMstatus_other]
  cases (csr P t csrSstatus).getLsbD 1 <;> cases (csr P t csrMstatus).getLsbD 1 <;> simp

theorem trapMstatus_view (m : Word) {c : Word} (hc : c ≤ prvM) :
    trapMstatus m c &&& viewBits = m &&& viewBits := by
  have hne : ∀ i < 32, viewBits.getLsbD i = true → i ≠ 3 ∧ i ≠ 7 ∧ i ≠ 11 ∧ i ≠ 12 := by decide
  rw [and_eq_iff]
  intro i hi hview
  obtain ⟨h3, h7, h11, h12⟩ := hne i hi hview
  exact trapMstatus_of_ne m hc hi h3 h7 h11 h12

theorem illegalInstruction_coherent_iff (hP : P.priv = .MSU) (hmode : t.curPri ≤ prvM) :
    Coherent P (illegalInstruction P t) ↔ Coherent P t := by
  have hs : csr P (illegalInstruction P t) csrSstatus = csr P t csrSstatus := by
    simp [csr, illegalInstruction_csr, hP]
  have hm : csr P (illegalInstruction P t) csrMstatus =
      trapMstatus (csr P t csrMstatus) t.curPri := by
    simp [csr, illegalInstruction_csr]
  rw [Coherent, Coherent, hs, hm, trapMstatus_view _ hmode]

theorem takeIrq_coherent_iff (hP : P.priv = .MSU) (irq : Word) :
    Coherent P (takeIrq P irq t) ↔ Coherent P t := by
  have hs : csr P (takeIrq P irq t) csrSstatus = csr P t csrSstatus := by
    simp [csr, takeIrq_csr, hP]
  have hm : csr P (takeIrq P irq t) csrMstatus = irqMstatus (csr P t csrMstatus) t.curPri := by
    simp [csr, takeIrq_csr]
  have hmie : ~~~mstatusMie &&& viewBits = viewBits := rfl
  rw [Coherent, Coherent, hs, hm, irqMstatus, setField_and (by decide), BitVec.and_assoc, hmie,
    setField_and (by decide)]

/-! ## Steps and runs -/

def delegatesTrap (P : Platform D) (t : State D) : Prop :=
  t.haveRISCVException ≠ riscvExcpNone ∧ delegated P t

/-- What a step must meet for the views to stay equal: without a delegated trap the body keeps them, and a
delegated trap is taken from S-mode with both `SIE` bits clear, after a body that keeps the other fields. -/
def KeepsViews (P : Platform D) (st : State D) : Event D → Prop
  | .outside .. => True
  | .inst => ∀ g, sampled P st.enter = some g → ¬Stubs P g → ¬Interrupts P g →
      ∀ p t, selectInst P.toConfig g.s.inst = some p → decodeBody P g = some t →
        (¬delegatesTrap P t → p.body.keepsViews P (operands g p) g) ∧
        (delegatesTrap P t → (p.body.csrAfter P (operands g p) g csrSstatus).getLsbD 1 = false ∧
          (p.body.csrAfter P (operands g p) g csrMstatus).getLsbD 1 = false ∧
          p.body.mode P g = prvS ∧ p.body.keepsBits P otherBits (operands g p) g)

theorem sampled_coherent (hg : sampled P st.enter = some g) : Coherent P g ↔ Coherent P st := by
  rw [Coherent, Coherent, csr_sampled hg (by decide), csr_sampled hg (by decide)]

theorem trapTail_coherent_iff (hP : P.priv = .MSU) (hg : Coherent P g) (hmode : g.curPri ≤ prvM)
    {p : Instpat} (hp : selectInst P.toConfig g.s.inst = some p) (h : decodeBody P g = some t) :
    Coherent P (trapTail P t) ↔
      (¬delegatesTrap P t → p.body.keepsViews P (operands g p) g) ∧
      (delegatesTrap P t → (p.body.csrAfter P (operands g p) g csrSstatus).getLsbD 1 = false ∧
        (p.body.csrAfter P (operands g p) g csrMstatus).getLsbD 1 = false ∧
        p.body.mode P g = prvS ∧ p.body.keepsBits P otherBits (operands g p) g) := by
  have hpresent : csrPresent P.priv csrSstatus := by
    rw [hP, csrPresent, slot_sstatus]
    decide
  have hs := decodeBody_csr hp h hpresent (by decide)
  have hm := decodeBody_csr hp h (csrPresent_mstatus _) (by decide)
  have hpri := decodeBody_mode hp h
  have hrecy : ∀ s : State D, Coherent P (recyException s) ↔ Coherent P s := fun _ => Iff.rfl
  have hbody : Coherent P t ↔ p.body.keepsViews P (operands g p) g := by
    rw [← p.body.keepsViews_iff hP hg, Coherent, hs, hm]
  rw [← hs, ← hm, ← hbody, ← p.body.keepsOther_iff hP hg, ← hs, ← hm, ← hpri, trapTail]
  by_cases hr : t.haveRISCVException ≠ riscvExcpNone
  · rw [if_pos hr]
    by_cases hd : delegated P t
    · have hdel : delegatesTrap P t := ⟨hr, hd⟩
      rw [if_pos hd, hrecy, delegateException_coherent_iff hP hd.2.1]
      simp [hdel]
    · have hdel : ¬delegatesTrap P t := fun h => hd h.2
      rw [if_neg hd, hrecy, illegalInstruction_coherent_iff hP (hpri ▸ p.body.mode_le hmode)]
      simp [hdel]
  · have hdel : ¬delegatesTrap P t := fun h => hr h.1
    rw [if_neg hr]
    simp [hdel]

theorem machineStep_coherent_iff (hP : P.priv = .MSU) (e : Event D) (hcoh : Coherent P st)
    (hmode : st.curPri ≤ prvM) (h : MachineStep P st e st') : Coherent P st' ↔ KeepsViews P st e := by
  cases e with
  | outside io nemuState skip =>
    have h : st' = { st with io := io, nemuState := nemuState, skip := skip } := h
    rw [h]
    exact iff_of_true hcoh trivial
  | inst =>
    obtain ⟨g, hg, hcase⟩ := execOnce_cases h
    have hgcoh := (sampled_coherent hg).mpr hcoh
    have hgmode : g.curPri ≤ prvM := by
      obtain ⟨inst, io, skip, late, rfl⟩ := sampled_afterFetch hg
      exact hmode
    simp only [KeepsViews, hg, Option.some.injEq, forall_eq']
    rcases hcase with ⟨hs, rfl⟩ | ⟨hi, rfl⟩ | ⟨hs, hi, t, ht, rfl⟩
    · exact iff_of_true hgcoh fun h => absurd hs h
    · exact iff_of_true ((takeIrq_coherent_iff hP _).mpr hgcoh) fun _ h => absurd hi h
    · obtain ⟨p, hp⟩ := selectInst_exists P.toConfig g.s.inst
      change Coherent P (trapTail P t) ↔ _
      rw [trapTail_coherent_iff hP hgcoh hgmode hp ht]
      constructor
      · intro hk _ _ q u hq hu
        obtain rfl := Option.some.inj (hp.symm.trans hq)
        obtain rfl := Option.some.inj (ht.symm.trans hu)
        exact hk
      · exact fun hk => hk hs hi p t hp ht

theorem reset_coherent (hP : P.priv = .MSU) (h : Reset P st) : Coherent P st := by
  obtain ⟨st₀, -, hcsr, -, rfl⟩ := h
  have hslot : ∀ n, csr P (restart P st₀) n = (restart P st₀).csr (checkCsrIdx P.priv n) :=
    fun _ => rfl
  have hs : csr P (restart P st₀) csrSstatus = 0 := by
    rw [hslot]
    simp [restart, csrInit, hP, hcsr]
  have hm : csr P (restart P st₀) csrMstatus = 0x1800 := by
    rw [hslot]
    simp [restart, csrInit, hP]
  rw [Coherent, hs, hm]
  decide

/-- From reset the supervisor views stay coherent exactly as long as every step keeps them. -/
theorem supervisor_views_iff {tr : List (State D × Event D)} {st₀ : State D} (hP : P.priv = .MSU)
    (hreset : Reset P st₀) (hrun : MachineRun P st₀ tr st) :
    ((∀ q ∈ tr, Coherent P q.1) ∧ Coherent P st) ↔ ∀ q ∈ tr, KeepsViews P q.1 q.2 := by
  refine hrun.stays_iff (I := fun st => Coherent P st ∧ st.curPri ≤ prvM)
    ⟨reset_coherent hP hreset, reset_mode_le hreset⟩ (fun _ hI => hI.1) ?_ ?_
  · exact fun s e s' hI hstep hkeeps =>
      ⟨(machineStep_coherent_iff hP e hI.1 hI.2 hstep).mpr hkeeps, machineStep_mode_le e hI.2 hstep⟩
  · exact fun s e s' hI hstep hno hcoh => hno ((machineStep_coherent_iff hP e hI.1 hI.2 hstep).mp hcoh)

def setSie : State Unit := booted clintBoard [0x10016073]

def setSum : State Unit := booted clintBoard [0x000400b7, 0x1000a073]

/-- `SIE` and `SUM` reach `sstatus` only. -/
theorem supervisor_views_refuted : Reset clintBoard setSie ∧ Reset clintBoard setSum ∧
    (∃ st, execOnce clintBoard setSie = some st ∧ (csr clintBoard st csrSstatus).getLsbD 1 = true ∧
      (csr clintBoard st csrMstatus).getLsbD 1 = false ∧ ¬Coherent clintBoard st) ∧
    ∃ st, runInst clintBoard 2 setSum = some st ∧ (csr clintBoard st csrSstatus).getLsbD 18 = true ∧
      (csr clintBoard st csrMstatus).getLsbD 18 = false ∧ ¬Coherent clintBoard st := by
  have hne : ∀ {st : State Unit} {i : Nat}, i < 32 → viewBits.getLsbD i = true →
      (csr clintBoard st csrSstatus).getLsbD i = true →
      (csr clintBoard st csrMstatus).getLsbD i = false → ¬Coherent clintBoard st := by
    intro st i hi hview hs hm hcoh
    have heq := (and_eq_iff _ _ _).mp hcoh i hi hview
    rw [hs, hm] at heq
    exact absurd heq (by decide)
  refine ⟨booted_reset _ _, booted_reset _ _, ?_, ?_⟩
  · have h : (execOnce clintBoard setSie).map (fun st => ((csr clintBoard st csrSstatus).getLsbD 1,
        (csr clintBoard st csrMstatus).getLsbD 1)) = some (true, false) := by decide +kernel
    obtain ⟨st, hst, hbits⟩ := Option.map_eq_some_iff.mp h
    obtain ⟨hs, hm⟩ := Prod.mk.inj hbits
    exact ⟨st, hst, hs, hm, hne (by decide) rfl hs hm⟩
  · have h : (runInst clintBoard 2 setSum).map (fun st => ((csr clintBoard st csrSstatus).getLsbD 18,
        (csr clintBoard st csrMstatus).getLsbD 18)) = some (true, false) := by decide +kernel
    obtain ⟨st, hst, hbits⟩ := Option.map_eq_some_iff.mp h
    obtain ⟨hs, hm⟩ := Prod.mk.inj hbits
    exact ⟨st, hst, hs, hm, hne (by decide) rfl hs hm⟩

theorem supervisor_views_iff_setSum : ∃ tr st, MachineRun clintBoard setSum tr st ∧ tr.length = 2 ∧
    (((∀ q ∈ tr, Coherent clintBoard q.1) ∧ Coherent clintBoard st) ↔
      ∀ q ∈ tr, KeepsViews clintBoard q.1 q.2) := by
  have h : ((execOnce clintBoard setSum).bind (execOnce clintBoard)).isSome = true := by decide +kernel
  obtain ⟨st₂, hst₂⟩ := Option.isSome_iff_exists.mp h
  obtain ⟨st₁, hst₁, hst₂⟩ := Option.bind_eq_some_iff.mp hst₂
  have hone : MachineStep clintBoard setSum .inst st₁ := hst₁
  have htwo : MachineStep clintBoard st₁ .inst st₂ := hst₂
  exact ⟨_, st₂, (Run.nil.snoc hone).snoc htwo, rfl,
    supervisor_views_iff rfl (booted_reset clintBoard _) ((Run.nil.snoc hone).snoc htwo)⟩

end GsEmu.Riscv32
