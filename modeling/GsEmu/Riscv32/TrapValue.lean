import GsEmu.Riscv32.Record
import GsEmu.Riscv32.Delegation

/-! Two runs that differ in the instruction word only: the word shows in `s->isa.inst` and, after an
illegal instruction, as the trap value. -/

namespace GsEmu.Riscv32

variable {D : Type} {P : Platform D} {w w' : Word} {st t u : State D}

def State.setInst (w : Word) (st : State D) : State D := st.mapRecord fun r => { r with inst := w }

def tvalSlots : List Nat := [7, 35]

/-- The second state is the first one with `w'` for `w`, as the decoded word and where a trap value
holds it. -/
def SameButWord (w w' : Word) (t u : State D) : Prop :=
  t.s.inst = w ∧ ∃ tval csr, u = { t.setInst w' with riscvExceptionTval := tval, csr := csr } ∧
    (tval = t.riscvExceptionTval ∨ t.riscvExceptionTval = w ∧ tval = w') ∧
    ∀ k, csr k = t.csr k ∨ k ∈ tvalSlots ∧ t.csr k = w ∧ csr k = w'

namespace SameButWord

theorem of_setInst (X : State D) : SameButWord w w' (X.setInst w) (X.setInst w') :=
  ⟨rfl, X.riscvExceptionTval, X.csr, rfl, .inl rfl, fun _ => .inl rfl⟩

theorem of_illegal (X : State D) (c : Word) :
    SameButWord w w' ((X.trapPeekException c w).setInst w) ((X.trapPeekException c w').setInst w') :=
  ⟨rfl, w', X.csr, rfl, .inr ⟨rfl, rfl⟩, fun _ => .inl rfl⟩

theorem csr_eq (h : SameButWord w w' t u) {n : Word} (hn : checkCsrIdx P.priv n ∉ tvalSlots) :
    csr P u n = csr P t n := by
  obtain ⟨-, tval, cs, rfl, -, hcs⟩ := h
  exact (hcs _).resolve_right fun h => hn h.1

theorem setCsr (h : SameButWord w w' t u) (n : Word) {v v' : Word} (hv : v' = v) :
    SameButWord w w' (setCsr P n v t) (setCsr P n v' u) := by
  subst hv
  obtain ⟨hw, tval, cs, rfl, htval, hcs⟩ := h
  refine ⟨hw, tval, Function.update cs (checkCsrIdx P.priv n) v', rfl, htval, fun k => ?_⟩
  simp only [setCsr_csr, Function.update_apply]
  split
  · exact .inl rfl
  · exact hcs k

theorem setTval (h : SameButWord w w' t u) {n : Word} (hn : checkCsrIdx P.priv n ∈ tvalSlots) :
    SameButWord w w' (Riscv32.setCsr P n t.riscvExceptionTval t)
      (Riscv32.setCsr P n u.riscvExceptionTval u) := by
  obtain ⟨hw, tval, cs, rfl, htval, hcs⟩ := h
  refine ⟨hw, tval, Function.update cs (checkCsrIdx P.priv n) tval, rfl, htval, fun k => ?_⟩
  simp only [setCsr_csr, Function.update_apply]
  split
  · subst k
    exact htval.imp_right fun h => ⟨hn, h⟩
  · exact hcs k

theorem setCurPri (h : SameButWord w w' t u) (v : Word) :
    SameButWord w w' (t.setCurPri v) (u.setCurPri v) := by
  obtain ⟨hw, tval, cs, rfl, htval, hcs⟩ := h
  exact ⟨hw, tval, cs, rfl, htval, hcs⟩

theorem dnpcAndCheck (h : SameButWord w w' t u) {a a' : Word} (ha : a' = a) :
    SameButWord w w' (dnpcAndCheck a t) (Riscv32.dnpcAndCheck a' u) := by
  subst ha
  obtain ⟨hw, tval, cs, rfl, htval, hcs⟩ := h
  unfold Riscv32.dnpcAndCheck
  split
  · exact ⟨hw, tval, cs, rfl, htval, hcs⟩
  · exact ⟨hw, a', cs, rfl, .inl rfl, hcs⟩

theorem nemuTrap (h : SameButWord w w' t u) : SameButWord w w' (nemuTrap P t) (nemuTrap P u) := by
  obtain ⟨hw, tval, cs, rfl, htval, hcs⟩ := h
  exact ⟨hw, tval, cs, rfl, htval, hcs⟩

theorem recyException (h : SameButWord w w' t u) :
    SameButWord w w' (recyException t) (recyException u) := by
  obtain ⟨hw, tval, cs, rfl, htval, hcs⟩ := h
  exact ⟨hw, 0, cs, rfl, .inl rfl, hcs⟩

theorem fields (h : SameButWord w w' t u) : u.curPri = t.curPri ∧ u.s.pc = t.s.pc ∧
    u.haveRISCVException = t.haveRISCVException ∧ u.gpr = t.gpr := by
  obtain ⟨-, tval, cs, rfl, -, -⟩ := h
  exact ⟨rfl, rfl, rfl, rfl⟩

theorem amw_eq (h : SameButWord w w' t u) : u.amw = t.amw := by
  obtain ⟨-, tval, cs, rfl, -, -⟩ := h
  rfl

theorem ecallExit (h : SameButWord w w' t u) : SameButWord w w' (ecallExit P t) (ecallExit P u) := by
  obtain ⟨-, -, hex, hgpr⟩ := h.fields
  unfold Riscv32.ecallExit
  simp only [hex, hgpr]
  split
  · exact h
  · split
    · exact h.nemuTrap
    · exact h

theorem illegalInstruction (h : SameButWord w w' t u) :
    SameButWord w w' (illegalInstruction P t) (illegalInstruction P u) := by
  have hm : checkCsrIdx P.priv csrMstatus ∉ tvalSlots := by simp [tvalSlots]
  have hv : checkCsrIdx P.priv csrMtvec ∉ tvalSlots := by simp [tvalSlots]
  have ht : checkCsrIdx P.priv csrMtval ∈ tvalSlots := by simp [tvalSlots]
  have h1 := h.setCsr (P := P) csrMstatus (congrArg₂
    (fun m c : Word => (m &&& ~~~mstatusMpp) ||| (c <<< 11)) (h.csr_eq hm) h.fields.1)
  have h2 := h1.setCsr (P := P) csrMcause h1.fields.2.2.1
  have h3 := h2.setCsr (P := P) csrMepc h2.fields.2.1
  have h4 := h3.setTval ht
  have h5 := h4.setCsr (P := P) csrMstatus (congrArg (· &&& ~~~0x80) (h4.csr_eq hm))
  have h6 := h5.setCsr (P := P) csrMstatus
    (congrArg (fun m : Word => ((m &&& 0x8) <<< 4) ||| m) (h5.csr_eq hm))
  have h7 := h6.setCsr (P := P) csrMstatus (congrArg (· &&& ~~~0x8) (h6.csr_eq hm))
  exact (h7.dnpcAndCheck (h7.csr_eq hv)).ecallExit

theorem delegateException (h : SameButWord w w' t u) (hP : P.priv = .MSU) :
    SameButWord w w' (delegateException P t) (delegateException P u) := by
  have hm : checkCsrIdx P.priv csrMstatus ∉ tvalSlots := by simp [tvalSlots]
  have hs : checkCsrIdx P.priv csrSstatus ∉ tvalSlots := by simp [tvalSlots, hP]
  have hv : checkCsrIdx P.priv csrStvec ∉ tvalSlots := by simp [tvalSlots, hP]
  have ht : checkCsrIdx P.priv csrStval ∈ tvalSlots := by simp [tvalSlots, hP]
  have h1 := h.setCsr (P := P) csrScause h.fields.2.2.1
  have h2 := h1.setCsr (P := P) csrSepc h1.fields.2.1
  have h3 := h2.setTval ht
  have h4 := h3.setCsr (P := P) csrSstatus
    (congrArg (fun s => setField s sstatusSpie (getField s sstatusSie)) (h3.csr_eq hs))
  have h5 := h4.setCsr (P := P) csrMstatus
    (congrArg (fun m => setField m mstatusSpie (getField m mstatusSie)) (h4.csr_eq hm))
  have h6 := h5.setCsr (P := P) csrSstatus (congrArg (setField · sstatusSie 0) (h5.csr_eq hs))
  have h7 := h6.dnpcAndCheck (h6.csr_eq hv)
  have h8 := h7.setCsr (P := P) csrSstatus
    (congrArg₂ (setField · sstatusSpp ·) (h7.csr_eq hs) h7.fields.1)
  have h9 := h8.setCurPri prvS
  exact h9.setCsr csrMstatus (congrArg₂ (setField · mstatusSpp ·) (h9.csr_eq hm) h9.fields.1)

theorem resetFixed (h : SameButWord w w' t u) : SameButWord w w' (resetFixed P t) (resetFixed P u) := by
  have hmisa : checkCsrIdx P.priv csrMisa ∉ tvalSlots := by simp [tvalSlots]
  have h1 : SameButWord w w' (t.setR 0 0) (u.setR 0 0) := by
    obtain ⟨hw, tval, cs, rfl, htval, hcs⟩ := h
    exact ⟨hw, tval, cs, rfl, htval, hcs⟩
  exact h1.setCsr csrMisa (congrArg (· &&& ~~~0x4) (h1.csr_eq hmisa))

theorem trapTail (h : SameButWord w w' t u) : SameButWord w w' (trapTail P t) (trapTail P u) := by
  obtain ⟨hpri, -, hex, -⟩ := h.fields
  have hdel : delegated P u ↔ delegated P t := by
    unfold delegated
    rw [hpri, hex]
    refine and_congr_right fun hP => ?_
    rw [h.csr_eq (n := csrMedeleg) (by simp [tvalSlots, hP])]
  unfold Riscv32.trapTail
  simp only [hex, hdel]
  split
  · split
    · exact (h.delegateException (‹delegated P t›).1).recyException
    · exact h.illegalInstruction.recyException
  · exact h

end SameButWord

end GsEmu.Riscv32
