import GsEmu.Riscv32.Encoding
import GsEmu.Riscv32.Privilege
import GsEmu.Riscv32.ReadOnly
import GsEmu.Riscv32.Select

/-! The six CSR instructions on every CSR number. -/

namespace GsEmu.Riscv32
open BitVec

variable {D : Type} {P : Platform D} {st f t : State D} {p : Instpat}

/-! ## The words -/

inductive CsrOp
  | rw
  | rs
  | rc

inductive CsrOperand
  | reg (rs1 : Reg)
  | imm (z : BitVec 5)

def CsrOp.new : CsrOp → Word → Word → Word
  | .rw => fun _ b => b
  | .rs => fun t b => t ||| b
  | .rc => fun t b => t &&& ~~~b

def CsrOp.funct3 : CsrOp → Bool → BitVec 3
  | .rw, false => 1
  | .rs, false => 2
  | .rc, false => 3
  | .rw, true => 5
  | .rs, true => 6
  | .rc, true => 7

def CsrOperand.isImm : CsrOperand → Bool
  | .reg _ => false
  | .imm _ => true

def CsrOperand.field : CsrOperand → BitVec 5
  | .reg rs1 => rs1
  | .imm z => z

def CsrOperand.value (gpr : Reg → Word) : CsrOperand → Word
  | .reg rs1 => gpr rs1
  | .imm z => z.setWidth 32

def CsrOperand.number (n : BitVec 12) : CsrOperand → Word
  | .reg _ => n.setWidth 32
  | .imm _ => n.signExtend 32

def CsrOp.word (op : CsrOp) (n : BitVec 12) (a : CsrOperand) (rd : Reg) : Word :=
  Format.encode (n.setWidth 32) ⟨rd, a.field, 0, op.funct3 a.isImm, 0x73⟩ .I

theorem bits_encodeI (n : BitVec 12) (w : Fields) :
    (bits (Format.encode (n.setWidth 32) w .I) 31 20).setWidth 32 = n.setWidth 32 := by
  apply eq_of_getLsbD_eq
  intro k hk
  rw [getLsbD_setWidth, getLsbD_bits _ (by decide) (by decide)]
  by_cases h12 : k < 12
  · rw [getLsbD_encodeI w h12]
    simp [show k ≤ 31 - 20 by omega]
  · simp [show ¬k ≤ 31 - 20 by omega, show 12 ≤ k by omega]

theorem immI_encodeI (n : BitVec 12) (w : Fields) :
    immI (Format.encode (n.setWidth 32) w .I) = n.signExtend 32 := by
  apply eq_of_getLsbD_eq
  intro k hk
  rw [getLsbD_immI _ hk, getLsbD_signExtend, msb_eq_getLsbD_last]
  split
  · rw [getLsbD_encodeI w ‹_›]
    simp [hk]
  · rw [getLsbD_encodeI w (show 11 < 12 by decide)]
    simp [hk]

theorem rvZicsr_row (op : CsrOp) (imm : Bool) : ∃ p ∈ rvZicsr,
    p.code = ⟨(Format.encode 0 ⟨0, 0, 0, op.funct3 imm, 0x73⟩ .I).setWidth 64,
      (0x707f : Word).setWidth 64, 0⟩ ∧ p.body = .csr op.new ∧
      p.type = if imm then .CsrII else .CsrI := by
  cases imm with
  | false =>
    cases op with
    | rw => exact ⟨_, List.get_mem rvZicsr ⟨0, by decide⟩, rfl, rfl, rfl⟩
    | rc => exact ⟨_, List.get_mem rvZicsr ⟨1, by decide⟩, rfl, rfl, rfl⟩
    | rs => exact ⟨_, List.get_mem rvZicsr ⟨2, by decide⟩, rfl, rfl, rfl⟩
  | true =>
    cases op with
    | rw => exact ⟨_, List.get_mem rvZicsr ⟨3, by decide⟩, rfl, rfl, rfl⟩
    | rc => exact ⟨_, List.get_mem rvZicsr ⟨4, by decide⟩, rfl, rfl, rfl⟩
    | rs => exact ⟨_, List.get_mem rvZicsr ⟨5, by decide⟩, rfl, rfl, rfl⟩

theorem selectInst_csr {c : Config} (hc : c.rvZicsr = true) (op : CsrOp) (n : BitVec 12)
    (a : CsrOperand) (rd : Reg) : ∃ p, selectInst c (op.word n a rd) = some p ∧
      p.body = .csr op.new ∧ ∀ gpr : Reg → Word,
        decodeOperand (op.word n a rd) p.type gpr = ⟨rd, a.value gpr, 0, a.number n⟩ := by
  obtain ⟨p, hmem, hcode, hbody, htype⟩ := rvZicsr_row op a.isImm
  have hlegal : p ∈ legalLines c := by
    unfold legalLines
    rw [if_pos hc]
    exact List.mem_append_left _ (List.mem_append_right _ hmem)
  refine ⟨p, selectInst_of_mem hlegal (hits_of_and hcode (encodeI_and ..)), hbody, fun gpr => ?_⟩
  have hrd : regField (op.word n a rd) 11 7 = rd := rd_encode _ (.inl rfl)
  have hrs1 : regField (op.word n a rd) 19 15 = a.field := rs1_encode _ (.inl rfl)
  have hzero : (bits (op.word n a rd) 31 20).setWidth 32 = n.setWidth 32 := bits_encodeI n _
  have hsign : immI (op.word n a rd) = n.signExtend 32 := immI_encodeI n _
  rw [htype]
  cases a with
  | reg rs1 =>
    simp only [decodeOperand, hrd, hrs1, hzero]
    rfl
  | imm z =>
    simp only [decodeOperand, hrd, hrs1, hsign]
    rfl

/-! ## Which numbers are accepted -/

theorem csrPresent_iff (priv : PrivModes) (n : Word) :
    csrPresent priv n ↔ n = zeroCsr ∨ n ∈ (csrIdxMap priv).take (nrCsr priv) := by
  rw [csrPresent, checkCsrIdx]
  split
  · simp [‹n = zeroCsr›, (nrCsr_lt priv).ne']
  · rw [← List.idxOf_lt_length_iff, csrIdxMap_take_length]
    have hle := List.idxOf_le_length (a := n) (l := (csrIdxMap priv).take (nrCsr priv))
    rw [csrIdxMap_take_length] at hle
    simp only [‹¬n = zeroCsr›, false_or]
    exact ⟨lt_of_le_of_ne hle, ne_of_lt⟩

theorem mem_take_iff (priv : PrivModes) (n : Word) :
    n ∈ (csrIdxMap priv).take (nrCsr priv) ↔
      n ∈ csrIdxMap priv ∧ ¬(n = csrDscratch0 ∧ priv ≠ .MSU) := by
  cases priv with
  | MSU => simp [csrIdxMap, csrIdxMapOther, nrCsr]
  | M | MU =>
    have hnot : csrDscratch0 ∉ (csrIdxMap .M).take (nrCsr .M) := by decide
    have hsplit : csrIdxMap .M = (csrIdxMap .M).take (nrCsr .M) ++ [csrDscratch0] := rfl
    simp only [ne_eq, reduceCtorEq, not_false_eq_true, and_true]
    change n ∈ (csrIdxMap .M).take (nrCsr .M) ↔ n ∈ csrIdxMap .M ∧ ¬n = csrDscratch0
    constructor
    · intro h
      refine ⟨List.mem_of_mem_take h, ?_⟩
      rintro rfl
      exact hnot h
    · rintro ⟨h, hne⟩
      rw [hsplit, List.mem_append, List.mem_singleton] at h
      exact h.resolve_right hne

theorem readOnly_of_top {priv : PrivModes} {n : Word} (h : n ∈ csrIdxMap priv)
    (htop : n.getLsbD 11 = true) : ReadOnly priv n := by
  have hmap : n ∈ (csrIdxMap priv).take (nrCsr priv) := by
    refine (mem_take_iff priv n).mpr ⟨h, ?_⟩
    rintro ⟨rfl, -⟩
    exact absurd htop (by decide)
  have hfilter : ((csrIdxMap priv).take (nrCsr priv)).filter (·.getLsbD 11) = readOnlyCsrs := by
    cases priv <;> rfl
  have hro : n ∈ readOnlyCsrs := by
    rw [← hfilter, List.mem_filter]
    exact ⟨hmap, htop⟩
  have h10 : readOnlyCsrs.all (·.getLsbD 10) = true := rfl
  exact ⟨(csrPresent_iff priv n).mpr (.inr hmap), htop, List.all_eq_true.mp h10 n hro⟩

theorem not_csrPresent_of_negative {priv : PrivModes} {n : Word} (h : n.getLsbD 31 = true) :
    ¬csrPresent priv n := by
  have hall : (zeroCsr :: (csrIdxMap priv).take (nrCsr priv)).all (! ·.getLsbD 31) = true := by
    cases priv <;> rfl
  rw [csrPresent_iff, ← List.mem_cons]
  intro hmem
  have hn := List.all_eq_true.mp hall n hmem
  rw [h] at hn
  exact Bool.false_ne_true hn

theorem number_present_iff (priv : PrivModes) (n : BitVec 12) (a : CsrOperand) :
    csrPresent priv (a.number n) ↔
      csrPresent priv (n.setWidth 32) ∧ ¬(a.isImm = true ∧ n.getLsbD 11 = true) := by
  cases a with
  | reg rs1 => simp [CsrOperand.number, CsrOperand.isImm]
  | imm z =>
    simp only [CsrOperand.number, CsrOperand.isImm, true_and]
    cases htop : n.getLsbD 11 with
    | false =>
      have heq : n.signExtend 32 = n.setWidth 32 := by
        rw [signExtend_eq_setWidth_of_msb_false]
        rwa [msb_eq_getLsbD_last]
      simp [heq]
    | true =>
      have hneg : (n.signExtend 32).getLsbD 31 = true := by
        rw [getLsbD_signExtend, msb_eq_getLsbD_last]
        simpa using htop
      simp [not_csrPresent_of_negative hneg]

theorem number_eq {n : BitVec 12} {a : CsrOperand} (h : ¬(a.isImm = true ∧ n.getLsbD 11 = true)) :
    a.number n = n.setWidth 32 := by
  cases a with
  | reg rs1 => rfl
  | imm z =>
    have htop : n.msb = false := by
      rw [msb_eq_getLsbD_last]
      simpa [CsrOperand.isImm] using h
    exact signExtend_eq_setWidth_of_msb_false htop

/-! ## The law -/

def SameRegister (m n : Word) : Prop :=
  (m, n) ∈ [(csrMstatus, csrSstatus), (csrMie, csrSie), (csrMip, csrSip)] ∨
    (n, m) ∈ [(csrMstatus, csrSstatus), (csrMie, csrSie), (csrMip, csrSip)]

/-- What a write of `new` stores: bit C of `misa` is fixed, and the M-only build keeps `mstatus`. -/
def csrStored (P : Platform D) (f : State D) (n new : Word) : Word :=
  if n = csrMisa then new &&& ~~~0x4
  else if P.priv = .M ∧ n = csrMstatus then csr P f n
  else new

/-- The instruction went through: no exception of its own, the old value in `rd`, the new one in
the CSR, and the rest of the CSR file as it was. -/
structure CsrWritten (P : Platform D) (f t : State D) (rd : Reg) (n new : Word) : Prop where
  exception : t.haveRISCVException = (bodyStart f).haveRISCVException
  rd : t.gpr = Function.update (Function.update f.gpr rd (csr P f n)) 0 0
  stored : csr P t n = csrStored P f n new
  others : ∀ m ∈ csrIdxMap P.priv, m ≠ n → ¬SameRegister m n → csr P t m = csr P f m

structure CsrRefused (P : Platform D) (f t : State D) : Prop where
  exception : t.haveRISCVException = riscvExcpIllegalInst
  others : ∀ m ∈ csrIdxMap P.priv, m ∉ entryCsrs P t → csr P (trapTail P t) m = csr P f m

structure CsrLaw (P : Platform D) (f t : State D) (rd : Reg) (n new : Word) : Prop where
  listed : n ∈ csrIdxMap P.priv → ¬ReadOnly P.priv n → CsrWritten P f t rd n new
  unlisted : n ∉ csrIdxMap P.priv → CsrRefused P f t

/-- The number is not 0x3f, is not the last entry that the bound leaves out, and bit C of `misa`, which
every instruction clears, is clear (unless `misa` itself is written or nothing is asked). -/
structure CsrLawful (P : Platform D) (f : State D) (n : Word) : Prop where
  notZero : n ≠ zeroCsr
  notLast : ¬(n = csrDscratch0 ∧ P.priv ≠ .MSU)
  compressed : n = csrMisa ∨ ReadOnly P.priv n ∨ (csr P f csrMisa).getLsbD 2 = false

section
variable {op : CsrOp} {n : BitVec 12} {a : CsrOperand} {rd : Reg}

theorem misa_cleared_iff (x : Word) : x &&& ~~~0x4 = x ↔ x.getLsbD 2 = false := by
  constructor
  · intro h
    rw [← h]
    simp
  · intro h
    apply eq_of_getLsbD_eq
    intro i hi
    rw [getLsbD_and]
    interval_cases i <;> simp_all

theorem misa_mem (priv : PrivModes) : csrMisa ∈ csrIdxMap priv := by
  cases priv <;> decide

theorem decodeBody_csrWord (hZ : P.rvZicsr = true) (hinst : f.s.inst = op.word n a rd) :
    decodeBody P f = some (resetFixed P
      (execCsr P op.new ⟨rd, a.value f.gpr, 0, a.number n⟩ (bodyStart f))) := by
  obtain ⟨p, hp, hbody, hops⟩ := selectInst_csr hZ op n a rd
  rw [← hinst] at hp hops
  rw [decodeBody_eq hp, hbody, operands, hops]
  rfl

theorem csrWritten_of_present (ht : t = resetFixed P
      (execCsr P op.new ⟨rd, a.value f.gpr, 0, a.number n⟩ (bodyStart f)))
    (hpres : csrPresent P.priv (a.number n))
    (hmisa : a.number n = csrMisa ∨ (csr P f csrMisa).getLsbD 2 = false) :
    CsrWritten P f t rd (a.number n) (op.new (csr P f (a.number n)) (a.value f.gpr)) := by
  have hexec : execCsr P op.new ⟨rd, a.value f.gpr, 0, a.number n⟩ (bodyStart f) =
      (setCsrChecked P (a.number n) (op.new (csr P f (a.number n)) (a.value f.gpr))
        (bodyStart f)).setR rd (csr P f (a.number n)) := by
    rw [execCsr, if_pos hpres, csr_bodyStart]
  rw [hexec] at ht
  have hne : ∀ m, m ≠ a.number n → csr P (setCsrChecked P (a.number n)
      (op.new (csr P f (a.number n)) (a.value f.gpr)) (bodyStart f)) m = csr P f m := by
    intro m hm
    unfold setCsrChecked
    split
    · exact csr_bodyStart f m
    · rw [csr_setCsr_of_ne hpres hm, csr_bodyStart]
  refine ⟨?_, ?_, ?_, fun m _ hm _ => ?_⟩
  · rw [ht]
    exact setCsrChecked_have ..
  · rw [ht, resetFixed_gpr, State.setR_gpr, setCsrChecked_gpr, dnpcAndCheck_gpr]
  · rw [ht, csrStored]
    by_cases hm : a.number n = csrMisa
    · have hM : ¬(P.priv = .M ∧ csrMisa = csrMstatus) := fun h => absurd h.2 (by decide)
      rw [if_pos hm, hm, csr_resetFixed_misa, csr_setR, csr_setCsrChecked_self, if_neg hM]
    · rw [if_neg hm, csr_resetFixed_of_ne _ _ hm, csr_setR, csr_setCsrChecked_self, csr_bodyStart]
  · by_cases hmm : m = csrMisa
    · have hclear : csr P f csrMisa &&& ~~~0x4 = csr P f csrMisa :=
        (misa_cleared_iff _).mpr (hmisa.resolve_left fun h => hm (hmm.trans h.symm))
      rw [ht, hmm, csr_resetFixed_misa, csr_setR, hne _ (hmm ▸ hm), hclear]
    · rw [ht, csr_resetFixed_of_ne _ _ hmm, csr_setR, hne m hm]

theorem csrRefused_of_absent (ht : t = resetFixed P
      (execCsr P op.new ⟨rd, a.value f.gpr, 0, a.number n⟩ (bodyStart f)))
    (habs : ¬csrPresent P.priv (a.number n)) :
    t.haveRISCVException = riscvExcpIllegalInst ∧
      ((csr P f csrMisa).getLsbD 2 = false → CsrRefused P f t) := by
  have hexec : execCsr P op.new ⟨rd, a.value f.gpr, 0, a.number n⟩ (bodyStart f) =
      (bodyStart f).trapPeekException riscvExcpIllegalInst (bodyStart f).s.inst := by
    rw [execCsr, if_neg habs]
  rw [hexec] at ht
  have hex : t.haveRISCVException = riscvExcpIllegalInst := by
    rw [ht]
    rfl
  refine ⟨hex, fun hmisa => ⟨hex, fun m _ hentry => ?_⟩⟩
  rw [csr_trapTail hentry, ht]
  by_cases hmm : m = csrMisa
  · rw [hmm, csr_resetFixed_misa, csr_trapPeekException, csr_bodyStart]
    exact (misa_cleared_iff _).mpr hmisa
  · rw [csr_resetFixed_of_ne _ _ hmm, csr_trapPeekException, csr_bodyStart]

theorem accepted_iff (priv : PrivModes) (n : BitVec 12) (a : CsrOperand) :
    csrPresent priv (a.number n) ↔ n.setWidth 32 = zeroCsr ∨
      n.setWidth 32 ∈ csrIdxMap priv ∧ ¬(n.setWidth 32 = csrDscratch0 ∧ priv ≠ .MSU) ∧
        ¬(a.isImm = true ∧ n.getLsbD 11 = true) := by
  rw [number_present_iff, csrPresent_iff, mem_take_iff]
  have hzero : n.setWidth 32 = zeroCsr → n.getLsbD 11 = false := by
    intro h
    have hbit := congrArg (getLsbD · 11) h
    simpa [zeroCsr] using hbit
  constructor
  · rintro ⟨hz | h, htop⟩
    · exact .inl hz
    · exact .inr ⟨h.1, h.2, htop⟩
  · rintro (hz | ⟨hmem, hlast, htop⟩)
    · exact ⟨.inl hz, fun h => by rw [hzero hz] at h; exact Bool.false_ne_true h.2⟩
    · exact ⟨.inr ⟨hmem, hlast⟩, htop⟩

theorem mem_of_present {priv : PrivModes} {m : Word} (h : csrPresent priv m) (hz : m ≠ zeroCsr) :
    m ∈ csrIdxMap priv :=
  List.mem_of_mem_take (((csrPresent_iff priv m).mp h).resolve_left hz)

theorem readOnly_ne_zero {priv : PrivModes} {m : Word} (h : ReadOnly priv m) : m ≠ zeroCsr := by
  rintro rfl
  exact absurd h.2.1 (by decide)

section
variable (ht : t = resetFixed P
    (execCsr P op.new ⟨rd, a.value f.gpr, 0, a.number n⟩ (bodyStart f)))
include ht

theorem csrLaw_of_lawful (h : CsrLawful P f (n.setWidth 32)) :
    CsrLaw P f t rd (n.setWidth 32) (op.new (csr P f (n.setWidth 32)) (a.value f.gpr)) where
  listed := by
    intro hmem hro
    have htop : ¬(a.isImm = true ∧ n.getLsbD 11 = true) := fun htop =>
      hro (readOnly_of_top hmem (by simpa using htop.2))
    have hpres := (accepted_iff P.priv n a).mpr (.inr ⟨hmem, h.notLast, htop⟩)
    have hmisa : a.number n = csrMisa ∨ (csr P f csrMisa).getLsbD 2 = false := by
      rw [number_eq htop]
      exact h.compressed.imp_right fun hc => hc.resolve_left hro
    have hwritten := csrWritten_of_present ht hpres hmisa
    rwa [number_eq htop] at hwritten
  unlisted := by
    intro hmem
    have habs : ¬csrPresent P.priv (a.number n) := by
      rw [accepted_iff]
      exact not_or.mpr ⟨h.notZero, fun hp => hmem hp.1⟩
    refine (csrRefused_of_absent ht habs).2 ?_
    rcases h.compressed with hm | hro | hclear
    · exact absurd (hm ▸ misa_mem P.priv) hmem
    · exact absurd (mem_of_present hro.1 (readOnly_ne_zero hro)) hmem
    · exact hclear

theorem lawful_of_csrLaw (hclear : f.haveRISCVException ≠ riscvExcpIllegalInst)
    (h : CsrLaw P f t rd (n.setWidth 32) (op.new (csr P f (n.setWidth 32)) (a.value f.gpr))) :
    CsrLawful P f (n.setWidth 32) where
  notZero := by
    intro hz
    have hmem : n.setWidth 32 ∉ csrIdxMap P.priv := by
      rw [hz]
      cases P.priv <;> decide
    have hpres := (accepted_iff P.priv n a).mpr (.inl hz)
    have hex := (h.unlisted hmem).exception
    have hkept : t.haveRISCVException = (bodyStart f).haveRISCVException := by
      rw [ht, execCsr, if_pos hpres]
      exact setCsrChecked_have ..
    rw [hkept, dnpcAndCheck_haveRISCVException] at hex
    split at hex
    · exact hclear hex
    · exact absurd hex (by decide)
  notLast := by
    rintro ⟨hlast, hpriv⟩
    have hmem : n.setWidth 32 ∈ csrIdxMap P.priv := by
      rw [hlast]
      cases P.priv <;> decide
    have hro : ¬ReadOnly P.priv (n.setWidth 32) := by
      rw [hlast]
      exact fun h => absurd h.2.1 (by decide)
    have habs : ¬csrPresent P.priv (a.number n) := by
      rw [accepted_iff]
      refine not_or.mpr ⟨?_, fun hp => hp.2.1 ⟨hlast, hpriv⟩⟩
      rw [hlast]
      decide
    have hkept := (h.listed hmem hro).exception
    rw [(csrRefused_of_absent ht habs).1, dnpcAndCheck_haveRISCVException] at hkept
    split at hkept
    · exact hclear hkept.symm
    · exact absurd hkept (by decide)
  compressed := by
    by_cases hm : n.setWidth 32 = csrMisa
    · exact .inl hm
    by_cases hro : ReadOnly P.priv (n.setWidth 32)
    · exact .inr (.inl hro)
    have hcleared : ∀ u : State D, (csr P (resetFixed P u) csrMisa).getLsbD 2 = false := by
      intro u
      rw [csr_resetFixed_misa]
      simp
    refine .inr (.inr ?_)
    by_cases hmem : n.setWidth 32 ∈ csrIdxMap P.priv
    · have hview : ¬SameRegister csrMisa (n.setWidth 32) := by
        simp [SameRegister, csrMisa, csrMstatus, csrSstatus, csrMie, csrSie, csrMip, csrSip]
      rw [← (h.listed hmem hro).others csrMisa (misa_mem _) (Ne.symm hm) hview, ht]
      exact hcleared _
    · rw [← (h.unlisted hmem).others csrMisa (misa_mem _) misa_notMem_entryCsrs,
        csr_trapTail misa_notMem_entryCsrs, ht]
      exact hcleared _

end

/-- Before decoding, a step changes nothing of registers and CSRs but `mip.MTIP`. -/
structure TimerOnly (P : Platform D) (st f : State D) : Prop where
  gpr : f.gpr = st.gpr
  csrs : ∀ m, m ≠ csrMip → csr P f m = csr P st m
  mip : ∀ j ≠ 7, (csr P f csrMip).getLsbD j = (csr P st csrMip).getLsbD j

theorem timerOnly_fetched (hf : fetchAndCheck P st.enter = some (false, f)) : TimerOnly P st f := by
  obtain ⟨inst, io, skip, late, rfl⟩ := fetchAndCheck_not_taken hf
  refine ⟨rfl, fun m hm => ?_, fun j hj => ?_⟩
  · refine csr_afterFetch P st.enter inst io skip late fun h3 => hm ?_
    rw [← slot_mip P.priv] at h3
    exact (checkCsrIdx_inj (csrPresent_mip _)).mp h3
  · have hmtip : mipMtip &&& ~~~(mipMtip <<< 1) = BitVec.twoPow 32 7 := rfl
    have hbit : mipMtip.getLsbD j = false := by
      have htwo : mipMtip = BitVec.twoPow 32 7 := rfl
      rw [htwo, getLsbD_twoPow]
      simp [Ne.symm hj]
    rw [csr, slot_mip, afterFetch_csr, Function.update_self, getLsbD_setField hmtip, hbit,
      if_neg Bool.false_ne_true, csr, slot_mip]
    rfl

/-- In every mode and build, a CSR instruction that is not preempted by an interrupt obeys the law in
every lawful state, and in no other unless an illegal instruction was pending already. -/
theorem csrFile_iff (hZ : P.rvZicsr = true) (hf : fetchAndCheck P st.enter = some (false, f))
    (hinst : f.s.inst = op.word n a rd) :
    TimerOnly P st f ∧ ∃ t, decodeBody P f = some t ∧ isaExecOnce P st.enter = some (trapTail P t) ∧
      (CsrLawful P st (n.setWidth 32) →
        CsrLaw P f t rd (n.setWidth 32) (op.new (csr P f (n.setWidth 32)) (a.value f.gpr))) ∧
      (st.haveRISCVException ≠ riscvExcpIllegalInst →
        (CsrLaw P f t rd (n.setWidth 32) (op.new (csr P f (n.setWidth 32)) (a.value f.gpr)) ↔
          CsrLawful P st (n.setWidth 32))) := by
  have htimer := timerOnly_fetched hf
  have hlawful : CsrLawful P st (n.setWidth 32) ↔ CsrLawful P f (n.setWidth 32) := by
    have hmisa := htimer.csrs csrMisa (by decide)
    constructor
    · rintro ⟨h1, h2, h3⟩
      exact ⟨h1, h2, by rwa [hmisa]⟩
    · rintro ⟨h1, h2, h3⟩
      exact ⟨h1, h2, by rwa [← hmisa]⟩
  have hhave : f.haveRISCVException = st.haveRISCVException := by
    obtain ⟨inst, io, skip, late, rfl⟩ := fetchAndCheck_not_taken hf
    rfl
  have hrun := decodeBody_csrWord hZ hinst
  refine ⟨htimer, _, hrun, isaExecOnce_executed hf hrun, fun h => ?_, fun hclear => ?_⟩
  · exact csrLaw_of_lawful rfl (hlawful.mp h)
  · rw [hlawful]
    rw [← hhave] at hclear
    exact ⟨lawful_of_csrLaw rfl hclear, csrLaw_of_lawful rfl⟩

end

/-! ## The two numbers -/

def zeroCsrWrite : State Unit := booted clintBoard [0x03f110f3]

def machineBoard : Platform Unit := { Config.default with priv := .M, maps := [clintMap] }

def dscratchWrite : State Unit := booted machineBoard [0x7b2110f3]

theorem csrFile_refuted :
    (∃ f p t, Executes clintBoard zeroCsrWrite f p t ∧
      f.s.inst = CsrOp.rw.word 0x3f (.reg 2) 1 ∧ (0x3f : Word) ∉ csrIdxMap clintBoard.priv ∧
      t.haveRISCVException = riscvExcpNone ∧ ¬CsrLaw clintBoard f t 1 0x3f (f.gpr 2)) ∧
    ∃ f p t, Executes machineBoard dscratchWrite f p t ∧
      f.s.inst = CsrOp.rw.word 0x7b2 (.reg 2) 1 ∧ csrDscratch0 ∈ csrIdxMap machineBoard.priv ∧
      t.haveRISCVException = riscvExcpIllegalInst ∧
      ¬CsrLaw machineBoard f t 1 csrDscratch0 (f.gpr 2) := by
  have hzero : (findExecutes clintBoard zeroCsrWrite).map
      (fun x => (x.1.s.inst, x.2.2.haveRISCVException)) = some (0x03f110f3, riscvExcpNone) := by
    decide +kernel
  have hlast : (findExecutes machineBoard dscratchWrite).map
      (fun x => (x.1.s.inst, x.1.haveRISCVException, x.1.s.snpc, x.2.2.haveRISCVException)) =
        some (0x7b2110f3, riscvExcpNone, 0x80000004, riscvExcpIllegalInst) := by
    decide +kernel
  obtain ⟨⟨f, p, t⟩, hf, hfacts⟩ := Option.map_eq_some_iff.mp hzero
  obtain ⟨⟨g, q, u⟩, hg, gfacts⟩ := Option.map_eq_some_iff.mp hlast
  simp only [Prod.mk.injEq] at hfacts gfacts
  obtain ⟨hinst, hnone⟩ := hfacts
  obtain ⟨ginst, gclear, gsnpc, gillegal⟩ := gfacts
  refine ⟨⟨f, p, t, findExecutes_sound hf, hinst.trans (by decide), by decide, hnone, fun hlaw => ?_⟩,
    ⟨g, q, u, findExecutes_sound hg, ginst.trans (by decide), by decide, gillegal, fun hlaw => ?_⟩⟩
  · have hraised := (hlaw.unlisted (by decide)).exception
    rw [hnone] at hraised
    exact absurd hraised (by decide)
  · have hro : ¬ReadOnly machineBoard.priv csrDscratch0 := fun h => absurd h.2.1 (by decide)
    have hkept := (hlaw.listed (by decide) hro).exception
    rw [gillegal, dnpcAndCheck_haveRISCVException, gsnpc, gclear] at hkept
    exact absurd hkept (by decide)

def mscratchWrite : State Unit := booted clintBoard [0x340110f3]

theorem csrFile_iff_mscratch : ∃ f t, fetchAndCheck clintBoard mscratchWrite.enter = some (false, f) ∧
    isaExecOnce clintBoard mscratchWrite.enter = some (trapTail clintBoard t) ∧
    CsrLaw clintBoard f t 1 csrMscratch (f.gpr 2) := by
  have hrun : (findExecutes clintBoard mscratchWrite).map (fun x => x.1.s.inst) = some 0x340110f3 := by
    decide +kernel
  obtain ⟨⟨f, p, t⟩, hf, hinst⟩ := Option.map_eq_some_iff.mp hrun
  have hword : f.s.inst = CsrOp.rw.word 0x340 (.reg 2) 1 := hinst.trans (by decide)
  obtain ⟨-, u, -, hstep, hlaw, -⟩ := csrFile_iff rfl (findExecutes_sound hf).fetched hword
  exact ⟨f, u, (findExecutes_sound hf).fetched, hstep,
    hlaw ⟨by decide, by decide, .inr (.inr (by decide))⟩⟩

end GsEmu.Riscv32
