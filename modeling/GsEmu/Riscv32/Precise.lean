import GsEmu.Riscv32.Reservation

/-! What an instruction that traps leaves behind: when its register, memory and CSR writes are none
or change nothing. -/

namespace GsEmu.Riscv32

variable {D : Type} {P : Platform D} {st st' f t : State D} {o : Operands} {p : Instpat}

/-! ## The writes of a body -/

def Body.rdValue (P : Platform D) (o : Operands) (st : State D) : Body → Option Word
  | .write f => some (f st.s.pc o)
  | .jal => if instAligned (jalTarget o st) then some (st.s.pc + 4) else none
  | .jalr => some (if instAligned (jalrTarget o) then st.s.pc + 4 else 0)
  | .load len ext => (mr P (o.src1 + o.imm) len st).map fun x => ext x.1
  | .slli => if o.imm &&& 0x20 ≠ 0 then none else some (o.src1 <<< (bits o.imm 6 0).toNat)
  | .lrW | .amo _ => (mr P o.src1 4 st).map (·.1)
  | .scW => some (if scReserved st o.src1 then 0 else 1)
  | .csr _ => if csrPresent P.priv o.imm then some (Riscv32.csr P st o.imm) else none
  | _ => none

def Body.storeKept (P : Platform D) (o : Operands) (st : State D) : Body → Prop
  | .store len => inPmem (o.src1 + o.imm) = true → memAccess P (o.src1 + o.imm) len →
      hostWrite st.pmem (guestToHost (o.src1 + o.imm)) len o.src2 = some st.pmem
  | .scW => scReserved st o.src1 → inPmem o.src1 = true → memAccess P o.src1 4 →
      hostWrite st.pmem (guestToHost o.src1) 4 o.src2 = some st.pmem
  | .amo op => inPmem o.src1 = true → memAccess P o.src1 4 →
      ∀ v, hostRead st.pmem (guestToHost o.src1) 4 = some v →
        hostWrite st.pmem (guestToHost o.src1) 4 (op v o.src2) = some st.pmem
  | _ => True

theorem mr_gpr {a : Word} {len : Nat} {v : Word} (h : mr P a len st = some (v, st')) :
    st'.gpr = st.gpr ∧ st'.pmem = st.pmem := by
  rcases mr_bus_cases h with ⟨-, -, io, skip, rfl⟩ | ⟨-, -, rfl⟩
  · exact ⟨rfl, rfl⟩
  · exact ⟨rfl, rfl⟩

theorem mw_gpr {a : Word} {len : Nat} {v : Word} (h : mw P a len v st = some st') :
    st'.gpr = st.gpr := by
  rcases mw_cases h with ⟨-, h⟩ | ⟨-, rfl⟩
  · obtain ⟨pmem, io, skip, rfl, -⟩ := paddrWrite_bus h
    rfl
  · rfl

theorem setCsrChecked_gpr (n v : Word) : (setCsrChecked P n v st).gpr = st.gpr := by
  unfold setCsrChecked
  split <;> rfl

theorem execBody_gpr {b : Body} (h : execBody P b o st = some st') :
    st'.gpr = match b.rdValue P o st with
      | some v => Function.update st.gpr o.rd v
      | none => st.gpr := by
  cases b with
  | write f =>
    obtain rfl := Option.some.inj h
    rfl
  | jal =>
    obtain rfl := Option.some.inj h
    unfold execJal
    by_cases ht : instAligned (jalTarget o st) <;> simp [Body.rdValue, ht]
  | jalr =>
    obtain rfl := Option.some.inj h
    unfold execJalr
    by_cases ht : instAligned (jalrTarget o) <;> simp [Body.rdValue, ht]
  | branch cond =>
    obtain rfl := Option.some.inj h
    unfold execBranch
    split <;> simp [Body.rdValue]
  | load len ext =>
    obtain ⟨⟨v, u⟩, hr, h⟩ := Option.bind_eq_some_iff.mp (show (mr P _ len st).bind _ = _ from h)
    obtain rfl := Option.some.inj h
    simp only [Body.rdValue, hr, Option.map_some, State.setR_gpr, (mr_gpr hr).1]
  | store len => exact mw_gpr h
  | slli =>
    obtain rfl := Option.some.inj h
    unfold execSlli
    by_cases hi : o.imm &&& 0x20 ≠ 0
    · rw [if_pos hi]
      simp only [Body.rdValue, if_pos hi, State.trapPeekException_gpr]
    · rw [if_neg hi]
      simp only [Body.rdValue, if_neg hi, State.setR_gpr]
  | ecall =>
    obtain rfl := Option.some.inj h
    unfold execEcall
    dsimp only
    split <;> rfl
  | lrW =>
    obtain ⟨⟨v, u⟩, hr, h⟩ := Option.bind_eq_some_iff.mp (show (mr P _ 4 st).bind _ = _ from h)
    obtain rfl := Option.some.inj h
    simp only [Body.rdValue, hr, Option.map_some, State.setAmw_gpr, State.setR_gpr, (mr_gpr hr).1]
  | scW =>
    rcases execSc_cases h with ⟨hr, _, _, _, _, _, rfl⟩ | ⟨hr, _, rfl⟩ | ⟨hr, rfl⟩ <;>
      simp [Body.rdValue, hr]
  | amo op =>
    obtain ⟨⟨v, u⟩, hr, h⟩ := Option.bind_eq_some_iff.mp (show (mr P _ 4 st).bind _ = _ from h)
    obtain ⟨w, hw, h⟩ := Option.bind_eq_some_iff.mp (show (mw P _ 4 _ u).bind _ = _ from h)
    obtain rfl := Option.some.inj h
    simp only [Body.rdValue, hr, Option.map_some, State.setR_gpr, mw_gpr hw, (mr_gpr hr).1]
  | csr op =>
    obtain rfl := Option.some.inj h
    unfold execCsr
    by_cases hp : csrPresent P.priv o.imm <;> simp [Body.rdValue, hp, setCsrChecked_gpr]
  | wfi => rcases execWfi_cases h with ⟨_, _, rfl⟩ | rfl <;> rfl
  | sret =>
    obtain rfl := Option.some.inj h
    simp [execSret, Body.rdValue, setCsrChecked_gpr]
  | mret =>
    obtain rfl := Option.some.inj h
    simp [execMret, Body.rdValue, setCsrChecked_gpr]
  | ebreak | nop | inv =>
    obtain rfl := Option.some.inj h
    rfl

theorem mw_pmem_iff {a : Word} {len : Nat} {v : Word} (h : mw P a len v st = some st') :
    st'.pmem = st.pmem ↔ (inPmem a = true → memAccess P a len →
      hostWrite st.pmem (guestToHost a) len v = some st.pmem) := by
  rcases mw_cases h with ⟨hm, h⟩ | ⟨hm, rfl⟩
  · cases hp : inPmem a with
    | true =>
      rw [vaddrWrite, paddrWrite_pmem hp] at h
      obtain ⟨pmem, hw, rfl⟩ := Option.map_eq_some_iff.mp h
      rw [hw]
      exact ⟨fun hkeep _ _ => congrArg some hkeep, fun hkeep => Option.some.inj (hkeep rfl hm)⟩
    | false =>
      obtain ⟨pmem, io, skip, rfl, hpm⟩ := paddrWrite_bus h
      exact iff_of_true (hpm hp) (by simp)
  · exact iff_of_true rfl fun _ hm' => absurd hm' hm

theorem mr_pmem {a : Word} {v : Word} (hp : inPmem a = true) (hm : memAccess P a 4)
    (h : mr P a 4 st = some (v, st')) : hostRead st.pmem (guestToHost a) 4 = some v ∧ st' = st := by
  rcases mr_cases h with ⟨-, h⟩ | ⟨hno, -⟩
  · rw [vaddrRead, paddrRead_pmem hp] at h
    obtain ⟨w, hw, heq⟩ := Option.map_eq_some_iff.mp h
    obtain ⟨rfl, rfl⟩ := Prod.mk.inj heq
    exact ⟨hw, rfl⟩
  · exact absurd hm hno

theorem execBody_pmem_iff {b : Body} (h : execBody P b o st = some st') :
    st'.pmem = st.pmem ↔ b.storeKept P o st := by
  cases b with
  | store len => exact mw_pmem_iff h
  | scW =>
    by_cases hr : scReserved st o.src1
    · obtain ⟨w, hs⟩ := hr
      have hkept : Body.storeKept P o st .scW ↔ (inPmem o.src1 = true → memAccess P o.src1 4 →
          hostWrite st.pmem (guestToHost o.src1) 4 o.src2 = some st.pmem) :=
        forall_prop_of_true ⟨w, hs⟩
      rw [hkept]
      simp only [execBody, execSc, hs] at h
      obtain ⟨u, hw, h⟩ := Option.bind_eq_some_iff.mp h
      obtain rfl := Option.some.inj h
      change u.pmem = st.pmem ↔ _
      exact mw_pmem_iff hw
    · rcases execSc_cases h with ⟨hr', -⟩ | ⟨hr', -⟩ | ⟨-, rfl⟩
      · exact absurd hr' hr
      · exact absurd hr' hr
      · exact iff_of_true rfl fun hr' => absurd hr' hr
  | amo op =>
    obtain ⟨⟨v, u⟩, hr, h⟩ := Option.bind_eq_some_iff.mp (show (mr P _ 4 st).bind _ = _ from h)
    obtain ⟨w, hw, h⟩ := Option.bind_eq_some_iff.mp (show (mw P _ 4 _ u).bind _ = _ from h)
    obtain rfl := Option.some.inj h
    change w.pmem = st.pmem ↔ _
    rw [← (mr_gpr hr).2, mw_pmem_iff hw]
    simp only [Body.storeKept]
    refine forall_congr' fun hp => forall_congr' fun hm => ?_
    obtain ⟨hread, rfl⟩ := mr_pmem hp hm hr
    simp [hread]
  | load len ext =>
    obtain ⟨⟨v, u⟩, hr, h⟩ := Option.bind_eq_some_iff.mp (show (mr P _ len st).bind _ = _ from h)
    obtain rfl := Option.some.inj h
    exact iff_of_true (mr_gpr hr).2 trivial
  | lrW =>
    obtain ⟨⟨v, u⟩, hr, h⟩ := Option.bind_eq_some_iff.mp (show (mr P _ 4 st).bind _ = _ from h)
    obtain rfl := Option.some.inj h
    exact iff_of_true (mr_gpr hr).2 trivial
  | wfi => rcases execWfi_cases h with ⟨_, _, rfl⟩ | rfl <;> exact iff_of_true rfl trivial
  | _ => exact iff_of_true (execBody_offBus rfl h).pmem trivial

/-- The CSR writes of a body, outside `entry` and `misa`, change nothing. -/
def Body.csrsKept (P : Platform D) (o : Operands) (st : State D) (entry : List Word) : Body → Prop
  | .ebreak => csrMepc ∉ entry → Riscv32.csr P st csrMepc = st.s.pc
  | .csr op => csrPresent P.priv o.imm → o.imm ∉ entry → o.imm ≠ csrMisa →
      op (Riscv32.csr P st o.imm) o.src1 = Riscv32.csr P st o.imm
  | .sret => csrPresent P.priv csrSstatus → csrSstatus ∉ entry →
      sretSstatus (Riscv32.csr P st csrSstatus) = Riscv32.csr P st csrSstatus
  | _ => True

def Body.misa (P : Platform D) (o : Operands) (st : State D) : Body → Word
  | .csr op =>
    if o.imm = csrMisa then op (Riscv32.csr P st csrMisa) o.src1 else Riscv32.csr P st csrMisa
  | _ => Riscv32.csr P st csrMisa

theorem Body.misa_eq (b : Body) : b.csrAfter P o st csrMisa = b.misa P o st := by
  have hM : ¬(P.priv = .M ∧ csrMisa = csrMstatus) := fun h => absurd h.2 (by decide)
  cases b with
  | ebreak =>
    have hmepc : csrMisa ≠ csrMepc := by decide
    simp only [Body.csrAfter, Body.misa, hmepc, if_false]
  | csr op =>
    simp only [Body.csrAfter, Body.misa]
    by_cases hi : o.imm = csrMisa
    · rw [if_pos ⟨hi.symm, hM⟩, if_pos hi]
    · have hno : ¬(csrMisa = o.imm ∧ ¬(P.priv = .M ∧ csrMisa = csrMstatus)) := fun h => hi h.1.symm
      rw [if_neg hno, if_neg hi]
  | sret =>
    have hm : csrMisa ≠ csrMstatus := by decide
    have hs : csrMisa ≠ csrSstatus := by decide
    simp only [Body.csrAfter, Body.misa, hm, hs, false_and, if_false]
  | mret =>
    have hm : csrMisa ≠ csrMstatus := by decide
    simp only [Body.csrAfter, Body.misa, hm, if_false]
  | _ => rfl

theorem Body.csrsKept_iff (b : Body) {entry : List Word} (hentry : csrMstatus ∈ entry) :
    b.csrsKept P o st entry ↔ ∀ n, csrPresent P.priv n → n ∉ entry → n ≠ csrMisa →
      b.csrAfter P o st n = Riscv32.csr P st n := by
  have hne : ∀ n, n ∉ entry → n ≠ csrMstatus := fun n hn h => hn (h ▸ hentry)
  cases b with
  | ebreak =>
    simp only [Body.csrsKept, Body.csrAfter]
    constructor
    · intro h n _ hn _
      split
      · rename_i heq
        rw [heq] at hn ⊢
        exact (h hn).symm
      · rfl
    · intro h hn
      have hpres : csrPresent P.priv csrMepc := by
        rw [csrPresent, slot_mepc]
        cases P.priv <;> decide
      simpa using (h csrMepc hpres hn (by decide)).symm
  | csr op =>
    simp only [Body.csrsKept, Body.csrAfter]
    constructor
    · intro h n hp hn hmisa
      split
      · rename_i heq
        rw [heq.1] at hp hn hmisa ⊢
        exact h hp hn hmisa
      · rfl
    · intro h hp hn hmisa
      have hcond : o.imm = o.imm ∧ ¬(P.priv = .M ∧ o.imm = csrMstatus) :=
        ⟨rfl, fun hM => hne _ hn hM.2⟩
      have hkept := h o.imm hp hn hmisa
      rwa [if_pos hcond] at hkept
  | sret =>
    simp only [Body.csrsKept, Body.csrAfter]
    constructor
    · intro h n hp hn _
      rw [if_neg fun hm => hne n hn hm.1]
      split
      · rename_i heq
        rw [heq] at hp hn ⊢
        exact h hp hn
      · rfl
    · intro h hp hn
      have hm : ¬(csrSstatus = csrMstatus ∧ P.priv ≠ .M) := fun hm => hne _ hn hm.1
      simpa only [if_neg hm, if_true] using h csrSstatus hp hn (by decide)
  | mret =>
    simp only [Body.csrsKept, Body.csrAfter, true_iff]
    intro n _ hn _
    exact if_neg (hne n hn)
  | _ => simp only [Body.csrsKept, Body.csrAfter, implies_true]

/-! ## The trap entry -/

def entryCsrs (P : Platform D) (t : State D) : List Word :=
  if delegated P t then [csrScause, csrSepc, csrStval, csrSstatus, csrMstatus]
  else [csrMcause, csrMepc, csrMtval, csrMstatus]

@[simp] theorem ecallExit_gpr (st : State D) : (ecallExit P st).gpr = st.gpr := by
  unfold ecallExit
  split
  · rfl
  · split <;> rfl

@[simp] theorem ecallExit_pmem (st : State D) : (ecallExit P st).pmem = st.pmem := by
  unfold ecallExit
  split
  · rfl
  · split <;> rfl

theorem trapTail_gpr : (trapTail P t).gpr = t.gpr := by
  unfold trapTail
  split
  · split <;> simp [recyException, delegateException, illegalInstruction]
  · rfl

theorem trapTail_pmem : (trapTail P t).pmem = t.pmem := by
  unfold trapTail
  split
  · split <;> simp [recyException, delegateException, illegalInstruction]
  · rfl

@[simp] theorem csr_recyException (n : Word) : csr P (recyException st) n = csr P st n := rfl

@[simp] theorem csr_ecallExit (n : Word) : csr P (ecallExit P st) n = csr P st n := by
  rw [csr, ecallExit_csr, csr]

theorem csr_setCsr_of_ne {n m v : Word} (hm : csrPresent P.priv m) (hne : n ≠ m) :
    csr P (setCsr P m v st) n = csr P st n := by
  rw [csr_setCsr, if_neg fun h => hne ((checkCsrIdx_inj hm).mp h)]

theorem entryCsrs_present {n : Word} (h : n ∈ entryCsrs P t) : csrPresent P.priv n := by
  unfold entryCsrs at h
  split at h
  · rw [(‹delegated P t›).1]
    simp only [List.mem_cons, List.not_mem_nil, or_false] at h
    rcases h with rfl | rfl | rfl | rfl | rfl <;> simp [csrPresent, nrCsr]
  · simp only [List.mem_cons, List.not_mem_nil, or_false] at h
    rcases h with rfl | rfl | rfl | rfl <;> cases P.priv <;> simp [csrPresent, nrCsr]

theorem csr_trapTail {n : Word} (hentry : n ∉ entryCsrs P t) :
    csr P (trapTail P t) n = csr P t n := by
  have hne : ∀ m ∈ entryCsrs P t, csrPresent P.priv m ∧ n ≠ m := fun m hm =>
    ⟨entryCsrs_present hm, fun h => hentry (h ▸ hm)⟩
  have hset : ∀ m ∈ entryCsrs P t, ∀ (u : State D) v, csr P (setCsr P m v u) n = csr P u n :=
    fun m hm u v => csr_setCsr_of_ne (hne m hm).1 (hne m hm).2
  unfold trapTail
  split
  · by_cases hd : delegated P t
    · simp only [entryCsrs, if_pos hd, List.forall_mem_cons] at hset
      obtain ⟨h1, h2, h3, h4, h5, -⟩ := hset
      simp only [if_pos hd, delegateException, csr_recyException, csr_setCurPri, csr_dnpcAndCheck,
        h1, h2, h3, h4, h5]
    · simp only [entryCsrs, if_neg hd, List.forall_mem_cons] at hset
      obtain ⟨h1, h2, h3, h4, -⟩ := hset
      simp only [if_neg hd, illegalInstruction, csr_recyException, csr_ecallExit, csr_dnpcAndCheck,
        h1, h2, h3, h4]
  · rfl

/-! ## Precise exceptions -/

/-- From `f` to `st'` no register, no byte of RAM and no CSR outside `entry` changes. -/
structure Precise (P : Platform D) (f : State D) (entry : List Word) (st' : State D) : Prop where
  gpr : st'.gpr = f.gpr
  pmem : st'.pmem = f.pmem
  csrs : ∀ n, csrPresent P.priv n → n ∉ entry → csr P st' n = csr P f n

/-- When the line `p`, run from `st`, writes nothing that shows: `x0` holds 0, `misa` loses no
bit, and what the body writes to `rd`, to RAM and to CSRs outside `entry` is what they hold. -/
structure PreciseWhen (P : Platform D) (st : State D) (p : Instpat) (o : Operands)
    (entry : List Word) : Prop where
  zero : st.gpr 0 = 0
  misa : p.body.misa P o st &&& ~~~0x4 = csr P st csrMisa
  rd : o.rd ≠ 0 → ∀ v, p.body.rdValue P o st = some v → st.gpr o.rd = v
  store : p.body.storeKept P o st
  csrs : p.body.csrsKept P o st entry

theorem gpr_kept_iff (g : Reg → Word) (r : Reg) (w : Option Word) :
    Function.update (match w with
      | some v => Function.update g r v
      | none => g) 0 0 = g ↔ g 0 = 0 ∧ (r ≠ 0 → ∀ v, w = some v → g r = v) := by
  rw [Function.update_eq_iff, eq_comm]
  refine and_congr_right fun _ => ?_
  cases w with
  | none => simp
  | some v =>
    constructor
    · rintro h hr v' hv
      obtain rfl := Option.some.inj hv
      have hkept : Function.update g r v r = g r := h r hr
      rw [Function.update_self] at hkept
      exact hkept.symm
    · intro h x hx
      by_cases hxr : x = r
      · subst hxr
        exact (Function.update_self ..).trans (h hx v rfl).symm
      · exact Function.update_of_ne hxr ..

theorem misa_notMem_entryCsrs : csrMisa ∉ entryCsrs P t := by
  unfold entryCsrs
  split <;> decide

theorem mstatus_mem_entryCsrs : csrMstatus ∈ entryCsrs P t := by
  unfold entryCsrs
  split <;> simp

/-- The line `p`, run from the fetched state `f`, leaves an exception in `t`. -/
structure Raises (P : Platform D) (f : State D) (p : Instpat) (t : State D) : Prop where
  selected : selectInst P.toConfig f.s.inst = some p
  executed : decodeBody P f = some t
  raised : t.haveRISCVException ≠ riscvExcpNone

theorem Raises.decodeExec (h : Raises P f p t) : decodeExec P f = some (trapTail P t) := by
  rw [Riscv32.decodeExec, h.executed]
  rfl

/-- An instruction that raises an exception is precise exactly when its own writes do not show. -/
theorem precise_iff (h : Raises P f p t) :
    Precise P f (entryCsrs P t) (trapTail P t) ↔
      PreciseWhen P (bodyStart f) p (operands f p) (entryCsrs P t) := by
  obtain ⟨q, t₀, hq, hbody, ht⟩ := decodeBody_cases h.executed
  obtain rfl := Option.some.inj (h.selected.symm.trans hq)
  have hgpr : (trapTail P t).gpr = f.gpr ↔ (bodyStart f).gpr 0 = 0 ∧ ((operands f p).rd ≠ 0 →
      ∀ v, p.body.rdValue P (operands f p) (bodyStart f) = some v →
        (bodyStart f).gpr (operands f p).rd = v) := by
    have hstart : (bodyStart f).gpr = f.gpr := dnpcAndCheck_gpr ..
    rw [trapTail_gpr, ht, resetFixed_gpr, execBody_gpr hbody, ← hstart]
    exact gpr_kept_iff ..
  have hpmem : (trapTail P t).pmem = f.pmem ↔
      p.body.storeKept P (operands f p) (bodyStart f) := by
    have hstart : (bodyStart f).pmem = f.pmem := dnpcAndCheck_pmem ..
    rw [trapTail_pmem, ht, resetFixed_pmem, ← hstart]
    exact execBody_pmem_iff hbody
  have hcsr : ∀ n, csrPresent P.priv n → n ∉ entryCsrs P t → n ≠ csrMisa →
      csr P (trapTail P t) n = p.body.csrAfter P (operands f p) (bodyStart f) n := by
    intro n hn hentry hmisa
    rw [csr_trapTail hentry, decodeBody_csr h.selected h.executed hn hmisa,
      Body.csrAfter_bodyStart]
  have hmisa : csr P (trapTail P t) csrMisa =
      p.body.misa P (operands f p) (bodyStart f) &&& ~~~0x4 := by
    rw [csr_trapTail misa_notMem_entryCsrs, ht, csr_resetFixed_misa,
      execBody_csr hbody (csrPresent_misa _), Body.misa_eq]
  have hkept : p.body.csrsKept P (operands f p) (bodyStart f) (entryCsrs P t) ↔ _ :=
    p.body.csrsKept_iff mstatus_mem_entryCsrs
  constructor
  · intro hprec
    obtain ⟨hzero, hrd⟩ := hgpr.mp hprec.gpr
    exact {
      zero := hzero
      misa := by
        rw [← hmisa, hprec.csrs _ (csrPresent_misa _) misa_notMem_entryCsrs, csr_bodyStart]
      rd := hrd
      store := hpmem.mp hprec.pmem
      csrs := hkept.mpr fun n hn hentry hne => by
        rw [← hcsr n hn hentry hne, hprec.csrs n hn hentry, csr_bodyStart] }
  · intro hwhen
    exact {
      gpr := hgpr.mpr ⟨hwhen.zero, hwhen.rd⟩
      pmem := hpmem.mpr hwhen.store
      csrs := fun n hn hentry => by
        by_cases hne : n = csrMisa
        · rw [hne, hmisa, hwhen.misa, csr_bodyStart]
        · rw [hcsr n hn hentry hne, hkept.mp hwhen.csrs n hn hentry hne, csr_bodyStart] }

def jalrMisaligned : State Unit :=
  ((booted clintBoard [0x000080e7]).enter.setR 1 0x80000002)

def findRaise (P : Platform D) (st : State D) : Option (State D × Instpat × State D) := do
  let (taken, f) ← fetchAndCheck P st
  let p ← selectInst P.toConfig f.s.inst
  let t ← decodeBody P f
  if ¬taken ∧ t.haveRISCVException ≠ riscvExcpNone then return (f, p, t)
  none

theorem findRaise_sound (h : findRaise P st = some (f, p, t)) : Raises P f p t := by
  simp only [findRaise, Option.bind_eq_bind, Option.pure_def, Option.bind_eq_some_iff] at h
  obtain ⟨⟨taken, f'⟩, -, p', hp, t', ht, h⟩ := h
  split at h
  · rename_i hraised
    simp only [Option.some.injEq, Prod.mk.injEq] at h
    obtain ⟨rfl, rfl, rfl⟩ := h
    exact ⟨hp, ht, hraised.2⟩
  · simp at h

theorem precise_exceptions_refuted :
    ∃ f p t, Raises clintBoard f p t ∧ f.gpr 1 = 0x80000002 ∧ (trapTail clintBoard t).gpr 1 = 0 ∧
      ¬Precise clintBoard f (entryCsrs clintBoard t) (trapTail clintBoard t) := by
  have h : (findRaise clintBoard jalrMisaligned).map
      (fun x => (x.1.gpr 1, (trapTail clintBoard x.2.2).gpr 1)) = some (0x80000002, 0) := by
    decide +kernel
  obtain ⟨⟨f, p, t⟩, hfind, hgpr⟩ := Option.map_eq_some_iff.mp h
  obtain ⟨hbefore, hafter⟩ := Prod.mk.inj hgpr
  refine ⟨f, p, t, findRaise_sound hfind, hbefore, hafter, fun hprec => ?_⟩
  have hkept := congrFun hprec.gpr 1
  rw [show (trapTail clintBoard t).gpr 1 = 0 from hafter,
    show f.gpr 1 = 0x80000002 from hbefore] at hkept
  exact absurd hkept (by decide)

theorem precise_iff_jalr :
    ∃ f p t, Raises clintBoard f p t ∧
      (Precise clintBoard f (entryCsrs clintBoard t) (trapTail clintBoard t) ↔
        PreciseWhen clintBoard (bodyStart f) p (operands f p) (entryCsrs clintBoard t)) := by
  have h : (findRaise clintBoard jalrMisaligned).isSome = true := by decide +kernel
  obtain ⟨⟨f, p, t⟩, hfind⟩ := Option.isSome_iff_exists.mp h
  exact ⟨f, p, t, findRaise_sound hfind, precise_iff (findRaise_sound hfind)⟩

end GsEmu.Riscv32
