import GsEmu.Riscv32.Exec

/-! What each body can do, said once: inversions of the bodies that use the bus, and the effect of
every body on the CSRs, the mode and the `Decode` record. -/

namespace GsEmu.Riscv32

variable {D : Type} {P : Platform D} {st st' : State D} {a : Word} {len : Nat} {v : Word}
  {o : Operands}

@[simp] theorem setBus_setBus (st : State D) (m m' : Bytes.Memory) (i i' : Io D)
    (k k' : DifftestSkip) : (st.setBus m i k).setBus m' i' k' = st.setBus m' i' k' := rfl

@[simp] theorem trapPeekException_trapPeekException (st : State D) (c c' t t' : Word) :
    (st.trapPeekException c t).trapPeekException c' t' = st.trapPeekException c' t' := rfl

theorem mr_cases (h : mr P a len st = some (v, st')) :
    (memAccess P a len ∧ vaddrRead P a len st = some (v, st')) ∨
      (¬memAccess P a len ∧ v = 0 ∧ st' = st.trapPeekException riscvExcpLoadAddrMis a) := by
  unfold mr at h
  split at h
  · exact .inl ⟨‹_›, h⟩
  · simp only [Option.some.injEq, Prod.mk.injEq] at h
    exact .inr ⟨‹_›, h.1.symm, h.2.symm⟩

theorem mr_bus_cases (h : mr P a len st = some (v, st')) :
    (memAccess P a len ∧ vaddrRead P a len st = some (v, st') ∧
      ∃ io skip, st' = st.setBus st.pmem io skip) ∨
      (¬memAccess P a len ∧ v = 0 ∧ st' = st.trapPeekException riscvExcpLoadAddrMis a) := by
  rcases mr_cases h with ⟨hm, hr⟩ | hrefused
  · exact .inl ⟨hm, hr, paddrRead_bus hr⟩
  · exact .inr hrefused

theorem mw_cases (h : mw P a len v st = some st') :
    (memAccess P a len ∧ vaddrWrite P a len v st = some st') ∨
      (¬memAccess P a len ∧ st' = st.trapPeekException riscvExcpStoreAmoAddrMis a) := by
  unfold mw at h
  split at h
  · exact .inl ⟨‹_›, h⟩
  · exact .inr ⟨‹_›, (Option.some.inj h).symm⟩

/-! ## Bodies that use the bus -/

theorem execLoad_cases {ext : Word → Word} (h : execLoad P len ext o st = some st') :
    (∃ v io skip, memAccess P (o.src1 + o.imm) len ∧
      vaddrRead P (o.src1 + o.imm) len st = some (v, st.setBus st.pmem io skip) ∧
      st' = (st.setBus st.pmem io skip).setR o.rd (ext v)) ∨
    (¬memAccess P (o.src1 + o.imm) len ∧
      st' = (st.trapPeekException riscvExcpLoadAddrMis (o.src1 + o.imm)).setR o.rd (ext 0)) := by
  simp only [execLoad, Option.bind_eq_bind, Option.pure_def, Option.bind_eq_some_iff] at h
  obtain ⟨⟨v, st₁⟩, hr, h⟩ := h
  simp only [Option.some.injEq] at h
  rcases mr_bus_cases hr with ⟨hm, hr, io, skip, rfl⟩ | ⟨hm, rfl, rfl⟩
  · exact .inl ⟨v, io, skip, hm, hr, h.symm⟩
  · exact .inr ⟨hm, h.symm⟩

theorem execLr_cases (h : execLr P o st = some st') :
    (∃ v io skip, memAccess P o.src1 4 ∧
      vaddrRead P o.src1 4 st = some (v, st.setBus st.pmem io skip) ∧
      st' = ((st.setBus st.pmem io skip).setR o.rd v).setAmw (insertNode st.amw o.src1 true)) ∨
    (¬memAccess P o.src1 4 ∧
      st' = ((st.trapPeekException riscvExcpLoadAddrMis o.src1).setR o.rd 0).setAmw
        (insertNode st.amw o.src1 true)) := by
  simp only [execLr, Option.bind_eq_bind, Option.pure_def, Option.bind_eq_some_iff] at h
  obtain ⟨⟨v, st₁⟩, hr, h⟩ := h
  simp only [Option.some.injEq] at h
  rcases mr_bus_cases hr with ⟨hm, hr, io, skip, rfl⟩ | ⟨hm, rfl, rfl⟩
  · exact .inl ⟨v, io, skip, hm, hr, h.symm⟩
  · exact .inr ⟨hm, h.symm⟩

/-- A reservation that `sc.w` would use; nodes are only ever inserted with `reserved` set. -/
def scReserved (st : State D) (addr : Word) : Prop :=
  ∃ w, searchNode st.amw addr = some ⟨w, true⟩

theorem execSc_cases (h : execSc P o st = some st') :
    (scReserved st o.src1 ∧ memAccess P o.src1 4 ∧ ∃ pmem io skip,
      vaddrWrite P o.src1 4 o.src2 st = some (st.setBus pmem io skip) ∧
      st' = ((st.setBus pmem io skip).setR o.rd 0).setAmw (deleteNode st.amw o.src1)) ∨
    (scReserved st o.src1 ∧ ¬memAccess P o.src1 4 ∧
      st' = ((st.trapPeekException riscvExcpStoreAmoAddrMis o.src1).setR o.rd 0).setAmw
        (deleteNode st.amw o.src1)) ∨
    (¬scReserved st o.src1 ∧ st' = st.setR o.rd 1) := by
  unfold execSc at h
  split at h
  · rename_i w hs
    simp only [Option.bind_eq_bind, Option.pure_def, Option.bind_eq_some_iff] at h
    obtain ⟨st₁, hw, h⟩ := h
    simp only [Option.some.injEq] at h
    rcases mw_cases hw with ⟨hm, hw⟩ | ⟨hm, rfl⟩
    · obtain ⟨pmem, io, skip, rfl, -⟩ := paddrWrite_bus hw
      exact .inl ⟨⟨w, hs⟩, hm, pmem, io, skip, hw, h.symm⟩
    · exact .inr (.inl ⟨⟨w, hs⟩, hm, h.symm⟩)
  · rename_i hs
    exact .inr (.inr ⟨fun ⟨w, hw⟩ => hs w hw, (Option.some.inj h).symm⟩)

theorem execAmo_cases {op : Word → Word → Word} (h : execAmo P op o st = some st') :
    (∃ t io skip pmem io' skip', memAccess P o.src1 4 ∧
      vaddrRead P o.src1 4 st = some (t, st.setBus st.pmem io skip) ∧
      vaddrWrite P o.src1 4 (op t o.src2) (st.setBus st.pmem io skip) =
        some (st.setBus pmem io' skip') ∧
      st' = (st.setBus pmem io' skip').setR o.rd t) ∨
    (¬memAccess P o.src1 4 ∧
      st' = (st.trapPeekException riscvExcpStoreAmoAddrMis o.src1).setR o.rd 0) := by
  simp only [execAmo, Option.bind_eq_bind, Option.pure_def, Option.bind_eq_some_iff] at h
  obtain ⟨⟨t, st₁⟩, hr, st₂, hw, h⟩ := h
  simp only [Option.some.injEq] at h
  rcases mr_bus_cases hr with ⟨hm, hr, io, skip, rfl⟩ | ⟨hm, rfl, rfl⟩
  · rcases mw_cases hw with ⟨-, hw⟩ | ⟨hn, -⟩
    · obtain ⟨pmem, io', skip', rfl, -⟩ := paddrWrite_bus hw
      exact .inl ⟨t, io, skip, pmem, io', skip', hm, hr, hw, h.symm⟩
    · exact absurd hm hn
  · rcases mw_cases hw with ⟨hn, -⟩ | ⟨-, rfl⟩
    · exact absurd hn hm
    · exact .inr ⟨hm, h.symm⟩

theorem clintMtimelo_not_inPmem : inPmem (configClintMmio + mtimelo) = false := by decide

theorem execWfi_cases (h : execWfi P st = some st') :
    (∃ io skip, st' = st.setBus st.pmem io skip) ∨
      st' = st.trapPeekException riscvExcpStoreAmoAddrMis (configClintMmio + mtimelo) := by
  unfold execWfi at h
  split at h
  · simp only [Option.bind_eq_bind, Option.bind_eq_some_iff] at h
    obtain ⟨⟨t, st₁⟩, hr, hw⟩ := h
    rcases mr_bus_cases hr with ⟨-, -, io, skip, rfl⟩ | ⟨hn, -⟩
    · obtain ⟨pmem, io', skip', rfl, hpm⟩ := paddrWrite_bus hw
      rw [hpm clintMtimelo_not_inPmem]
      exact .inl ⟨io', skip', rfl⟩
    · exact absurd ‹_› hn
  · exact .inr (Option.some.inj h).symm

def Body.usesBus : Body → Bool
  | .load .. | .store _ | .lrW | .scW | .amo _ | .wfi => true
  | _ => false

theorem execBody_bus {b : Body} (hb : b.usesBus = true) (h : execBody P b o st = some st') :
    st'.csr = st.csr ∧ st'.curPri = st.curPri ∧ st'.s = st.s ∧ st'.nemuState = st.nemuState := by
  cases b with
  | load len ext =>
    rcases execLoad_cases h with ⟨_, _, _, _, _, rfl⟩ | ⟨_, rfl⟩ <;> exact ⟨rfl, rfl, rfl, rfl⟩
  | store len =>
    rcases mw_cases h with ⟨-, h⟩ | ⟨-, rfl⟩
    · obtain ⟨_, _, _, rfl, -⟩ := paddrWrite_bus h
      exact ⟨rfl, rfl, rfl, rfl⟩
    · exact ⟨rfl, rfl, rfl, rfl⟩
  | lrW => rcases execLr_cases h with ⟨_, _, _, _, _, rfl⟩ | ⟨_, rfl⟩ <;> exact ⟨rfl, rfl, rfl, rfl⟩
  | scW =>
    rcases execSc_cases h with ⟨-, -, _, _, _, -, rfl⟩ | ⟨-, -, rfl⟩ | ⟨-, rfl⟩ <;>
      exact ⟨rfl, rfl, rfl, rfl⟩
  | amo op =>
    rcases execAmo_cases h with ⟨_, _, _, _, _, _, _, _, _, rfl⟩ | ⟨_, rfl⟩ <;>
      exact ⟨rfl, rfl, rfl, rfl⟩
  | wfi => rcases execWfi_cases h with ⟨_, _, rfl⟩ | rfl <;> exact ⟨rfl, rfl, rfl, rfl⟩
  | _ => simp [Body.usesBus] at hb

/-- What a body without the bus leaves alone. Of these bodies only `NEMUTRAP` stops the emulator and asks for
a skip. -/
structure OffBus (P : Platform D) (st st' : State D) : Prop where
  pmem : st'.pmem = st.pmem
  io : st'.io = st.io
  amw : st'.amw = st.amw
  trap : st'.skip = st.skip ∧ st'.nemuState = st.nemuState ∨
    st'.skip = (nemuTrap P st).skip ∧ st'.nemuState = (nemuTrap P st).nemuState

theorem execBody_offBus {b : Body} (hb : b.usesBus = false) (h : execBody P b o st = some st') :
    OffBus P st st' := by
  cases b with
  | load | store | lrW | scW | amo | wfi => exact Bool.noConfusion hb
  | jal =>
    obtain rfl := Option.some.inj h
    unfold execJal
    split <;> exact ⟨rfl, rfl, rfl, .inl ⟨rfl, rfl⟩⟩
  | jalr =>
    obtain rfl := Option.some.inj h
    unfold execJalr
    split <;> exact ⟨rfl, rfl, rfl, .inl ⟨rfl, rfl⟩⟩
  | branch cond =>
    obtain rfl := Option.some.inj h
    unfold execBranch dnpcAndCheck
    split
    · split <;> exact ⟨rfl, rfl, rfl, .inl ⟨rfl, rfl⟩⟩
    · exact ⟨rfl, rfl, rfl, .inl ⟨rfl, rfl⟩⟩
  | slli =>
    obtain rfl := Option.some.inj h
    unfold execSlli
    split <;> exact ⟨rfl, rfl, rfl, .inl ⟨rfl, rfl⟩⟩
  | ecall =>
    obtain rfl := Option.some.inj h
    unfold execEcall
    dsimp only
    split
    · exact ⟨rfl, rfl, rfl, .inr ⟨rfl, rfl⟩⟩
    · exact ⟨rfl, rfl, rfl, .inl ⟨rfl, rfl⟩⟩
  | ebreak =>
    obtain rfl := Option.some.inj h
    exact ⟨rfl, rfl, rfl, .inr ⟨rfl, rfl⟩⟩
  | csr op =>
    obtain rfl := Option.some.inj h
    unfold execCsr setCsrChecked
    split
    · split <;> exact ⟨rfl, rfl, rfl, .inl ⟨rfl, rfl⟩⟩
    · exact ⟨rfl, rfl, rfl, .inl ⟨rfl, rfl⟩⟩
  | sret =>
    obtain rfl := Option.some.inj h
    unfold execSret setCsrChecked
    dsimp only
    split <;> exact ⟨rfl, rfl, rfl, .inl ⟨rfl, rfl⟩⟩
  | mret =>
    obtain rfl := Option.some.inj h
    unfold execMret setCsrChecked
    dsimp only
    split <;> exact ⟨rfl, rfl, rfl, .inl ⟨rfl, rfl⟩⟩
  | write | nop | inv =>
    obtain rfl := Option.some.inj h
    exact ⟨rfl, rfl, rfl, .inl ⟨rfl, rfl⟩⟩

/-! ## CSRs, mode and `dnpc` after a body -/

def Body.csrs (P : Platform D) (o : Operands) (st : State D) : Body → Nat → Word
  | .ebreak => (setCsr P csrMepc st.s.pc st).csr
  | .csr op =>
    if csrPresent P.priv o.imm then
      (setCsrChecked P o.imm (op (Riscv32.csr P st o.imm) o.src1) st).csr
    else st.csr
  | .sret => (execSret P st).csr
  | .mret => (execMret P st).csr
  | _ => st.csr

def Body.mode (P : Platform D) (st : State D) : Body → Word
  | .sret => getField (Riscv32.csr P st csrSstatus) sstatusSpp
  | .mret => getField (Riscv32.csr P st csrMstatus) mstatusMpp
  | _ => st.curPri

/-- `dnpc` after the body; a target that is not a multiple of 4 is refused and `dnpc` stays. -/
def Body.next (P : Platform D) (o : Operands) (st : State D) : Body → Word
  | .jal => if instAligned (jalTarget o st) then jalTarget o st else st.s.dnpc
  | .jalr => if instAligned (jalrTarget o) then jalrTarget o else st.s.dnpc
  | .branch cond =>
    if cond o.src1 o.src2 ∧ instAligned (branchTarget o st) then branchTarget o st else st.s.dnpc
  | .sret => Riscv32.csr P st csrSepc
  | .mret => Riscv32.csr P st csrMepc
  | _ => st.s.dnpc

@[simp] theorem setCsrChecked_curPri (n : Word) :
    (setCsrChecked P n v st).curPri = st.curPri := by
  unfold setCsrChecked
  split <;> rfl

@[simp] theorem setCsrChecked_s (n : Word) : (setCsrChecked P n v st).s = st.s := by
  unfold setCsrChecked
  split <;> rfl

/-! ## The returns -/

def sretSstatus (sstatus : Word) : Word :=
  ((sstatus ||| (getField sstatus sstatusSpie <<< 1)) &&& ~~~sstatusSpp) ||| sstatusSpie

def sretMstatus (mstatus : Word) : Word := (mstatus &&& ~~~mstatusSpp) ||| sstatusSpie

def mretMstatus (mstatus : Word) : Word :=
  setField (setField mstatus mstatusMie (getField mstatus mstatusMpie)) mstatusMpie 1

theorem slot_sstatus_ne_mstatus (p : PrivModes) : checkCsrIdx p csrSstatus ≠ 2 := by
  rw [slot_sstatus_any]
  split <;> decide

theorem execSret_csr : (execSret P st).csr =
    Function.update (Function.update st.csr (checkCsrIdx P.priv csrSstatus)
      (sretSstatus (csr P st csrSstatus))) 2
      (if P.priv = .M then csr P st csrMstatus else sretMstatus (csr P st csrMstatus)) := by
  have hne := slot_sstatus_ne_mstatus P.priv
  obtain ⟨slot, hslot⟩ : ∃ n, checkCsrIdx P.priv csrSstatus = n := ⟨_, rfl⟩
  funext k
  rw [hslot] at hne
  unfold execSret setCsrChecked
  by_cases hM : P.priv = .M
  · rw [if_pos ⟨hM, rfl⟩, if_pos hM]
    simp only [csr, setCsr_csr, State.setCurPri_csr, State.setDnpc_csr, slot_mstatus,
      Function.update_apply, hslot, if_true, sretSstatus]
    by_cases h2 : k = 2
    · simp [h2, hne.symm]
    · by_cases hk : k = slot <;> simp [hk, h2, hne]
  · rw [if_neg fun h => hM h.1, if_neg hM]
    simp only [csr, setCsr_csr, State.setCurPri_csr, State.setDnpc_csr, slot_mstatus,
      Function.update_apply, hslot, if_true, sretSstatus, sretMstatus]
    by_cases h2 : k = 2
    · simp [h2, hne.symm]
    · by_cases hk : k = slot <;> simp [hk, h2, hne]

theorem execMret_csr : (execMret P st).csr = Function.update st.csr 2
    (if P.priv = .M then mretMstatus (csr P st csrMstatus)
      else setField (mretMstatus (csr P st csrMstatus)) mstatusMpp 0) := by
  funext k
  simp only [execMret, setCsrChecked, csr, setCsr_csr, State.setCurPri_csr, State.setDnpc_csr,
    slot_mstatus, and_true]
  by_cases hM : P.priv = .M <;> by_cases hk : k = 2 <;>
    simp [hM, hk, mretMstatus]

theorem mretMstatus_mie (m : Word) : (mretMstatus m).getLsbD 3 = m.getLsbD 7 := by
  rw [mretMstatus, getLsbD_setField (k := 7) rfl, getLsbD_setField (k := 3) rfl,
    getField_mstatusMpie]
  cases m.getLsbD 7 <;> rfl

theorem mretMstatus_of_ne (m : Word) {j : Nat} (h3 : mstatusMie.getLsbD j = false)
    (h7 : mstatusMpie.getLsbD j = false) : (mretMstatus m).getLsbD j = m.getLsbD j := by
  rw [mretMstatus, getLsbD_setField (k := 7) rfl, getLsbD_setField (k := 3) rfl, h3, h7]
  rfl

theorem execSret_curPri :
    (execSret P st).curPri = getField (csr P st csrSstatus) sstatusSpp := by
  simp only [execSret, setCsrChecked_curPri, setCsr_curPri, State.setCurPri_curPri, csr_setCsr,
    if_true, getField_sstatusSpp, getField_sstatusSpie, BitVec.getLsbD_or, csr_setDnpc]
  congr 1
  cases (csr P st csrSstatus).getLsbD 5 <;> simp

theorem execMret_curPri :
    (execMret P st).curPri = getField (csr P st csrMstatus) mstatusMpp := by
  simp only [execMret, setCsrChecked_curPri, State.setCurPri_curPri, csr_setCsr, if_true,
    csr_setDnpc]
  change getField (mretMstatus (csr P st csrMstatus)) mstatusMpp = _
  rw [getField_mstatusMpp, getField_mstatusMpp, mretMstatus_of_ne _ (j := 11) rfl rfl,
    mretMstatus_of_ne _ (j := 12) rfl rfl]

theorem execBody_control {b : Body} (h : execBody P b o st = some st') :
    st'.csr = b.csrs P o st ∧ st'.curPri = b.mode P st ∧
      st'.s = { st.s with dnpc := b.next P o st } := by
  by_cases hb : b.usesBus = true
  · obtain ⟨hcsr, hpri, hs, -⟩ := execBody_bus hb h
    cases b <;> first | exact ⟨hcsr, hpri, hs⟩ | simp [Body.usesBus] at hb
  cases b with
  | load | store | lrW | scW | amo | wfi => simp [Body.usesBus] at hb
  | jal =>
    obtain rfl := Option.some.inj h
    unfold execJal
    by_cases ht : instAligned (jalTarget o st)
    · have hnext : st.s.pc + o.imm = jalTarget o st := rfl
      simp [Body.csrs, Body.mode, Body.next, ht, hnext]
    · simp [Body.csrs, Body.mode, Body.next, ht]
  | jalr =>
    obtain rfl := Option.some.inj h
    unfold execJalr
    by_cases ht : instAligned (jalrTarget o) <;> simp [Body.csrs, Body.mode, Body.next, ht]
  | branch cond =>
    obtain rfl := Option.some.inj h
    unfold execBranch
    by_cases hc : cond o.src1 o.src2 = true <;> simp [Body.csrs, Body.mode, Body.next, hc]
  | slli =>
    obtain rfl := Option.some.inj h
    unfold execSlli
    split <;> exact ⟨rfl, rfl, rfl⟩
  | ecall =>
    obtain rfl := Option.some.inj h
    unfold execEcall
    dsimp only
    split <;> exact ⟨rfl, rfl, rfl⟩
  | csr op =>
    obtain rfl := Option.some.inj h
    unfold execCsr
    by_cases hp : csrPresent P.priv o.imm <;> simp [Body.csrs, Body.mode, Body.next, hp]
  | sret =>
    obtain rfl := Option.some.inj h
    exact ⟨rfl, execSret_curPri, by simp [execSret, Body.next]⟩
  | mret =>
    obtain rfl := Option.some.inj h
    exact ⟨rfl, execMret_curPri, by simp [execMret, Body.next]⟩
  | write | ebreak | nop | inv =>
    obtain rfl := Option.some.inj h
    exact ⟨rfl, rfl, rfl⟩

/-! ## One CSR after a body -/

def Body.csrAfter (P : Platform D) (o : Operands) (st : State D) (n : Word) : Body → Word
  | .ebreak => if n = csrMepc then st.s.pc else Riscv32.csr P st n
  | .csr op =>
    if n = o.imm ∧ ¬(P.priv = .M ∧ n = csrMstatus) then op (Riscv32.csr P st n) o.src1
    else Riscv32.csr P st n
  | .sret =>
    if n = csrMstatus ∧ P.priv ≠ .M then sretMstatus (Riscv32.csr P st n)
    else if n = csrSstatus then sretSstatus (Riscv32.csr P st n)
    else Riscv32.csr P st n
  | .mret =>
    if n = csrMstatus then
      if P.priv = .M then mretMstatus (Riscv32.csr P st n)
      else setField (mretMstatus (Riscv32.csr P st n)) mstatusMpp 0
    else Riscv32.csr P st n
  | _ => Riscv32.csr P st n

theorem Body.csrs_eq (b : Body) {n : Word} (hn : csrPresent P.priv n) :
    b.csrs P o st (checkCsrIdx P.priv n) = b.csrAfter P o st n := by
  have hslot : ∀ m, checkCsrIdx P.priv n = checkCsrIdx P.priv m ↔ n = m := fun m =>
    eq_comm.trans ((checkCsrIdx_inj hn).trans eq_comm)
  have hmstatus : checkCsrIdx P.priv n = 2 ↔ n = csrMstatus := by
    rw [← hslot, slot_mstatus]
  cases b with
  | ebreak => exact (csr_setCsr ..).trans (by simp only [hslot, Body.csrAfter])
  | csr op =>
    simp only [Body.csrs, Body.csrAfter]
    by_cases hi : n = o.imm
    · subst hi
      rw [if_pos hn]
      refine (csr_setCsrChecked_self ..).trans ?_
      by_cases hM : P.priv = .M ∧ o.imm = csrMstatus
      · rw [if_pos hM, if_neg fun h => h.2 hM]
      · rw [if_neg hM, if_pos ⟨rfl, hM⟩]
    · have hno : ¬(n = o.imm ∧ ¬(P.priv = .M ∧ n = csrMstatus)) := fun h => hi h.1
      rw [if_neg hno]
      split
      · exact csr_setCsrChecked_ne P st _ hn (Ne.symm hi)
      · rfl
  | sret =>
    simp only [Body.csrs, Body.csrAfter, execSret_csr, Function.update_apply, hmstatus, hslot]
    by_cases hm : n = csrMstatus
    · subst hm
      by_cases hM : P.priv = .M
      · rw [if_pos rfl, if_pos hM, if_neg fun h => h.2 hM, if_neg (by decide)]
      · rw [if_pos rfl, if_neg hM, if_pos ⟨rfl, hM⟩]
    · have hno : ¬(n = csrMstatus ∧ P.priv ≠ .M) := fun h => hm h.1
      rw [if_neg hm, if_neg hno]
      by_cases hs : n = csrSstatus
      · rw [if_pos hs, if_pos hs, hs]
      · rw [if_neg hs, if_neg hs, Riscv32.csr]
  | mret =>
    simp only [Body.csrs, Body.csrAfter, execMret_csr, Function.update_apply, hmstatus]
    by_cases hm : n = csrMstatus
    · rw [if_pos hm, if_pos hm, hm]
    · rw [if_neg hm, if_neg hm, Riscv32.csr]
  | _ => rfl

theorem execBody_csr {b : Body} (h : execBody P b o st = some st') {n : Word}
    (hn : csrPresent P.priv n) : csr P st' n = b.csrAfter P o st n := by
  rw [csr, (execBody_control h).1, Body.csrs_eq b hn]

end GsEmu.Riscv32
