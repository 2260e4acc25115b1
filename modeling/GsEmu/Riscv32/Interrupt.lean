import GsEmu.Riscv32.Step

/-! When `isa_exec_once` takes an interrupt, and which one. -/

namespace GsEmu.Riscv32

variable {D : Type} {P : Platform D} {st st' f g : State D}

/-! ## The scan of `find_irq_type_val` -/

def highestIrq (z : Word) (m : Nat) : Option Nat :=
  (List.range m).reverse.find? fun i => z.getLsbD i && decide (i % 2 = 1)

def irqWord : Option Nat → Word
  | some i => BitVec.ofNat 32 i
  | none => 0xffffffff

theorem msb_and_iff (y : Word) : y &&& 0x80000000 = 0x80000000 ↔ y.getLsbD 31 = true := by
  have hpow : (0x80000000 : Word) = BitVec.twoPow 32 31 := rfl
  rw [hpow, BitVec.and_twoPow]
  cases y.getLsbD 31 <;> decide

theorem highestIrq_succ (z : Word) (m : Nat) : highestIrq z (m + 1) =
    if z.getLsbD m && decide (m % 2 = 1) then some m else highestIrq z m := by
  simp only [highestIrq, List.range_succ, List.reverse_append, List.reverse_singleton,
    List.singleton_append, List.find?_cons]
  cases z.getLsbD m && decide (m % 2 = 1) <;> rfl

theorem highestIrq_eq_none {z : Word} {m : Nat} (h : ∀ i < m, z.getLsbD i = false) :
    highestIrq z m = none := by
  rw [highestIrq, List.find?_eq_none]
  intro i hi
  rw [List.mem_reverse, List.mem_range] at hi
  simp [h i hi]

theorem irqLoop_eq (z : Word) {m k : Nat} (hm : m ≤ 32) (hk : m ≤ k) :
    irqLoop k (z <<< (32 - m)) (BitVec.ofNat 32 (32 - m)) = irqWord (highestIrq z m) := by
  -- on the bits still to be seen; `z` is shifted so that the next one is the top bit
  induction m generalizing k with
  | zero =>
    have hz : z <<< 32 = 0 := BitVec.shiftLeft_eq_zero le_rfl
    cases k with
    | zero => rfl
    | succ k =>
      rw [irqLoop, if_pos hz]
      rfl
  | succ m ih =>
    obtain ⟨k, rfl⟩ : ∃ k', k = k' + 1 := ⟨k - 1, by omega⟩
    have hbit : ∀ i ≤ m, (z <<< (32 - (m + 1))).getLsbD (i + (31 - m)) = z.getLsbD i := by
      intro i hi
      rw [BitVec.getLsbD_shiftLeft]
      simp [show i + (31 - m) < 32 by omega]
    have hx : (31 : Word) - BitVec.ofNat 32 (32 - (m + 1)) = BitVec.ofNat 32 m := by
      apply BitVec.eq_of_toNat_eq
      rw [BitVec.toNat_sub, BitVec.toNat_ofNat, BitVec.toNat_ofNat, show (31 : Word).toNat = 31 from rfl]
      omega
    have hodd : BitVec.ofNat 32 m % 2 ≠ 0 ↔ m % 2 = 1 := by
      rw [ne_eq, ← BitVec.toNat_inj, BitVec.toNat_umod, BitVec.toNat_ofNat,
        show (2 : Word).toNat = 2 from rfl, show (0 : Word).toNat = 0 from rfl]
      omega
    have hmsb : (z <<< (32 - (m + 1))) &&& 0x80000000 = 0x80000000 ↔ z.getLsbD m = true := by
      have hm31 := hbit m le_rfl
      rw [show m + (31 - m) = 31 by omega] at hm31
      rw [← hm31]
      exact msb_and_iff _
    rw [irqLoop, highestIrq_succ]
    by_cases hzero : z <<< (32 - (m + 1)) = 0
    · have hlow : ∀ i < m + 1, z.getLsbD i = false := by
        intro i hi
        rw [← hbit i (by omega), hzero]
        exact BitVec.getLsbD_zero
      rw [if_pos hzero, ← highestIrq_succ, highestIrq_eq_none hlow]
      rfl
    · simp only [if_neg hzero, hx, hodd, hmsb]
      by_cases hsel : z.getLsbD m = true ∧ m % 2 = 1
      · rw [if_pos hsel, if_pos (by simp [hsel])]
        rfl
      · have hstep : z <<< (32 - (m + 1)) <<< 1 = z <<< (32 - m) := by
          rw [← BitVec.shiftLeft_add, show 32 - (m + 1) + 1 = 32 - m by omega]
        have hx1 : BitVec.ofNat 32 (32 - (m + 1)) + 1 = BitVec.ofNat 32 (32 - m) := by
          apply BitVec.eq_of_toNat_eq
          rw [BitVec.toNat_add, BitVec.toNat_ofNat, BitVec.toNat_ofNat,
            show (1 : Word).toNat = 1 from rfl]
          omega
        rw [if_neg hsel, if_neg (by simpa using hsel), hstep, hx1, ih (by omega) (by omega)]

theorem findIrqTypeVal_eq (z : Word) : findIrqTypeVal z = irqWord (highestIrq z 12) :=
  irqLoop_eq z (m := 12) (k := 32) (by decide) (by decide)

/-! ## The decision -/

/-- The state `irp_and` decides on: the word is fetched and `MTIP` follows the timer. -/
def sampled (P : Platform D) (st : State D) : Option (State D) := do
  let st ← instFetch P st
  let (late, st) ← timerLate P st
  return setMtip P late st

theorem fetchAndCheck_eq_sampled : fetchAndCheck P st = (sampled P st).map (irpTake P) := by
  unfold fetchAndCheck sampled irpAnd
  rcases instFetch P st with _ | st₁
  · rfl
  · change (timerLate P st₁).bind _ = Option.map _ ((timerLate P st₁).bind _)
    rcases timerLate P st₁ with _ | ⟨late, st₂⟩ <;> rfl

def takesInterrupt (P : Platform D) (st : State D) : Prop :=
  ∃ f, fetchAndCheck P st = some (true, f)

def takeable (P : Platform D) (g : State D) : Word :=
  csr P g csrMip &&& csr P g csrMie &&& ~~~(csr P g csrMideleg) &&& 0x0aaa

def delegatedIrqs (P : Platform D) (g : State D) : Word :=
  csr P g csrMip &&& csr P g csrMie &&& csr P g csrMideleg &&& 0x0aaa

/-- The order in which the scan meets the causes: MEI, SEI, MTI, STI, MSI, SSI. -/
def scanOrder : List Nat := [11, 9, 7, 5, 3, 1]

/-- Entry into the machine-mode handler for interrupt `n`, in place of the instruction. -/
structure InterruptEntered (P : Platform D) (g : State D) (n : Nat) (st' : State D) : Prop where
  mcause : csr P st' csrMcause = BitVec.ofNat 32 n ||| 0x80000000
  mepc : csr P st' csrMepc = g.s.pc
  mie : getField (csr P st' csrMstatus) mstatusMie = 0
  mpie : getField (csr P st' csrMstatus) mstatusMpie = getField (csr P g csrMstatus) mstatusMie
  mode : st'.curPri = prvM
  gpr : st'.gpr = g.gpr
  pmem : st'.pmem = g.pmem

theorem haveIP_eq_takeable (h : delegatedIrqs P g = 0) : haveIP P g = takeable P g := by
  have hsplit : haveIP P g = takeable P g ||| delegatedIrqs P g := by
    simp only [haveIP, takeable, delegatedIrqs]
    ext i hi
    simp only [BitVec.getElem_and, BitVec.getElem_or, BitVec.getElem_not]
    cases (csr P g csrMip)[i] <;> cases (csr P g csrMie)[i] <;>
      cases (csr P g csrMideleg)[i] <;> simp
  rw [hsplit, h]
  exact BitVec.or_zero

theorem highestIrq_twelve (z : Word) : highestIrq z 12 = scanOrder.find? z.getLsbD := by
  have hodd : scanOrder = (List.range 12).reverse.filter fun i => decide (i % 2 = 1) := by decide
  rw [hodd, List.find?_filter]
  simp [highestIrq, Bool.and_comm]

theorem irpTake_stub_free (hstub : ¬irpStub P g) :
    irpTake P g = match (csr P g csrMstatus).getLsbD 3, scanOrder.find? (haveIP P g).getLsbD with
      | true, some n => (true, takeIrq P (BitVec.ofNat 32 n) g)
      | _, _ => (false, g) := by
  have hmie : csr P g csrMstatus &&& 0x8 ≠ 0 ↔ (csr P g csrMstatus).getLsbD 3 = true := by
    have hpow : (0x8 : Word) = BitVec.twoPow 32 3 := rfl
    rw [hpow, BitVec.and_twoPow]
    cases (csr P g csrMstatus).getLsbD 3 <;> decide
  unfold irpTake
  rw [findIrqTypeVal_eq, highestIrq_twelve]
  cases h : (csr P g csrMstatus).getLsbD 3 with
  | false => rw [if_neg (by rw [hmie, h]; decide)]
  | true =>
    rw [if_pos (hmie.mpr h), if_neg hstub]
    cases hn : scanOrder.find? (haveIP P g).getLsbD with
    | none => rfl
    | some n =>
      have hmem := List.mem_of_find?_eq_some hn
      have hne : irqWord (some n) ≠ 0xffffffff := by
        simp only [scanOrder, List.mem_cons, List.not_mem_nil, or_false] at hmem
        rcases hmem with rfl | rfl | rfl | rfl | rfl | rfl <;> decide
      exact if_pos hne

def irqMstatus (mstatus curPri : Word) : Word :=
  setField (setField mstatus mstatusMpie (getField mstatus mstatusMie) &&& ~~~mstatusMie)
    mstatusMpp curPri

theorem takeIrq_csr (irq : Word) : (takeIrq P irq g).csr =
    Function.update (Function.update (Function.update g.csr 5 (irq ||| 0x80000000)) 8 g.s.pc) 2
      (irqMstatus (csr P g csrMstatus) g.curPri) := by
  funext k
  simp only [takeIrq, State.setCurPri_csr, setCsr_csr, setCsr_s, setCsr_curPri, dnpcAndCheck_csr,
    dnpcAndCheck_curPri, csr, slot_mstatus, slot_mcause, slot_mepc, Function.update_apply]
  by_cases h2 : k = 2
  · simp [h2, irqMstatus]
  · simp [h2]

theorem irqMstatus_mie (m c : Word) : (irqMstatus m c).getLsbD 3 = false := by
  rw [irqMstatus, getLsbD_setField (k := 11) rfl, if_neg (by decide), BitVec.getLsbD_and,
    BitVec.getLsbD_not]
  simp [mstatusMie]

theorem irqMstatus_mpie (m c : Word) : (irqMstatus m c).getLsbD 7 = m.getLsbD 3 := by
  rw [irqMstatus, getLsbD_setField (k := 11) rfl, if_neg (by decide), BitVec.getLsbD_and,
    getLsbD_setField (k := 7) rfl, if_pos (by decide), getField_mstatusMie]
  cases m.getLsbD 3 <;> rfl

theorem takeIrq_entered (n : Nat) : InterruptEntered P g n (takeIrq P (BitVec.ofNat 32 n) g) := by
  have hcsr : ∀ m, csr P (takeIrq P (BitVec.ofNat 32 n) g) m =
      (takeIrq P (BitVec.ofNat 32 n) g).csr (checkCsrIdx P.priv m) := fun _ => rfl
  have hmstatus : csr P (takeIrq P (BitVec.ofNat 32 n) g) csrMstatus =
      irqMstatus (csr P g csrMstatus) g.curPri := by
    rw [hcsr, takeIrq_csr, slot_mstatus, Function.update_self]
  exact {
    mcause := by simp [hcsr, takeIrq_csr]
    mepc := by simp [hcsr, takeIrq_csr]
    mie := by rw [hmstatus, getField_mstatusMie, irqMstatus_mie]; rfl
    mpie := by rw [hmstatus, getField_mstatusMpie, irqMstatus_mpie, getField_mstatusMie]
    mode := rfl
    gpr := by simp [takeIrq]
    pmem := by simp [takeIrq] }

theorem find_takeable_none :
    scanOrder.find? (takeable P g).getLsbD = none ↔ takeable P g = 0 := by
  rw [List.find?_eq_none]
  constructor
  · intro h
    apply BitVec.eq_of_getLsbD_eq
    intro i hi
    refine Eq.trans ?_ BitVec.getLsbD_zero.symm
    by_contra hset
    replace hset : (takeable P g).getLsbD i = true := by simpa using hset
    have hmask : (0xaaa : Word).getLsbD i = true := by
      rw [takeable, BitVec.getLsbD_and, Bool.and_eq_true] at hset
      exact hset.2
    have hodd : ∀ j < 32, (0xaaa : Word).getLsbD j = true → j ∈ scanOrder := by decide
    exact h i (hodd i hi hmask) hset
  · intro h n _
    simp [h]

/-- Where nothing pending and enabled is delegated and the unfinished S-mode branch is not entered,
an interrupt is taken, in every mode, exactly when `mstatus.MIE` is set and one is takeable; it is
the first in scan order; and otherwise the fetched instruction is executed. -/
theorem isaExecOnce_interrupt (hsampled : sampled P st = some g) (hdel : delegatedIrqs P g = 0)
    (hstub : ¬irpStub P g) :
    (takesInterrupt P st ↔ (csr P g csrMstatus).getLsbD 3 = true ∧ takeable P g ≠ 0) ∧
    (∀ st', isaExecOnce P st = some st' → takesInterrupt P st →
      ∃ n, scanOrder.find? (takeable P g).getLsbD = some n ∧ InterruptEntered P g n st') ∧
    (¬takesInterrupt P st → isaExecOnce P st = decodeExec P g) := by
  have htake := irpTake_stub_free hstub
  rw [haveIP_eq_takeable hdel] at htake
  have hcheck : fetchAndCheck P st = some (irpTake P g) := by
    rw [fetchAndCheck_eq_sampled, hsampled, Option.map_some]
  cases hmie : (csr P g csrMstatus).getLsbD 3 with
  | false =>
    rw [hmie] at htake
    have hnot : ¬takesInterrupt P st := by
      rintro ⟨f, hf⟩
      simp [hcheck, htake] at hf
    exact ⟨by simp [hnot], fun _ _ h => absurd h hnot,
      fun _ => by simp [isaExecOnce, hcheck, htake]⟩
  | true =>
    cases hfind : scanOrder.find? (takeable P g).getLsbD with
    | none =>
      rw [hmie, hfind] at htake
      have hnot : ¬takesInterrupt P st := by
        rintro ⟨f, hf⟩
        simp [hcheck, htake] at hf
      exact ⟨by simp [hnot, find_takeable_none.mp hfind], fun _ _ h => absurd h hnot,
        fun _ => by simp [isaExecOnce, hcheck, htake]⟩
    | some n =>
      rw [hmie, hfind] at htake
      have hyes : takesInterrupt P st := ⟨_, hcheck.trans (congrArg some htake)⟩
      have hne : takeable P g ≠ 0 := fun h => by simp [find_takeable_none.mpr h] at hfind
      refine ⟨iff_of_true hyes ⟨rfl, hne⟩, fun st' hst' _ => ⟨n, rfl, ?_⟩, fun h => absurd hyes h⟩
      have hst' : takeIrq P (BitVec.ofNat 32 n) g = st' := by
        simpa [isaExecOnce, hcheck, htake] using hst'
      rw [← hst']
      exact takeIrq_entered n

def userSoft : State Unit :=
  setCsr clintBoard csrMip 0x8 (setCsr clintBoard csrMie 0x8
    ((booted clintBoard [0x13]).enter.setCurPri prvU))

def softAndExternal : State Unit :=
  setCsr clintBoard csrMip 0x208 (setCsr clintBoard csrMie 0x208
    (setCsr clintBoard csrMstatus 0x8 (booted clintBoard [0x13]).enter))

/-- The order of the privileged specification: MEI, MSI, MTI, SEI, SSI, STI. -/
def specOrder : List Nat := [11, 3, 7, 9, 1, 5]

theorem interrupt_selection_refuted :
    (∃ g, sampled clintBoard userSoft = some g ∧ takeable clintBoard g ≠ 0 ∧ g.curPri < prvM ∧
      ¬takesInterrupt clintBoard userSoft) ∧
    ∃ g st', sampled clintBoard softAndExternal = some g ∧
      specOrder.find? (takeable clintBoard g).getLsbD = some 3 ∧
      isaExecOnce clintBoard softAndExternal = some st' ∧
      csr clintBoard st' csrMcause = 9 ||| 0x80000000 := by
  have huser : (sampled clintBoard userSoft).map
      (fun g => (takeable clintBoard g, g.curPri)) = some (0x8, prvU) := by decide +kernel
  have hnot : (fetchAndCheck clintBoard userSoft).map (·.1) = some false := by decide +kernel
  have hboth : (sampled clintBoard softAndExternal).map
      (fun g => specOrder.find? (takeable clintBoard g).getLsbD) = some (some 3) := by
    decide +kernel
  have hcause : (isaExecOnce clintBoard softAndExternal).map (csr clintBoard · csrMcause) =
      some (9 ||| 0x80000000) := by decide +kernel
  obtain ⟨g, hg, hgs⟩ := Option.map_eq_some_iff.mp huser
  obtain ⟨htake, hpri⟩ := Prod.mk.inj hgs
  obtain ⟨g', hg', hfirst⟩ := Option.map_eq_some_iff.mp hboth
  obtain ⟨st', hst', hmcause⟩ := Option.map_eq_some_iff.mp hcause
  refine ⟨⟨g, hg, by rw [htake]; decide, by rw [hpri]; decide, ?_⟩,
    g', st', hg', hfirst, hst', hmcause⟩
  rintro ⟨f, hf⟩
  simp [hf] at hnot

theorem isaExecOnce_interrupt_external :
    ∃ g, (takesInterrupt clintBoard softAndExternal ↔
        (csr clintBoard g csrMstatus).getLsbD 3 = true ∧ takeable clintBoard g ≠ 0) ∧
      (∀ st', isaExecOnce clintBoard softAndExternal = some st' →
        takesInterrupt clintBoard softAndExternal →
        ∃ n, scanOrder.find? (takeable clintBoard g).getLsbD = some n ∧
          InterruptEntered clintBoard g n st') ∧
      (¬takesInterrupt clintBoard softAndExternal →
        isaExecOnce clintBoard softAndExternal = decodeExec clintBoard g) := by
  have h : (sampled clintBoard softAndExternal).map
      (fun g => (delegatedIrqs clintBoard g, decide (irpStub clintBoard g))) = some (0, false) := by
    decide +kernel
  obtain ⟨g, hg, hgs⟩ := Option.map_eq_some_iff.mp h
  obtain ⟨hdel, hstub⟩ := Prod.mk.inj hgs
  exact ⟨g, isaExecOnce_interrupt hg hdel (of_decide_eq_false hstub)⟩

end GsEmu.Riscv32
