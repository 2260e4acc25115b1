import GsEmu.Riscv32.Interrupt
import GsEmu.Riscv32.TrapEntry

/-! One `exec_once` taken apart, runs through calls of `cpu_exec`, and the exception that is pending
between two instructions. -/

namespace GsEmu.Riscv32

variable {D : Type} {P : Platform D} {st₀ st st' g t : State D}

/-! ## The three ways through a step -/

/-- `irp_and` reports an interrupt from its unfinished S-mode branch. -/
def Stubs (P : Platform D) (g : State D) : Prop :=
  csr P g csrMstatus &&& 0x8 ≠ 0 ∧ irpStub P g

def Interrupts (P : Platform D) (g : State D) : Prop :=
  csr P g csrMstatus &&& 0x8 ≠ 0 ∧ ¬irpStub P g ∧ findIrqTypeVal (haveIP P g) ≠ 0xffffffff

def irqVector (P : Platform D) (g : State D) : Word :=
  csr P g csrMtvec + (4 * findIrqTypeVal (haveIP P g) - 1) * getField (csr P g csrMtvec) 0x01

def trapVector (P : Platform D) (t : State D) : Word :=
  if delegated P t then csr P t csrStvec else csr P t csrMtvec

theorem irpTake_cases (P : Platform D) (g : State D) :
    (Stubs P g ∧ irpTake P g = (true, g)) ∨
    (Interrupts P g ∧ irpTake P g = (true, takeIrq P (findIrqTypeVal (haveIP P g)) g)) ∨
    (¬Stubs P g ∧ ¬Interrupts P g ∧ irpTake P g = (false, g)) := by
  unfold irpTake
  by_cases hmie : csr P g csrMstatus &&& 0x8 ≠ 0
  · by_cases hstub : irpStub P g
    · exact .inl ⟨⟨hmie, hstub⟩, by rw [if_pos hmie, if_pos hstub]⟩
    · by_cases hirq : findIrqTypeVal (haveIP P g) ≠ 0xffffffff
      · exact .inr (.inl ⟨⟨hmie, hstub, hirq⟩, by rw [if_pos hmie, if_neg hstub, if_pos hirq]⟩)
      · exact .inr (.inr ⟨fun h => hstub h.2, fun h => hirq h.2.2,
          by rw [if_pos hmie, if_neg hstub, if_neg hirq]⟩)
  · exact .inr (.inr ⟨fun h => hmie h.1, fun h => hmie h.1, by rw [if_neg hmie]⟩)

theorem takeIrq_s : (takeIrq P (findIrqTypeVal (haveIP P g)) g).s =
    { g.s with dnpc := if instAligned (irqVector P g) then irqVector P g else g.s.dnpc } := by
  simp only [takeIrq, State.setCurPri_s, setCsr_s, dnpcAndCheck_s, irqVector, csr_setCsr, slot_mtvec,
    slot_mcause, slot_mepc]
  rfl

theorem takeIrq_haveRISCVException :
    (takeIrq P (findIrqTypeVal (haveIP P g)) g).haveRISCVException =
      if instAligned (irqVector P g) then g.haveRISCVException else riscvExcpInstAddrMis := by
  simp only [takeIrq, State.setCurPri_haveRISCVException, setCsr_haveRISCVException,
    dnpcAndCheck_haveRISCVException, irqVector, csr_setCsr, slot_mtvec, slot_mcause, slot_mepc]
  rfl

theorem getField_one (x : Word) : getField x 0x01 = if x.getLsbD 0 then 1 else 0 :=
  getField_bit 0x01 0 (by decide) rfl rfl x

theorem irqVector_aligned_iff :
    instAligned (irqVector P g) ↔ (csr P g csrMtvec).getLsbD 1 = false := by
  obtain ⟨m, hm⟩ : ∃ m, csr P g csrMtvec = m := ⟨_, rfl⟩
  obtain ⟨n, hn⟩ : ∃ n, findIrqTypeVal (haveIP P g) = n := ⟨_, rfl⟩
  have hbit0 : m.getLsbD 0 = decide (m.toNat % 2 = 1) := Nat.testBit_zero ..
  have hbit1 : m.getLsbD 1 = false ↔ m.toNat % 4 < 2 := by
    rw [BitVec.getLsbD, Nat.testBit_succ, Nat.testBit_zero, decide_eq_false_iff_not]
    omega
  have hone : (1 : Word).toNat = 1 := rfl
  rw [irqVector, hm, hn, hbit1, instAligned, getField_one]
  by_cases h0 : m.toNat % 2 = 1
  · rw [hbit0, decide_eq_true h0]
    change (m + (4 * n - 1) * 1).toNat % 4 = 0 ↔ _
    have h4 : (4 : Word).toNat = 4 := rfl
    rw [mul_one, BitVec.toNat_add, BitVec.toNat_sub, BitVec.toNat_mul, hone, h4]
    omega
  · rw [hbit0, decide_eq_false h0]
    change (m + (4 * n - 1) * 0).toNat % 4 = 0 ↔ _
    rw [mul_zero, add_zero]
    omega

abbrev moveOn (t : State D) : State D := { t with pc := t.s.dnpc }

/-- One `exec_once`: from the sampled state an unfinished interrupt, an interrupt, or the fetched
instruction with its trap. -/
theorem execOnce_cases (h : execOnce P st = some st') : ∃ g, sampled P st.enter = some g ∧
    ((Stubs P g ∧ st' = moveOn g) ∨
    (Interrupts P g ∧ st' = moveOn (takeIrq P (findIrqTypeVal (haveIP P g)) g)) ∨
    (¬Stubs P g ∧ ¬Interrupts P g ∧ ∃ t, decodeBody P g = some t ∧ st' = moveOn (trapTail P t))) := by
  obtain ⟨u, hu, rfl⟩ := execOnce_iff.mp h
  rw [isaExecOnce_iff, fetchAndCheck_eq_sampled] at hu
  rcases hu with hf | ⟨f, t, hf, ht, rfl⟩
  · obtain ⟨g, hg, hf⟩ := Option.map_eq_some_iff.mp hf
    refine ⟨g, hg, ?_⟩
    rcases irpTake_cases P g with ⟨hs, heq⟩ | ⟨hi, heq⟩ | ⟨-, -, heq⟩
    · rw [heq] at hf
      exact .inl ⟨hs, by rw [(Prod.mk.inj hf).2]⟩
    · rw [heq] at hf
      exact .inr (.inl ⟨hi, by rw [(Prod.mk.inj hf).2]⟩)
    · rw [heq] at hf
      simp at hf
  · obtain ⟨g, hg, hf⟩ := Option.map_eq_some_iff.mp hf
    refine ⟨g, hg, ?_⟩
    rcases irpTake_cases P g with ⟨hs, heq⟩ | ⟨hi, heq⟩ | ⟨hs, hi, heq⟩
    · rw [heq] at hf
      simp at hf
    · rw [heq] at hf
      simp at hf
    · rw [heq] at hf
      obtain rfl := (Prod.mk.inj hf).2
      exact .inr (.inr ⟨hs, hi, t, ht, rfl⟩)

theorem csrPresent_mip (p : PrivModes) : csrPresent p csrMip := by
  rw [csrPresent, slot_mip]
  cases p <;> decide

theorem Stubs.not_interrupts (h : Stubs P g) : ¬Interrupts P g := fun hi => hi.2.1 h.2

theorem sampled_afterFetch (h : sampled P st = some g) :
    ∃ inst io skip late, g = afterFetch P st inst io skip late := by
  simp only [sampled, Option.bind_eq_bind, Option.pure_def, Option.bind_eq_some_iff] at h
  obtain ⟨st₁, hf, ⟨late, st₂⟩, ht, h⟩ := h
  obtain ⟨inst, io, skip, hmtip⟩ := fetched_afterFetch hf ht
  exact ⟨inst, io, skip, late, (Option.some.inj h).symm.trans hmtip⟩

theorem csr_sampled (h : sampled P st.enter = some g) {n : Word} (hn : n ≠ csrMip) :
    csr P g n = csr P st n := by
  obtain ⟨inst, io, skip, late, rfl⟩ := sampled_afterFetch h
  refine csr_afterFetch P st.enter inst io skip late fun h3 => hn ?_
  rw [← slot_mip P.priv] at h3
  exact (checkCsrIdx_inj (csrPresent_mip _)).mp h3

/-! ## Runs with calls -/

/-- What can happen between two states of the machine: an event, or a new call of `cpu_exec`, whose
local `Decode` record holds anything. -/
inductive CallEvent (D : Type)
  | event (e : Event D)
  | call (s : Decode)

def CallStep (P : Platform D) (st : State D) : CallEvent D → State D → Prop
  | .event e, st' => MachineStep P st e st'
  | .call s, st' => st' = { st with s := s }

abbrev CallRun (P : Platform D) := Run (CallStep P)

/-! ## The pending exception -/

theorem trapTail_haveRISCVException : (trapTail P t).haveRISCVException = riscvExcpNone := by
  unfold trapTail
  split
  · split <;> rfl
  · exact not_not.mp ‹_›

/-- No interrupt is taken while bit 1 of `mtvec` is set. -/
def VectorsAligned (P : Platform D) (st : State D) : CallEvent D → Prop
  | .event .inst => ∀ g, sampled P st.enter = some g → Interrupts P g →
      (csr P st csrMtvec).getLsbD 1 = false
  | _ => True

theorem callStep_pending_iff (e : CallEvent D) (hclear : st.haveRISCVException = riscvExcpNone)
    (h : CallStep P st e st') :
    st'.haveRISCVException = riscvExcpNone ↔ VectorsAligned P st e := by
  rcases e with (_ | ⟨io, nemuState, skip⟩) | s
  · obtain ⟨g, hg, hcase⟩ := execOnce_cases h
    have hone : VectorsAligned P st (.event .inst) ↔
        (Interrupts P g → instAligned (irqVector P g)) := by
      rw [irqVector_aligned_iff, csr_sampled hg (by decide)]
      simp only [VectorsAligned, hg, Option.some.injEq, forall_eq']
    have hgclear : g.haveRISCVException = riscvExcpNone := by
      obtain ⟨inst, io, skip, late, rfl⟩ := sampled_afterFetch hg
      exact hclear
    rw [hone]
    rcases hcase with ⟨hs, rfl⟩ | ⟨hi, rfl⟩ | ⟨-, hi, t, -, rfl⟩
    · exact iff_of_true hgclear fun hi => absurd hi hs.not_interrupts
    -- the only writer that no trap tail clears: `dnpc_and_check` on the vector
    · change (takeIrq P _ g).haveRISCVException = _ ↔ _
      rw [takeIrq_haveRISCVException, hgclear]
      by_cases ha : instAligned (irqVector P g)
      · rw [if_pos ha]
        exact iff_of_true rfl fun _ => ha
      · rw [if_neg ha]
        exact iff_of_false (by decide) fun hno => ha (hno hi)
    · exact iff_of_true trapTail_haveRISCVException fun hi' => absurd hi' hi
  · obtain rfl : st' = { st with io := io, nemuState := nemuState, skip := skip } := h
    exact iff_of_true hclear trivial
  · obtain rfl : st' = { st with s := s } := h
    exact iff_of_true hclear trivial

theorem reset_clear (h : Reset P st) : st.haveRISCVException = riscvExcpNone := by
  obtain ⟨st₀, -, -, -, rfl⟩ := h
  rfl

/-- From reset no exception is pending at any boundary exactly as long as no interrupt is taken while
bit 1 of `mtvec` is set. -/
theorem pending_clear_iff {tr : List (State D × CallEvent D)} (hreset : Reset P st₀)
    (hrun : CallRun P st₀ tr st) :
    ((∀ q ∈ tr, q.1.haveRISCVException = riscvExcpNone) ∧
      st.haveRISCVException = riscvExcpNone) ↔ ∀ q ∈ tr, VectorsAligned P q.1 q.2 :=
  hrun.invariant_iff (I := fun s => s.haveRISCVException = riscvExcpNone) (reset_clear hreset)
    fun _ e _ hclear hstep => callStep_pending_iff e hclear hstep

theorem runInst_callRun {n : Nat} (h : runInst P n st₀ = some st) :
    ∃ tr, CallRun P st₀ tr st ∧ ∀ q ∈ tr, q.2 = .event .inst := by
  obtain ⟨tr, hrun, hinst⟩ := runInst_run h
  refine ⟨_, hrun.relabel CallEvent.event fun _ _ _ hs => hs, ?_⟩
  intro q hq
  obtain ⟨q', hq', rfl⟩ := List.mem_map.mp hq
  exact congrArg CallEvent.event (hinst q' hq')

def oddVector : State Unit :=
  booted clintBoard [0x30515073, 0x30445073, 0x34445073, 0x30046073, 0x13]

theorem pending_clear_refuted :
    ∃ tr st, Reset clintBoard oddVector ∧ CallRun clintBoard oddVector tr st ∧
      st.haveRISCVException = riscvExcpInstAddrMis := by
  have h : (runInst clintBoard 5 oddVector).map (·.haveRISCVException) =
      some riscvExcpInstAddrMis := by decide +kernel
  obtain ⟨st, hst, hpending⟩ := Option.map_eq_some_iff.mp h
  obtain ⟨tr, hrun, -⟩ := runInst_callRun hst
  exact ⟨tr, st, booted_reset _ _, hrun, hpending⟩

theorem pending_clear_iff_oddVector :
    ∃ tr st, CallRun clintBoard oddVector tr st ∧
      (((∀ q ∈ tr, q.1.haveRISCVException = riscvExcpNone) ∧
        st.haveRISCVException = riscvExcpNone) ↔ ∀ q ∈ tr, VectorsAligned clintBoard q.1 q.2) := by
  have h : (runInst clintBoard 5 oddVector).isSome = true := by decide +kernel
  obtain ⟨st, hst⟩ := Option.isSome_iff_exists.mp h
  obtain ⟨tr, hrun, -⟩ := runInst_callRun hst
  exact ⟨tr, st, hrun, pending_clear_iff (booted_reset _ _) hrun⟩

/-! ## The modes of a run -/

theorem Body.mode_le (b : Body) (h : st.curPri ≤ prvM) : b.mode P st ≤ prvM := by
  cases b with
  | sret =>
    rw [Body.mode, getField_sstatusSpp]
    split <;> decide
  | mret =>
    rw [Body.mode, getField_mstatusMpp]
    split <;> split <;> decide
  | _ => exact h

theorem trapTail_mode_le (h : t.curPri ≤ prvM) : (trapTail P t).curPri ≤ prvM := by
  unfold trapTail
  split
  · split
    · exact (show prvS ≤ prvM by decide)
    · change (illegalInstruction P t).curPri ≤ prvM
      rw [illegalInstruction_curPri]
      exact h
  · exact h

theorem machineStep_mode_le (e : Event D) (hmode : st.curPri ≤ prvM) (h : MachineStep P st e st') :
    st'.curPri ≤ prvM := by
  cases e with
  | inst =>
    obtain ⟨g, hg, hcase⟩ := execOnce_cases h
    have hgmode : g.curPri ≤ prvM := by
      obtain ⟨inst, io, skip, late, rfl⟩ := sampled_afterFetch hg
      exact hmode
    rcases hcase with ⟨-, rfl⟩ | ⟨-, rfl⟩ | ⟨-, -, t, ht, rfl⟩
    · exact hgmode
    · exact BitVec.le_refl prvM
    · obtain ⟨p, hp⟩ := selectInst_exists P.toConfig g.s.inst
      refine trapTail_mode_le ?_
      rw [decodeBody_mode hp ht]
      exact p.body.mode_le hgmode
  | outside io nemuState skip =>
    obtain rfl : st' = { st with io := io, nemuState := nemuState, skip := skip } := h
    exact hmode

theorem callStep_mode_le (e : CallEvent D) (hmode : st.curPri ≤ prvM) (h : CallStep P st e st') :
    st'.curPri ≤ prvM := by
  cases e with
  | event e => exact machineStep_mode_le e hmode h
  | call s =>
    obtain rfl : st' = { st with s := s } := h
    exact hmode

theorem reset_mode_le (h : Reset P st) : st.curPri ≤ prvM := by
  obtain ⟨st₁, -, -, -, rfl⟩ := h
  exact BitVec.le_refl prvM

theorem mode_le_of_run {tr : List (State D × CallEvent D)} (hreset : Reset P st₀)
    (hrun : CallRun P st₀ tr st) : st.curPri ≤ prvM :=
  hrun.state_invariant (I := fun s => s.curPri ≤ prvM) (C := fun _ _ => True) (reset_mode_le hreset)
    (fun _ e _ hs _ hstep => callStep_mode_le e hs hstep) fun _ _ => trivial

end GsEmu.Riscv32
