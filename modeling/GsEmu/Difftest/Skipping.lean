import GsEmu.Difftest.Step

/-! The skip flag over a step and over runs: `irp_and` polls the CLINT at every instruction, and the
poll asks for a skip. -/

namespace GsEmu.Difftest
open Bytes Layout Riscv32

variable {D R : Type} {P : Platform D} {A : Adapter R} {st st' f t : State D} {a v : Word}
  {len : Nat} {o : Operands}

/-! ## The flag within a step -/

def Requested (s : DifftestSkip) : Prop := s.isSkipRef = true ∧ s.skipDutNrInst = 0

def Skips (P : Platform D) : Prop := P.difftest = .qemu ∨ P.difftest = .spike

theorem difftestSkipRef_requested (hP : Skips P) (s : DifftestSkip) :
    Requested (difftestSkipRef P.difftest s) := by
  rcases hP with h | h <;> rw [h] <;> exact ⟨rfl, rfl⟩

theorem mmioRead_skip (h : mmioRead P a len st = some (v, st')) :
    st'.skip = difftestSkipRef P.difftest st.skip := by
  obtain ⟨io, rfl⟩ := mmioRead_bus h
  rfl

theorem mmioWrite_skip (h : mmioWrite P a len v st = some st') :
    st'.skip = difftestSkipRef P.difftest st.skip := by
  obtain ⟨io, rfl⟩ := mmioWrite_bus h
  rfl

/-! A step changes the requests by `difftest_skip_ref` alone. -/

section
variable {Q : DifftestSkip → Prop} (hQ : ∀ s, Q s → Q (difftestSkipRef P.difftest s))
include hQ

theorem paddrRead_skip (h : paddrRead P a len st = some (v, st')) (hr : Q st.skip) : Q st'.skip := by
  cases hp : inPmem a with
  | true =>
    rw [paddrRead_pmem hp] at h
    obtain ⟨w, -, hw⟩ := Option.map_eq_some_iff.mp h
    rwa [← (Prod.mk.inj hw).2]
  | false =>
    rw [paddrRead_mmio hp] at h
    rw [mmioRead_skip h]
    exact hQ _ hr

theorem paddrWrite_skip (h : paddrWrite P a len v st = some st') (hr : Q st.skip) : Q st'.skip := by
  cases hp : inPmem a with
  | true =>
    rw [paddrWrite_pmem hp] at h
    obtain ⟨w, -, rfl⟩ := Option.map_eq_some_iff.mp h
    exact hr
  | false =>
    rw [paddrWrite_mmio hp] at h
    rw [mmioWrite_skip h]
    exact hQ _ hr

theorem mr_skip (h : mr P a len st = some (v, st')) (hr : Q st.skip) : Q st'.skip := by
  rcases mr_cases h with ⟨-, h⟩ | ⟨-, -, rfl⟩
  · exact paddrRead_skip hQ h hr
  · exact hr

theorem mw_skip (h : mw P a len v st = some st') (hr : Q st.skip) : Q st'.skip := by
  rcases mw_cases h with ⟨-, h⟩ | ⟨-, rfl⟩
  · exact paddrWrite_skip hQ h hr
  · exact hr

/-- The first word of the timer check is a device word, so every check asks for a skip. -/
theorem timerLate_skip {late : Bool} (h : timerLate P st = some (late, st'))
    (hr : Q (difftestSkipRef P.difftest st.skip)) : Q st'.skip := by
  simp only [timerLate, Option.bind_eq_bind, Option.pure_def, Option.bind_eq_some_iff] at h
  obtain ⟨⟨hi, st₁⟩, h₁, ⟨cmphi, st₂⟩, h₂, h⟩ := h
  have hr₁ : Q st₁.skip := by
    rcases mr_cases h₁ with ⟨-, hread⟩ | ⟨hn, -⟩
    · rwa [mmioRead_skip ((paddrRead_mmio (by decide)).symm.trans hread)]
    · exact absurd (.inr (by decide)) hn
  have hr₂ := mr_skip hQ h₂ hr₁
  dsimp only at h
  split at h
  · simp only [Option.some.injEq, Prod.mk.injEq] at h
    rwa [← h.2]
  · simp only [Option.bind_eq_some_iff] at h
    obtain ⟨⟨lo, st₃⟩, h₃, ⟨cmplo, st₄⟩, h₄, h⟩ := h
    simp only [Option.some.injEq, Prod.mk.injEq] at h
    rw [← h.2]
    exact mr_skip hQ h₄ (mr_skip hQ h₃ hr₂)

omit hQ in
theorem irpTake_skip {taken : Bool} (h : irpTake P st = (taken, f)) : f.skip = st.skip := by
  unfold irpTake at h
  dsimp only at h
  split at h
  · split at h
    · rw [← (Prod.mk.inj h).2]
    · split at h
      · rw [← (Prod.mk.inj h).2]
        simp only [takeIrq, State.setCurPri_skip, setCsr_skip, dnpcAndCheck_skip]
      · rw [← (Prod.mk.inj h).2]
  · rw [← (Prod.mk.inj h).2]

theorem fetchAndCheck_skip {taken : Bool} (h : fetchAndCheck P st = some (taken, f))
    (hr : Q (difftestSkipRef P.difftest st.skip)) : Q f.skip := by
  simp only [fetchAndCheck, irpAnd, instFetch, Option.bind_eq_bind, Option.pure_def,
    Option.bind_eq_some_iff] at h
  obtain ⟨st₁, ⟨⟨inst, st₀⟩, hfetch, h₁⟩, ⟨late, st₂⟩, ht, h⟩ := h
  obtain rfl := Option.some.inj h₁
  have hask : Q (difftestSkipRef P.difftest st₀.skip) :=
    paddrRead_skip (fun s => hQ (difftestSkipRef P.difftest s)) hfetch hr
  rw [irpTake_skip (Option.some.inj h)]
  exact (timerLate_skip hQ ht hask :)

theorem nemuTrap_skip (hr : Q st.skip) : Q (nemuTrap P st).skip := hQ _ hr

theorem execBody_skip {b : Body} (h : execBody P b o st = some st') (hr : Q st.skip) :
    Q st'.skip := by
  cases b with
  | load len ext =>
    simp only [execBody, execLoad, Option.bind_eq_bind, Option.pure_def,
      Option.bind_eq_some_iff] at h
    obtain ⟨⟨w, st₁⟩, hread, h⟩ := h
    obtain rfl := Option.some.inj h
    exact (mr_skip hQ hread hr :)
  | store len => exact mw_skip hQ h hr
  | lrW =>
    simp only [execBody, execLr, Option.bind_eq_bind, Option.pure_def,
      Option.bind_eq_some_iff] at h
    obtain ⟨⟨w, st₁⟩, hread, h⟩ := h
    obtain rfl := Option.some.inj h
    exact (mr_skip hQ hread hr :)
  | scW =>
    rcases execSc_cases h with ⟨-, -, _, _, _, hw, rfl⟩ | ⟨-, -, rfl⟩ | ⟨-, rfl⟩
    · exact (paddrWrite_skip hQ hw hr :)
    · exact hr
    · exact hr
  | amo op =>
    simp only [execBody, execAmo, Option.bind_eq_bind, Option.pure_def,
      Option.bind_eq_some_iff] at h
    obtain ⟨⟨w, st₁⟩, hread, st₂, hwrite, h⟩ := h
    obtain rfl := Option.some.inj h
    exact (mw_skip hQ hwrite (mr_skip hQ hread hr) :)
  | wfi =>
    simp only [execBody, execWfi, Option.bind_eq_bind] at h
    split at h
    · obtain ⟨⟨w, st₁⟩, hread, hwrite⟩ := Option.bind_eq_some_iff.mp h
      exact paddrWrite_skip hQ hwrite (mr_skip hQ hread hr)
    · obtain rfl := Option.some.inj h
      exact hr
  | _ =>
    rcases (execBody_offBus rfl h).trap with ⟨hskip, -⟩ | ⟨hskip, -⟩
    · rwa [hskip]
    · rw [hskip]
      exact nemuTrap_skip hQ hr

theorem trapTail_skip (hr : Q st.skip) : Q (trapTail P st).skip := by
  unfold trapTail
  split
  · split
    · simpa only [recyException, State.trapPeekException_skip, delegateException, setCsr_skip,
        State.setCurPri_skip, dnpcAndCheck_skip] using hr
    · have hill : ∀ t : State D, Q t.skip → Q (ecallExit P t).skip := by
        intro t ht
        unfold ecallExit
        split
        · exact ht
        · split
          · exact nemuTrap_skip hQ ht
          · exact ht
      apply hill
      simpa only [setCsr_skip, dnpcAndCheck_skip] using hr
  · exact hr

theorem execOnce_skip (h : execOnce P st = some st')
    (hr : Q (difftestSkipRef P.difftest st.skip)) : Q st'.skip := by
  obtain ⟨t, ht, rfl⟩ := execOnce_iff.mp h
  rcases isaExecOnce_iff.mp ht with hf | ⟨f, u, hf, hbody, rfl⟩
  · exact (fetchAndCheck_skip hQ hf hr :)
  · obtain ⟨p, t₀, -, hexec, rfl⟩ := decodeBody_cases hbody
    have hf' : Q (bodyStart f).skip := by
      rw [dnpcAndCheck_skip]
      exact fetchAndCheck_skip hQ hf hr
    have hbody := execBody_skip hQ hexec hf'
    exact trapTail_skip hQ hbody

end

theorem execOnce_requested (hP : Skips P) (h : execOnce P st = some st') : Requested st'.skip :=
  execOnce_skip (fun s _ => difftestSkipRef_requested hP s) h (difftestSkipRef_requested hP st.skip)

/-! ## Runs under differential testing -/

/-- A round of `execute`, and how `difftest_step` left it; or devices, run state and skip requests
change between two rounds. -/
inductive DiffEvent (D R : Type)
  | inst (env : CallEnv) (exit : Exit R)
  | outside (io : Io D) (nemuState : NemuState) (skip : DifftestSkip)

def DiffStep (P : Platform D) (A : Adapter R) (x : State D × R) : DiffEvent D R → State D × R → Prop
  | .inst env exit, x' => execDiff P A env x.1 x.2 = some (exit, x')
  | .outside io nemuState skip, x' =>
    x' = ({ x.1 with io := io, nemuState := nemuState, skip := skip }, x.2)

abbrev DiffRun (P : Platform D) (A : Adapter R) := Run (DiffStep P A)

def bodyAccesses (P : Platform D) (o : Operands) (st : State D) : Body → Word → Prop
  | .load len _, a => a = o.src1 + o.imm ∧ memAccess P a len
  | .store len, a => a = o.src1 + o.imm ∧ memAccess P a len
  | .lrW, a => a = o.src1 ∧ memAccess P a 4
  | .scW, a => a = o.src1 ∧ memAccess P a 4 ∧ scReserved st a
  | .amo _, a => a = o.src1 ∧ memAccess P a 4
  | .wfi, a => a = configClintMmio + mtimelo
  | _, _ => False

theorem bodyAccesses_usesBus {b : Body} (h : bodyAccesses P o st b a) : b.usesBus = true := by
  cases b with
  | load | store | lrW | scW | amo | wfi => rfl
  | _ => exact h.elim

/-- The next instruction is executed out of RAM, touches no device and is under no explicit request:
none is pending, and `set_nemu_state`, which makes one, is not called. -/
structure Plain (P : Platform D) (st : State D) : Prop where
  skip : st.skip = ⟨false, 0, false⟩
  running : st.nemuState.state = .nemuRunning
  fetch : inPmem st.pc = true
  body : ∃ f p t, fetchAndCheck P st.enter = some (false, f) ∧
    selectInst P.toConfig f.s.inst = some p ∧
    (∀ a, bodyAccesses P (operands f p) (bodyStart f) p.body a → inPmem a = true) ∧
    decodeExec P f = some t ∧ t.nemuState = st.nemuState

def Compared (e : DiffEvent D R) : Prop :=
  match e with
  | .inst _ (.compared _) => True
  | _ => False

theorem execDiff_not_compared {env : CallEnv} {x : State D × R} {exit : Exit R} {x' : State D × R}
    (hP : Skips P) (h : execDiff P A env x.1 x.2 = some (exit, x')) :
    exit = .skipDutOne ∨ exit = .copied := by
  obtain ⟨t, ht, h⟩ := Option.bind_eq_some_iff.mp h
  obtain ⟨href, hnr⟩ := execOnce_requested hP ht
  unfold difftestStep at h
  split at h
  · exact .inl (Prod.mk.inj (Option.some.inj h)).1.symm
  · rw [if_neg (not_lt.mpr hnr.le)] at h
    exact .inr (Prod.mk.inj (Option.some.inj h)).1.symm

/-- With Spike or QEMU no instruction is ever compared: a run meets its purpose exactly when there is
nothing in it to compare. -/
theorem run_compared_iff (hP : Skips P) {x₀ x : State D × R}
    {tr : List ((State D × R) × DiffEvent D R)} (h : DiffRun P A x₀ tr x) :
    (∀ q ∈ tr, ∀ env exit, q.2 = .inst env exit → Plain P q.1.1 → Compared q.2) ↔
      ∀ q ∈ tr, ∀ env exit, q.2 = .inst env exit → ¬Plain P q.1.1 := by
  constructor
  · intro hall q hq env exit he hplain
    have hcmp := hall q hq env exit he hplain
    obtain ⟨-, -, -, x', hstep⟩ := h.reaches hq
    rw [he] at hcmp hstep
    rcases execDiff_not_compared hP hstep with rfl | rfl <;> exact hcmp
  · intro hnone q hq env exit he hplain
    exact absurd hplain (hnone q hq env exit he)

def oneAddi : State Unit := booted spikeBoard [0x00100093]

theorem oneAddi_plain : Plain spikeBoard oneAddi where
  skip := rfl
  running := rfl
  fetch := by decide
  body := by
    have hrun : ((fetchAndCheck spikeBoard oneAddi.enter).bind fun x =>
        (decodeExec spikeBoard x.2).map fun t => ((x.1, x.2.s.inst), t.nemuState)) =
        some ((false, 0x00100093), oneAddi.nemuState) := by decide +kernel
    obtain ⟨⟨taken, f⟩, hf, hexec⟩ := Option.bind_eq_some_iff.mp hrun
    obtain ⟨t, ht, hobs⟩ := Option.map_eq_some_iff.mp hexec
    simp only [Prod.mk.injEq] at hobs
    obtain ⟨⟨rfl, hinst⟩, hstate⟩ := hobs
    have hsel : (selectInst spikeBoard.toConfig 0x00100093).map (·.body.usesBus) = some false := by
      decide +kernel
    obtain ⟨p, hp, hbus⟩ := Option.map_eq_some_iff.mp hsel
    refine ⟨f, p, t, hf, (congrArg _ hinst).trans hp, fun a ha => ?_, ht, hstate⟩
    rw [bodyAccesses_usesBus ha] at hbus
    exact absurd hbus (by decide)

theorem oneAddi_round : ∃ x', DiffStep spikeBoard spikeNops (oneAddi, spikeReset)
    (.inst freshEnv .copied) x' := by
  have hsome : (execDiff spikeBoard spikeNops freshEnv oneAddi spikeReset).isSome = true := by
    decide +kernel
  obtain ⟨⟨exit, x'⟩, h⟩ := Option.isSome_iff_exists.mp hsome
  have hone : (execDiff spikeBoard spikeNops freshEnv oneAddi spikeReset).map
      (fun x => match x.1 with | .skipDutOne => true | _ => false) = some false := by decide +kernel
  rcases execDiff_not_compared (x := (oneAddi, spikeReset)) (.inr rfl) h with rfl | rfl
  · simp [h] at hone
  · exact ⟨x', h⟩

theorem run_compared_iff_oneAddi : ¬∀ q ∈ [((oneAddi, spikeReset),
    (DiffEvent.inst freshEnv .copied : DiffEvent Unit SpikeState))], ∀ env exit,
      q.2 = .inst env exit → Plain spikeBoard q.1.1 → Compared q.2 := by
  obtain ⟨x', hstep⟩ := oneAddi_round
  have hrun : DiffRun spikeBoard spikeNops (oneAddi, spikeReset)
      [((oneAddi, spikeReset), .inst freshEnv .copied)] x' := Run.nil.snoc hstep
  rw [run_compared_iff (.inr rfl) hrun]
  exact fun hnone => hnone _ (List.mem_singleton_self _) _ _ rfl oneAddi_plain

/-- The first instruction after reset is not compared. -/
theorem differential_testing_refuted : ¬∀ (x₀ x : State Unit × SpikeState)
    (tr : List ((State Unit × SpikeState) × DiffEvent Unit SpikeState)),
    Reset spikeBoard x₀.1 → DiffRun spikeBoard spikeNops x₀ tr x →
    ∀ q ∈ tr, ∀ env exit, q.2 = .inst env exit → Plain spikeBoard q.1.1 → Compared q.2 := by
  intro hclaim
  obtain ⟨x', hstep⟩ := oneAddi_round
  have hrun : DiffRun spikeBoard spikeNops (oneAddi, spikeReset)
      [((oneAddi, spikeReset), .inst freshEnv .copied)] x' := Run.nil.snoc hstep
  exact hclaim _ _ _ (booted_reset _ _) hrun _ (List.mem_singleton_self _) _ _ rfl oneAddi_plain

end GsEmu.Difftest
