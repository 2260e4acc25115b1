import GsEmu.Lib.Run
import GsEmu.Riscv32.Frame

/-! `isa_exec_once` taken apart: the fetch, the interrupt check, the body and the trap tail; and the
machine as a transition system. -/

namespace GsEmu.Riscv32

variable {D : Type} {P : Platform D} {st st' f t : State D}

/-! ## The matched body -/

theorem selectInst_exists (c : Config) (inst : Word) : ∃ p, selectInst c inst = some p := by
  rw [← Option.isSome_iff_exists, selectInst, List.find?_isSome]
  refine ⟨rvInv.getLast (by simp [rvInv]), List.mem_append_right _ (List.getLast_mem _), ?_⟩
  simp [rvInv, Instpat.hits, Pattern.hits]

abbrev bodyStart (f : State D) : State D := dnpcAndCheck f.s.snpc f

abbrev operands (f : State D) (p : Instpat) : Operands := decodeOperand f.s.inst p.type f.gpr

theorem decodeBody_eq {p : Instpat} (hp : selectInst P.toConfig f.s.inst = some p) :
    decodeBody P f = (execBody P p.body (operands f p) (bodyStart f)).map (resetFixed P) := by
  simp only [decodeBody, execSelected, dnpcAndCheck_s, dnpcAndCheck_gpr, hp]
  exact Option.map_eq_bind.symm

theorem decodeBody_cases (h : decodeBody P f = some t) :
    ∃ p t₀, selectInst P.toConfig f.s.inst = some p ∧
      execBody P p.body (operands f p) (bodyStart f) = some t₀ ∧ t = resetFixed P t₀ := by
  obtain ⟨p, hp⟩ := selectInst_exists P.toConfig f.s.inst
  rw [decodeBody_eq hp] at h
  obtain ⟨t₀, hbody, ht⟩ := Option.map_eq_some_iff.mp h
  exact ⟨p, t₀, hp, hbody, ht.symm⟩

theorem csr_bodyStart (f : State D) (n : Word) : csr P (bodyStart f) n = csr P f n :=
  csr_dnpcAndCheck ..

theorem decodeBody_mode {p : Instpat} (hp : selectInst P.toConfig f.s.inst = some p)
    (h : decodeBody P f = some t) : t.curPri = p.body.mode P f := by
  obtain ⟨q, t₀, hq, hbody, rfl⟩ := decodeBody_cases h
  obtain rfl := Option.some.inj (hp.symm.trans hq)
  have hmode : t₀.curPri = p.body.mode P (bodyStart f) := (execBody_control hbody).2.1
  change t₀.curPri = _
  rw [hmode]
  cases p.body <;> simp only [Body.mode, csr_bodyStart, dnpcAndCheck_curPri]

theorem Body.csrAfter_bodyStart (b : Body) (o : Operands) (f : State D) (n : Word) :
    b.csrAfter P o (bodyStart f) n = b.csrAfter P o f n := by
  cases b <;> simp only [Body.csrAfter, csr_bodyStart, dnpcAndCheck_s]

section resetFixed
variable (P : Platform D) (st : State D)

@[simp] theorem resetFixed_curPri : (resetFixed P st).curPri = st.curPri := rfl
@[simp] theorem resetFixed_s : (resetFixed P st).s = st.s := rfl
@[simp] theorem resetFixed_amw : (resetFixed P st).amw = st.amw := rfl
@[simp] theorem resetFixed_pmem : (resetFixed P st).pmem = st.pmem := rfl
@[simp] theorem resetFixed_io : (resetFixed P st).io = st.io := rfl
@[simp] theorem resetFixed_skip : (resetFixed P st).skip = st.skip := rfl
@[simp] theorem resetFixed_nemuState : (resetFixed P st).nemuState = st.nemuState := rfl
@[simp] theorem resetFixed_haveRISCVException :
    (resetFixed P st).haveRISCVException = st.haveRISCVException := rfl
@[simp] theorem resetFixed_riscvExceptionTval :
    (resetFixed P st).riscvExceptionTval = st.riscvExceptionTval := rfl
@[simp] theorem resetFixed_gpr : (resetFixed P st).gpr = Function.update st.gpr 0 0 := rfl

theorem resetFixed_csr : (resetFixed P st).csr =
    Function.update st.csr 10 (st.csr 10 &&& ~~~0x4) := by
  simp only [resetFixed, setCsr_csr, State.setR_csr, csr, slot_misa]

theorem csr_resetFixed {n : Word} (hn : checkCsrIdx P.priv n ≠ 10) :
    csr P (resetFixed P st) n = csr P st n := by
  rw [csr, resetFixed_csr, Function.update_of_ne hn, csr]

theorem csr_resetFixed_of_ne {n : Word} (hn : n ≠ csrMisa) :
    csr P (resetFixed P st) n = csr P st n := by
  apply csr_resetFixed
  intro h
  rw [← slot_misa P.priv] at h
  exact hn ((checkCsrIdx_inj (csrPresent_misa _)).mp h)

theorem csr_resetFixed_misa : csr P (resetFixed P st) csrMisa = csr P st csrMisa &&& ~~~0x4 := by
  rw [csr, resetFixed_csr, slot_misa, Function.update_self, csr, slot_misa]

end resetFixed

theorem decodeBody_csr {p : Instpat} (hp : selectInst P.toConfig f.s.inst = some p)
    (h : decodeBody P f = some t) {n : Word} (hn : csrPresent P.priv n) (hmisa : n ≠ csrMisa) :
    csr P t n = p.body.csrAfter P (operands f p) f n := by
  obtain ⟨q, t₀, hq, hbody, rfl⟩ := decodeBody_cases h
  obtain rfl := Option.some.inj (hp.symm.trans hq)
  rw [csr_resetFixed_of_ne P t₀ hmisa, execBody_csr hbody hn, Body.csrAfter_bodyStart]

/-! ## The fetch and the interrupt check -/

/-- The fetched word, the bus and `MTIP` are all that the fetch and the timer check change. -/
def afterFetch (P : Platform D) (st : State D) (inst : Word) (io : Io D) (skip : DifftestSkip)
    (late : Bool) : State D :=
  setMtip P late
    ({ st with s := { st.s with inst := inst, snpc := st.s.snpc + 4 } }.setBus st.pmem io skip)

theorem mr_clint {off : Word} (hoff : (configClintMmio + off).toNat % 4 = 0) {v : Word}
    (h : mr P (configClintMmio + off) 4 st = some (v, st')) :
    ∃ io skip, st' = st.setBus st.pmem io skip := by
  rcases mr_bus_cases h with ⟨-, -, hbus⟩ | ⟨hn, -⟩
  · exact hbus
  · exact absurd (.inr hoff) hn

theorem timerLate_bus {late : Bool} (h : timerLate P st = some (late, st')) :
    ∃ io skip, st' = st.setBus st.pmem io skip := by
  simp only [timerLate, Option.bind_eq_bind, Option.pure_def, Option.bind_eq_some_iff] at h
  obtain ⟨⟨hi, st₁⟩, h₁, ⟨cmphi, st₂⟩, h₂, h⟩ := h
  obtain ⟨io₁, skip₁, rfl⟩ := mr_clint (by decide) h₁
  obtain ⟨io₂, skip₂, rfl⟩ := mr_clint (by decide) h₂
  dsimp only at h
  split at h
  · simp only [Option.some.injEq, Prod.mk.injEq] at h
    exact ⟨io₂, skip₂, h.2.symm⟩
  · simp only [Option.bind_eq_some_iff] at h
    obtain ⟨⟨lo, st₃⟩, h₃, ⟨cmplo, st₄⟩, h₄, h⟩ := h
    obtain ⟨io₃, skip₃, rfl⟩ := mr_clint (by decide) h₃
    obtain ⟨io₄, skip₄, rfl⟩ := mr_clint (by decide) h₄
    simp only [Option.some.injEq, Prod.mk.injEq] at h
    exact ⟨io₄, skip₄, h.2.symm⟩

theorem fetched_afterFetch {st₁ st₂ : State D} {late : Bool} (hf : instFetch P st = some st₁)
    (ht : timerLate P st₁ = some (late, st₂)) :
    ∃ inst io skip, setMtip P late st₂ = afterFetch P st inst io skip late := by
  simp only [instFetch, Option.bind_eq_bind, Option.pure_def, Option.bind_eq_some_iff] at hf
  obtain ⟨⟨inst, st₀⟩, hr, h₁⟩ := hf
  obtain ⟨io, skip, rfl⟩ := paddrRead_bus hr
  obtain rfl := Option.some.inj h₁
  obtain ⟨io', skip', rfl⟩ := timerLate_bus ht
  exact ⟨inst, io', skip', rfl⟩

theorem fetchAndCheck_cases {taken : Bool} (h : fetchAndCheck P st = some (taken, f)) :
    ∃ inst io skip late, (taken, f) = irpTake P (afterFetch P st inst io skip late) := by
  simp only [fetchAndCheck, irpAnd, Option.bind_eq_bind, Option.pure_def, Option.bind_eq_some_iff] at h
  obtain ⟨st₁, hf, ⟨late, st₂⟩, ht, h⟩ := h
  obtain ⟨inst, io, skip, hmtip⟩ := fetched_afterFetch hf ht
  refine ⟨inst, io, skip, late, ?_⟩
  rw [← hmtip]
  exact (Option.some.inj h).symm

theorem irpTake_false (h : irpTake P st = (false, f)) : f = st := by
  unfold irpTake at h
  dsimp only at h
  split at h
  · split at h
    · simp at h
    · split at h
      · simp at h
      · exact (Prod.mk.inj h).2.symm
  · exact (Prod.mk.inj h).2.symm

theorem fetchAndCheck_not_taken (h : fetchAndCheck P st = some (false, f)) :
    ∃ inst io skip late, f = afterFetch P st inst io skip late := by
  obtain ⟨inst, io, skip, late, h⟩ := fetchAndCheck_cases h
  exact ⟨inst, io, skip, late, irpTake_false h.symm⟩

section afterFetch
variable (P : Platform D) (st : State D) (inst : Word) (io : Io D) (skip : DifftestSkip)
  (late : Bool)

@[simp] theorem afterFetch_gpr : (afterFetch P st inst io skip late).gpr = st.gpr := rfl
@[simp] theorem afterFetch_amw : (afterFetch P st inst io skip late).amw = st.amw := rfl
@[simp] theorem afterFetch_pc : (afterFetch P st inst io skip late).pc = st.pc := rfl
@[simp] theorem afterFetch_curPri : (afterFetch P st inst io skip late).curPri = st.curPri := rfl
@[simp] theorem afterFetch_pmem : (afterFetch P st inst io skip late).pmem = st.pmem := rfl
@[simp] theorem afterFetch_haveRISCVException :
    (afterFetch P st inst io skip late).haveRISCVException = st.haveRISCVException := rfl
@[simp] theorem afterFetch_riscvExceptionTval :
    (afterFetch P st inst io skip late).riscvExceptionTval = st.riscvExceptionTval := rfl
@[simp] theorem afterFetch_s : (afterFetch P st inst io skip late).s =
    { st.s with inst := inst, snpc := st.s.snpc + 4 } := rfl

theorem afterFetch_csr : (afterFetch P st inst io skip late).csr = Function.update st.csr 3
    (setField (st.csr 3) mipMtip (if late then 1 else 0)) := by
  simp only [afterFetch, setMtip, setCsr_csr, State.setBus_csr, csr, slot_mip]

theorem csr_afterFetch {n : Word} (hn : checkCsrIdx P.priv n ≠ 3) :
    csr P (afterFetch P st inst io skip late) n = csr P st n := by
  rw [csr, afterFetch_csr, Function.update_of_ne hn, csr]

end afterFetch

/-! ## The step -/

theorem isaExecOnce_iff : isaExecOnce P st = some st' ↔
    fetchAndCheck P st = some (true, st') ∨
      ∃ f t, fetchAndCheck P st = some (false, f) ∧ decodeBody P f = some t ∧
        st' = trapTail P t := by
  unfold isaExecOnce
  constructor
  · intro h
    obtain ⟨⟨taken, f⟩, hf, h⟩ := Option.bind_eq_some_iff.mp h
    cases taken with
    | true => exact .inl (hf.trans (congrArg (fun x => some (true, x)) (Option.some.inj h)))
    | false =>
      obtain ⟨t, ht, h⟩ := Option.bind_eq_some_iff.mp (show decodeExec P f = some st' from h)
      exact .inr ⟨f, t, hf, ht, (Option.some.inj h).symm⟩
  · rintro (hf | ⟨f, t, hf, ht, rfl⟩)
    · exact Option.bind_eq_some_iff.mpr ⟨_, hf, rfl⟩
    · exact Option.bind_eq_some_iff.mpr ⟨_, hf, Option.bind_eq_some_iff.mpr ⟨t, ht, rfl⟩⟩

/-! ## The machine -/

/-- What happens next: the hart executes once, or devices, run state and skip requests change
between two instructions. -/
inductive Event (D : Type)
  | inst
  | outside (io : Io D) (nemuState : NemuState) (skip : DifftestSkip)

def MachineStep (P : Platform D) (st : State D) : Event D → State D → Prop
  | .inst, st' => execOnce P st = some st'
  | .outside io nemuState skip, st' =>
    st' = { st with io := io, nemuState := nemuState, skip := skip }

abbrev MachineRun (P : Platform D) := Run (MachineStep P)

theorem execOnce_iff : execOnce P st = some st' ↔
    ∃ t, isaExecOnce P st.enter = some t ∧ st' = { t with pc := t.s.dnpc } := by
  unfold execOnce
  rw [Option.bind_eq_bind, Option.bind_eq_some_iff]
  exact exists_congr fun t => and_congr_right fun _ => by simp only [Option.pure_def,
    Option.some.injEq, eq_comm]

def runInst (P : Platform D) : Nat → State D → Option (State D)
  | 0, st => some st
  | n + 1, st => do
    let st ← runInst P n st
    execOnce P st

theorem runInst_run {n : Nat} (h : runInst P n st = some st') :
    ∃ tr, MachineRun P st tr st' ∧ ∀ q ∈ tr, q.2 = .inst := by
  induction n generalizing st' with
  | zero =>
    obtain rfl := Option.some.inj h
    exact ⟨[], .nil, by simp⟩
  | succ n ih =>
    obtain ⟨u, hu, hstep⟩ := Option.bind_eq_some_iff.mp (show (runInst P n st).bind _ = _ from h)
    obtain ⟨tr, hrun, hinst⟩ := ih hu
    have hlast : MachineStep P u .inst st' := hstep
    refine ⟨tr ++ [(u, .inst)], hrun.snoc hlast, ?_⟩
    intro q hq
    rcases List.mem_append.mp hq with hq | hq
    · exact hinst q hq
    · rw [List.mem_singleton.mp hq]

end GsEmu.Riscv32
