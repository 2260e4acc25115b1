import GsEmu.Difftest.Transfer
import GsEmu.Riscv32.Step

/-! `difftest_step` of `cpu/difftest/dut.c` and `isa_difftest_checkregs`, for any reference; and what
a checking step does to the reference. -/

namespace GsEmu.Difftest
open Bytes Layout Riscv32

variable {D R : Type}

/-- What the program does not determine at a call: the memory from the eight-byte block `tmp` on, the
stack under `ref_r`, the address in `cpu.amw`, and what `scanf` reads. -/
structure CallEnv where
  heap : Memory
  stack : Memory
  amw : BitVec 64
  answer : Option Int

def cpuBytes (amw : BitVec 64) (st : State D) : Memory :=
  let m := storeWords (fun _ => 0) (off cpuState "csr") (List.ofFn fun i : Fin 64 => st.csr i)
  let m := storeWords m (off cpuState "amw") [amw.setWidth 32, (amw >>> 32).setWidth 32]
  putRegs cpuState ⟨st.gpr, st.pc⟩ m

/-! ## `isa_difftest_checkregs` -/

def gprError (refR : Memory) (st : State D) (i : Reg) : Bool :=
  let dert := (regFileAt cpuState refR).x i - st.gpr i
  decide ((regFileAt cpuState refR).x i ≠ st.gpr i) && (0x100 : Word).slt dert.abs

def csrError (c : Config) (refR : Memory) (st : State D) : Bool :=
  decide (c.difftest = .spike) &&
    (List.range (nrCsr c.priv - 1)).any fun i => decide (csrAt cpuState refR i ≠ st.csr i)

def regsDiffer (c : Config) (refR : Memory) (st : State D) : Bool :=
  (List.finRange 32).any (fun i => gprError refR st (.ofFin i)) || csrError c refR st

def difftestSkipDut (A : Adapter R) (nrRef : Nat) (nrDut : Int) (st : State D) (r : R) :
    State D × R :=
  ({ st with skip := { st.skip with skipDutNrInst := st.skip.skipDutNrInst + nrDut } },
    A.exec^[nrRef] r)

def difftestSkipRefOne (st : State D) : State D :=
  { st with skip := { st.skip with skipDutOneInst := true } }

/-- A wrong `pc` asks on the terminal what to do. -/
def isaDifftestCheckregs (P : Platform D) (A : Adapter R) (answer : Option Int) (refR : Memory)
    (st : State D) (r : R) : Bool × State D × R :=
  if st.pc ≠ (regFileAt cpuState refR).pc then
    match answer with
    | some 0 => (true, st, r)
    | some 1 => (false, difftestSkipDut A 1 0 st r)
    | some 2 => (false, difftestSkipRefOne st, r)
    | _ => (false, st, r)
  else (!regsDiffer P.toConfig refR st, st, r)

def checkregs (P : Platform D) (A : Adapter R) (answer : Option Int) (refR : Memory) (pc : Word)
    (st : State D) (r : R) : State D × R :=
  let res := isaDifftestCheckregs P A answer refR st r
  let st := res.2.1
  if res.1 then res.2
  else ({ st with nemuState := { st.nemuState with state := .nemuAbort, haltPc := pc } }, res.2.2)

/-! ## `difftest_step` -/

/-- By which way `difftest_step` returns; `compared` carries the reference whose registers went to
`checkregs`. -/
inductive Exit (R : Type)
  | skipDutOne
  | caughtUp
  | catchingUp
  | copied
  | compared (r : R)

/-- `none` is a panic. The build whose `regcpy` writes to the buffer never raises `is_skip_ref`, so
the copy of `cpu` is only read. -/
def difftestStep (P : Platform D) (A : Adapter R) (env : CallEnv) (pc npc : Word) (st : State D)
    (r : R) : Option (Exit R × State D × R) :=
  if st.skip.skipDutOneInst then
    some (.skipDutOne, { st with skip := { st.skip with skipDutOneInst := false } }, r)
  else if 0 < st.skip.skipDutNrInst then
    let refR := A.toDut r env.stack
    if (regFileAt cpuState refR).pc = npc then
      some (.caughtUp, checkregs P A env.answer refR npc
        { st with skip := { st.skip with skipDutNrInst := 0 } } r)
    else if st.skip.skipDutNrInst - 1 = 0 then none
    else
      some (.catchingUp,
        { st with skip := { st.skip with skipDutNrInst := st.skip.skipDutNrInst - 1 } }, r)
  else if st.skip.isSkipRef then
    some (.copied, { st with skip := { st.skip with isSkipRef := false } },
      (A.toRef (cpuBytes env.amw st) r).2)
  else do
    let r := A.exec r
    let (tmp, r) := A.toRef env.heap r
    let st ← paddrWrite P (configClintMmio + mtimelo) 8 (readLE tmp 0 4) st
    let refR := A.toDut r env.stack
    return (.compared r, checkregs P A env.answer refR pc st r)

def execDiff (P : Platform D) (A : Adapter R) (env : CallEnv) (st : State D) (r : R) :
    Option (Exit R × State D × R) := do
  let st ← execOnce P st
  difftestStep P A env st.s.pc st.pc st r

/-! ## A small set-up -/

def spikeBoard : Platform Unit := { clintBoard with difftest := .spike }

def spikeNops : Adapter SpikeState :=
  spikeAdapter spikeBoard.toConfig fun r => { r with regs := { r.regs with pc := r.regs.pc + 4 } }

def spikeReset : SpikeState := ⟨⟨fun _ => 0, resetVector⟩, fun _ => 0⟩

def freshEnv : CallEnv := ⟨fun _ => 0, fun _ => 0, 0, none⟩

/-! ## The checking step -/

variable {P : Platform D} {A : Adapter R} {env : CallEnv} {pc npc : Word} {st st' : State D}
  {r r' : R} {exit : Exit R}

def NoSkip (s : DifftestSkip) : Prop :=
  s.skipDutOneInst = false ∧ s.skipDutNrInst ≤ 0 ∧ s.isSkipRef = false

/-- The reference after `difftest_exec(1)` and `difftest_regcpy(tmp, DIFFTEST_TO_REF)`. -/
def seenRef (A : Adapter R) (env : CallEnv) (r : R) : R := (A.toRef env.heap (A.exec r)).2

/-- The prompt appears and is answered by a request to step the reference again. -/
def asksRefStep (A : Adapter R) (env : CallEnv) (st : State D) (r : R) : Prop :=
  env.answer = some 1 ∧ st.pc ≠ (regFileAt cpuState (A.toDut (seenRef A env r) env.stack)).pc

theorem isaDifftestCheckregs_fails {answer : Option Int} {refR : Memory} (ha : answer ≠ some 0)
    (h : st.pc ≠ (regFileAt cpuState refR).pc ∨ regsDiffer P.toConfig refR st = true) :
    (isaDifftestCheckregs P A answer refR st r).1 = false ∧
      (isaDifftestCheckregs P A answer refR st r).2.1.nemuState = st.nemuState := by
  unfold isaDifftestCheckregs
  by_cases hpc : st.pc ≠ (regFileAt cpuState refR).pc
  · rw [if_pos hpc]
    split
    · exact absurd rfl ha
    · exact ⟨rfl, rfl⟩
    · exact ⟨rfl, rfl⟩
    · exact ⟨rfl, rfl⟩
  · rw [if_neg hpc, h.resolve_left hpc]
    exact ⟨rfl, rfl⟩

theorem checkregs_flags {refR : Memory} {answer : Option Int} (ha : answer ≠ some 0)
    (h : st.pc ≠ (regFileAt cpuState refR).pc ∨ regsDiffer P.toConfig refR st = true) :
    (checkregs P A answer refR pc st r).1.nemuState =
      { st.nemuState with state := .nemuAbort, haltPc := pc } := by
  obtain ⟨hok, hst⟩ := isaDifftestCheckregs_fails (P := P) (A := A) (r := r) ha h
  simp only [checkregs, hok, Bool.false_eq_true, if_false, hst]

theorem checkregs_ref (P : Platform D) (A : Adapter R) (answer : Option Int) (refR : Memory)
    (pc : Word) (st : State D) (r : R) : (checkregs P A answer refR pc st r).2 =
      (isaDifftestCheckregs P A answer refR st r).2.2 := by
  unfold checkregs
  dsimp only
  split <;> rfl

theorem checkregs_asked {answer : Option Int} {refR : Memory} (ha : answer = some 1)
    (hpc : st.pc ≠ (regFileAt cpuState refR).pc) :
    (checkregs P A answer refR pc st r).2 = A.exec r := by
  rw [checkregs_ref, ha]
  unfold isaDifftestCheckregs
  rw [if_pos hpc]
  rfl

theorem checkregs_unasked {answer : Option Int} {refR : Memory}
    (h : ¬(answer = some 1 ∧ st.pc ≠ (regFileAt cpuState refR).pc)) :
    (checkregs P A answer refR pc st r).2 = r := by
  rw [checkregs_ref]
  unfold isaDifftestCheckregs
  by_cases hpc : st.pc ≠ (regFileAt cpuState refR).pc
  · rw [if_pos hpc]
    split
    · rfl
    · exact absurd ⟨rfl, hpc⟩ h
    · rfl
    · rfl
  · rw [if_neg hpc]

theorem difftestStep_noSkip (hskip : NoSkip st.skip)
    (h : difftestStep P A env pc npc st r = some (exit, st', r')) :
    ∃ io skip, exit = .compared (seenRef A env r) ∧
      (st', r') = checkregs P A env.answer (A.toDut (seenRef A env r) env.stack) pc
        (st.setBus st.pmem io skip) (seenRef A env r) := by
  obtain ⟨hone, hnr, href⟩ := hskip
  unfold difftestStep at h
  rw [if_neg (by simp [hone]), if_neg (by omega), if_neg (by simp [href])] at h
  simp only [Option.bind_eq_bind, Option.pure_def, Option.bind_eq_some_iff, Option.some.injEq,
    Prod.mk.injEq] at h
  obtain ⟨st₁, hw, rfl, hcheck⟩ := h
  obtain ⟨pmem, io, skip, rfl, hpm⟩ := paddrWrite_bus hw
  rw [hpm clintMtimelo_not_inPmem] at hcheck
  exact ⟨io, skip, rfl, hcheck.symm⟩

theorem difftestStep_compared {q : R}
    (h : difftestStep P A env pc npc st r = some (.compared q, st', r')) : NoSkip st.skip := by
  unfold difftestStep at h
  split at h
  · simp at h
  · rename_i hone
    split at h
    · dsimp only at h
      split at h
      · simp at h
      · split at h <;> simp at h
    · rename_i hnr
      split at h
      · simp at h
      · rename_i href
        exact ⟨Bool.eq_false_iff.mpr hone, not_lt.mp hnr, Bool.eq_false_iff.mpr href⟩

theorem compared_flags {q : R}
    (h : difftestStep P A env pc npc st r = some (.compared q, st', r'))
    (ha : env.answer ≠ some 0) (hdiff : st.pc ≠ (regFileAt cpuState (A.toDut q env.stack)).pc ∨
      regsDiffer P.toConfig (A.toDut q env.stack) st = true) :
    st'.nemuState = { st.nemuState with state := .nemuAbort, haltPc := pc } := by
  obtain ⟨io, skip, hq, hcheck⟩ := difftestStep_noSkip (difftestStep_compared h) h
  cases hq
  have hst : st'.nemuState = _ := congrArg (·.1.nemuState) hcheck
  exact hst.trans (checkregs_flags ha hdiff)

/-- `regcpy` to the reference overwrites its registers by what the buffer holds. -/
structure Settable (A : Adapter R) (regs : R → RegFile) (decode : Memory → RegFile) : Prop where
  toRef_regs : ∀ buf r, regs (A.toRef buf r).2 = decode buf

theorem spikeAdapter_settable (c : Config) (exec : SpikeState → SpikeState) :
    Settable (spikeAdapter c exec) SpikeState.regs spikeDecode :=
  ⟨fun _ _ => rfl⟩

theorem qemuAdapter_settable (exec : RegFile → RegFile) (rest : Memory) :
    Settable (qemuAdapter exec rest) id fun buf =>
      ⟨(regFileAt cpuState buf).x, csrAt cpuState buf 0⟩ :=
  ⟨fun _ _ => qemu_toRef exec⟩

/-- The one-instruction successor is what is compared and what is left behind exactly when the memory
at `tmp` spells its registers and no further step is asked for that changes them. -/
theorem checkingStep_iff {regs : R → RegFile} {decode : Memory → RegFile}
    (hA : Settable A regs decode) (hskip : NoSkip st.skip)
    (h : difftestStep P A env pc npc st r = some (exit, st', r')) :
    ((∃ q, exit = .compared q ∧ regs q = regs (A.exec r)) ∧ regs r' = regs (A.exec r)) ↔
      decode env.heap = regs (A.exec r) ∧
        (asksRefStep A env st r → regs (A.exec (seenRef A env r)) = regs (A.exec r)) := by
  obtain ⟨io, skip, rfl, hcheck⟩ := difftestStep_noSkip hskip h
  have hseen : regs (seenRef A env r) = decode env.heap := hA.toRef_regs _ _
  have hr' : r' = (checkregs P A env.answer (A.toDut (seenRef A env r) env.stack) pc
      (st.setBus st.pmem io skip) (seenRef A env r)).2 := congrArg Prod.snd hcheck
  have hcmp : (∃ q, Exit.compared (seenRef A env r) = .compared q ∧ regs q = regs (A.exec r)) ↔
      decode env.heap = regs (A.exec r) := by
    rw [← hseen]
    constructor
    · rintro ⟨q, hq, h⟩
      cases hq
      exact h
    · exact fun h => ⟨_, rfl, h⟩
  rw [hcmp]
  apply and_congr_right
  intro hheap
  by_cases hask : asksRefStep A env st r
  · have hleft : r' = A.exec (seenRef A env r) := hr'.trans (checkregs_asked hask.1 hask.2)
    rw [hleft]
    exact ⟨fun h _ => h, fun h => h hask⟩
  · have hleft : r' = seenRef A env r := hr'.trans (checkregs_unasked hask)
    rw [hleft, hseen, hheap]
    exact ⟨fun _ h => absurd h hask, fun _ => rfl⟩

/-- A block of zeros does not spell the successor of the reset state. -/
theorem checkingStep_iff_zeros : ∃ exit st' r',
    difftestStep spikeBoard spikeNops freshEnv resetVector resetVector (booted spikeBoard [])
      spikeReset = some (exit, st', r') ∧
    ¬((∃ q, exit = .compared q ∧ q.regs = (spikeNops.exec spikeReset).regs) ∧
      r'.regs = (spikeNops.exec spikeReset).regs) := by
  have hsome : (difftestStep spikeBoard spikeNops freshEnv resetVector resetVector
      (booted spikeBoard []) spikeReset).isSome = true := by decide +kernel
  obtain ⟨⟨exit, st', r'⟩, h⟩ := Option.isSome_iff_exists.mp hsome
  have hset : Settable spikeNops SpikeState.regs spikeDecode := spikeAdapter_settable _ _
  refine ⟨exit, st', r', h, fun hprop => ?_⟩
  have hheap := ((checkingStep_iff hset ⟨rfl, le_rfl, rfl⟩ h).mp hprop).1
  have hpc := congrArg RegFile.pc hheap
  revert hpc
  decide +kernel

/-- The first checking step sends Spike to address 0. -/
theorem checkingStep_refuted : ¬∀ (env : CallEnv) (pc npc : Word) (st st' : State Unit)
    (r r' : SpikeState) (exit : Exit SpikeState), NoSkip st.skip →
    difftestStep spikeBoard spikeNops env pc npc st r = some (exit, st', r') →
    r'.regs = (spikeNops.exec r).regs := by
  intro hclaim
  have hrun : (difftestStep spikeBoard spikeNops freshEnv resetVector resetVector
      (booted spikeBoard []) spikeReset).map (·.2.2.regs.pc) = some 0 := by decide +kernel
  obtain ⟨⟨exit, st', r'⟩, h, hpc⟩ := Option.map_eq_some_iff.mp hrun
  have hnext := congrArg RegFile.pc (hclaim _ _ _ _ _ _ _ _ ⟨rfl, le_rfl, rfl⟩ h)
  rw [hpc] at hnext
  revert hnext
  decide +kernel

end GsEmu.Difftest
