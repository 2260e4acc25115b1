import GsEmu.Difftest.Boot
import GsEmu.Difftest.CpuExec
import GsEmu.Difftest.Skipping

/-! Differential testing against `rv32ima-diff` is silent as long as the program keeps to the shared
instructions: from `init_difftest` on, whatever the debugger asks for, no comparison fails. -/

namespace GsEmu.Difftest
open Bytes Riscv32 MiniRv32ima

variable {D : Type} {P : Platform D} {st st' t : State D} {h : MiniRv32ima.Host} {H : Host D} {x y : Emu D Ref}
  {b : Body} {o : Operands} {e : Effect} {n : Nat} {image : Memory}

/-! ## Time passes -/

def later (el : Word) (s : MiniRV32IMAState) : MiniRV32IMAState :=
  { s with
    timerl := s.timerl + el
    timerh := if s.timerl + el < s.timerl then s.timerh + 1 else s.timerh }

theorem advanceTimer_later (el : Word) (s : MiniRV32IMAState) :
    advanceTimer 0 (later el s) = advanceTimer el s := by
  have hzero : s.timerl + el + 0 = s.timerl + el := BitVec.add_zero _
  unfold advanceTimer later
  dsimp only
  rw [hzero, if_neg (BitVec.lt_irrefl _)]
  by_cases hcarry : s.timerl + el < s.timerl
  · simp only [if_pos hcarry]
  · simp only [if_neg hcarry]

theorem miniStep_later (h : MiniRv32ima.Host) (el : Word) (k : Nat) (s : MiniRV32IMAState) (image : Memory) :
    miniRV32IMAStep h 0 k (later el s) image = miniRV32IMAStep h el k s image := by
  rw [miniRV32IMAStep, advanceTimer_later]
  rfl

theorem Lockstep.later {s : MiniRV32IMAState} (hl : Lockstep P n st s image) (el : Word) :
    Lockstep P n st (later el s) image :=
  ⟨hl.quiet, hl.regs, hl.pc, hl.ram, hl.awake, hl.mie⟩

/-! ## The run state -/

theorem effect_nemuState {pc : Word} (he : effect b o pc image = some e) (h : execBody P b o st = some t) :
    t.nemuState = st.nemuState := by
  cases b with
  | write =>
    obtain rfl := Option.some.inj h
    rfl
  | jal =>
    obtain rfl := Option.some.inj h
    unfold execJal
    split <;> rfl
  | jalr =>
    obtain rfl := Option.some.inj h
    unfold execJalr
    split <;> rfl
  | branch =>
    obtain rfl := Option.some.inj h
    unfold Riscv32.execBranch
    split
    · exact dnpcAndCheck_nemuState _ _
    · rfl
  | slli =>
    obtain rfl := Option.some.inj h
    unfold execSlli
    split <;> rfl
  | load | store | amo => exact (execBody_bus rfl h).2.2.2
  | _ => cases he

theorem execOnce_nemuState (hP : Standard P) (hn : n ≤ configMsize.toNat) (hrest : AtRest P st)
    (hcov : Covered n (readLE st.pmem (guestToHost st.pc) 4) st.pc st.gpr) (h : execOnce P st = some st') :
    st'.nemuState = st.nemuState := by
  obtain ⟨p, e, hp, he, hfits, -⟩ := @conforms_of_covered P.toConfig ⟨configMsize, 0, 0⟩ _ st.pc 0
    (miniStart st.gpr st.pc) st.pmem n hP.rva hn hcov
  obtain ⟨u, hu, rfl⟩ := execOnce_iff.mp h
  obtain ⟨io, skip, late, hf⟩ := @fetchAndCheck_quiet D P st.enter _ hP.clint hn hcov.fetch hrest.mie
  obtain ⟨f, hfeq⟩ : ∃ f, afterFetch P st.enter (readLE st.enter.pmem (guestToHost st.enter.s.snpc) 4) io skip
    late = f := ⟨_, rfl⟩
  rw [hfeq] at hf
  rcases isaExecOnce_iff.mp hu with htaken | ⟨f', u', hf', hbody, rfl⟩
  · rw [hf] at htaken
    cases htaken
  obtain rfl : f = f' := (Prod.mk.inj (Option.some.inj (hf.symm.trans hf'))).2
  have hstart : bodyStart f = f.setDnpc (st.pc + 4) := by
    rw [bodyStart, ← hfeq]
    exact if_pos (instAligned_add_four hrest.aligned)
  have hinst : selectInst P.toConfig f.s.inst = some p := by
    rw [← hfeq]
    exact hp
  have he' : effect p.body (operands f p) (bodyStart f).s.pc (bodyStart f).pmem = some e := by
    rw [hstart, ← hfeq]
    exact he
  have hfits' : Fits n (operands f p) (bodyStart f).s.pc p.body := by
    rw [hstart, ← hfeq]
    exact hfits
  have hseq : (bodyStart f).s.dnpc = (bodyStart f).s.pc + 4 := by
    rw [hstart, ← hfeq]
    rfl
  obtain ⟨t, ht, hdid⟩ := execBody_effect hP.misalign hn hseq hfits' he'
  rw [decodeBody_eq hinst, ht] at hbody
  obtain rfl := Option.some.inj hbody
  have hclean : (resetFixed P t).haveRISCVException = riscvExcpNone := by
    refine hdid.clean.trans ?_
    rw [hstart, ← hfeq]
    exact hrest.clean
  have htail : trapTail P (resetFixed P t) = resetFixed P t := if_neg fun hne => hne hclean
  change (trapTail P (resetFixed P t)).nemuState = st.nemuState
  rw [htail, resetFixed_nemuState, effect_nemuState he' ht, hstart, ← hfeq]
  rfl

/-! ## A comparison that succeeds -/

/-- The build against this reference, with a CLINT that takes the time of the reference. -/
structure Checked (P : Platform D) : Prop extends Standard P where
  ref : P.difftest = .minirv32i
  sync : ∃ map, P.maps.find? (mapInside · (configClintMmio + mtimelo)) = some map ∧
    ∀ io, (invokeCallback map (configClintMmio + mtimelo - map.low) 8 true io).isSome

theorem sync_mtimelo (hP : Checked P) (v : Word) (st : State D) : ∃ io,
    paddrWrite P (configClintMmio + mtimelo) 8 v st =
      some (st.setBus st.pmem io (difftestSkipRef P.difftest st.skip)) := by
  obtain ⟨map, hfind, hanswer⟩ := hP.sync
  have hinside := List.find?_some hfind
  obtain ⟨io, hio⟩ := Option.isSome_iff_exists.mp
    (hanswer ⟨writeLE st.io.space (map.space + (configClintMmio + mtimelo - map.low).toNat) 4 v, st.io.dev⟩)
  refine ⟨io, ?_⟩
  rw [paddrWrite_mmio clintMtimelo_not_inPmem, mmioWrite, fetchMmioMap, hfind]
  simp only [Option.bind_eq_bind, Option.bind_some, mapWrite, hinside, and_true, State.setBus_io, hostWrite,
    hio]
  rfl

theorem checkregs_same {R : Type} {A : Adapter R} {answer : Option Int} {refR : Memory} {pc : Word} {r : R}
    (hP : P.difftest = .minirv32i) (hregs : regFileAt cpuState refR = ⟨st.gpr, st.pc⟩) :
    checkregs P A answer refR pc st r = (st, r) := by
  have hgpr : ∀ i, gprError refR st i = false := fun i => by
    rw [gprError, hregs, decide_eq_false (fun hne => hne rfl), Bool.false_and]
  have hcsr : csrError P.toConfig refR st = false := by
    rw [csrError, hP]
    rfl
  have hdiffer : regsDiffer P.toConfig refR st = false := by
    rw [regsDiffer, hcsr, Bool.or_false, List.any_eq_false]
    exact fun i _ => by rw [hgpr]; exact Bool.false_ne_true
  have hcheck : isaDifftestCheckregs P A answer refR st r = (true, st, r) := by
    have hpc : ¬st.pc ≠ (regFileAt cpuState refR).pc := by
      rw [hregs]
      exact fun hne => hne rfl
    unfold isaDifftestCheckregs
    rw [if_neg hpc, hdiffer]
    rfl
  rw [checkregs, hcheck]
  rfl

theorem difftestStep_same {r r' : Ref} (hP : Checked P) (env : CallEnv) (pc npc : Word) (hskip : NoSkip st.skip)
    (hr : si h r = r') (hgpr : r'.core.regs = st.gpr) (hpc : r'.core.pc = st.pc) : ∃ io,
    difftestStep P (rv32imaDiff P.rva P.priv h) env pc npc st r =
      some (.compared r', st.setBus st.pmem io (difftestSkipRef P.difftest st.skip), r') := by
  obtain ⟨hone, hnr, href⟩ := hskip
  obtain ⟨io, hsync⟩ :=
    sync_mtimelo hP (readLE (writeLE (writeLE env.heap 0 4 r'.core.timerl) 4 4 r'.core.timerh) 0 4) st
  have hregs : regFileAt cpuState ((rv32imaDiff P.rva P.priv h).toDut r' env.stack) = ⟨st.gpr, st.pc⟩ := by
    rw [← hgpr, ← hpc]
    exact (minirv32_toDut id).trans (by rw [if_pos hP.rva])
  refine ⟨io, ?_⟩
  rw [difftestStep, if_neg (by simp [hone]), if_neg (by omega), if_neg (by simp [href])]
  have hexec : (rv32imaDiff P.rva P.priv h).exec r = r' := hr
  have hto : (rv32imaDiff P.rva P.priv h).toRef env.heap r' =
      (writeLE (writeLE env.heap 0 4 r'.core.timerl) 4 4 r'.core.timerh, r') := rfl
  simp only [hexec, hto, hsync, Option.bind_eq_bind, Option.bind_some]
  have hsame : checkregs P (rv32imaDiff P.rva P.priv h) env.answer ((rv32imaDiff P.rva P.priv h).toDut r' env.stack)
      pc (st.setBus st.pmem io (difftestSkipRef P.difftest st.skip)) r' = (_, r') := checkregs_same hP.ref hregs
  rw [hsame]
  rfl

/-! ## Rounds -/

structure Synced (P : Platform D) (x : Emu D Ref) : Prop where
  lockstep : Lockstep P corePtr x.dut x.ref.core x.ref.image
  skip : NoSkip x.dut.skip
  alive : x.ref.exited = false

/-- The next instruction is one of the shared ones. -/
def Covers (x : Emu D Ref) : Prop :=
  Covered corePtr (readLE x.dut.pmem (guestToHost x.dut.pc) 4) x.dut.pc x.dut.gpr

theorem Synced.dut (hs : Synced P x) (hrest : st.gpr = x.dut.gpr ∧ st.pc = x.dut.pc ∧ st.csr = x.dut.csr ∧
      st.haveRISCVException = x.dut.haveRISCVException ∧ st.pmem = x.dut.pmem)
    (hskip : NoSkip st.skip) : Synced P { x with dut := st } := by
  obtain ⟨hgpr, hpc, hcsr, hclean, hpmem⟩ := hrest
  have hq := hs.lockstep.quiet
  refine ⟨⟨⟨?_, ?_, hclean.trans hq.clean, ?_⟩, ?_, ?_, ?_, hs.lockstep.awake, hs.lockstep.mie⟩, hskip, hs.alive⟩
  · rw [hgpr, hq.zero]
  · rw [hpc]
    exact hq.aligned
  · rw [csr, hcsr]
    exact hq.mie
  · rw [hgpr, hs.lockstep.regs]
  · rw [hpc, hs.lockstep.pc]
  · rw [hpmem]
    exact hs.lockstep.ram

theorem Synced.ticked (hs : Synced P x) (h : x.ticked H = some y) : Synced P y := by
  obtain ⟨io, rfl⟩ := ticked_frame h
  split <;> exact hs.dut ⟨rfl, rfl, rfl, rfl, rfl⟩ hs.skip

theorem noSkip_ref (hP : P.difftest = .minirv32i) (s : DifftestSkip) (hs : NoSkip s) :
    NoSkip (difftestSkipRef P.difftest s) := by
  rw [hP]
  exact ⟨hs.1, hs.2.1, rfl⟩

theorem Synced.round (hP : Checked P) (hh : h.ramAmt = ramAmt) (H : Host D) (hs : Synced P x) (hcov : Covers x) :
    ∃ y, execRound P (rv32imaDiff P.rva P.priv h) H x = some y ∧ Synced P y ∧
      y.dut.nemuState = x.dut.nemuState := by
  have hmsize : corePtr ≤ configMsize.toNat := by decide
  have hram : corePtr ≤ h.ramAmt.toNat := by
    rw [hh]
    decide
  obtain ⟨st', s', image', hst', hs', hl'⟩ :=
    (hs.lockstep.later (x.ref.elapsedUs x.ref.calls)).step hP.toStandard hmsize hram hcov
  rw [miniStep_later] at hs'
  have hsi : si h x.ref = ⟨s', image', x.ref.elapsedUs, x.ref.calls + 1, x.ref.exited⟩ := by
    rw [si, hs']
    rfl
  obtain ⟨r, hr⟩ : ∃ r, si h x.ref = r := ⟨_, rfl⟩
  have hcore : r.core = s' ∧ r.image = image' ∧ r.exited = x.ref.exited := by
    rw [← hr, hsi]
    exact ⟨rfl, rfl, rfl⟩
  have hskip := execOnce_skip (noSkip_ref hP.ref) hst' (noSkip_ref hP.ref _ hs.skip)
  have hstate := execOnce_nemuState hP.toStandard hmsize hs.lockstep.quiet hcov hst'
  obtain ⟨io, hstep⟩ := difftestStep_same hP (H.env x.nrGuestInst) st'.s.pc st'.pc hskip hr
    (by rw [hcore.1, hl'.regs]) (by rw [hcore.1, hl'.pc])
  refine ⟨⟨st'.setBus st'.pmem io (difftestSkipRef P.difftest st'.skip), r, x.nrGuestInst + 1⟩, ?_, ?_, hstate⟩
  · have hchecked : P.difftest ≠ .none := by
      rw [hP.ref]
      exact nofun
    rw [execRound, hst', Option.bind_eq_bind, Option.bind_some, traceAndDifftest, if_neg hchecked, hstep]
    rfl
  · have hnow : Synced P ⟨st', r, x.nrGuestInst + 1⟩ := by
      refine ⟨?_, hskip, hcore.2.2.trans hs.alive⟩
      rw [hcore.1, hcore.2.1]
      exact hl'
    exact hnow.dut ⟨rfl, rfl, rfl, rfl, rfl⟩ (noSkip_ref hP.ref _ hskip)

/-! ## Main result -/

theorem Synced.execute (hP : Checked P) (hh : h.ramAmt = ramAmt) {k : Nat} (hs : Synced P x)
    (hstate : x.dut.nemuState.state = .nemuRunning ∨ x.dut.nemuState.state = .nemuQuit)
    (hcov : ∀ u ∈ visits P (rv32imaDiff P.rva P.priv h) H k x,
      Covers u ∧ ¬TickFails P (rv32imaDiff P.rva P.priv h) H u) :
    ∃ y, execute P (rv32imaDiff P.rva P.priv h) H k x = some y ∧ Synced P y ∧
      (y.dut.nemuState.state = .nemuRunning ∨ y.dut.nemuState.state = .nemuQuit) := by
  induction k generalizing x with
  | zero => exact ⟨x, rfl, hs, hstate⟩
  | succ k ih =>
    obtain ⟨hcovx, hlive⟩ := hcov x (List.mem_cons_self ..)
    obtain ⟨y, hy, hsy, hsame⟩ := hs.round hP hh H hcovx
    rw [← hsame] at hstate
    by_cases hrun : y.dut.nemuState.state = .nemuRunning
    · obtain ⟨z, hz⟩ := Option.ne_none_iff_exists'.mp fun hnone => hlive ⟨y, hy, hrun, hnone⟩
      have htick : z.dut.nemuState.state = .nemuRunning ∨ z.dut.nemuState.state = .nemuQuit := by
        obtain ⟨io, rfl⟩ := ticked_frame hz
        split
        · exact .inr rfl
        · exact .inl hrun
      rw [visits_succ hy hrun hz] at hcov
      rw [execute_succ hy hrun, hz]
      exact ih (hsy.ticked hz) htick fun u hu => hcov u (List.mem_cons_of_mem _ hu)
    · exact ⟨y, execute_stop hy hrun, hsy, hstate⟩

theorem not_ended_of_stop {R : Type} {z : Emu D R} (h : z.dut.nemuState.state = .nemuStop) : ¬Ended z := by
  rw [Ended, h]
  rintro (h | h) <;> cases h

theorem Synced.cpuExec (hP : Checked P) (hh : h.ramAmt = ramAmt) {k : BitVec 64} {s : Decode} (hs : Synced P x)
    (hend : ¬Ended x) (hcov : ∀ u ∈ cpuVisits P (rv32imaDiff P.rva P.priv h) H k s x,
      Covers u ∧ ¬TickFails P (rv32imaDiff P.rva P.priv h) H u) :
    ∃ y, cpuExec P (rv32imaDiff P.rva P.priv h) H k s x = some y ∧ Synced P y ∧ ¬Ended y := by
  obtain ⟨hexec, hvisits⟩ := cpuExec_not_ended (P := P) (A := rv32imaDiff P.rva P.priv h) (H := H) hend k s
  rw [hvisits] at hcov
  have hstart : Synced P (x.started s) := hs.dut ⟨rfl, rfl, rfl, rfl, rfl⟩ hs.skip
  obtain ⟨y, hy, hsy, hstate⟩ := hstart.execute hP hh (.inl rfl) hcov
  refine ⟨y.stopped, ?_, ?_, ?_⟩
  · rw [hexec, hy]
    rfl
  · unfold Emu.stopped
    split
    · exact hsy.dut ⟨rfl, rfl, rfl, rfl, rfl⟩ hsy.skip
    · exact hsy
  · rcases hstate with hrun | hquit
    · rw [Emu.stopped, if_pos hrun]
      exact not_ended_of_stop rfl
    · unfold Ended Emu.stopped
      rw [if_neg (by rw [hquit]; exact nofun), hquit]
      rintro (h | h) <;> cases h

def cpuExecs {R : Type} (P : Platform D) (A : Adapter R) (H : Host D) :
    List (BitVec 64 × Decode) → Emu D R → Option (Emu D R)
  | [], x => some x
  | (n, s) :: calls, x => (cpuExec P A H n s x).bind (cpuExecs P A H calls)

def callVisits {R : Type} (P : Platform D) (A : Adapter R) (H : Host D) :
    List (BitVec 64 × Decode) → Emu D R → List (Emu D R)
  | [], _ => []
  | (n, s) :: calls, x => cpuVisits P A H n s x ++ (cpuExec P A H n s x).elim [] (callVisits P A H calls)

theorem Synced.cpuExecs (hP : Checked P) (hh : h.ramAmt = ramAmt) {calls : List (BitVec 64 × Decode)}
    (hs : Synced P x) (hend : ¬Ended x)
    (hcov : ∀ u ∈ callVisits P (rv32imaDiff P.rva P.priv h) H calls x,
      Covers u ∧ ¬TickFails P (rv32imaDiff P.rva P.priv h) H u) :
    ∃ y, cpuExecs P (rv32imaDiff P.rva P.priv h) H calls x = some y ∧ Synced P y ∧ ¬Ended y := by
  induction calls generalizing x with
  | nil => exact ⟨x, rfl, hs, hend⟩
  | cons call calls ih =>
    obtain ⟨k, s⟩ := call
    rw [callVisits] at hcov
    obtain ⟨y, hy, hsy, hendy⟩ := hs.cpuExec hP hh hend fun u hu => hcov u (List.mem_append_left _ hu)
    rw [hy] at hcov
    obtain ⟨z, hz, hsz⟩ := ih hsy hendy fun u hu => hcov u (List.mem_append_right _ hu)
    refine ⟨z, ?_, hsz⟩
    rw [Difftest.cpuExecs, hy, Option.bind_some, hz]

/-- From `init_difftest` on the emulator and its reference stay together over any calls of `cpu_exec`, whatever
the devices and the clock do: as long as the instructions are shared ones and no tick overflows the keys, no
comparison fails and the run neither aborts nor ends. -/
theorem difftest_silent {file : List Byte} {dtb : Memory} {elapsedUs : Nat → Word} {amw : BitVec 64}
    {st₀ : State D} {r₀ : Ref} {calls : List (BitVec 64 × Decode)} (hP : Checked P) (hh : h.ramAmt = ramAmt)
    (hreset : Reset P st) (hstop : st.nemuState.state = .nemuStop) (hroom : file.length ≤ corePtr)
    (hinit : initDifftest P h file dtb elapsedUs amw st = some (st₀, r₀))
    (hcov : ∀ u ∈ callVisits P (rv32imaDiff P.rva P.priv h) H calls ⟨st₀, r₀, 0⟩,
      Covers u ∧ ¬TickFails P (rv32imaDiff P.rva P.priv h) H u) :
    (st₀.pc = resetVector ∧ ∀ i, i < file.length → i < dtbPtr → st₀.pmem i = file.getD i 0) ∧
    ∃ y, cpuExecs P (rv32imaDiff P.rva P.priv h) H calls ⟨st₀, r₀, 0⟩ = some y ∧ ¬Ended y ∧
      Agree corePtr y.dut y.ref.core y.ref.image ∧ y.ref.exited = false := by
  have hempty : file ≠ [] := by
    rintro rfl
    cases hinit
  obtain ⟨hclean, hskip⟩ := reset_clean hreset
  obtain ⟨st₁, r₁, hinit₁, hl, hboot, halive, hstate, hskip₁⟩ :=
    initDifftest_lockstep hP.toStandard h dtb elapsedUs amw hclean hempty hroom
  obtain ⟨rfl, rfl⟩ := Prod.mk.inj (Option.some.inj (hinit.symm.trans hinit₁))
  have hnoSkip : NoSkip st₀.skip := by
    rw [hskip₁, hskip]
    exact ⟨rfl, le_rfl, rfl⟩
  have hend : ¬Ended (⟨st₀, r₀, 0⟩ : Emu D Ref) := by
    refine not_ended_of_stop ?_
    rw [hstate, hstop]
  have hsynced : Synced P ⟨st₀, r₀, 0⟩ := ⟨hl, hnoSkip, halive⟩
  obtain ⟨y, hy, hsy, hendy⟩ := hsynced.cpuExecs hP hh hend hcov
  refine ⟨⟨?_, fun i hi hbelow => ?_⟩, y, hy, hendy, hsy.lockstep.agree, hsy.alive⟩
  · rw [hl.pc, hboot.pc]
    rfl
  · have hin : dtbPtr ≤ corePtr := by decide
    rw [hl.ram i (by omega), hboot.loaded i hi hbelow]

theorem callVisits_one {R : Type} {A : Adapter R} {s : Decode} {x u : Emu D R} (hend : ¬Ended x)
    (hu : u ∈ callVisits P A H [(1, s)] x) : u = x.started s := by
  rw [callVisits, (cpuExec_not_ended hend 1 s).2] at hu
  rcases List.mem_append.mp hu with hu | hu
  · rcases List.mem_cons.mp hu with rfl | hu
    · rfl
    · split at hu
      · cases hu
      · split at hu
        · cases hu
        · split at hu <;> cases hu
  · cases hexec : cpuExec P A H 1 s x with
    | none =>
      rw [hexec] at hu
      cases hu
    | some y =>
      rw [hexec] at hu
      cases hu

def rv32imaBoard : Platform Unit := { clintBoard with difftest := .minirv32i }

def rv32imaHost : MiniRv32ima.Host := ⟨ramAmt, 0, 0⟩

def powered : State Unit :=
  restart rv32imaBoard ⟨fun _ => 0, fun _ => 0, [], 0, 0, 0, 0, fun _ => 0, ⟨clintSpace, ()⟩, ⟨.nemuStop, 0, 0⟩,
    ⟨false, 0, false⟩, ⟨0, 0, 0, 0⟩⟩

def calm : Host Unit := ⟨fun _ => .still false, fun _ => freshEnv⟩

/-- `si` on an image that is one `nop`. -/
theorem difftest_silent_nop : ∃ st₀ r₀,
    initDifftest rv32imaBoard rv32imaHost [0x13, 0, 0, 0] (fun _ => 0) (fun _ => 1) 0 powered = some (st₀, r₀) ∧
    (st₀.pc = resetVector ∧ ∀ i, i < 4 → i < dtbPtr → st₀.pmem i = [0x13, 0, 0, 0].getD i 0) ∧
    ∃ y, cpuExecs rv32imaBoard (rv32imaDiff true .MU rv32imaHost) calm [(1, ⟨0, 0, 0, 0⟩)] ⟨st₀, r₀, 0⟩ = some y ∧
      ¬Ended y ∧ Agree corePtr y.dut y.ref.core y.ref.image ∧ y.ref.exited = false := by
  have hP : Checked rv32imaBoard := ⟨⟨rfl, rfl, clintBoard_answers⟩, rfl, clintMap, rfl, fun _ => rfl⟩
  have hreset : Reset rv32imaBoard powered := ⟨_, rfl, rfl, rfl, rfl⟩
  have hempty : ([0x13, 0, 0, 0] : List Byte) ≠ [] := List.cons_ne_nil _ _
  obtain ⟨st₀, r₀, hinit, hl, hboot, -, hstate, -⟩ := initDifftest_lockstep hP.toStandard rv32imaHost
    (fun _ => 0) (fun _ => 1) 0 (reset_clean hreset).1 hempty (by decide)
  have hend : ¬Ended (⟨st₀, r₀, 0⟩ : Emu Unit Ref) := by
    refine not_ended_of_stop ?_
    rw [hstate]
    rfl
  have hpc : st₀.pc = resetVector := by
    rw [hl.pc, hboot.pc]
    rfl
  have hword : readLE st₀.pmem (guestToHost st₀.pc) 4 = 0x13 := by
    have hbytes : ∀ i < 4, st₀.pmem (0 + i) = (fun i => [0x13, 0, 0, 0].getD i 0 : Memory) (0 + i) := by
      intro i hi
      have hbelow : i < dtbPtr ∧ i < corePtr := by
        have hplace : 4 ≤ dtbPtr ∧ 4 ≤ corePtr := by decide
        omega
      rw [Nat.zero_add, hl.ram i hbelow.2, hboot.loaded i hi hbelow.1]
    have hsame : readLE st₀.pmem 0 4 = readLE (fun i => [0x13, 0, 0, 0].getD i 0) 0 4 := readLE_shift hbytes
    rw [hpc]
    exact hsame.trans (by decide)
  refine ⟨st₀, r₀, hinit, difftest_silent hP rfl hreset rfl (by decide) hinit fun u hu => ?_⟩
  obtain rfl := callVisits_one hend hu
  refine ⟨?_, fun ⟨_, _, _, hnone⟩ => Option.some_ne_none _ hnone⟩
  change Covered corePtr (readLE st₀.pmem (guestToHost st₀.pc) 4) st₀.pc st₀.gpr
  rw [hword, hpc]
  have hno : ∀ a : Word, a ∉ (none : Option Word) := fun a => Option.not_mem_none a
  exact ⟨⟨by decide, by decide⟩, by decide, fun a ha => absurd ha (hno a), fun a ha => absurd ha (hno a)⟩

end GsEmu.Difftest
