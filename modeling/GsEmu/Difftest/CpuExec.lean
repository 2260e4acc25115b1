import GsEmu.Difftest.Step
import GsEmu.Riscv32.NextPc

/-! `cpu_exec` and `execute` of `cpu-exec.c`. Each call of `execute` has a `Decode` record of its own,
which nothing initialises. -/

namespace GsEmu.Difftest
open Riscv32

variable {D R : Type}

def setRunState (state : NemuRun) (st : State D) : State D :=
  { st with nemuState := { st.nemuState with state := state } }

/-- One `device_update`: it moves the devices, and sets `NEMU_QUIT` where the window has been closed. `none` is
the assertion against an overflow of the keys. -/
structure Tick (D : Type) where
  update : State D → Option (State D)
  quit : Bool
  frame : ∀ {st st' : State D}, update st = some st' → ∃ io : Io D,
    st' = if quit then setRunState .nemuQuit { st with io := io } else { st with io := io }

def Tick.still (quit : Bool) : Tick D where
  update st := some (if quit then setRunState .nemuQuit st else st)
  quit := quit
  frame {st _} h := ⟨st.io, (Option.some.inj h).symm⟩

/-- What comes from outside at the instruction with a given number. -/
structure Host (D : Type) where
  tick : Nat → Tick D
  env : Nat → CallEnv

/-- The machine, its reference and `g_nr_guest_inst`. -/
structure Emu (D R : Type) where
  dut : State D
  ref : R
  nrGuestInst : Nat

def traceAndDifftest (P : Platform D) (A : Adapter R) (env : CallEnv) (dnpc : Word) (st : State D)
    (r : R) : Option (State D × R) :=
  if P.difftest = .none then some (st, r)
  else (difftestStep P A env st.s.pc dnpc st r).map (·.2)

def execRound (P : Platform D) (A : Adapter R) (H : Host D) (x : Emu D R) : Option (Emu D R) := do
  let st ← execOnce P x.dut
  let (st, r) ← traceAndDifftest P A (H.env x.nrGuestInst) st.pc st x.ref
  return ⟨st, r, x.nrGuestInst + 1⟩

def Emu.ticked (H : Host D) (x : Emu D R) : Option (Emu D R) :=
  ((H.tick x.nrGuestInst).update x.dut).map fun st => { x with dut := st }

def execute (P : Platform D) (A : Adapter R) (H : Host D) : Nat → Emu D R → Option (Emu D R)
  | 0, x => some x
  | n + 1, x => do
    let x ← execRound P A H x
    if x.dut.nemuState.state ≠ .nemuRunning then return x
    let x ← x.ticked H
    execute P A H n x

def Emu.started (s : Decode) (x : Emu D R) : Emu D R :=
  { x with dut := { setRunState .nemuRunning x.dut with s := s } }

def Emu.stopped (x : Emu D R) : Emu D R :=
  if x.dut.nemuState.state = .nemuRunning then { x with dut := setRunState .nemuStop x.dut } else x

def cpuExec (P : Platform D) (A : Adapter R) (H : Host D) (n : BitVec 64) (s : Decode)
    (x : Emu D R) : Option (Emu D R) :=
  match x.dut.nemuState.state with
  | .nemuEnd | .nemuAbort => some x
  | _ => do
    let x ← execute P A H n.toNat (x.started s)
    return x.stopped

def Emu.guest (x : Emu D R) : Emu D R := { x with dut := { x.dut with s := ⟨0, 0, 0, 0⟩ } }

def visits (P : Platform D) (A : Adapter R) (H : Host D) : Nat → Emu D R → List (Emu D R)
  | 0, _ => []
  | n + 1, x => x :: match execRound P A H x with
    | none => []
    | some y => if y.dut.nemuState.state ≠ .nemuRunning then [] else
      match y.ticked H with
      | none => []
      | some y => visits P A H n y

def cpuVisits (P : Platform D) (A : Adapter R) (H : Host D) (n : BitVec 64) (s : Decode)
    (x : Emu D R) : List (Emu D R) :=
  match x.dut.nemuState.state with
  | .nemuEnd | .nemuAbort => []
  | _ => visits P A H n.toNat (x.started s)

variable {P : Platform D} {A : Adapter R} {H : Host D} {x y z : Emu D R} {st st' : State D} {r r' : R}

/-! ## The run state -/

/-- A step leaves the run state or ends the run. -/
def Ends (st st' : State D) : Prop :=
  st'.nemuState.state = st.nemuState.state ∨ st'.nemuState.state = .nemuEnd

/-- A step leaves `nemu_state`, or ends the run and records `pc`. -/
def Halts (pc : Word) (n n' : NemuState) : Prop := n' = n ∨ n'.state = .nemuEnd ∧ n'.haltPc = pc

theorem ecallExit_halts : Halts st.s.pc st.nemuState (ecallExit P st).nemuState := by
  unfold ecallExit
  split
  · exact .inl rfl
  · split
    · exact .inr ⟨rfl, rfl⟩
    · exact .inl rfl

theorem dnpcAndCheck_nemuState (a : Word) (st : State D) :
    (dnpcAndCheck a st).nemuState = st.nemuState := by
  unfold dnpcAndCheck
  split <;> rfl

theorem execBody_halts {b : Body} {o : Operands} (h : execBody P b o st = some st') :
    Halts st.s.pc st.nemuState st'.nemuState := by
  by_cases hbus : b.usesBus = true
  · exact .inl (execBody_bus hbus h).2.2.2
  · rcases (execBody_offBus (Bool.eq_false_iff.mpr hbus) h).trap with ⟨-, hstate⟩ | ⟨-, hstate⟩
    · exact .inl hstate
    · rw [hstate]
      exact .inr ⟨rfl, rfl⟩

theorem trapTail_spc : (trapTail P st).s.pc = st.s.pc := by
  unfold trapTail
  split
  · split
    · simp only [recyException, State.trapPeekException_s, delegateException, setCsr_s,
        State.setCurPri_s, dnpcAndCheck_s]
    · simp only [recyException, State.trapPeekException_s, illegalInstruction_s]
  · rfl

theorem trapTail_halts : Halts st.s.pc st.nemuState (trapTail P st).nemuState := by
  unfold trapTail
  split
  · split
    · exact .inl (dnpcAndCheck_nemuState _ _)
    · obtain ⟨t, ht, hpc, hstate⟩ : ∃ t, illegalInstruction P st = ecallExit P t ∧
          t.s.pc = st.s.pc ∧ t.nemuState = st.nemuState := by
        refine ⟨_, rfl, ?_, dnpcAndCheck_nemuState _ _⟩
        simp only [dnpcAndCheck_s, setCsr_s]
      change Halts _ _ (illegalInstruction P st).nemuState
      rw [ht, ← hpc, ← hstate]
      exact ecallExit_halts
  · exact .inl rfl

theorem takeIrq_nemuState (irq : Word) : (takeIrq P irq st).nemuState = st.nemuState :=
  dnpcAndCheck_nemuState _ _

theorem execOnce_halts (h : execOnce P st = some st') :
    st'.s.pc = st.pc ∧ Halts st.pc st.nemuState st'.nemuState := by
  obtain ⟨g, hg, hcase⟩ := execOnce_cases h
  obtain ⟨inst, io, skip, late, rfl⟩ := sampled_afterFetch hg
  rcases hcase with ⟨-, rfl⟩ | ⟨-, rfl⟩ | ⟨-, -, t, ht, rfl⟩
  · exact ⟨rfl, .inl rfl⟩
  · refine ⟨?_, .inl (takeIrq_nemuState _)⟩
    change (takeIrq P _ _).s.pc = _
    rw [takeIrq_s]
    rfl
  · obtain ⟨p, t₀, -, hbody, rfl⟩ := decodeBody_cases ht
    have hpc : (bodyStart (afterFetch P st.enter inst io skip late)).s.pc = st.pc := by
      rw [bodyStart_s]
      rfl
    have hpc₀ : t₀.s.pc = st.pc := by
      rw [(execBody_control hbody).2.2, hpc]
    have hbase : (bodyStart (afterFetch P st.enter inst io skip late)).nemuState = st.nemuState :=
      dnpcAndCheck_nemuState _ _
    have hexec := execBody_halts hbody
    have htail := @trapTail_halts D P (resetFixed P t₀)
    rw [hpc, hbase] at hexec
    rw [resetFixed_s, hpc₀, resetFixed_nemuState] at htail
    refine ⟨?_, ?_⟩
    · change (trapTail P (resetFixed P t₀)).s.pc = _
      rw [trapTail_spc, resetFixed_s, hpc₀]
    · change Halts _ _ (trapTail P (resetFixed P t₀)).nemuState
      rcases htail with htail | hend
      · rwa [htail]
      · exact .inr hend

theorem execOnce_ends (h : execOnce P st = some st') : Ends st st' :=
  (execOnce_halts h).2.imp (congrArg NemuState.state) And.left

theorem isaDifftestCheckregs_nemuState {answer : Option Int} {refR : Bytes.Memory} :
    (isaDifftestCheckregs P A answer refR st r).2.1.nemuState = st.nemuState := by
  unfold isaDifftestCheckregs
  split
  · split <;> rfl
  · rfl

/-- `difftest_step` leaves `nemu_state`, or aborts the run and records `pc`. -/
def Aborts (pc : Word) (n n' : NemuState) : Prop :=
  n' = n ∨ n' = { n with state := .nemuAbort, haltPc := pc }

theorem checkregs_aborts {answer : Option Int} {refR : Bytes.Memory} {pc : Word}
    (h : checkregs P A answer refR pc st r = (st', r')) :
    Aborts pc st.nemuState st'.nemuState := by
  have hst : st' = (checkregs P A answer refR pc st r).1 := (congrArg Prod.fst h).symm
  rw [hst]
  unfold checkregs
  dsimp only
  split
  · exact .inl isaDifftestCheckregs_nemuState
  · refine .inr ?_
    rw [isaDifftestCheckregs_nemuState]

theorem difftestStep_aborts {env : CallEnv} {pc npc : Word} {exit : Exit R}
    (h : difftestStep P A env pc npc st r = some (exit, st', r')) :
    Aborts (if 0 < st.skip.skipDutNrInst then npc else pc) st.nemuState st'.nemuState := by
  unfold difftestStep at h
  split at h
  · simp only [Option.some.injEq, Prod.mk.injEq] at h
    obtain ⟨-, rfl, -⟩ := h
    exact .inl rfl
  split at h
  · rename_i hnr
    rw [if_pos hnr]
    dsimp only at h
    split at h
    · simp only [Option.some.injEq, Prod.mk.injEq] at h
      exact (checkregs_aborts h.2 :)
    · split at h
      · simp at h
      · simp only [Option.some.injEq, Prod.mk.injEq] at h
        obtain ⟨-, rfl, -⟩ := h
        exact .inl rfl
  rename_i hnr
  rw [if_neg hnr]
  split at h
  · simp only [Option.some.injEq, Prod.mk.injEq] at h
    obtain ⟨-, rfl, -⟩ := h
    exact .inl rfl
  · simp only [Option.bind_eq_bind, Option.pure_def, Option.bind_eq_some_iff, Option.some.injEq,
      Prod.mk.injEq] at h
    obtain ⟨st₁, hw, -, hcheck⟩ := h
    obtain ⟨pmem, io, skip, rfl, -⟩ := paddrWrite_bus hw
    exact (checkregs_aborts hcheck :)

theorem difftestStep_state {env : CallEnv} {pc npc : Word} {exit : Exit R}
    (h : difftestStep P A env pc npc st r = some (exit, st', r')) :
    st'.nemuState.state = st.nemuState.state ∨ st'.nemuState.state = .nemuAbort :=
  (difftestStep_aborts h).imp (congrArg NemuState.state) (congrArg NemuState.state)

theorem traceAndDifftest_state {env : CallEnv} {dnpc : Word}
    (h : traceAndDifftest P A env dnpc st r = some (st', r')) :
    st'.nemuState.state = st.nemuState.state ∨ st'.nemuState.state = .nemuAbort := by
  unfold traceAndDifftest at h
  split at h
  · exact .inl (by rw [(Prod.mk.inj (Option.some.inj h)).1])
  · obtain ⟨⟨exit, q⟩, hdiff, hq⟩ := Option.map_eq_some_iff.mp h
    obtain rfl : q = (st', r') := hq
    exact difftestStep_state hdiff

theorem execRound_state (h : execRound P A H x = some y) :
    y.dut.nemuState.state = x.dut.nemuState.state ∨ y.dut.nemuState.state = .nemuEnd ∨
      y.dut.nemuState.state = .nemuAbort := by
  simp only [execRound, Option.bind_eq_bind, Option.pure_def, Option.bind_eq_some_iff] at h
  obtain ⟨st, hstep, ⟨st', r⟩, htrace, h⟩ := h
  obtain rfl := Option.some.inj h
  have hends := execOnce_ends hstep
  rcases traceAndDifftest_state htrace with hstate | habort
  · rcases hends with hends | hends
    · exact .inl (hstate.trans hends)
    · exact .inr (.inl (hstate.trans hends))
  · exact .inr (.inr habort)

/-! ## Composition -/

theorem execRound_record (h : Settles P x.dut) (s : Decode) :
    execRound P A H { x with dut := { x.dut with s := s } } = execRound P A H x := by
  unfold execRound
  rw [execOnce_record h s]

theorem execute_record {n : Nat} (h : ∀ y ∈ visits P A H n x, Settles P y.dut) (s : Decode) :
    (execute P A H n { x with dut := { x.dut with s := s } }).map Emu.guest =
      (execute P A H n x).map Emu.guest := by
  cases n with
  | zero => rfl
  | succ n => rw [execute, execute, execRound_record (h x (List.mem_cons_self ..)) s]

/-- No tick of the visited rounds closes the window. -/
def KeepsWindow (H : Host D) (l : List (Emu D R)) : Prop :=
  ∀ y ∈ l, (H.tick (y.nrGuestInst + 1)).quit = false

theorem execRound_nr (h : execRound P A H x = some y) :
    y.nrGuestInst = x.nrGuestInst + 1 := by
  simp only [execRound, Option.bind_eq_bind, Option.pure_def, Option.bind_eq_some_iff] at h
  obtain ⟨st, -, q, -, h⟩ := h
  obtain rfl := Option.some.inj h
  rfl

theorem ticked_frame (h : y.ticked H = some z) : ∃ io : Io D,
    z = { y with dut := if (H.tick y.nrGuestInst).quit then setRunState .nemuQuit { y.dut with io := io }
      else { y.dut with io := io } } := by
  obtain ⟨st, hst, rfl⟩ := Option.map_eq_some_iff.mp h
  obtain ⟨io, rfl⟩ := (H.tick y.nrGuestInst).frame hst
  exact ⟨io, rfl⟩

theorem ticked_nr (h : y.ticked H = some z) : z.nrGuestInst = y.nrGuestInst := by
  obtain ⟨io, rfl⟩ := ticked_frame h
  rfl

theorem ticked_nemuState (hquit : (H.tick y.nrGuestInst).quit = false) (h : y.ticked H = some z) :
    z.dut.nemuState = y.dut.nemuState := by
  obtain ⟨io, rfl⟩ := ticked_frame h
  rw [hquit]
  rfl

def goOn (P : Platform D) (A : Adapter R) (H : Host D) (n : Nat) (y : Emu D R) :
    Option (Emu D R) :=
  if y.dut.nemuState.state = .nemuRunning then execute P A H n y else some y

theorem execute_succ {n : Nat} (h : execRound P A H x = some y)
    (hy : y.dut.nemuState.state = .nemuRunning) :
    execute P A H (n + 1) x = (y.ticked H).bind (execute P A H n) := by
  simp only [execute, h, Option.bind_eq_bind, Option.bind_some, hy, ne_eq, not_true_eq_false, if_false]

theorem execute_stop {n : Nat} (h : execRound P A H x = some y)
    (hy : y.dut.nemuState.state ≠ .nemuRunning) : execute P A H (n + 1) x = some y := by
  simp only [execute, h, Option.bind_eq_bind, Option.bind_some, if_pos hy, Option.pure_def]

/-- A call that returns has executed its first round, and has either stopped there or gone on after the tick. -/
theorem execute_cases {n : Nat} (h : execute P A H (n + 1) x = some y) : ∃ z, execRound P A H x = some z ∧
    (z.dut.nemuState.state ≠ .nemuRunning ∧ y = z ∨
      z.dut.nemuState.state = .nemuRunning ∧ ∃ w, z.ticked H = some w ∧ execute P A H n w = some y) := by
  obtain ⟨z, hround, -⟩ := Option.bind_eq_some_iff.mp (show (execRound P A H x).bind _ = some y from h)
  refine ⟨z, hround, ?_⟩
  by_cases hz : z.dut.nemuState.state = .nemuRunning
  · rw [execute_succ hround hz] at h
    exact .inr ⟨hz, Option.bind_eq_some_iff.mp h⟩
  · rw [execute_stop hround hz] at h
    exact .inl ⟨hz, (Option.some.inj h).symm⟩

theorem visits_succ {n : Nat} (h : execRound P A H x = some y)
    (hy : y.dut.nemuState.state = .nemuRunning) (hz : y.ticked H = some z) :
    visits P A H (n + 1) x = x :: visits P A H n z := by
  simp only [visits, h, hy, hz, ne_eq, not_true_eq_false, if_false]

theorem execute_add {a b : Nat} (hrun : x.dut.nemuState.state = .nemuRunning)
    (hkeep : KeepsWindow H (visits P A H a x)) :
    execute P A H (a + b) x = (execute P A H a x).bind (goOn P A H b) := by
  -- on the length of the first call; the machine still runs at its start
  induction a generalizing x with
  | zero =>
    rw [Nat.zero_add]
    exact (if_pos hrun).symm
  | succ a ih =>
    rw [Nat.succ_add]
    cases hround : execRound P A H x with
    | none => simp only [execute, hround, Option.bind_eq_bind, Option.bind_none]
    | some y =>
      by_cases hy : y.dut.nemuState.state = .nemuRunning
      · have hquit : (H.tick y.nrGuestInst).quit = false := by
          rw [execRound_nr hround]
          exact hkeep x (List.mem_cons_self ..)
        rw [execute_succ hround hy, execute_succ hround hy]
        cases hz : y.ticked H with
        | none => rfl
        | some z =>
          rw [visits_succ hround hy hz] at hkeep
          exact ih (by rw [ticked_nemuState hquit hz, hy]) fun w hw => hkeep w (List.mem_cons_of_mem _ hw)
      · rw [execute_stop hround hy, execute_stop hround hy]
        exact (if_neg hy).symm

theorem execute_state {n : Nat} (hrun : x.dut.nemuState.state = .nemuRunning)
    (hkeep : KeepsWindow H (visits P A H n x)) (h : execute P A H n x = some y) :
    y.dut.nemuState.state = .nemuRunning ∨ y.dut.nemuState.state = .nemuEnd ∨
      y.dut.nemuState.state = .nemuAbort := by
  induction n generalizing x with
  | zero =>
    obtain rfl := Option.some.inj h
    exact .inl hrun
  | succ n ih =>
    obtain ⟨z, hround, hcase⟩ := execute_cases h
    rcases hcase with ⟨hz, rfl⟩ | ⟨hz, w, htick, h⟩
    · exact (execRound_state hround).imp_left fun hstate => hstate.trans hrun
    · have hquit : (H.tick z.nrGuestInst).quit = false := by
        rw [execRound_nr hround]
        exact hkeep x (List.mem_cons_self ..)
      rw [visits_succ hround hz htick] at hkeep
      exact ih (by rw [ticked_nemuState hquit htick, hz]) (fun v hv => hkeep v (List.mem_cons_of_mem _ hv)) h

theorem visits_subset_add (a b : Nat) : visits P A H a x ⊆ visits P A H (a + b) x := by
  induction a generalizing x with
  | zero => exact List.nil_subset _
  | succ a ih =>
    rw [Nat.succ_add, visits, visits]
    apply List.cons_subset_cons
    split
    · exact List.nil_subset _
    · split
      · exact List.nil_subset _
      · split
        · exact List.nil_subset _
        · exact ih

theorem mem_visits_add {a b : Nat} (hkeep : KeepsWindow H (visits P A H a x))
    (h : execute P A H a x = some y) (hy : y.dut.nemuState.state = .nemuRunning) {z : Emu D R}
    (hz : z ∈ visits P A H b y) : z ∈ visits P A H (a + b) x := by
  induction a generalizing x with
  | zero =>
    obtain rfl := Option.some.inj h
    rwa [Nat.zero_add]
  | succ a ih =>
    obtain ⟨w, hround, hcase⟩ := execute_cases h
    rcases hcase with ⟨hw, rfl⟩ | ⟨hw, v, htick, h⟩
    · exact absurd hy hw
    · rw [visits_succ hround hw htick] at hkeep
      rw [Nat.succ_add, visits_succ hround hw htick]
      exact List.mem_cons_of_mem _ (ih (fun u hu => hkeep u (List.mem_cons_of_mem _ hu)) h)

/-- The tick after the round from `x` runs into the assertion. -/
def TickFails (P : Platform D) (A : Adapter R) (H : Host D) (x : Emu D R) : Prop :=
  ∃ y, execRound P A H x = some y ∧ y.dut.nemuState.state = .nemuRunning ∧ y.ticked H = none

def Ended (x : Emu D R) : Prop :=
  x.dut.nemuState.state = .nemuEnd ∨ x.dut.nemuState.state = .nemuAbort

theorem cpuExec_ended (h : Ended x) (n : BitVec 64) (s : Decode) :
    cpuExec P A H n s x = some x := by
  rcases h with h | h <;> simp only [cpuExec, h]

theorem cpuExec_not_ended (h : ¬Ended x) (n : BitVec 64) (s : Decode) :
    cpuExec P A H n s x = (execute P A H n.toNat (x.started s)).map Emu.stopped ∧
      cpuVisits P A H n s x = visits P A H n.toNat (x.started s) := by
  simp only [Ended, not_or] at h
  unfold cpuExec cpuVisits
  split
  · exact absurd ‹_› h.1
  · exact absurd ‹_› h.2
  · refine ⟨?_, rfl⟩
    cases execute P A H n.toNat (x.started s) <;> rfl

theorem stopped_guest (x : Emu D R) : x.stopped.guest = x.guest.stopped := by
  unfold Emu.stopped
  by_cases h : x.dut.nemuState.state = .nemuRunning
  · have h' : x.guest.dut.nemuState.state = .nemuRunning := h
    rw [if_pos h, if_pos h']
    rfl
  · have h' : ¬x.guest.dut.nemuState.state = .nemuRunning := h
    rw [if_neg h, if_neg h']

theorem map_stopped_guest {u v : Option (Emu D R)} (h : u.map Emu.guest = v.map Emu.guest) :
    (u.map Emu.stopped).map Emu.guest = (v.map Emu.stopped).map Emu.guest := by
  have hcomm : ∀ w : Option (Emu D R),
      (w.map Emu.stopped).map Emu.guest = (w.map Emu.guest).map Emu.stopped := by
    intro w
    cases w with
    | none => rfl
    | some x => exact congrArg some (stopped_guest x)
  rw [hcomm, hcomm, h]

theorem cpuExec_guest {x' : Emu D R} (h : x.guest = x'.guest) (n : BitVec 64) (s : Decode) :
    (cpuExec P A H n s x).map Emu.guest = (cpuExec P A H n s x').map Emu.guest := by
  have hstate : x.dut.nemuState = x'.dut.nemuState := congrArg (·.dut.nemuState) h
  have hstart : x.started s = x'.started s :=
    (congrArg (Emu.started s) h : x.guest.started s = x'.guest.started s)
  by_cases hend : Ended x
  · have hend' : Ended x' := by
      rw [Ended, ← hstate]
      exact hend
    rw [cpuExec_ended hend, cpuExec_ended hend']
    exact congrArg some h
  · have hend' : ¬Ended x' := by
      rw [Ended, ← hstate]
      exact hend
    rw [(cpuExec_not_ended hend n s).1, (cpuExec_not_ended hend' n s).1, hstart]

/-- Where every step executed settles `dnpc` and no tick of the first call closes the window, a call
for `a` instructions and one for `b` leave what one for `a + b` leaves. -/
theorem cpuExec_add {a b : BitVec 64} (hab : a.toNat + b.toNat < 2 ^ 64) (s₁ s₂ s₃ : Decode)
    (hset : ∀ y ∈ cpuVisits P A H (a + b) s₃ x, Settles P y.dut)
    (hkeep : KeepsWindow H (cpuVisits P A H a s₃ x)) :
    ((cpuExec P A H a s₁ x).bind (cpuExec P A H b s₂)).map Emu.guest =
      (cpuExec P A H (a + b) s₃ x).map Emu.guest := by
  by_cases hend : Ended x
  · rw [cpuExec_ended hend, cpuExec_ended hend]
    exact congrArg (Option.map Emu.guest) (cpuExec_ended hend b s₂)
  have hsum : (a + b).toNat = a.toNat + b.toNat := by
    rw [BitVec.toNat_add, Nat.mod_eq_of_lt hab]
  have hrun : (x.started s₃).dut.nemuState.state = .nemuRunning := rfl
  rw [(cpuExec_not_ended hend _ _).2, hsum] at hset
  rw [(cpuExec_not_ended hend _ _).2] at hkeep
  have hsame := execute_record (fun y hy => hset y (visits_subset_add _ _ hy)) s₁
  rw [(cpuExec_not_ended hend a s₁).1, (cpuExec_not_ended hend (a + b) s₃).1, hsum,
    execute_add hrun hkeep]
  cases hy : execute P A H a.toNat (x.started s₃) with
  | none =>
    rw [hy] at hsame
    have hnone : execute P A H a.toNat (x.started s₁) = none := Option.map_eq_none_iff.mp hsame
    rw [hnone]
    rfl
  | some y =>
    rw [hy] at hsame
    obtain ⟨y₁, hy₁, hguest⟩ := Option.map_eq_some_iff.mp hsame
    have hy₁ : execute P A H a.toNat (x.started s₁) = some y₁ := hy₁
    have hstop : y₁.stopped.guest = y.stopped.guest := by
      rw [stopped_guest, stopped_guest, hguest]
    rw [hy₁]
    change (cpuExec P A H b s₂ y₁.stopped).map Emu.guest =
      ((goOn P A H b.toNat y).map Emu.stopped).map Emu.guest
    rw [cpuExec_guest hstop]
    rcases execute_state hrun hkeep hy with hstate | hended
    · have hstopped : y.stopped = { y with dut := setRunState .nemuStop y.dut } := if_pos hstate
      have hrestart : y.stopped.started s₂ = { y with dut := { y.dut with s := s₂ } } := by
        rw [hstopped]
        simp only [Emu.started, setRunState, ← hstate]
      have hgo : goOn P A H b.toNat y = execute P A H b.toNat y := if_pos hstate
      have hnot : ¬Ended y.stopped := by
        rw [hstopped]
        rintro (h | h) <;> simp [setRunState] at h
      rw [(cpuExec_not_ended hnot b s₂).1, hrestart, hgo]
      apply map_stopped_guest
      exact execute_record (fun z hz => hset z (mem_visits_add hkeep hy hstate hz)) s₂
    · have hnrun : ¬y.dut.nemuState.state = .nemuRunning := by
        rcases hended with h | h <;> simp [h]
      have hstopped : y.stopped = y := if_neg hnrun
      have hgo : goOn P A H b.toNat y = some y := if_neg hnrun
      rw [hstopped, cpuExec_ended hended, hgo]
      exact congrArg (fun z => some z.guest) hstopped.symm

/-- A step does not see the record exactly when it assigns `dnpc`; and calls made of such steps
compose. -/
theorem stepping_composes (P : Platform D) (A : Adapter R) (H : Host D) :
    (∀ st : State D, (∀ s s' : Decode, (execOnce P { st with s := s }).map (·.pc) =
      (execOnce P { st with s := s' }).map (·.pc)) ↔ Settles P st) ∧
    ∀ (x : Emu D R) (a b : BitVec 64) (s₁ s₂ s₃ : Decode), a.toNat + b.toNat < 2 ^ 64 →
      (∀ y ∈ cpuVisits P A H (a + b) s₃ x, Settles P y.dut) →
      KeepsWindow H (cpuVisits P A H a s₃ x) →
      ((cpuExec P A H a s₁ x).bind (cpuExec P A H b s₂)).map Emu.guest =
        (cpuExec P A H (a + b) s₃ x).map Emu.guest := by
  constructor
  · intro st
    exact settles_iff
  · intro x a b s₁ s₂ s₃ hab hset hkeep
    exact cpuExec_add hab s₁ s₂ s₃ hset hkeep

/-! ## The record shows -/

def idleAdapter : Adapter Unit := ⟨id, fun m r => (m, r), fun _ m => m⟩

def idleHost : Host Unit := ⟨fun _ => .still false, fun _ => freshEnv⟩

/-- The step that takes the interrupt of `oddVector` leaves `pc` to the record: five steps at once end
behind the last instruction, four and one wherever the second record points. -/
theorem stepping_refuted : ∃ (x : Emu Unit Unit) (a b : BitVec 64) (s₁ s₂ s₃ : Decode),
    a.toNat + b.toNat < 2 ^ 64 ∧
    KeepsWindow idleHost (cpuVisits clintBoard idleAdapter idleHost (a + b) s₃ x) ∧
    ((cpuExec clintBoard idleAdapter idleHost a s₁ x).bind
      (cpuExec clintBoard idleAdapter idleHost b s₂)).map (·.dut.pc) = some 0x12345678 ∧
    (cpuExec clintBoard idleAdapter idleHost (a + b) s₃ x).map (·.dut.pc) = some 0x80000010 := by
  refine ⟨⟨oddVector, (), 0⟩, 4, 1, ⟨0, 0, 0, 0⟩, ⟨0, 0, 0x12345678, 0⟩, ⟨0, 0, 0, 0⟩, by decide,
    fun _ _ => rfl, ?_, ?_⟩
  · decide +kernel
  · decide +kernel

theorem stepping_composes_nops :
    ((cpuExec clintBoard idleAdapter idleHost 2 ⟨0, 0, 0, 0⟩
        ⟨booted clintBoard [0x13, 0x13, 0x13], (), 0⟩).bind
      (cpuExec clintBoard idleAdapter idleHost 1 ⟨0, 0, 0x12345678, 0⟩)).map Emu.guest =
    (cpuExec clintBoard idleAdapter idleHost 3 ⟨0, 0, 0, 0⟩
        ⟨booted clintBoard [0x13, 0x13, 0x13], (), 0⟩).map Emu.guest := by
  have hset : ∀ y ∈ cpuVisits clintBoard idleAdapter idleHost (2 + 1) ⟨0, 0, 0, 0⟩
      ⟨booted clintBoard [0x13, 0x13, 0x13], (), 0⟩, Settles clintBoard y.dut := by decide +kernel
  exact (stepping_composes clintBoard idleAdapter idleHost).2 _ 2 1 _ _ _ (by decide) hset
    fun _ _ => rfl

end GsEmu.Difftest
