import GsEmu.Lib.Run
import GsEmu.Difftest.CpuExec
import GsEmu.Difftest.Skipping

/-! `sdb_mainloop` of `monitor/sdb/sdb.c` around `cpu_exec`, in steps that stop at every place where
`nemu_state` is written or tested. -/

namespace GsEmu.Difftest
open Riscv32

variable {D R : Type}

/-- Who has called `cpu_exec`: a command that returns with it, or the loop of `c EXPR`. -/
inductive Caller
  | command
  | until (expr : Word)
  deriving DecidableEq

/-- Where control is, with the number of rounds that `execute` has left after the present one. -/
inductive Point
  | prompt
  | untilTest (expr : Word)
  | ready (k : Caller) (n : Nat)
  | executed (k : Caller) (n : Nat)
  | updating (k : Caller) (n : Nat)
  | exited
  deriving DecidableEq

structure Session (D R : Type) where
  emu : Emu D R
  point : Point

/-- The commands with their arguments evaluated. `other` are those that read registers or are refused;
`eof` is the end of the input, and of a batch run after its `c`. -/
inductive Command
  | c (expr : Option Word)
  | q
  | si (n : Word)
  | x (n expr : Word)
  | other
  | eof
  deriving DecidableEq

/-- A command, with the record that the next call of `execute` finds on the stack, or what follows of
itself. -/
inductive SdbEvent
  | command (c : Command) (s : Decode)
  | proceed (s : Decode)

def Caller.back : Caller → Point
  | .command => .prompt
  | .until expr => .untilTest expr

def callCpuExec (k : Caller) (n : BitVec 64) (s : Decode) (x : Emu D R) : Session D R :=
  match x.dut.nemuState.state with
  | .nemuEnd | .nemuAbort => ⟨x, k.back⟩
  | _ => ⟨x.started s, .ready k n.toNat⟩

def cmdX (P : Platform D) (n expr : Word) (st : State D) : Option (State D) :=
  (List.range n.toNat).foldlM (fun st i => [3, 2, 1, 0].foldlM
    (fun st k => (vaddrRead P (expr + 4 * BitVec.ofNat 32 i + k) 1 st).map (·.2)) st) st

def command (P : Platform D) (c : Command) (s : Decode) (x : Emu D R) : Option (Session D R) :=
  match c with
  | .c none => some (callCpuExec .command (-1) s x)
  | .c (some expr) => some ⟨x, .untilTest expr⟩
  | .q => some ⟨{ x with dut := setRunState .nemuQuit x.dut }, .exited⟩
  | .si n => some (if n = 0 then ⟨x, .prompt⟩ else callCpuExec .command (n.setWidth 64) s x)
  | .x n expr => (cmdX P n expr x.dut).map fun st => ⟨{ x with dut := st }, .prompt⟩
  | .other => some ⟨x, .prompt⟩
  | .eof => some ⟨x, .exited⟩

def testExpr (expr : Word) (s : Decode) (x : Emu D R) : Session D R :=
  if x.dut.pc ≠ expr ∧ (x.dut.nemuState.state = .nemuRunning ∨ x.dut.nemuState.state = .nemuStop)
  then callCpuExec (.until expr) 1 s x
  else ⟨x, .prompt⟩

/-- The test of the loop in `execute`, and the end of `cpu_exec` where it breaks off. -/
def testState (k : Caller) (n : Nat) (x : Emu D R) : Session D R :=
  if x.dut.nemuState.state ≠ .nemuRunning then ⟨x.stopped, k.back⟩ else ⟨x, .updating k n⟩

/-- What the program does next without a command; `none` where it waits for one or panics. -/
def proceed (P : Platform D) (A : Adapter R) (H : Host D) (s : Decode) (z : Session D R) :
    Option (Session D R) :=
  match z.point with
  | .prompt | .exited => none
  | .untilTest expr => some (testExpr expr s z.emu)
  | .ready k 0 => some ⟨z.emu.stopped, k.back⟩
  | .ready k (n + 1) =>
    (execOnce P z.emu.dut).map fun st => ⟨⟨st, z.emu.ref, z.emu.nrGuestInst + 1⟩, .executed k n⟩
  | .executed k n =>
    (traceAndDifftest P A (H.env (z.emu.nrGuestInst - 1)) z.emu.dut.pc z.emu.dut z.emu.ref).map
      fun y => testState k n ⟨y.1, y.2, z.emu.nrGuestInst⟩
  | .updating k n => (z.emu.ticked H).map fun x => ⟨x, .ready k n⟩

def sdbStep (P : Platform D) (A : Adapter R) (H : Host D) (z : Session D R) (e : SdbEvent) :
    Option (Session D R) :=
  match e with
  | .command c s => if z.point = .prompt then command P c s z.emu else none
  | .proceed s => proceed P A H s z

abbrev SdbRun (P : Platform D) (A : Adapter R) (H : Host D) :=
  Run fun (z : Session D R) e z' => sdbStep P A H z e = some z'

variable {P : Platform D} {A : Adapter R} {H : Host D} {x y : Emu D R} {z z' z₀ : Session D R}

/-! ## The steps make up `cpu_exec` -/

theorem callCpuExec_ended (h : Ended x) (k : Caller) (n : BitVec 64) (s : Decode) :
    callCpuExec k n s x = ⟨x, k.back⟩ := by
  rcases h with h | h <;> simp only [callCpuExec, h]

theorem callCpuExec_not_ended (h : ¬Ended x) (k : Caller) (n : BitVec 64) (s : Decode) :
    callCpuExec k n s x = ⟨x.started s, .ready k n.toNat⟩ := by
  simp only [Ended, not_or] at h
  unfold callCpuExec
  split
  · exact absurd ‹_› h.1
  · exact absurd ‹_› h.2
  · rfl

theorem sdbRun_round {k : Caller} {n : Nat} (s : Decode) (h : execRound P A H x = some y) :
    ∃ tr, SdbRun P A H ⟨x, .ready k (n + 1)⟩ tr (testState k n y) := by
  simp only [execRound, Option.bind_eq_bind, Option.pure_def, Option.bind_eq_some_iff] at h
  obtain ⟨st, hexec, ⟨st', r⟩, htrace, h⟩ := h
  obtain rfl := Option.some.inj h
  have hone : sdbStep P A H ⟨x, .ready k (n + 1)⟩ (.proceed s) =
      some ⟨⟨st, x.ref, x.nrGuestInst + 1⟩, .executed k n⟩ := by
    simp only [sdbStep, proceed, hexec, Option.map_some]
  refine ⟨_, (Run.nil.snoc hone).snoc (e := .proceed s) ?_⟩
  simp only [sdbStep, proceed, Nat.add_sub_cancel, htrace, Option.map_some]

theorem sdbRun_execute {k : Caller} {n : Nat} (s : Decode) (h : execute P A H n x = some y) :
    ∃ tr, SdbRun P A H ⟨x, .ready k n⟩ tr ⟨y.stopped, k.back⟩ := by
  induction n generalizing x with
  | zero =>
    obtain rfl := Option.some.inj h
    exact ⟨_, Run.nil.snoc (e := .proceed s) rfl⟩
  | succ n ih =>
    obtain ⟨w, hround, hcase⟩ := execute_cases h
    obtain ⟨tr, hrun⟩ := sdbRun_round (k := k) (n := n) s hround
    rcases hcase with ⟨hw, rfl⟩ | ⟨hw, v, htick, h⟩
    · rw [testState, if_pos hw] at hrun
      exact ⟨tr, hrun⟩
    · rw [testState, if_neg (not_not.mpr hw)] at hrun
      have hstep : sdbStep P A H ⟨w, .updating k n⟩ (.proceed s) = some ⟨v, .ready k n⟩ := by
        simp only [sdbStep, proceed, htick, Option.map_some]
      obtain ⟨tr', hrest⟩ := ih h
      exact ⟨_, (hrun.snoc hstep).append hrest⟩

theorem sdbRun_cpuExec {k : Caller} {n : BitVec 64} {s : Decode} (h : cpuExec P A H n s x = some y) :
    ∃ tr, SdbRun P A H (callCpuExec k n s x) tr ⟨y, k.back⟩ := by
  by_cases hend : Ended x
  · rw [cpuExec_ended hend] at h
    obtain rfl := Option.some.inj h
    rw [callCpuExec_ended hend]
    exact ⟨[], .nil⟩
  · rw [(cpuExec_not_ended hend n s).1] at h
    obtain ⟨w, hw, rfl⟩ := Option.map_eq_some_iff.mp h
    rw [callCpuExec_not_ended hend]
    exact sdbRun_execute s hw

end GsEmu.Difftest
