import GsEmu.Difftest.Debugger

/-! `c EXPR` of the debugger: single steps until `pc` is `EXPR`. It stops where `si` with the right number would. -/

namespace GsEmu.Difftest
open Riscv32

variable {D R : Type} {P : Platform D} {A : Adapter R} {H : Host D} {expr : Word} {x y z w : Emu D R}
  {s : Decode} {j k : Nat}

/-- The condition of the loop in `cmd_c`. -/
def GoesOn (expr : Word) (x : Emu D R) : Prop :=
  x.dut.pc ≠ expr ∧ (x.dut.nemuState.state = .nemuRunning ∨ x.dut.nemuState.state = .nemuStop)

instance (expr : Word) (x : Emu D R) : Decidable (GoesOn expr x) := inferInstanceAs (Decidable (_ ∧ _))

inductive Rounds (P : Platform D) (A : Adapter R) (H : Host D) (expr : Word) (x : Emu D R) : Nat → Emu D R → Prop
  | none : Rounds P A H expr x 0 x
  | call {k : Nat} {y z : Emu D R} (s : Decode) : Rounds P A H expr x k y → GoesOn expr y →
    cpuExec P A H 1 s y = some z → Rounds P A H expr x (k + 1) z

/-! ## Rounds and single steps -/

theorem GoesOn.congr (h : x.guest = y.guest) (hx : GoesOn expr x) : GoesOn expr y := by
  have hpc : x.dut.pc = y.dut.pc := congrArg (·.dut.pc) h
  have hstate : x.dut.nemuState = y.dut.nemuState := congrArg (·.dut.nemuState) h
  unfold GoesOn
  rw [← hpc, ← hstate]
  exact hx

/-- A state at which the debugger prompts before the program is over. -/
def Paused (x : Emu D R) : Prop := x.dut.nemuState.state = .nemuStop

theorem Paused.not_ended (h : Paused x) : ¬Ended x := by
  rintro (hend | hend) <;> rw [h] at hend <;> cases hend

theorem cpuExec_zero (h : Paused x) (s : Decode) : ∃ y, cpuExec P A H 0 s x = some y ∧ y.guest = x.guest := by
  have hrun : (x.started s).dut.nemuState.state = .nemuRunning := rfl
  refine ⟨(x.started s).stopped, (cpuExec_not_ended h.not_ended 0 s).1, ?_⟩
  have hstate : x.dut.nemuState = { x.dut.nemuState with state := .nemuStop } := by rw [← h]
  rw [Emu.stopped, if_pos hrun]
  simp only [Emu.guest, Emu.started, setRunState, ← hstate]

/-- The first `k` steps of `si`, each of them settled and none of them closing the window. -/
structure Steady (P : Platform D) (A : Adapter R) (H : Host D) (s : Decode) (x : Emu D R) (k : Nat) : Prop where
  paused : Paused x
  count : k < 2 ^ 64
  settles : ∀ y ∈ cpuVisits P A H (BitVec.ofNat 64 k) s x, Settles P y.dut
  window : KeepsWindow H (cpuVisits P A H (BitVec.ofNat 64 k) s x)

theorem toNat_count (h : k < 2 ^ 64) : (BitVec.ofNat 64 k).toNat = k := by
  rw [BitVec.toNat_ofNat, Nat.mod_eq_of_lt h]

theorem Steady.visits (h : Steady P A H s x k) :
    cpuVisits P A H (BitVec.ofNat 64 k) s x = Difftest.visits P A H k (x.started s) := by
  rw [(cpuExec_not_ended h.paused.not_ended _ _).2, toNat_count h.count]

theorem Steady.of_le (h : Steady P A H s x k) (hjk : j ≤ k) : Steady P A H s x j := by
  have hcount : j < 2 ^ 64 := Nat.lt_of_le_of_lt hjk h.count
  have hsub : cpuVisits P A H (BitVec.ofNat 64 j) s x ⊆ cpuVisits P A H (BitVec.ofNat 64 k) s x := by
    obtain ⟨i, rfl⟩ := Nat.exists_eq_add_of_le hjk
    rw [h.visits, (cpuExec_not_ended h.paused.not_ended _ _).2, toNat_count hcount]
    exact visits_subset_add j i
  exact ⟨h.paused, hcount, fun y hy => h.settles y (hsub hy), fun y hy => h.window y (hsub hy)⟩

theorem Steady.succ (h : Steady P A H s x (k + 1)) (s' : Decode) :
    ((cpuExec P A H (BitVec.ofNat 64 k) s x).bind (cpuExec P A H 1 s')).map Emu.guest =
      (cpuExec P A H (BitVec.ofNat 64 (k + 1)) s x).map Emu.guest := by
  have hk := h.of_le (Nat.le_succ k)
  have hsum : BitVec.ofNat 64 k + 1 = BitVec.ofNat 64 (k + 1) := (BitVec.ofNat_add k 1).symm
  rw [← hsum]
  refine cpuExec_add ?_ s s' s ?_ hk.window
  · rw [toNat_count hk.count]
    exact h.count
  · rw [hsum]
    exact h.settles

theorem Steady.rounds (hs : Steady P A H s x k) (h : cpuExec P A H (BitVec.ofNat 64 k) s x = some y)
    (hbefore : ∀ j < k, ∀ w, cpuExec P A H (BitVec.ofNat 64 j) s x = some w → GoesOn expr w) :
    ∃ z, Rounds P A H expr x k z ∧ z.guest = y.guest := by
  induction k generalizing y with
  | zero =>
    obtain ⟨y', hy', hguest⟩ := cpuExec_zero (P := P) (A := A) (H := H) hs.paused s
    obtain rfl := Option.some.inj (h.symm.trans hy')
    exact ⟨x, .none, hguest.symm⟩
  | succ k ih =>
    have hnext := hs.succ s
    rw [h, Option.map_some] at hnext
    obtain ⟨z', hz', hguest'⟩ := Option.map_eq_some_iff.mp hnext
    obtain ⟨w, hw, hcall⟩ := Option.bind_eq_some_iff.mp hz'
    obtain ⟨w', hrounds, hguest⟩ := ih (hs.of_le (Nat.le_succ k)) hw fun j hj => hbefore j (Nat.lt_succ_of_lt hj)
    have hsame := cpuExec_guest (P := P) (A := A) (H := H) hguest 1 s
    rw [hcall, Option.map_some] at hsame
    obtain ⟨z, hz, hzguest⟩ := Option.map_eq_some_iff.mp hsame
    exact ⟨z, .call s hrounds ((hbefore k (Nat.lt_succ_self k) w hw).congr hguest.symm) hz,
      hzguest.trans hguest'⟩

/-! ## Rounds and runs of the debugger -/

variable {q q' : Session D R} {tr : List (Session D R × SdbEvent)} {e : SdbEvent}

/-- How often the condition of the loop has been tested. -/
def tests (expr : Word) (tr : List (Session D R × SdbEvent)) : Nat := tr.countP (·.1.point = .untilTest expr)

/-- The command has not returned before the end of the run. -/
def NotBack (tr : List (Session D R × SdbEvent)) : Prop := ∀ p ∈ tr, p.1.point ≠ .prompt

inductive Within (P : Platform D) (A : Adapter R) (H : Host D) (expr : Word) (x : Emu D R) :
    Nat → Session D R → Prop
  | test {k : Nat} {y : Emu D R} : Rounds P A H expr x k y → Within P A H expr x k ⟨y, .untilTest expr⟩
  | ready {k : Nat} {y : Emu D R} (s : Decode) : Rounds P A H expr x k y → GoesOn expr y →
    Within P A H expr x (k + 1) ⟨y.started s, .ready (.until expr) 1⟩
  | executed {k : Nat} {y : Emu D R} {st : State D} (s : Decode) : Rounds P A H expr x k y → GoesOn expr y →
    execOnce P (y.started s).dut = some st →
    Within P A H expr x (k + 1) ⟨⟨st, y.ref, y.nrGuestInst + 1⟩, .executed (.until expr) 0⟩
  | updating {k : Nat} {y w : Emu D R} (s : Decode) : Rounds P A H expr x k y → GoesOn expr y →
    execRound P A H (y.started s) = some w → w.dut.nemuState.state = .nemuRunning →
    Within P A H expr x (k + 1) ⟨w, .updating (.until expr) 0⟩
  | last {k : Nat} {y w v : Emu D R} (s : Decode) : Rounds P A H expr x k y → GoesOn expr y →
    execRound P A H (y.started s) = some w → w.dut.nemuState.state = .nemuRunning → w.ticked H = some v →
    Within P A H expr x (k + 1) ⟨v, .ready (.until expr) 0⟩
  | back {k : Nat} {y : Emu D R} : Rounds P A H expr x k y → ¬GoesOn expr y →
    Within P A H expr x (k + 1) ⟨y, .prompt⟩

theorem GoesOn.not_ended (h : GoesOn expr x) : ¬Ended x := by
  rintro (hend | hend) <;> rcases h.2 with h | h <;> rw [hend] at h <;> cases h

def Emu.ticksOn (H : Host D) (x : Emu D R) : Option (Emu D R) :=
  if x.dut.nemuState.state ≠ .nemuRunning then some x else x.ticked H

theorem cpuExec_one (h : ¬Ended y) (s : Decode) : cpuExec P A H 1 s y =
    (execRound P A H (y.started s)).bind fun w => (w.ticksOn H).map Emu.stopped := by
  have hone : (1 : BitVec 64).toNat = 0 + 1 := rfl
  rw [(cpuExec_not_ended h _ _).1, hone]
  cases hround : execRound P A H (y.started s) with
  | none => simp only [execute, hround, Option.bind_eq_bind, Option.bind_none, Option.map_none]
  | some w =>
    rw [Option.bind_some, Emu.ticksOn]
    by_cases hw : w.dut.nemuState.state = .nemuRunning
    · rw [execute_succ hround hw, if_neg (not_not.mpr hw)]
      cases w.ticked H <;> rfl
    · rw [execute_stop hround hw, if_pos hw]

theorem execRound_of_once {st st' : State D} {r : R} {s : Decode} (hexec : execOnce P (y.started s).dut = some st)
    (htrace : traceAndDifftest P A (H.env y.nrGuestInst) st.pc st y.ref = some (st', r)) :
    execRound P A H (y.started s) = some ⟨st', r, y.nrGuestInst + 1⟩ := by
  have hsame : (y.started s).ref = y.ref ∧ (y.started s).nrGuestInst = y.nrGuestInst := ⟨rfl, rfl⟩
  rw [execRound, hexec, Option.bind_eq_bind, Option.bind_some, hsame.1, hsame.2, htrace]
  rfl

theorem Within.step {n : Nat} (h : Within P A H expr x n q) (hback : q.point ≠ .prompt)
    (hs : sdbStep P A H q e = some q') :
    Within P A H expr x (n + if q.point = .untilTest expr then 1 else 0) q' := by
  obtain ⟨s', rfl⟩ : ∃ s', e = .proceed s' := by
    cases e with
    | command c s =>
      rw [sdbStep, if_neg hback] at hs
      cases hs
    | proceed s => exact ⟨s, rfl⟩
  cases h with
  | @test k y hrounds =>
    obtain rfl := Option.some.inj hs
    rw [if_pos rfl, testExpr]
    by_cases hon : GoesOn expr y
    · have hcond : y.dut.pc ≠ expr ∧
          (y.dut.nemuState.state = .nemuRunning ∨ y.dut.nemuState.state = .nemuStop) := hon
      rw [if_pos hcond, callCpuExec_not_ended hon.not_ended]
      exact .ready s' hrounds hon
    · have hcond : ¬(y.dut.pc ≠ expr ∧
          (y.dut.nemuState.state = .nemuRunning ∨ y.dut.nemuState.state = .nemuStop)) := hon
      rw [if_neg hcond]
      exact .back hrounds hon
  | @ready k y s hrounds hon =>
    obtain ⟨st, hexec, rfl⟩ := Option.map_eq_some_iff.mp hs
    exact .executed (y := y) s hrounds hon hexec
  | @executed k y st s hrounds hon hexec =>
    obtain ⟨⟨st', r⟩, htrace, rfl⟩ := Option.map_eq_some_iff.mp hs
    have hround := execRound_of_once hexec htrace
    rw [testState]
    by_cases hrun : st'.nemuState.state = .nemuRunning
    · rw [if_neg (not_not.mpr hrun)]
      exact .updating s hrounds hon hround hrun
    · rw [if_pos hrun]
      refine .test (.call s hrounds hon ?_)
      rw [cpuExec_one hon.not_ended, hround, Option.bind_some, Emu.ticksOn, if_pos hrun, Option.map_some]
  | @updating k y w s hrounds hon hround hrun =>
    obtain ⟨v, htick, rfl⟩ := Option.map_eq_some_iff.mp hs
    exact .last s hrounds hon hround hrun htick
  | @last k y w v s hrounds hon hround hrun htick =>
    obtain rfl := Option.some.inj hs
    refine .test (.call s hrounds hon ?_)
    rw [cpuExec_one hon.not_ended, hround, Option.bind_some, Emu.ticksOn, if_neg (not_not.mpr hrun), htick,
      Option.map_some]
  | back => exact absurd rfl hback

theorem Within.run (h : SdbRun P A H ⟨x, .untilTest expr⟩ tr q) (hback : NotBack tr) :
    Within P A H expr x (tests expr tr) q := by
  induction h with
  | nil => exact .test .none
  | @snoc tr q e q' _ hs ih =>
    have hlast := hback _ (List.mem_append_right _ (List.mem_singleton_self _))
    have hcount : tests expr (tr ++ [(q, e)]) = tests expr tr + if q.point = .untilTest expr then 1 else 0 := by
      rw [tests, List.countP_append, List.countP_singleton]
      simp only [decide_eq_true_eq, tests]
    rw [hcount]
    exact (ih fun p hp => hback p (List.mem_append_left _ hp)).step hlast hs

theorem sdbRun_call (hon : GoesOn expr y) (hcall : cpuExec P A H 1 s y = some z) : ∃ tr,
    SdbRun P A H ⟨y.started s, .ready (.until expr) 1⟩ tr ⟨z, .untilTest expr⟩ ∧ NotBack tr ∧
      tests expr tr = 0 := by
  rw [cpuExec_one hon.not_ended] at hcall
  obtain ⟨w, hround, hcall⟩ := Option.bind_eq_some_iff.mp hcall
  obtain ⟨v, htick, rfl⟩ := Option.map_eq_some_iff.mp hcall
  have hparts := hround
  simp only [execRound, Option.bind_eq_bind, Option.pure_def, Option.bind_eq_some_iff] at hparts
  obtain ⟨st, hexec, ⟨st', r⟩, htrace, hw⟩ := hparts
  obtain rfl := Option.some.inj hw
  have hfirst : sdbStep P A H ⟨y.started s, .ready (.until expr) 1⟩ (.proceed s) =
      some ⟨⟨st, y.ref, y.nrGuestInst + 1⟩, .executed (.until expr) 0⟩ := by
    rw [sdbStep, proceed, hexec]
    rfl
  have hsecond : sdbStep P A H ⟨⟨st, y.ref, y.nrGuestInst + 1⟩, .executed (.until expr) 0⟩ (.proceed s) =
      some (testState (.until expr) 0 ⟨st', r, y.nrGuestInst + 1⟩) := by
    change (traceAndDifftest P A (H.env y.nrGuestInst) st.pc st y.ref).map _ = _
    rw [show traceAndDifftest P A (H.env y.nrGuestInst) st.pc st y.ref = some (st', r) from htrace]
    rfl
  have hstart : SdbRun P A H ⟨y.started s, .ready (.until expr) 1⟩ []
      ⟨y.started s, .ready (.until expr) 1⟩ := .nil
  have hcalled := (hstart.snoc hfirst).snoc hsecond
  unfold Emu.ticksOn at htick
  by_cases hrun : st'.nemuState.state = .nemuRunning
  · rw [testState, if_neg (not_not.mpr hrun)] at hcalled
    rw [if_neg (not_not.mpr hrun)] at htick
    have hthird : sdbStep P A H ⟨⟨st', r, y.nrGuestInst + 1⟩, .updating (.until expr) 0⟩ (.proceed s) =
        some ⟨v, .ready (.until expr) 0⟩ := congrArg (Option.map _) htick
    refine ⟨_, (hcalled.snoc hthird).snoc (e := .proceed s) rfl, ?_, rfl⟩
    simp [NotBack]
  · rw [testState, if_pos hrun] at hcalled
    rw [if_pos hrun] at htick
    obtain rfl := Option.some.inj htick
    refine ⟨_, hcalled, ?_, rfl⟩
    simp [NotBack]

theorem Rounds.run (h : Rounds P A H expr x k y) : ∃ tr,
    SdbRun P A H ⟨x, .untilTest expr⟩ tr ⟨y, .untilTest expr⟩ ∧ NotBack tr ∧ tests expr tr = k := by
  induction h with
  | none => exact ⟨[], .nil, by simp [NotBack], rfl⟩
  | @call k y z s _ hon hcall ih =>
    obtain ⟨tr, hrun, hback, hcount⟩ := ih
    obtain ⟨tr', hrun', hback', hcount'⟩ := sdbRun_call hon hcall
    have htest : sdbStep P A H ⟨y, .untilTest expr⟩ (.proceed s) =
        some ⟨y.started s, .ready (.until expr) 1⟩ := by
      have hcond : y.dut.pc ≠ expr ∧
          (y.dut.nemuState.state = .nemuRunning ∨ y.dut.nemuState.state = .nemuStop) := hon
      change some (testExpr expr s y) = _
      rw [testExpr, if_pos hcond, callCpuExec_not_ended hon.not_ended]
      rfl
    refine ⟨_, (hrun.snoc htest).append hrun', ?_, ?_⟩
    · simp only [NotBack, List.forall_mem_append, List.forall_mem_singleton]
      exact ⟨⟨hback, nofun⟩, hback'⟩
    · rw [tests, List.countP_append, List.countP_append, List.countP_singleton]
      simp only [tests] at hcount hcount'
      rw [hcount, hcount']
      simp

/-! ## Main result -/

def pausedNops : Emu Unit Unit := ⟨setRunState .nemuStop (booted clintBoard [0x13, 0x13, 0x13]), (), 0⟩

end GsEmu.Difftest
