import GsEmu.Difftest.Step

/-! Catching up with a reference that runs ahead: what `difftest_skip_dut` starts and the following calls of
`difftest_step` bring to an end. -/

namespace GsEmu.Difftest
open Bytes Layout Riscv32

variable {D R : Type} {P : Platform D} {A : Adapter R} {st : State D} {r : R}

/-! ## Calls in sequence -/

structure DutStep (D : Type) where
  env : CallEnv
  pc : Word
  npc : Word
  dut : State D

/-- The program counter that `difftest_regcpy` reports: the reference's own only for an adapter that copies it. -/
def refPc (A : Adapter R) (env : CallEnv) (r : R) : Word := (regFileAt cpuState (A.toDut r env.stack)).pc

def DutStep.Qualifies (A : Adapter R) (r : R) (c : DutStep D) : Prop := refPc A c.env r = c.npc

/-- Each call finds the skip variables as the one before has left them; nothing else asks for a skip. -/
def stepCalls (P : Platform D) (A : Adapter R) :
    State D × R → List (DutStep D) → Option (List (Exit R) × State D × R)
  | x, [] => some ([], x)
  | x, c :: cs => do
    let (exit, x) ← difftestStep P A c.env c.pc c.npc { c.dut with skip := x.1.skip } x.2
    let (exits, x) ← stepCalls P A x cs
    return (exit :: exits, x)

def lastDut (st : State D) (cs : List (DutStep D)) : State D := (cs.getLast?.map (·.dut)).getD st

def waiting (n : Int) : DifftestSkip := ⟨false, n, false⟩

variable {c : DutStep D} {cs : List (DutStep D)} {n : Int}

theorem stepCalls_append (x : State D × R) (cs cs' : List (DutStep D)) : stepCalls P A x (cs ++ cs') =
    (stepCalls P A x cs).bind fun y =>
      (stepCalls P A y.2 cs').map fun z => (y.1 ++ z.1, z.2) := by
  induction cs generalizing x with
  | nil =>
    change stepCalls P A x cs' = (stepCalls P A x cs').map fun z => ([] ++ z.1, z.2)
    simp only [List.nil_append, Option.map_id']
  | cons c cs ih =>
    simp only [List.cons_append, stepCalls, ih, Option.bind_eq_bind, Option.pure_def, Option.bind_assoc,
      Option.bind_some, Option.bind_map]
    refine Option.bind_congr fun y _ => Option.bind_congr fun z _ => ?_
    cases stepCalls P A z.2 cs' <;> rfl

theorem lastDut_cons (st : State D) (c : DutStep D) (cs : List (DutStep D)) (k : DifftestSkip) :
    { lastDut { c.dut with skip := k } cs with skip := waiting n } =
      { lastDut st (c :: cs) with skip := waiting n } := by
  cases cs with
  | nil => rfl
  | cons d cs => rfl

/-! ## One call -/

theorem difftestStep_waiting (env : CallEnv) (pc npc : Word) (r : R) (hskip : st.skip = waiting n)
    (hn : 0 < n) : difftestStep P A env pc npc st r = if refPc A env r = npc then
        some (.caughtUp, checkregs P A env.answer (A.toDut r env.stack) npc { st with skip := waiting 0 } r)
      else if n - 1 = 0 then none else some (.catchingUp, { st with skip := waiting (n - 1) }, r) := by
  have hone : st.skip.skipDutOneInst = false := by rw [hskip]; rfl
  have hcount : st.skip.skipDutNrInst = n := by rw [hskip]; rfl
  unfold difftestStep
  rw [hone, hcount, if_neg Bool.false_ne_true, if_pos hn, hskip]
  rfl

theorem difftestStep_qualifies (hskip : st.skip = waiting n) (hn : 0 < n) (hc : c.Qualifies A r) :
    difftestStep P A c.env c.pc c.npc st r = some (.caughtUp,
      checkregs P A c.env.answer (A.toDut r c.env.stack) c.npc { st with skip := waiting 0 } r) := by
  rw [difftestStep_waiting _ _ _ _ hskip hn]
  exact if_pos hc

theorem difftestStep_waits (hskip : st.skip = waiting n) (hn : 1 < n) (hc : ¬c.Qualifies A r) :
    difftestStep P A c.env c.pc c.npc st r =
      some (.catchingUp, { st with skip := waiting (n - 1) }, r) := by
  have hleft : n - 1 ≠ 0 := sub_ne_zero_of_ne (ne_of_gt hn)
  rw [difftestStep_waiting _ _ _ _ hskip (Int.zero_lt_one.trans hn), if_neg hleft]
  exact if_neg hc

theorem difftestStep_panics (hskip : st.skip = waiting 1) (hc : ¬c.Qualifies A r) :
    difftestStep P A c.env c.pc c.npc st r = none := by
  rw [difftestStep_waiting _ _ _ _ hskip Int.zero_lt_one, if_pos (Int.sub_self 1)]
  exact if_neg hc

theorem checkregs_counter {answer : Option Int} {refR : Memory} {pc : Word} (hskip : st.skip = waiting 0) :
    (checkregs P A answer refR pc st r).1.skip.skipDutNrInst = 0 := by
  have hcheck : (isaDifftestCheckregs P A answer refR st r).2.1.skip.skipDutNrInst = 0 := by
    unfold isaDifftestCheckregs
    split_ifs
    · split
      all_goals
        simp only [difftestSkipDut, difftestSkipRefOne, hskip]
        rfl
    · rw [hskip]
      rfl
  unfold checkregs
  dsimp only
  split_ifs <;> exact hcheck

theorem checkregs_same_pc {answer : Option Int} {refR : Memory} {pc : Word}
    (hpc : st.pc = (regFileAt cpuState refR).pc) :
    (checkregs P A answer refR pc st r).1.skip = st.skip ∧ (checkregs P A answer refR pc st r).2 = r := by
  have hcheck : isaDifftestCheckregs P A answer refR st r = (!regsDiffer P.toConfig refR st, st, r) :=
    if_neg (not_not.mpr hpc)
  unfold checkregs
  rw [hcheck]
  dsimp only
  split_ifs <;> exact ⟨rfl, rfl⟩

/-! ## The window -/

theorem stepCalls_wait (hskip : st.skip = waiting n) (hnone : ∀ c ∈ cs, ¬c.Qualifies A r)
    (hlen : (cs.length : Int) < n) : stepCalls P A (st, r) cs =
      some (List.replicate cs.length .catchingUp,
        { lastDut st cs with skip := waiting (n - cs.length) }, r) := by
  induction cs generalizing st n with
  | nil =>
    have hsame : { st with skip := waiting (n - (0 : Nat)) } = st := by
      rw [Nat.cast_zero, Int.sub_zero, ← hskip]
    exact congrArg (fun s => some ([], s, r)) hsame.symm
  | cons c cs ih =>
    have hlength : ((c :: cs).length : Int) = cs.length + 1 := rfl
    rw [hlength] at hlen
    have hmore : 1 < n := by omega
    have hfirst := hnone c (List.mem_cons_self ..)
    have hwait : difftestStep P A c.env c.pc c.npc { c.dut with skip := st.skip } r =
        some (.catchingUp, { c.dut with skip := waiting (n - 1) }, r) := difftestStep_waits hskip hmore hfirst
    obtain ⟨t, ht⟩ : ∃ t, { c.dut with skip := waiting (n - 1) } = t := ⟨_, rfl⟩
    have hrest := ih (congrArg State.skip ht).symm (fun d hd => hnone d (List.mem_cons_of_mem _ hd))
      (Int.lt_sub_right_of_add_lt hlen)
    have hcount : n - 1 - (cs.length : Int) = n - ((c :: cs).length : Int) := by omega
    rw [ht] at hwait
    simp only [stepCalls, hwait, Option.bind_eq_bind, Option.bind_some, hrest, Option.pure_def]
    rw [← ht, lastDut_cons st, hcount]
    rfl

theorem stepCalls_runs_out (hskip : st.skip = waiting n) (hn : 0 < n) (hnone : ∀ c ∈ cs, ¬c.Qualifies A r)
    (hlen : n ≤ cs.length) : stepCalls P A (st, r) cs = none := by
  induction cs generalizing st n with
  | nil => exact absurd (hn.trans_le hlen) (lt_irrefl _)
  | cons c cs ih =>
    have hlength : ((c :: cs).length : Int) = cs.length + 1 := rfl
    rw [hlength] at hlen
    have hfirst := hnone c (List.mem_cons_self ..)
    rcases eq_or_lt_of_le (Int.add_one_le_of_lt hn) with hone | hmore
    · have hlast : st.skip = waiting 1 := by rw [hskip, ← hone]; rfl
      have hpanic : difftestStep P A c.env c.pc c.npc { c.dut with skip := st.skip } r = none :=
        difftestStep_panics hlast hfirst
      simp only [stepCalls, hpanic, Option.bind_eq_bind, Option.bind_none]
    · have hwait : difftestStep P A c.env c.pc c.npc { c.dut with skip := st.skip } r =
          some (.catchingUp, { c.dut with skip := waiting (n - 1) }, r) :=
        difftestStep_waits hskip hmore hfirst
      obtain ⟨t, ht⟩ : ∃ t, { c.dut with skip := waiting (n - 1) } = t := ⟨_, rfl⟩
      have hrest := ih (congrArg State.skip ht).symm (Int.sub_pos.mpr hmore)
        (fun d hd => hnone d (List.mem_cons_of_mem _ hd)) (Int.sub_right_le_of_le_add hlen)
      rw [ht] at hwait
      simp only [stepCalls, hwait, Option.bind_eq_bind, Option.bind_some, hrest, Option.bind_none]

/-! ## Main result -/

/-- The reference has been stepped to `ref`, and the DUT has `nrDut` steps to meet it. -/
structure CatchesUp (P : Platform D) (A : Adapter R) (ref : R) (nrDut : Int) (x : State D × R) : Prop where
  ahead : x.2 = ref
  waits : ∀ cs, (∀ c ∈ cs, ¬c.Qualifies A ref) → (cs.length : Int) < nrDut → stepCalls P A x cs =
    some (List.replicate cs.length .catchingUp,
      { lastDut x.1 cs with skip := waiting (nrDut - cs.length) }, ref)
  resumes : ∀ cs c, (∀ b ∈ cs, ¬b.Qualifies A ref) → (cs.length : Int) < nrDut → c.Qualifies A ref →
    ∃ y, stepCalls P A x (cs ++ [c]) = some (List.replicate cs.length .catchingUp ++ [.caughtUp], y) ∧
      y = checkregs P A c.env.answer (A.toDut ref c.env.stack) c.npc { c.dut with skip := waiting 0 } ref ∧
      y.1.skip.skipDutNrInst = 0 ∧ (c.dut.pc = c.npc → y.1.skip = waiting 0 ∧ y.2 = ref)
  panics : ∀ cs, (∀ c ∈ cs, ¬c.Qualifies A ref) → (stepCalls P A x cs = none ↔ nrDut ≤ cs.length)

/-- From a state with no skip pending, whatever the reference, the DUT's steps and the prompt's answers. -/
theorem difftestSkipDut_catchesUp (nrRef : Nat) {nrDut : Int} (hnr : 1 ≤ nrDut)
    (hidle : st.skip = waiting 0) :
    CatchesUp P A (A.exec^[nrRef] r) nrDut (difftestSkipDut A nrRef nrDut st r) := by
  obtain ⟨ref, href⟩ : ∃ ref, A.exec^[nrRef] r = ref := ⟨_, rfl⟩
  obtain ⟨s, hs⟩ : ∃ s, (difftestSkipDut A nrRef nrDut st r).1 = s := ⟨_, rfl⟩
  have hx : difftestSkipDut A nrRef nrDut st r = (s, ref) := Prod.ext hs href
  have hskip : s.skip = waiting nrDut := by
    rw [← hs]
    simp only [difftestSkipDut, hidle, waiting, Int.zero_add]
  rw [href, hx]
  refine ⟨rfl, fun cs => stepCalls_wait hskip, ?_, fun cs hnone => ⟨fun hpanic => ?_, ?_⟩⟩
  · intro cs c hnone hlen hc
    have hleft : 0 < nrDut - (cs.length : Int) := Int.sub_pos.mpr hlen
    refine ⟨_, ?_, rfl, checkregs_counter rfl, fun hpc => checkregs_same_pc (hpc.trans hc.symm)⟩
    have hlast : difftestStep P A c.env c.pc c.npc
        { c.dut with skip := waiting (nrDut - cs.length) } ref = _ := difftestStep_qualifies rfl hleft hc
    rw [stepCalls_append, stepCalls_wait hskip hnone hlen]
    simp only [Option.bind_some, stepCalls, hlast, Option.bind_eq_bind, Option.pure_def, Option.map_some]
  · refine not_lt.mp fun hlen => ?_
    rw [stepCalls_wait hskip hnone hlen] at hpanic
    exact absurd hpanic (by simp)
  · exact stepCalls_runs_out hskip hnr hnone

theorem difftestSkipDut_catchesUp_two : CatchesUp spikeBoard spikeNops (spikeNops.exec spikeReset) 2
    (difftestSkipDut spikeNops 1 2 (booted spikeBoard []) spikeReset) :=
  difftestSkipDut_catchesUp 1 (by decide) rfl

end GsEmu.Difftest
