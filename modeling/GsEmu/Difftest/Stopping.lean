import GsEmu.Lib.Outcome
import GsEmu.Difftest.Debugger

/-! What stays of a stopped emulator. `execute` tests the state before `device_update` and not after it,
and the switch of `cpu_exec` has no case for `NEMU_QUIT`. -/

namespace GsEmu.Difftest
open Riscv32

variable {D R : Type} {P : Platform D} {A : Adapter R} {H : Host D} {st st' : State D} {r r' : R}
  {x y : Emu D R} {z₀ z z' : Session D R} {tr : List (Session D R × SdbEvent)} {e : SdbEvent}
  {c : Command} {s : Decode}

/-- The run has ended, or the window has been closed. -/
def Stopped (x : Emu D R) : Prop := Ended x ∨ x.dut.nemuState.state = .nemuQuit

structure StaysStopped (x y : Emu D R) : Prop where
  stopped : Stopped y
  nrGuestInst : y.nrGuestInst = x.nrGuestInst
  haltPc : y.dut.nemuState.haltPc = x.dut.nemuState.haltPc
  haltRet : y.dut.nemuState.haltRet = x.dut.nemuState.haltRet

/-- Once stopped, stopped in every later state. -/
def Lasting (tr : List (Session D R × SdbEvent)) (z : Session D R) : Prop :=
  (tr.map Prod.fst ++ [z]).Pairwise fun z z' => Stopped z.emu → StaysStopped z.emu z'.emu

/-- The command calls `cpu_exec` without a look at the state. -/
def Command.resumes : Command → Prop
  | .c none => True
  | .si n => n ≠ 0
  | _ => False

/-- The window is not closed while `execute` has rounds left, and nothing is resumed after it has been
closed. -/
def KeepsStop (H : Host D) (z : Session D R) (e : SdbEvent) : Prop :=
  match z.point, e with
  | .updating _ n, _ => (H.tick z.emu.nrGuestInst).quit = true → n = 0
  | .prompt, .command c _ => z.emu.dut.nemuState.state = .nemuQuit → ¬c.resumes
  | _, _ => True

instance : Decidable (Ended x) := inferInstanceAs (Decidable (_ ∨ _))

instance : Decidable (Stopped x) := inferInstanceAs (Decidable (_ ∨ _))

instance : Decidable (StaysStopped x y) :=
  decidable_of_iff (Stopped y ∧ y.nrGuestInst = x.nrGuestInst ∧
      y.dut.nemuState.haltPc = x.dut.nemuState.haltPc ∧
      y.dut.nemuState.haltRet = x.dut.nemuState.haltRet)
    ⟨fun ⟨h, hnr, hpc, hret⟩ => ⟨h, hnr, hpc, hret⟩, fun ⟨h, hnr, hpc, hret⟩ => ⟨h, hnr, hpc, hret⟩⟩

instance : Decidable (Lasting tr z) := inferInstanceAs (Decidable (List.Pairwise _ _))

instance (c : Command) : Decidable c.resumes :=
  match c with
  | .c none => isTrue trivial
  | .si n => inferInstanceAs (Decidable (n ≠ 0))
  | .c (some _) | .q | .x _ _ | .other | .eof => isFalse id

instance : Decidable (KeepsStop H z e) :=
  match h : z.point, e with
  | .updating _ n, _ => decidable_of_iff ((H.tick z.emu.nrGuestInst).quit = true → n = 0)
      (by simp only [KeepsStop, h])
  | .prompt, .command c _ => decidable_of_iff (z.emu.dut.nemuState.state = .nemuQuit → ¬c.resumes)
      (by simp only [KeepsStop, h])
  | .prompt, .proceed _ => isTrue (by simp only [KeepsStop, h])
  | .untilTest _, _ => isTrue (by simp only [KeepsStop, h])
  | .ready _ _, _ => isTrue (by simp only [KeepsStop, h])
  | .executed _ _, _ => isTrue (by simp only [KeepsStop, h])
  | .exited, _ => isTrue (by simp only [KeepsStop, h])

/-! ## The invariant -/

/-- The run state at each place: `execute` is entered running, and only `device_update` at its last round
can change that unseen. -/
def Point.Fits (x : Emu D R) : Point → Prop
  | .ready _ n => x.dut.nemuState.state = .nemuRunning ∨ x.dut.nemuState.state = .nemuQuit ∧ n = 0
  | .executed _ _ => x.dut.nemuState.state = .nemuRunning ∨
      x.dut.nemuState.state = .nemuEnd ∧ x.dut.nemuState.haltPc = x.dut.s.pc
  | .updating _ _ => x.dut.nemuState.state = .nemuRunning
  | _ => True

structure Session.Sound (z : Session D R) : Prop where
  nr : z.emu.dut.skip.skipDutNrInst = 0
  fits : z.point.Fits z.emu

theorem Caller.back_fits (k : Caller) (x : Emu D R) : k.back.Fits x := by
  cases k <;> trivial

theorem StaysStopped.trans {w : Emu D R} (h : StaysStopped x y) (h' : StaysStopped y w) :
    StaysStopped x w :=
  ⟨h'.stopped, h'.nrGuestInst.trans h.nrGuestInst, h'.haltPc.trans h.haltPc,
    h'.haltRet.trans h.haltRet⟩

theorem Stopped.not_running (h : Stopped x) : x.dut.nemuState.state ≠ .nemuRunning := by
  rcases h with (h | h) | h <;> simp [h]

theorem Stopped.stays (h : Stopped x) (hstate : y.dut.nemuState = x.dut.nemuState)
    (hnr : y.nrGuestInst = x.nrGuestInst) : StaysStopped x y := by
  refine ⟨?_, hnr, congrArg _ hstate, congrArg _ hstate⟩
  unfold Stopped Ended
  rw [hstate]
  exact h

/-! ## Commands -/

theorem difftestSkipRef_nr (ref : DifftestRef) (k : DifftestSkip) (h : k.skipDutNrInst = 0) :
    (difftestSkipRef ref k).skipDutNrInst = 0 := by
  cases ref <;> first | exact h | rfl

theorem vaddrRead_nemuState {a v : Word} {len : Nat} (h : vaddrRead P a len st = some (v, st')) :
    st'.nemuState = st.nemuState := by
  obtain ⟨io, skip, rfl⟩ := paddrRead_bus h
  rfl

theorem cmdX_keeps {n expr : Word} (h : cmdX P n expr st = some st')
    (hnr : st.skip.skipDutNrInst = 0) :
    st'.skip.skipDutNrInst = 0 ∧ st'.nemuState = st.nemuState := by
  have hbyte : ∀ (a : Word) (t t' : State D), (vaddrRead P a 1 t).map (·.2) = some t' →
      t.skip.skipDutNrInst = 0 ∧ t.nemuState = st.nemuState →
      t'.skip.skipDutNrInst = 0 ∧ t'.nemuState = st.nemuState := by
    rintro a t t' hread ⟨hnr, hstate⟩
    obtain ⟨⟨v, u⟩, hbyte, hu⟩ := Option.map_eq_some_iff.mp hread
    obtain rfl : u = t' := hu
    exact ⟨paddrRead_skip (difftestSkipRef_nr P.difftest) hbyte hnr,
      (vaddrRead_nemuState hbyte).trans hstate⟩
  have hword : ∀ (t : State D) (i : Nat) (t' : State D), ([3, 2, 1, 0].foldlM (fun st k =>
      (vaddrRead P (expr + 4 * BitVec.ofNat 32 i + k) 1 st).map (·.2)) t) = some t' →
      t.skip.skipDutNrInst = 0 ∧ t.nemuState = st.nemuState →
      t'.skip.skipDutNrInst = 0 ∧ t'.nemuState = st.nemuState := by
    intro t i t'
    exact Outcome.foldlM_keeps fun t k t' => hbyte _ t t'
  exact Outcome.foldlM_keeps hword h ⟨hnr, rfl⟩

theorem callCpuExec_keeps (k : Caller) (n : BitVec 64) (s : Decode)
    (hnr : x.dut.skip.skipDutNrInst = 0) (hquit : x.dut.nemuState.state ≠ .nemuQuit) :
    (callCpuExec k n s x).Sound ∧ (Stopped x → StaysStopped x (callCpuExec k n s x).emu) := by
  by_cases hend : Ended x
  · rw [callCpuExec_ended hend]
    exact ⟨⟨hnr, k.back_fits x⟩, fun h => h.stays rfl rfl⟩
  · have hstop : ¬Stopped x := fun h => h.elim hend hquit
    rw [callCpuExec_not_ended hend]
    exact ⟨⟨hnr, .inl rfl⟩, fun h => absurd h hstop⟩

theorem command_keeps (h : command P c s x = some z') (hnr : x.dut.skip.skipDutNrInst = 0)
    (hC : x.dut.nemuState.state = .nemuQuit → ¬c.resumes) :
    z'.Sound ∧ (Stopped x → StaysStopped x z'.emu) := by
  cases c with
  | c expr =>
    cases expr with
    | none =>
      obtain rfl := Option.some.inj h
      exact callCpuExec_keeps _ _ _ hnr fun hq => hC hq trivial
    | some expr =>
      obtain rfl := Option.some.inj h
      exact ⟨⟨hnr, trivial⟩, fun h => h.stays rfl rfl⟩
  | q =>
    obtain rfl := Option.some.inj h
    exact ⟨⟨hnr, trivial⟩, fun _ => ⟨.inr rfl, rfl, rfl, rfl⟩⟩
  | si n =>
    obtain rfl := Option.some.inj h
    by_cases hn : n = 0
    · rw [if_pos hn]
      exact ⟨⟨hnr, trivial⟩, fun h => h.stays rfl rfl⟩
    · rw [if_neg hn]
      exact callCpuExec_keeps _ _ _ hnr fun hq => hC hq hn
  | x n expr =>
    obtain ⟨st, hst, rfl⟩ := Option.map_eq_some_iff.mp h
    obtain ⟨hnr', hstate⟩ := cmdX_keeps hst hnr
    exact ⟨⟨hnr', trivial⟩, fun h => h.stays hstate rfl⟩
  | other =>
    obtain rfl := Option.some.inj h
    exact ⟨⟨hnr, trivial⟩, fun h => h.stays rfl rfl⟩
  | eof =>
    obtain rfl := Option.some.inj h
    exact ⟨⟨hnr, trivial⟩, fun h => h.stays rfl rfl⟩

/-! ## Inside `cpu_exec` -/

theorem checkregs_nr {answer : Option Int} {refR : Bytes.Memory} {pc : Word}
    (h : checkregs P A answer refR pc st r = (st', r')) :
    st'.skip.skipDutNrInst = st.skip.skipDutNrInst := by
  have hcheck : (isaDifftestCheckregs P A answer refR st r).2.1.skip.skipDutNrInst =
      st.skip.skipDutNrInst := by
    unfold isaDifftestCheckregs
    split
    · split
      · rfl
      · exact add_zero _
      · rfl
      · rfl
    · rfl
  have hst : st' = (checkregs P A answer refR pc st r).1 := (congrArg Prod.fst h).symm
  rw [hst, ← hcheck]
  unfold checkregs
  dsimp only
  split <;> rfl

theorem difftestStep_nr {env : CallEnv} {pc npc : Word} {exit : Exit R}
    (h : difftestStep P A env pc npc st r = some (exit, st', r'))
    (hnr : st.skip.skipDutNrInst = 0) : st'.skip.skipDutNrInst = 0 := by
  unfold difftestStep at h
  rw [if_neg (not_lt.mpr hnr.le)] at h
  split at h
  · simp only [Option.some.injEq, Prod.mk.injEq] at h
    obtain ⟨-, rfl, -⟩ := h
    exact hnr
  split at h
  · simp only [Option.some.injEq, Prod.mk.injEq] at h
    obtain ⟨-, rfl, -⟩ := h
    exact hnr
  · simp only [Option.bind_eq_bind, Option.pure_def, Option.bind_eq_some_iff, Option.some.injEq,
      Prod.mk.injEq] at h
    obtain ⟨st₁, hw, -, hcheck⟩ := h
    rw [checkregs_nr hcheck]
    exact paddrWrite_skip (difftestSkipRef_nr P.difftest) hw hnr

theorem traceAndDifftest_keeps {env : CallEnv} {dnpc : Word}
    (h : traceAndDifftest P A env dnpc st r = some (st', r')) (hnr : st.skip.skipDutNrInst = 0) :
    st'.skip.skipDutNrInst = 0 ∧ Aborts st.s.pc st.nemuState st'.nemuState := by
  unfold traceAndDifftest at h
  split at h
  · obtain rfl := (Prod.mk.inj (Option.some.inj h)).1
    exact ⟨hnr, .inl rfl⟩
  · obtain ⟨⟨exit, q⟩, hdiff, hq⟩ := Option.map_eq_some_iff.mp h
    obtain rfl : q = (st', r') := hq
    have habort := difftestStep_aborts hdiff
    rw [if_neg (not_lt.mpr hnr.le)] at habort
    exact ⟨difftestStep_nr hdiff hnr, habort⟩

theorem stopped_keeps (k : Caller) (hnr : x.dut.skip.skipDutNrInst = 0) :
    Session.Sound ⟨x.stopped, k.back⟩ ∧ (Stopped x → StaysStopped x x.stopped) := by
  unfold Emu.stopped
  refine ⟨⟨?_, k.back_fits _⟩, fun hstop => ?_⟩
  · dsimp only
    split <;> exact hnr
  · rw [if_neg hstop.not_running]
    exact hstop.stays rfl rfl

theorem execOnce_keeps {k : Caller} {n : Nat} (hz : Session.Sound ⟨x, .ready k (n + 1)⟩)
    (h : execOnce P x.dut = some st) :
    Session.Sound ⟨⟨st, x.ref, x.nrGuestInst + 1⟩, .executed k n⟩ ∧ ¬Stopped x := by
  have hrun : x.dut.nemuState.state = .nemuRunning :=
    hz.fits.resolve_right fun hq => absurd hq.2 n.succ_ne_zero
  obtain ⟨hpc, hhalt⟩ := execOnce_halts h
  have hnr : st.skip.skipDutNrInst = 0 :=
    execOnce_skip (difftestSkipRef_nr P.difftest) h (difftestSkipRef_nr P.difftest _ hz.nr)
  refine ⟨⟨hnr, ?_⟩, fun hstop => hstop.not_running hrun⟩
  rcases hhalt with hsame | hend
  · exact .inl ((congrArg _ hsame).trans hrun)
  · exact .inr ⟨hend.1, hend.2.trans hpc.symm⟩

theorem testState_keeps {k : Caller} {n : Nat} (hz : Session.Sound ⟨x, .executed k n⟩)
    (hnr : y.dut.skip.skipDutNrInst = 0) (hcount : y.nrGuestInst = x.nrGuestInst)
    (habort : Aborts x.dut.s.pc x.dut.nemuState y.dut.nemuState) :
    (testState k n y).Sound ∧ (Stopped x → StaysStopped x (testState k n y).emu) := by
  unfold testState
  refine ⟨?_, fun hstop => ?_⟩
  · split
    · rename_i hne
      rw [Emu.stopped, if_neg hne]
      exact ⟨hnr, k.back_fits _⟩
    · rename_i hrun
      exact ⟨hnr, not_not.mp hrun⟩
  · have hstay : StaysStopped x y := by
      rcases habort with hsame | habort
      · exact hstop.stays hsame hcount
      · have hend := hz.fits.resolve_left hstop.not_running
        refine ⟨.inl (.inr ?_), hcount, ?_, ?_⟩
        · rw [habort]
        · rw [habort]
          exact hend.2.symm
        · rw [habort]
    rw [if_pos hstay.stopped.not_running, Emu.stopped, if_neg hstay.stopped.not_running]
    exact hstay

theorem ticked_keeps {k : Caller} {n : Nat} (hz : Session.Sound ⟨x, .updating k n⟩)
    (hC : (H.tick x.nrGuestInst).quit = true → n = 0) (h : x.ticked H = some y) :
    Session.Sound ⟨y, .ready k n⟩ ∧ ¬Stopped x := by
  have hrun : x.dut.nemuState.state = .nemuRunning := hz.fits
  obtain ⟨io, rfl⟩ := ticked_frame h
  refine ⟨?_, fun hstop => hstop.not_running hrun⟩
  by_cases hquit : (H.tick x.nrGuestInst).quit = true
  · rw [if_pos hquit]
    exact ⟨hz.nr, .inr ⟨rfl, hC hquit⟩⟩
  · rw [if_neg hquit]
    exact ⟨hz.nr, .inl hrun⟩

theorem testExpr_keeps (expr : Word) (s : Decode) (hnr : x.dut.skip.skipDutNrInst = 0) :
    (testExpr expr s x).Sound ∧ (Stopped x → StaysStopped x (testExpr expr s x).emu) := by
  unfold testExpr
  split
  · rename_i htest
    refine callCpuExec_keeps _ _ _ hnr fun hquit => ?_
    rcases htest.2 with h | h <;> simp [h] at hquit
  · exact ⟨⟨hnr, trivial⟩, fun hstop => hstop.stays rfl rfl⟩

/-- One step under the condition. -/
theorem sdbStep_keeps (hz : z.Sound) (hC : KeepsStop H z e) (h : sdbStep P A H z e = some z') :
    z'.Sound ∧ (Stopped z.emu → StaysStopped z.emu z'.emu) := by
  obtain ⟨x, point⟩ := z
  cases e with
  | command c s =>
    unfold sdbStep at h
    dsimp only at h
    split at h
    · rename_i hpoint
      obtain rfl : point = .prompt := hpoint
      exact command_keeps h hz.nr hC
    · simp at h
  | proceed s =>
    cases point with
    | prompt | exited => simp [sdbStep, proceed] at h
    | untilTest expr =>
      obtain rfl := Option.some.inj h
      exact testExpr_keeps expr s hz.nr
    | ready k n =>
      cases n with
      | zero =>
        obtain rfl := Option.some.inj h
        exact stopped_keeps k hz.nr
      | succ n =>
        obtain ⟨st, hexec, rfl⟩ := Option.map_eq_some_iff.mp h
        obtain ⟨hsound, hnot⟩ := execOnce_keeps hz hexec
        exact ⟨hsound, fun hstop => absurd hstop hnot⟩
    | executed k n =>
      obtain ⟨⟨st, r⟩, htrace, rfl⟩ := Option.map_eq_some_iff.mp h
      obtain ⟨hnr, habort⟩ := traceAndDifftest_keeps htrace hz.nr
      exact testState_keeps hz hnr rfl habort
    | updating k n =>
      obtain ⟨y, hy, rfl⟩ := Option.map_eq_some_iff.mp h
      obtain ⟨hsound, hnot⟩ := ticked_keeps hz hC hy
      exact ⟨hsound, fun hstop => absurd hstop hnot⟩

def Overrun (z : Session D R) : Prop :=
  Stopped z.emu ∧ ∃ k n, z.point = .ready k (n + 1)

theorem Overrun.step (hz : Overrun z) (h : sdbStep P A H z e = some z') :
    ¬StaysStopped z.emu z'.emu := by
  obtain ⟨-, k, n, hpoint⟩ := hz
  cases e with
  | command c s =>
    rw [sdbStep, if_neg (by simp [hpoint])] at h
    simp at h
  | proceed s =>
    rw [sdbStep, proceed, hpoint] at h
    obtain ⟨st, -, rfl⟩ := Option.map_eq_some_iff.mp h
    exact fun hstay => absurd hstay.nrGuestInst (Nat.succ_ne_self _)

/-- A step outside the condition resumes a closed emulator, or leaves a round to execute. -/
theorem sdbStep_breaks (hC : ¬KeepsStop H z e) (h : sdbStep P A H z e = some z') :
    (Stopped z.emu ∧ ¬StaysStopped z.emu z'.emu) ∨ Overrun z' := by
  obtain ⟨x, point⟩ := z
  cases point with
  | untilTest | ready | executed | exited => exact absurd trivial hC
  | prompt =>
    cases e with
    | proceed s => exact absurd trivial hC
    | command c s =>
      simp only [KeepsStop, Classical.not_imp, not_not] at hC
      obtain ⟨hquit, hresumes⟩ := hC
      have hnot : ¬Ended x := by
        rintro (hend | hend) <;> simp [hend] at hquit
      have hcall : ∃ n, z' = callCpuExec .command n s x := by
        cases c with
        | c expr =>
          cases expr with
          | none => exact ⟨_, (Option.some.inj h).symm⟩
          | some expr => exact hresumes.elim
        | si n =>
          refine ⟨n.setWidth 64, (Option.some.inj h).symm.trans ?_⟩
          exact if_neg hresumes
        | q | x | other | eof => exact hresumes.elim
      obtain ⟨n, rfl⟩ := hcall
      rw [callCpuExec_not_ended hnot]
      exact .inl ⟨.inr hquit, fun hstay => hstay.stopped.not_running rfl⟩
  | updating k n =>
    simp only [KeepsStop, Classical.not_imp] at hC
    obtain ⟨hquit, hn⟩ := hC
    obtain ⟨m, rfl⟩ := Nat.exists_eq_succ_of_ne_zero hn
    cases e with
    | command c s => simp [sdbStep] at h
    | proceed s =>
      obtain ⟨y, hy, rfl⟩ := Option.map_eq_some_iff.mp h
      obtain ⟨io, rfl⟩ := ticked_frame hy
      refine .inr ⟨.inr ?_, k, m, rfl⟩
      dsimp only
      rw [if_pos hquit]
      rfl

/-! ## Runs of the debugger -/

/-- In a run whose steps meet the condition a stopped emulator stays stopped; and only in these, once the
run is back at the prompt. -/
theorem stopped_lasts (P : Platform D) (A : Adapter R) (H : Host D) (hpoint : z₀.point = .prompt)
    (hnr : z₀.emu.dut.skip.skipDutNrInst = 0) (h : SdbRun P A H z₀ tr z) :
    ((∀ p ∈ tr, KeepsStop H p.1 p.2) → Lasting tr z) ∧
      (z.point = .prompt → Lasting tr z → ∀ p ∈ tr, KeepsStop H p.1 p.2) := by
  have hsound : z₀.Sound := ⟨hnr, by rw [hpoint]; trivial⟩
  constructor
  · intro hC
    refine h.pairwise (I := Session.Sound) ?_ hsound ?_ ?_ hC
    · exact fun a b c hab hbc hstop => (hab hstop).trans (hbc (hab hstop).stopped)
    · exact fun s e s' hs hstep hC => (sdbStep_keeps hs hC hstep).1
    · exact fun s e s' hs hstep hC => (sdbStep_keeps hs hC hstep).2
  · intro hz hall
    suffices hor : (∀ p ∈ tr, KeepsStop H p.1 p.2) ∨ Overrun z by
      refine hor.resolve_right ?_
      rintro ⟨-, k, n, hready⟩
      rw [hz] at hready
      cases hready
    clear hz
    induction h with
    | nil => exact .inl fun _ hp => absurd hp List.not_mem_nil
    | @snoc tr s e s' hr hs ih =>
      rw [Lasting, List.map_append, List.map_singleton] at hall
      obtain ⟨hpre, -, hlast⟩ := List.pairwise_append.mp hall
      have hstep := hlast s (List.mem_append_right _ (List.mem_singleton_self _)) s'
        (List.mem_singleton_self _)
      rcases ih hpre with hC | hover
      · by_cases hlastC : KeepsStop H s e
        · left
          simp only [List.forall_mem_append, List.forall_mem_singleton]
          exact ⟨hC, hlastC⟩
        · rcases sdbStep_breaks hlastC hs with ⟨hstop, hno⟩ | hover
          · exact absurd (hstep hstop) hno
          · exact .inr hover
      · exact absurd (hstep hover.1) (hover.step hs)

def atPrompt (prog : List Word) : Session Unit Unit :=
  ⟨⟨setRunState .nemuStop (booted clintBoard prog), (), 0⟩, .prompt⟩

def blankRecord : Decode := ⟨0, 0, 0, 0⟩

def breakThenStep : List SdbEvent :=
  [.command (.c none) blankRecord, .proceed blankRecord, .proceed blankRecord,
    .command (.si 1) blankRecord]

theorem stopped_lasts_ebreak : ∃ tr z,
    SdbRun clintBoard idleAdapter idleHost (atPrompt [0x00100073]) tr z ∧
    (∃ p ∈ tr, Stopped p.1.emu) ∧ Lasting tr z := by
  have hsome : (breakThenStep.foldlM (sdbStep clintBoard idleAdapter idleHost)
      (atPrompt [0x00100073])).isSome = true := by decide +kernel
  obtain ⟨z, hz⟩ := Option.isSome_iff_exists.mp hsome
  have hC : ∀ p ∈ Run.traceOf (sdbStep clintBoard idleAdapter idleHost) (atPrompt [0x00100073])
      breakThenStep, KeepsStop idleHost p.1 p.2 := by decide +kernel
  refine ⟨_, z, Run.of_foldlM hz, by decide +kernel, ?_⟩
  exact (stopped_lasts clintBoard idleAdapter idleHost rfl rfl (Run.of_foldlM hz)).1 hC

def closingHost : Host Unit := ⟨fun n => .still (decide (n = 1)), fun _ => freshEnv⟩

def closedMidway : List SdbEvent :=
  [.command (.si 2) blankRecord, .proceed blankRecord, .proceed blankRecord, .proceed blankRecord,
    .proceed blankRecord]

def closedThenStep : List SdbEvent :=
  [.command (.si 1) blankRecord, .proceed blankRecord, .proceed blankRecord, .proceed blankRecord,
    .proceed blankRecord, .command (.si 1) blankRecord]

def Resumed (es : List SdbEvent) : Prop :=
  ∃ z, SdbRun clintBoard idleAdapter closingHost (atPrompt [0x13, 0x13])
    (Run.traceOf (sdbStep clintBoard idleAdapter closingHost) (atPrompt [0x13, 0x13]) es) z ∧
      ¬Lasting (Run.traceOf (sdbStep clintBoard idleAdapter closingHost) (atPrompt [0x13, 0x13]) es) z

theorem resumed_of_foldlM {es : List SdbEvent}
    (h : (es.foldlM (sdbStep clintBoard idleAdapter closingHost) (atPrompt [0x13, 0x13])).map
      (fun z => decide (Lasting (Run.traceOf (sdbStep clintBoard idleAdapter closingHost)
        (atPrompt [0x13, 0x13]) es) z)) = some false) : Resumed es := by
  obtain ⟨z, hz, hno⟩ := Option.map_eq_some_iff.mp h
  exact ⟨z, Run.of_foldlM hz, of_decide_eq_false hno⟩

theorem stopped_refuted : Resumed closedMidway ∧ Resumed closedThenStep := by
  constructor
  · apply resumed_of_foldlM
    decide +kernel
  · apply resumed_of_foldlM
    decide +kernel

end GsEmu.Difftest
