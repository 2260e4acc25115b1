import GsEmu.Difftest.Prompt
import GsEmu.Difftest.RunTo

/-! Whatever is typed at the prompt, the guest runs as it would without the debugger. -/

namespace GsEmu.Difftest
open Riscv32 Sdb Bytes

variable {D R : Type} {P : Platform D} {A : Adapter R} {H : Host D} {x y z w : Emu D R} {s : Decode} {k : Nat}
  {q q' : Session D R}

/-! ## Where a call of `cpu_exec` ends -/

theorem Steady.paused_or_ended (h : Steady P A H s x k) (hy : cpuExec P A H (BitVec.ofNat 64 k) s x = some y) :
    Paused y ∨ Ended y := by
  have hwindow := h.window
  rw [h.visits] at hwindow
  rw [(cpuExec_not_ended h.paused.not_ended _ _).1, toNat_count h.count] at hy
  obtain ⟨w, hw, rfl⟩ := Option.map_eq_some_iff.mp hy
  unfold Emu.stopped
  rcases execute_state rfl hwindow hw with hrun | hend
  · rw [if_pos hrun]
    exact .inl rfl
  · have hnrun : ¬w.dut.nemuState.state = .nemuRunning := by
      rcases hend with h | h <;> rw [h] <;> exact nofun
    rw [if_neg hnrun]
    exact .inr hend

theorem Steady.quit (h : Steady P A H s x (k + 1)) (hy : cpuExec P A H (BitVec.ofNat 64 k) s x = some y)
    (hpaused : Paused y) : (H.tick (y.nrGuestInst + 1)).quit = false := by
  have hk := h.of_le (Nat.le_succ k)
  have hwindow := hk.window
  rw [hk.visits] at hwindow
  rw [(cpuExec_not_ended h.paused.not_ended _ _).1, toNat_count hk.count] at hy
  obtain ⟨w, hw, rfl⟩ := Option.map_eq_some_iff.mp hy
  have hrun : w.dut.nemuState.state = .nemuRunning := by
    by_contra hnrun
    have hstopped : w.stopped = w := if_neg hnrun
    rw [hstopped] at hpaused
    rcases execute_state rfl hwindow hw with hrun | hend
    · exact hnrun hrun
    · exact hpaused.not_ended hend
  have hnr : w.stopped.nrGuestInst = w.nrGuestInst := by
    rw [Emu.stopped, if_pos hrun]
  have hlast : w ∈ Difftest.visits P A H (k + 1) (x.started s) :=
    mem_visits_add (b := 1) hwindow hw hrun (List.mem_cons_self ..)
  rw [hnr]
  refine h.window w ?_
  rw [h.visits]
  exact hlast

/-! ## The steps of the debugger -/

/-- After `k` instructions in all the debugger is where a call for `k` of them leads, or on the way to where the
next one leads. -/
inductive Follows (P : Platform D) (A : Adapter R) (H : Host D) (s : Decode) (x : Emu D R) : Nat → Session D R → Prop
  | idle {k : Nat} {y z : Emu D R} (c : Caller) : cpuExec P A H (BitVec.ofNat 64 k) s x = some y →
    y.guest = z.guest → Follows P A H s x k ⟨z, c.back⟩
  | ready {k : Nat} {y z : Emu D R} (c : Caller) (n : Nat) (s' : Decode) :
    cpuExec P A H (BitVec.ofNat 64 k) s x = some y → y.guest = z.guest → Paused z →
    Follows P A H s x k ⟨z.started s', .ready c n⟩
  | executed {k : Nat} {y z : Emu D R} {st : State D} (c : Caller) (n : Nat) (s' : Decode) :
    cpuExec P A H (BitVec.ofNat 64 k) s x = some y → y.guest = z.guest → Paused z →
    execOnce P (z.started s').dut = some st →
    Follows P A H s x (k + 1) ⟨⟨st, z.ref, z.nrGuestInst + 1⟩, .executed c n⟩
  | updating {k : Nat} {y z w : Emu D R} (c : Caller) (n : Nat) (s' : Decode) :
    cpuExec P A H (BitVec.ofNat 64 k) s x = some y → y.guest = z.guest → Paused z →
    execRound P A H (z.started s') = some w → w.dut.nemuState.state = .nemuRunning →
    Follows P A H s x (k + 1) ⟨w, .updating c n⟩
  | exited {k : Nat} {z : Emu D R} : Follows P A H s x k ⟨z, .exited⟩

theorem Paused.congr (h : y.guest = z.guest) (hy : Paused y) : Paused z := by
  have hstate : y.dut.nemuState = z.dut.nemuState := congrArg (·.dut.nemuState) h
  unfold Paused
  rw [← hstate]
  exact hy

theorem Ended.congr (h : y.guest = z.guest) (hy : Ended y) : Ended z := by
  have hstate : y.dut.nemuState = z.dut.nemuState := congrArg (·.dut.nemuState) h
  unfold Ended
  rw [← hstate]
  exact hy

theorem Follows.call (hs : Steady P A H s x k) (hy : cpuExec P A H (BitVec.ofNat 64 k) s x = some y)
    (hguest : y.guest = z.guest) (c : Caller) (n : BitVec 64) (s' : Decode) :
    Follows P A H s x k (callCpuExec c n s' z) := by
  rcases hs.paused_or_ended hy with hpaused | hend
  · have hz := hpaused.congr hguest
    rw [callCpuExec_not_ended hz.not_ended]
    exact .ready c _ s' hy hguest hz
  · rw [callCpuExec_ended (hend.congr hguest)]
    exact .idle c hy hguest

theorem Follows.next (hs : Steady P A H s x (k + 1)) (hy : cpuExec P A H (BitVec.ofNat 64 k) s x = some y)
    (hguest : y.guest = z.guest) (hz : Paused z) {s' : Decode} (hround : execRound P A H (z.started s') = some w)
    {u : Emu D R} (htick : w.ticksOn H = some u) :
    ∃ v, cpuExec P A H (BitVec.ofNat 64 (k + 1)) s x = some v ∧ v.guest = u.stopped.guest := by
  have hsucc := hs.succ s'
  have hcall : cpuExec P A H 1 s' z = some u.stopped := by
    rw [cpuExec_one hz.not_ended, hround, Option.bind_some, htick, Option.map_some]
  rw [hy, Option.bind_some, cpuExec_guest hguest, hcall, Option.map_some] at hsucc
  obtain ⟨v, hv, hvguest⟩ := Option.map_eq_some_iff.mp hsucc.symm
  exact ⟨v, hv, hvguest⟩

/-- The reads of a command leave the machine alone. -/
def QuietCommand (P : Platform D) (c : Command) (st : State D) : Prop :=
  ∀ n a st', c = .x n a → cmdX P n a st = some st' → st' = st

theorem callCpuExec_nr (c : Caller) (n : BitVec 64) (s' : Decode) (z : Emu D R) :
    (callCpuExec c n s' z).emu.nrGuestInst = z.nrGuestInst := by
  unfold callCpuExec
  split <;> rfl

theorem stopped_nr (z : Emu D R) : z.stopped.nrGuestInst = z.nrGuestInst := by
  unfold Emu.stopped
  split <;> rfl

theorem command_nr {c : Command} {s' : Decode} (h : command P c s' z = some q) :
    q.emu.nrGuestInst = z.nrGuestInst := by
  cases c with
  | c expr =>
    cases expr <;> obtain rfl := Option.some.inj h
    · exact callCpuExec_nr ..
    · rfl
  | si n =>
    obtain rfl := Option.some.inj h
    split
    · rfl
    · exact callCpuExec_nr ..
  | x n expr =>
    obtain ⟨st, -, rfl⟩ := Option.map_eq_some_iff.mp h
    rfl
  | _ =>
    obtain rfl := Option.some.inj h
    rfl

theorem testExpr_nr (expr : Word) (s' : Decode) (z : Emu D R) :
    (testExpr expr s' z).emu.nrGuestInst = z.nrGuestInst := by
  unfold testExpr
  split
  · exact callCpuExec_nr ..
  · rfl

theorem sdbStep_nr {e : SdbEvent} (h : sdbStep P A H q e = some q') : q.emu.nrGuestInst ≤ q'.emu.nrGuestInst := by
  cases e with
  | command c s' =>
    rw [sdbStep] at h
    split at h
    · exact (command_nr h).ge
    · cases h
  | proceed s' =>
    obtain ⟨z, point⟩ := q
    cases point with
    | prompt => cases h
    | exited => cases h
    | untilTest expr =>
      obtain rfl := Option.some.inj (show some (testExpr expr s' z) = some q' from h)
      exact (testExpr_nr ..).ge
    | ready c n =>
      cases n with
      | zero =>
        obtain rfl := Option.some.inj (show some ⟨z.stopped, c.back⟩ = some q' from h)
        exact (stopped_nr z).ge
      | succ n =>
        obtain ⟨st, -, rfl⟩ := Option.map_eq_some_iff.mp h
        exact Nat.le_succ _
    | executed c n =>
      obtain ⟨y, -, rfl⟩ := Option.map_eq_some_iff.mp h
      unfold testState
      split
      · exact (stopped_nr (⟨y.1, y.2, z.nrGuestInst⟩ : Emu D R)).ge
      · exact le_rfl
    | updating c n =>
      obtain ⟨y, hy, rfl⟩ := Option.map_eq_some_iff.mp h
      exact (ticked_nr hy).ge

theorem Paused.stopped_started (hz : Paused z) (s' : Decode) : (z.started s').stopped.guest = z.guest := by
  have hstate : z.dut.nemuState = { z.dut.nemuState with state := .nemuStop } := by rw [← hz]
  have hrun : (z.started s').dut.nemuState.state = .nemuRunning := rfl
  rw [Emu.stopped, if_pos hrun]
  simp only [Emu.guest, Emu.started, setRunState, ← hstate]

theorem started_stopped (hrun : z.dut.nemuState.state = .nemuRunning) : z.stopped.started z.dut.s = z := by
  have hstate : z.dut.nemuState = { z.dut.nemuState with state := .nemuRunning } := by rw [← hrun]
  rw [Emu.stopped, if_pos hrun]
  simp only [Emu.started, setRunState, ← hstate]

theorem Follows.command {c : Command} {s' : Decode} (hs : Steady P A H s x k)
    (hy : cpuExec P A H (BitVec.ofNat 64 k) s x = some y) (hguest : y.guest = z.guest)
    (hquiet : QuietCommand P c z.dut) (h : Difftest.command P c s' z = some q') : Follows P A H s x k q' := by
  cases c with
  | c expr =>
    cases expr with
    | none =>
      obtain rfl := Option.some.inj h
      exact .call hs hy hguest _ _ _
    | some expr =>
      obtain rfl := Option.some.inj h
      exact .idle (.until expr) hy hguest
  | q =>
    obtain rfl := Option.some.inj h
    exact .exited
  | si n =>
    obtain rfl := Option.some.inj h
    by_cases hn : n = 0
    · rw [if_pos hn]
      exact .idle .command hy hguest
    · rw [if_neg hn]
      exact .call hs hy hguest _ _ _
  | x n expr =>
    obtain ⟨st, hst, rfl⟩ := Option.map_eq_some_iff.mp h
    obtain rfl := hquiet n expr st rfl hst
    exact .idle .command hy hguest
  | other =>
    obtain rfl := Option.some.inj h
    exact .idle .command hy hguest
  | eof =>
    obtain rfl := Option.some.inj h
    exact .exited

theorem Follows.test (hs : Steady P A H s x k) (hy : cpuExec P A H (BitVec.ofNat 64 k) s x = some y)
    (hguest : y.guest = z.guest) (expr : Word) (s' : Decode) : Follows P A H s x k (testExpr expr s' z) := by
  unfold testExpr
  split
  · exact .call hs hy hguest _ _ _
  · exact .idle .command hy hguest

/-- The tick keeps the machine running, so a stop and a start after it leave it as it is. -/
theorem Follows.ticked {u : Emu D R} {s' : Decode} (hs : Steady P A H s x (k + 1))
    (hy : cpuExec P A H (BitVec.ofNat 64 k) s x = some y) (hguest : y.guest = z.guest) (hz : Paused z)
    (hround : execRound P A H (z.started s') = some w) (hrun : w.dut.nemuState.state = .nemuRunning)
    (hu : w.ticked H = some u) (c : Caller) (n : Nat) : Follows P A H s x (k + 1) ⟨u, .ready c n⟩ := by
  obtain ⟨v, hv, hvguest⟩ := Follows.next hs hy hguest hz hround ((if_neg (not_not.mpr hrun)).trans hu)
  have hquit : (H.tick w.nrGuestInst).quit = false := by
    have hcount : y.nrGuestInst = z.nrGuestInst := congrArg (·.nrGuestInst) hguest
    rw [execRound_nr hround]
    change (H.tick (z.nrGuestInst + 1)).quit = false
    rw [← hcount]
    exact hs.quit hy (Paused.congr hguest.symm hz)
  have hticked : u.dut.nemuState.state = .nemuRunning := by rw [ticked_nemuState hquit hu, hrun]
  have hpaused : Paused u.stopped := by
    rw [Emu.stopped, if_pos hticked]
    rfl
  have hready := Follows.ready (s := s) c n u.dut.s hv hvguest hpaused
  rw [started_stopped hticked] at hready
  exact hready

theorem Follows.step {e : SdbEvent} (hf : Follows P A H s x k q) (he : sdbStep P A H q e = some q')
    (hquiet : ∀ c s', e = .command c s' → QuietCommand P c q.emu.dut)
    (hs : ∀ i, q.emu.nrGuestInst + i = q'.emu.nrGuestInst → Steady P A H s x (k + i)) :
    ∃ i, q.emu.nrGuestInst + i = q'.emu.nrGuestInst ∧ Follows P A H s x (k + i) q' := by
  cases hf with
  | @idle k y z c hy hguest =>
    cases c with
    | command =>
      cases e with
      | proceed s' => cases he
      | command cmd s' =>
        have hcmd : Difftest.command P cmd s' z = some q' := he
        have hnr := (command_nr hcmd).symm
        exact ⟨0, hnr, .command (hs 0 hnr) hy hguest (hquiet cmd s' rfl) hcmd⟩
    | «until» expr =>
      cases e with
      | command cmd s' => cases he
      | proceed s' =>
        obtain rfl := Option.some.inj (show some (testExpr expr s' z) = some q' from he)
        have hnr := (testExpr_nr expr s' z).symm
        exact ⟨0, hnr, .test (hs 0 hnr) hy hguest expr s'⟩
  | @ready k y z c n s₁ hy hguest hz =>
    cases e with
    | command cmd s' => cases he
    | proceed s' =>
      cases n with
      | zero =>
        have hback : some ⟨(z.started s₁).stopped, c.back⟩ = some q' := he
        obtain rfl := Option.some.inj hback
        exact ⟨0, (stopped_nr _).symm, .idle c hy (hguest.trans (hz.stopped_started s₁).symm)⟩
      | succ n =>
        obtain ⟨st, hexec, rfl⟩ := Option.map_eq_some_iff.mp he
        exact ⟨1, rfl, .executed (z := z) c n s₁ hy hguest hz hexec⟩
  | @executed k y z st c n s₁ hy hguest hz hexec =>
    cases e with
    | command cmd s' => cases he
    | proceed s' =>
      obtain ⟨⟨st', r⟩, htrace, rfl⟩ := Option.map_eq_some_iff.mp he
      have hround := execRound_of_once hexec htrace
      by_cases hrun : st'.nemuState.state = .nemuRunning
      · rw [testState, if_neg (not_not.mpr hrun)]
        exact ⟨0, rfl, .updating c n s₁ hy hguest hz hround hrun⟩
      · rw [testState, if_pos hrun] at hs ⊢
        have hnr := (stopped_nr (⟨st', r, z.nrGuestInst + 1⟩ : Emu D R)).symm
        obtain ⟨v, hv, hvguest⟩ := Follows.next (hs 0 hnr) hy hguest hz hround (if_pos hrun)
        exact ⟨0, hnr, .idle c hv hvguest⟩
  | @updating k y z w c n s₁ hy hguest hz hround hrun =>
    cases e with
    | command cmd s' => cases he
    | proceed s' =>
      obtain ⟨u, hu, rfl⟩ := Option.map_eq_some_iff.mp he
      have hnr := (ticked_nr hu).symm
      exact ⟨0, hnr, .ticked (hs 0 hnr) hy hguest hz hround hrun hu c n⟩
  | exited =>
    cases e <;> cases he

/-! ## The window -/

variable {W : Window D} {v v' : Shell D R} {e : ShellEvent} {L seen : List Nat} {tokens : Tokens}
  {events : List SdlEvent}

/-- The events that wait after an instruction, in a run in which lines are entered after the instructions `L`. -/
def Window.waiting (W : Window D) (L : List Nat) : Nat → List SdlEvent
  | 0 => []
  | n + 1 => (if n ∈ L ∨ W.due n = true then [] else W.waiting L n) ++ W.arrive (n + 1)

def Window.host (W : Window D) (L : List Nat) : Host D := ⟨fun n => W.tick n (W.waiting L n), W.env⟩

/-- What is left of them when the next instruction starts, with the lines entered so far in `seen`. -/
def Window.left (W : Window D) (L seen : List Nat) (n : Nat) : List SdlEvent :=
  if n ∈ seen ∨ W.due n = true then [] else W.waiting L n

def enteredBy (z : Shell D R) : ShellEvent → List Nat
  | .line line _ => if (strtok ' ' line).isSome then [z.session.emu.nrGuestInst] else []
  | _ => []

def enteredAt (tr : List (Shell D R × ShellEvent)) : List Nat := tr.flatMap fun p => enteredBy p.1 p.2

def Queued (W : Window D) (L seen : List Nat) (x : Emu D R) (events : List SdlEvent) : Point → Prop
  | .prompt | .exited => True
  | .untilTest expr => GoesOn expr x → events = W.left L seen x.nrGuestInst
  | .ready _ _ => x.dut.nemuState.state ≠ .nemuStop ∧ events = W.left L seen x.nrGuestInst
  | .executed _ _ | .updating _ _ =>
    x.dut.nemuState.state ≠ .nemuStop ∧ x.nrGuestInst ∉ seen ∧ events = W.waiting L x.nrGuestInst

def Shell.Queued (v : Shell D R) (W : Window D) (L seen : List Nat) : Prop :=
  Difftest.Queued W L seen v.session.emu v.events v.session.point

theorem queued_back (k : Caller) (h : events = W.left L seen x.nrGuestInst) : Queued W L seen x events k.back := by
  cases k with
  | command => trivial
  | «until» expr => exact fun _ => h

theorem queued_callCpuExec (k : Caller) (n : BitVec 64) (s' : Decode) (h : events = W.left L seen z.nrGuestInst) :
    Queued W L seen (callCpuExec k n s' z).emu events (callCpuExec k n s' z).point := by
  by_cases hend : Ended z
  · rw [callCpuExec_ended hend]
    exact queued_back k h
  · rw [callCpuExec_not_ended hend]
    have hrun : NemuRun.nemuRunning ≠ .nemuStop := by decide
    exact ⟨hrun, h⟩

theorem queued_command {c : Command} {s' : Decode} (h : command P c s' z = some q) (hseen : z.nrGuestInst ∈ seen) :
    Queued W L seen q.emu [] q.point := by
  have hleft : [] = W.left L seen z.nrGuestInst := (if_pos (.inl hseen)).symm
  cases c with
  | c expr =>
    cases expr with
    | none =>
      obtain rfl := Option.some.inj h
      exact queued_callCpuExec _ _ _ hleft
    | some expr =>
      obtain rfl := Option.some.inj h
      exact fun _ => hleft
  | si n =>
    obtain rfl := Option.some.inj h
    split
    · trivial
    · exact queued_callCpuExec _ _ _ hleft
  | x n expr =>
    obtain ⟨st, -, rfl⟩ := Option.map_eq_some_iff.mp h
    trivial
  | _ =>
    obtain rfl := Option.some.inj h
    trivial

theorem queued_proceed {s' : Decode} (hq : Queued W L seen q.emu events q.point)
    (h : proceed P A H s' q = some q') (hseen : ∀ m ∈ seen, m ≤ q.emu.nrGuestInst)
    (hL : ∀ m < q'.emu.nrGuestInst, m ∈ L ↔ m ∈ seen) :
    Queued W L seen q'.emu (W.queue q.emu.nrGuestInst events q.point) q'.point := by
  obtain ⟨z, point⟩ := q
  cases point with
  | prompt | exited => cases h
  | untilTest expr =>
    obtain rfl := Option.some.inj (show some (testExpr expr s' z) = some q' from h)
    unfold testExpr
    split
    · rename_i hcond
      exact queued_callCpuExec _ _ _ (hq hcond)
    · trivial
  | ready k n =>
    obtain ⟨hstate, hleft⟩ := hq
    cases n with
    | zero =>
      obtain rfl := Option.some.inj (show some ⟨z.stopped, k.back⟩ = some q' from h)
      apply queued_back
      rw [stopped_nr]
      exact hleft
    | succ n =>
      obtain ⟨st, hexec, rfl⟩ := Option.map_eq_some_iff.mp h
      refine ⟨?_, fun hmem => absurd (hseen _ hmem) (Nat.not_succ_le_self _), ?_⟩
      · rcases execOnce_ends hexec with hsame | hend
        · rwa [hsame]
        · rw [hend]
          decide
      · change events ++ _ = (if _ then _ else _) ++ _
        simp only [hL _ (Nat.lt_succ_self z.nrGuestInst)]
        exact congrArg (· ++ _) hleft
  | executed k n =>
    obtain ⟨hstate, hno, hwait⟩ := hq
    obtain ⟨⟨st, r⟩, htrace, rfl⟩ := Option.map_eq_some_iff.mp h
    have hnext : st.nemuState.state ≠ .nemuStop := by
      rcases traceAndDifftest_state htrace with hsame | habort
      · rwa [hsame]
      · rw [habort]
        decide
    unfold testState
    split
    · rename_i hstop
      rw [Emu.stopped, if_neg hstop]
      cases k with
      | command => trivial
      | «until» expr => exact fun hon => absurd hon.2 (not_or.mpr ⟨hstop, hnext⟩)
    · exact ⟨hnext, hno, hwait⟩
  | updating k n =>
    obtain ⟨hstate, hno, hwait⟩ := hq
    obtain ⟨y, hy, rfl⟩ := Option.map_eq_some_iff.mp h
    refine ⟨?_, ?_⟩
    · obtain ⟨io, rfl⟩ := ticked_frame hy
      dsimp only
      split
      · have hquit : NemuRun.nemuQuit ≠ .nemuStop := by decide
        exact hquit
      · exact hstate
    · change (if _ then _ else _) = W.left L seen y.nrGuestInst
      rw [ticked_nr hy, Window.left]
      simp only [hno, false_or, ← hwait]

theorem proceed_congr {H' : Host D} {s' : Decode} (henv : H.env = H'.env)
    (htick : ∀ k n, q.point = .updating k n → H.tick q.emu.nrGuestInst = H'.tick q.emu.nrGuestInst) :
    proceed P A H s' q = proceed P A H' s' q := by
  obtain ⟨z, point⟩ := q
  cases point with
  | executed k n => simp only [proceed, henv]
  | updating k n => simp only [proceed, Emu.ticked, htick k n rfl]
  | ready k n => cases n <;> rfl
  | _ => rfl

theorem Shell.Queued.proceed_eq (hq : v.Queued W L seen) (s' : Decode) :
    proceed P A ⟨fun n => W.tick n v.events, W.env⟩ s' v.session = proceed P A (W.host L) s' v.session := by
  refine proceed_congr rfl fun k n hpoint => ?_
  rw [Shell.Queued, hpoint] at hq
  exact congrArg (W.tick _) hq.2.2

/-! ## Lines -/

/-- A line that reads no device: neither its expression nor `x` changes the machine. -/
def QuietLine (P : Platform D) (z : Shell D R) (e : ShellEvent) : Prop :=
  ∀ line s l, e = .line line s → sdbLine P line z.tokens z.session.emu.dut = .ok l →
    l.dut = z.session.emu.dut ∧ QuietCommand P l.command z.session.emu.dut

theorem QuietLine.of_not_line (h : ∀ line s, e ≠ .line line s) : QuietLine P v e :=
  fun line s _ he => absurd he (h line s)

theorem shellStep_line {line : CString} {s' : Decode} (h : shellStep P A W v (.line line s') = some v') :
    v.session.point = .prompt ∧ ∃ l q, sdbLine P line v.tokens v.session.emu.dut = .ok l ∧
      command P l.command s' { v.session.emu with dut := l.dut } = some q ∧
      v' = ⟨q, l.tokens, sdlClearEventQueue line v.events⟩ := by
  rw [shellStep] at h
  split at h
  · refine ⟨‹_›, ?_⟩
    cases hline : sdbLine P line v.tokens v.session.emu.dut with
    | error r =>
      rw [hline] at h
      cases h
    | ok l =>
      rw [hline] at h
      obtain ⟨q, hq, rfl⟩ := Option.map_eq_some_iff.mp h
      exact ⟨l, q, rfl, hq, rfl⟩
  · cases h

theorem shellStep_nr (h : shellStep P A W v e = some v') :
    v.session.emu.nrGuestInst ≤ v'.session.emu.nrGuestInst := by
  cases e with
  | line line s' =>
    obtain ⟨-, l, q, -, hq, rfl⟩ := shellStep_line h
    exact (command_nr hq).ge
  | proceed s' =>
    obtain ⟨q, hq, rfl⟩ := Option.map_eq_some_iff.mp h
    exact sdbStep_nr (e := .proceed s') hq
  | arrive e =>
    rw [shellStep] at h
    split at h
    · obtain rfl := Option.some.inj h
      exact le_rfl
    · cases h
  | eof =>
    rw [shellStep] at h
    split at h
    · obtain rfl := Option.some.inj h
      exact le_rfl
    · cases h

theorem enteredBy_eq {m : Nat} (hm : m ∈ enteredBy v e) : m = v.session.emu.nrGuestInst := by
  cases e with
  | line line s' =>
    rw [enteredBy] at hm
    split at hm
    · exact List.mem_singleton.mp hm
    · cases hm
  | _ => cases hm

theorem Shell.Queued.step (hq : v.Queued W L seen) (h : shellStep P A W v e = some v')
    (hseen : ∀ m ∈ seen, m ≤ v.session.emu.nrGuestInst)
    (hL : ∀ m < v'.session.emu.nrGuestInst, m ∈ L ↔ m ∈ seen ++ enteredBy v e) :
    v'.Queued W L (seen ++ enteredBy v e) := by
  cases e with
  | line line s' =>
    obtain ⟨-, l, q, hline, hcommand, rfl⟩ := shellStep_line h
    unfold Shell.Queued
    cases hword : strtok ' ' line with
    | none =>
      rw [sdbLine, hword] at hline
      obtain rfl := Except.ok.inj hline
      obtain rfl := Option.some.inj hcommand
      trivial
    | some word =>
      simp only [enteredBy, sdlClearEventQueue, hword, Option.isSome_some, if_true]
      exact queued_command hcommand (List.mem_append_right _ (List.mem_singleton_self _))
  | proceed s' =>
    obtain ⟨q, hproceed, rfl⟩ := Option.map_eq_some_iff.mp h
    have hnone : enteredBy v (.proceed s') = [] := rfl
    rw [hnone, List.append_nil] at hL ⊢
    exact queued_proceed hq hproceed hseen hL
  | arrive e =>
    rw [shellStep] at h
    split at h
    · obtain rfl := Option.some.inj h
      rw [Shell.Queued, ‹v.session.point = _›]
      trivial
    · cases h
  | eof =>
    rw [shellStep] at h
    split at h
    · obtain rfl := Option.some.inj h
      trivial
    · cases h

/-- A line is the command that it spells; an event of the window leaves the debugger where it is. -/
theorem shellStep_sdbStep (h : shellStep P A W v e = some v') (hquiet : QuietLine P v e) (hq : v.Queued W L seen) :
    v'.session = v.session ∨ ∃ e', sdbStep P A (W.host L) v.session e' = some v'.session ∧
      ∀ c s', e' = .command c s' → QuietCommand P c v.session.emu.dut := by
  cases e with
  | line line s =>
    obtain ⟨hpoint, l, q, hline, hcommand, rfl⟩ := shellStep_line h
    obtain ⟨hdut, hreads⟩ := hquiet line s l rfl hline
    rw [hdut] at hcommand
    refine .inr ⟨.command l.command s, (if_pos hpoint).trans hcommand, ?_⟩
    rintro c s' hc
    obtain ⟨rfl, -⟩ := SdbEvent.command.inj hc
    exact hreads
  | proceed s =>
    obtain ⟨q, hproceed, rfl⟩ := Option.map_eq_some_iff.mp h
    rw [hq.proceed_eq] at hproceed
    exact .inr ⟨.proceed s, hproceed, nofun⟩
  | arrive e =>
    rw [shellStep] at h
    split at h
    · obtain rfl := Option.some.inj h
      exact .inl rfl
    · cases h
  | eof =>
    rw [shellStep] at h
    split at h
    · obtain rfl := Option.some.inj h
      refine .inr ⟨.command .eof v.session.emu.dut.s, (if_pos ‹_›).trans rfl, ?_⟩
      rintro c s' hc
      obtain ⟨rfl, -⟩ := SdbEvent.command.inj hc
      exact nofun
    · cases h

theorem Follows.run {tr : List (Shell D R × ShellEvent)}
    (h : ShellRun P A W ⟨⟨x, .prompt⟩, tokens, events⟩ tr v) (hquiet : ∀ p ∈ tr, QuietLine P p.1 p.2)
    (hs : Steady P A (W.host L) s x k) (hle : v.session.emu.nrGuestInst ≤ x.nrGuestInst + k)
    (hL : ∀ m < v.session.emu.nrGuestInst, m ∈ L ↔ m ∈ enteredAt tr) :
    (∃ j, x.nrGuestInst + j = v.session.emu.nrGuestInst ∧ Follows P A (W.host L) s x j v.session) ∧
      v.Queued W L (enteredAt tr) ∧ ∀ m ∈ enteredAt tr, m ≤ v.session.emu.nrGuestInst := by
  induction h with
  | nil =>
    obtain ⟨y, hy, hguest⟩ := cpuExec_zero (P := P) (A := A) (H := W.host L) hs.paused s
    exact ⟨⟨0, rfl, .idle .command hy hguest⟩, trivial, fun m hm => absurd hm List.not_mem_nil⟩
  | @snoc tr v e v' _ hstep ih =>
    simp only [List.forall_mem_append, List.forall_mem_singleton] at hquiet
    have hnr := shellStep_nr hstep
    have hentered : enteredAt (tr ++ [(v, e)]) = enteredAt tr ++ enteredBy v e := by
      simp only [enteredAt, List.flatMap_append, List.flatMap_cons, List.flatMap_nil, List.append_nil]
    rw [hentered] at hL ⊢
    obtain ⟨⟨j, hj, hfollows⟩, hqueued, hseen⟩ := ih hquiet.1 (hnr.trans hle) fun m hm => by
      rw [hL m (hm.trans_le hnr), List.mem_append]
      exact or_iff_left fun hm' => hm.ne (enteredBy_eq hm')
    refine ⟨?_, hqueued.step hstep hseen hL, fun m hm => ?_⟩
    · rcases shellStep_sdbStep hstep hquiet.2 hqueued with hsame | ⟨e', hstep', hcommand⟩
      · rw [hsame]
        exact ⟨j, hj, hfollows⟩
      · obtain ⟨i, hi, hnext⟩ := hfollows.step hstep' hcommand fun i hi => hs.of_le (by omega)
        exact ⟨j + i, by omega, hnext⟩
    · rcases List.mem_append.mp hm with hm | hm
      · exact (hseen m hm).trans hnr
      · exact (enteredBy_eq hm).le.trans hnr

/-! ## Main result -/

/-- From the first prompt to any later one, whatever lines are typed in between and however the steps are split
among them, the guest comes to where one call of `cpu_exec` for the same number of instructions takes it, on a host
that loses the events that wait when a line is entered; except that a line may not read a device. -/
theorem shell_transparent {tr : List (Shell D R × ShellEvent)}
    (h : ShellRun P A W ⟨⟨x, .prompt⟩, tokens, events⟩ tr v) (hprompt : v.session.point = .prompt)
    (hquiet : ∀ p ∈ tr, QuietLine P p.1 p.2) (hs : Steady P A (W.host (enteredAt tr)) s x k)
    (hk : v.session.emu.nrGuestInst = x.nrGuestInst + k) :
    ∃ y, cpuExec P A (W.host (enteredAt tr)) (BitVec.ofNat 64 k) s x = some y ∧
      y.guest = v.session.emu.guest := by
  obtain ⟨⟨j, hj, hfollows⟩, -⟩ := Follows.run h hquiet hs hk.le fun _ _ => Iff.rfl
  obtain rfl : j = k := by omega
  obtain ⟨⟨z, point⟩, tokens', events'⟩ := v
  obtain rfl : point = .prompt := hprompt
  generalize hq : (⟨z, .prompt⟩ : Session D R) = q at hfollows
  cases hfollows with
  | idle c hy hguest =>
    obtain ⟨rfl, -⟩ := Session.mk.inj hq
    exact ⟨_, hy, hguest⟩
  | _ => exact absurd (congrArg Session.point hq) nofun

def siLine : CString := ⟨text "si", by decide⟩

def closingWindow : Window Unit :=
  ⟨fun _ => [], fun _ => true, fun events => .still (events.any SdlEvent.closes), fun _ => freshEnv⟩

/-- The window is closed at the prompt, before `si` is typed. -/
theorem shell_transparent_si : ∃ tr v y,
    ShellRun clintBoard idleAdapter closingWindow ⟨⟨pausedNops, .prompt⟩, .initial, []⟩ tr v ∧
    (tr.map Prod.snd = [.arrive .quit, .line siLine ⟨0, 0, 0, 0⟩, .proceed ⟨0, 0, 0, 0⟩, .proceed ⟨0, 0, 0, 0⟩,
      .proceed ⟨0, 0, 0, 0⟩, .proceed ⟨0, 0, 0, 0⟩] ∧ v.session.point = .prompt ∧ Paused v.session.emu) ∧
    cpuExec clintBoard idleAdapter (closingWindow.host [0]) (BitVec.ofNat 64 1) ⟨0, 0, 0, 0⟩ pausedNops = some y ∧
      y.guest = v.session.emu.guest := by
  have hset : ∀ y ∈ cpuVisits clintBoard idleAdapter (closingWindow.host [0]) 1 ⟨0, 0, 0, 0⟩ pausedNops,
      Settles clintBoard y.dut := by decide +kernel
  have hkeep : ∀ y ∈ cpuVisits clintBoard idleAdapter (closingWindow.host [0]) 1 ⟨0, 0, 0, 0⟩ pausedNops,
      ((closingWindow.host [0]).tick (y.nrGuestInst + 1)).quit = false := by decide +kernel
  have hsteady : Steady clintBoard idleAdapter (closingWindow.host [0]) ⟨0, 0, 0, 0⟩ pausedNops 1 :=
    ⟨rfl, by decide, hset, hkeep⟩
  have hstate : (execOnce clintBoard (pausedNops.started ⟨0, 0, 0, 0⟩).dut).map (·.nemuState.state) =
      some .nemuRunning := by decide +kernel
  obtain ⟨st, hst, hrun⟩ := Option.map_eq_some_iff.mp hstate
  have hline : sdbLine clintBoard siLine .initial pausedNops.dut = .ok ⟨.si 1, .initial, pausedNops.dut⟩ := rfl
  have hstart : ShellRun clintBoard idleAdapter closingWindow ⟨⟨pausedNops, .prompt⟩, .initial, []⟩ []
      ⟨⟨pausedNops, .prompt⟩, .initial, []⟩ := .nil
  have hquit : shellStep clintBoard idleAdapter closingWindow ⟨⟨pausedNops, .prompt⟩, .initial, []⟩ (.arrive .quit) =
      some ⟨⟨pausedNops, .prompt⟩, .initial, [.quit]⟩ := rfl
  have hfirst : shellStep clintBoard idleAdapter closingWindow ⟨⟨pausedNops, .prompt⟩, .initial, [.quit]⟩
      (.line siLine ⟨0, 0, 0, 0⟩) =
      some ⟨⟨pausedNops.started ⟨0, 0, 0, 0⟩, .ready .command 1⟩, .initial, []⟩ := by
    rw [shellStep, if_pos rfl, hline]
    rfl
  have hsecond : shellStep clintBoard idleAdapter closingWindow
      ⟨⟨pausedNops.started ⟨0, 0, 0, 0⟩, .ready .command 1⟩, .initial, []⟩ (.proceed ⟨0, 0, 0, 0⟩) =
      some ⟨⟨⟨st, (), 1⟩, .executed .command 0⟩, .initial, []⟩ := by
    rw [shellStep, proceed, hst]
    rfl
  have hthird : shellStep clintBoard idleAdapter closingWindow
      ⟨⟨⟨st, (), 1⟩, .executed .command 0⟩, .initial, []⟩ (.proceed ⟨0, 0, 0, 0⟩) =
      some ⟨⟨⟨st, (), 1⟩, .updating .command 0⟩, .initial, []⟩ := by
    have htest : testState .command 0 (⟨st, (), 1⟩ : Emu Unit Unit) = ⟨⟨st, (), 1⟩, .updating .command 0⟩ :=
      if_neg (not_not.mpr hrun)
    exact congrArg (fun q => some (⟨q, .initial, []⟩ : Shell Unit Unit)) htest
  have hfourth : shellStep clintBoard idleAdapter closingWindow
      ⟨⟨⟨st, (), 1⟩, .updating .command 0⟩, .initial, []⟩ (.proceed ⟨0, 0, 0, 0⟩) =
      some ⟨⟨⟨st, (), 1⟩, .ready .command 0⟩, .initial, []⟩ := rfl
  obtain ⟨w, hw⟩ : ∃ w, (⟨st, (), 1⟩ : Emu Unit Unit).stopped = w := ⟨_, rfl⟩
  have hfifth : shellStep clintBoard idleAdapter closingWindow
      ⟨⟨⟨st, (), 1⟩, .ready .command 0⟩, .initial, []⟩ (.proceed ⟨0, 0, 0, 0⟩) =
      some ⟨⟨w, .prompt⟩, .initial, []⟩ := hw ▸ rfl
  have hnr : w.nrGuestInst = 0 + 1 := by
    rw [← hw, stopped_nr]
  have hpaused : Paused w := by
    rw [← hw, Emu.stopped, if_pos hrun]
    rfl
  have hall := (((((hstart.snoc hquit).snoc hfirst).snoc hsecond).snoc hthird).snoc hfourth).snoc hfifth
  have hquiet : QuietLine clintBoard ⟨⟨pausedNops, .prompt⟩, .initial, [.quit]⟩ (.line siLine ⟨0, 0, 0, 0⟩) := by
    intro line s l he hl
    obtain ⟨rfl, rfl⟩ := ShellEvent.line.inj he
    obtain rfl := Except.ok.inj (hline.symm.trans hl)
    refine ⟨rfl, fun n a st' hx => ?_⟩
    cases hx
  obtain ⟨y, hy, hguest⟩ := shell_transparent hall rfl (by
    simp only [List.nil_append, List.cons_append, List.forall_mem_cons]
    refine ⟨.of_not_line ?_, hquiet, .of_not_line ?_, .of_not_line ?_, .of_not_line ?_, .of_not_line ?_,
      List.forall_mem_nil _⟩
    all_goals
      rintro line s hline
      cases hline) hsteady hnr
  exact ⟨_, _, y, hall, ⟨rfl, rfl, hpaused⟩, hy, hguest⟩

end GsEmu.Difftest
