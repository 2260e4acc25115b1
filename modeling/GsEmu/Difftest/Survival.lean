import GsEmu.Difftest.CpuExec
import GsEmu.Device.Answers
import GsEmu.Device.Keyboard
import GsEmu.Riscv32.InstFrame

/-! What ends the emulator from inside: over calls of `cpu_exec` on the default board, the accesses of the guest and
the ticks that run into a failed assertion. -/

namespace GsEmu.Difftest
open Riscv32

variable {P : Platform Devices} {st f : State Devices} {a v : Word} {len : Nat} {o : Operands}

/-! ## The accesses of an instruction -/

def accesses (P : Platform Devices) (o : Operands) (st : State Devices) : Body → List (Bool × Word)
  | .load len _ => if memAccess P (o.src1 + o.imm) len then [(false, o.src1 + o.imm)] else []
  | .store len => if memAccess P (o.src1 + o.imm) len then [(true, o.src1 + o.imm)] else []
  | .lrW => if memAccess P o.src1 4 then [(false, o.src1)] else []
  | .scW => if scReserved st o.src1 ∧ memAccess P o.src1 4 then [(true, o.src1)] else []
  | .amo _ => if memAccess P o.src1 4 then [(false, o.src1), (true, o.src1)] else []
  | .wfi => [(false, configClintMmio + mtimelo), (true, configClintMmio + mtimelo)]
  | _ => []

/-- The next instruction is fetched from an address that does not answer, or it is executed and accesses one. -/
def Fatal (P : Platform Devices) (st : State Devices) : Prop :=
  ¬Answered false st.pc ∨ ∃ f p, fetchAndCheck P st.enter = some (false, f) ∧
    selectInst P.toConfig f.s.inst = some p ∧
    ∃ q ∈ accesses P (operands f p) f p.body, ¬Answered q.1 q.2

def sized : Body → Bool
  | .load len _ | .store len => len = 1 || len = 2 || len = 4
  | _ => true

theorem forall_instpats {Q : Instpat → Prop} (hi : ∀ p ∈ rv32i, Q p) (hm : ∀ p ∈ rv32m, Q p)
    (ha : ∀ p ∈ rv32a, Q p) (hz : ∀ p ∈ rvZicsr, Q p) (hf : ∀ p ∈ rvZifencei, Q p) (hv : ∀ p ∈ rvInv, Q p)
    (c : Config) : ∀ p ∈ instpats c, Q p := by
  have hopt : ∀ (b : Bool) (l : List Instpat), (∀ p ∈ l, Q p) → ∀ p ∈ (if b then l else []), Q p := by
    intro b l h p hp
    cases b with
    | true => exact h p hp
    | false => cases hp
  simp only [instpats, List.forall_mem_append]
  exact ⟨⟨⟨⟨⟨hi, hm⟩, hopt _ _ ha⟩, hopt _ _ hz⟩, hopt _ _ hf⟩, hv⟩

theorem sized_of_select {p : Instpat} (hp : selectInst P.toConfig f.s.inst = some p) : sized p.body = true :=
  forall_instpats (Q := fun p => sized p.body = true) (by decide) (by decide) (by decide) (by decide) (by decide)
    (by decide) P.toConfig p (List.mem_of_find?_eq_some hp)

theorem len_of_sized (h : (len = 1 || len = 2 || len = 4) = true) : len = 1 ∨ len = 2 ∨ len = 4 := by
  simpa [or_assoc] using h

/-! ## One instruction -/

theorem some_iff_of_not {α : Type} {r : α} {c : Prop} (hc : ¬c) : some r = none ↔ c :=
  ⟨fun h => absurd h (Option.some_ne_none r), fun h => absurd h hc⟩

theorem not_exists_mem_nil {α : Type} {Q : α → Prop} : ¬∃ x ∈ ([] : List α), Q x := by
  rintro ⟨x, hx, -⟩
  exact List.not_mem_nil hx

theorem mr_none_iff (hmaps : P.maps = defaultMaps) (hlen : len = 1 ∨ len = 2 ∨ len = 4) :
    mr P a len st = none ↔ memAccess P a len ∧ ¬Answered false a := by
  unfold mr
  by_cases hm : memAccess P a len
  · rw [if_pos hm, vaddrRead, paddrRead_answered hmaps hlen, and_iff_right hm]
  · rw [if_neg hm]
    exact some_iff_of_not fun h => hm h.1

theorem mw_none_iff (hmaps : P.maps = defaultMaps) (hlen : len = 1 ∨ len = 2 ∨ len = 4) :
    mw P a len v st = none ↔ memAccess P a len ∧ ¬Answered true a := by
  unfold mw
  by_cases hm : memAccess P a len
  · rw [if_pos hm, vaddrWrite, paddrWrite_answered hmaps hlen, and_iff_right hm]
  · rw [if_neg hm]
    exact some_iff_of_not fun h => hm h.1

theorem mem_accesses_one {c : Prop} [Decidable c] {q : Bool × Word} :
    (∃ x ∈ if c then [q] else [], ¬Answered x.1 x.2) ↔ c ∧ ¬Answered q.1 q.2 := by
  by_cases hc : c
  · rw [if_pos hc, and_iff_right hc]
    simp
  · rw [if_neg hc]
    simp [hc]

theorem exists_mem_pair {p q : Bool × Word} :
    (∃ x ∈ [p, q], ¬Answered x.1 x.2) ↔ ¬Answered p.1 p.2 ∨ ¬Answered q.1 q.2 := by
  simp only [List.mem_cons, List.not_mem_nil, or_false, exists_eq_or_imp, exists_eq_left]

theorem bind_none_iff {α β : Type} {x : Option α} {k : α → Option β} (hk : ∀ r, k r ≠ none) :
    x.bind k = none ↔ x = none := by
  cases x with
  | none => exact ⟨fun _ => rfl, fun _ => rfl⟩
  | some r => exact ⟨fun h => absurd h (hk r), fun h => absurd h (Option.some_ne_none r)⟩

theorem execSc_none_iff (hmaps : P.maps = defaultMaps) : execSc P o st = none ↔
    scReserved st o.src1 ∧ memAccess P o.src1 4 ∧ ¬Answered true o.src1 := by
  rw [← mw_none_iff (v := o.src2) hmaps (.inr (.inr rfl))]
  unfold execSc
  split
  · rename_i w hs
    exact (bind_none_iff fun _ => Option.some_ne_none _).trans (and_iff_right ⟨w, hs⟩).symm
  · rename_i hs
    refine some_iff_of_not ?_
    rintro ⟨⟨w, hw⟩, -⟩
    exact hs w hw

theorem execAmo_none_iff (hmaps : P.maps = defaultMaps) (op : Word → Word → Word) : execAmo P op o st = none ↔
    memAccess P o.src1 4 ∧ (¬Answered false o.src1 ∨ ¬Answered true o.src1) := by
  have hword : (4 : Nat) = 1 ∨ 4 = 2 ∨ 4 = 4 := .inr (.inr rfl)
  change (mr P o.src1 4 st).bind _ = none ↔ _
  by_cases hm : memAccess P o.src1 4
  · have hread : mr P o.src1 4 st = none ↔ ¬Answered false o.src1 :=
      (mr_none_iff hmaps hword).trans (and_iff_right hm)
    rw [and_iff_right hm]
    cases hr : mr P o.src1 4 st with
    | none => exact ⟨fun _ => .inl (hread.mp hr), fun _ => rfl⟩
    | some r =>
      have hanswered : ¬¬Answered false o.src1 := fun h => Option.some_ne_none r (hr.symm.trans (hread.mpr h))
      rw [or_iff_right hanswered]
      refine (bind_none_iff fun _ => Option.some_ne_none _).trans ?_
      rw [mw_none_iff hmaps hword, and_iff_right hm]
  · rw [mr, if_neg hm, Option.bind_some]
    refine (bind_none_iff fun _ => Option.some_ne_none _).trans ?_
    rw [mw_none_iff hmaps hword]
    exact ⟨fun h => absurd h.1 hm, fun h => absurd h.1 hm⟩

theorem answered_mtimelo (isWrite : Bool) : Answered isWrite (configClintMmio + mtimelo) := by
  cases isWrite <;> decide

theorem execWfi_ne_none (hmaps : P.maps = defaultMaps) : execWfi P st ≠ none := by
  have hword : (4 : Nat) = 1 ∨ 4 = 2 ∨ 4 = 4 := .inr (.inr rfl)
  intro h
  unfold execWfi at h
  split at h
  · obtain ⟨r, hr⟩ := Option.ne_none_iff_exists'.mp fun hnone : mr P _ 4 st = none =>
      ((mr_none_iff hmaps hword).mp hnone).2 (answered_mtimelo false)
    rw [hr] at h
    exact absurd (answered_mtimelo true) ((paddrWrite_answered hmaps hword).mp h)
  · cases h

theorem execBody_none_iff (hmaps : P.maps = defaultMaps) {b : Body} (hb : sized b = true) :
    execBody P b o st = none ↔ ∃ q ∈ accesses P o st b, ¬Answered q.1 q.2 := by
  cases b with
  | load len ext =>
    rw [accesses, mem_accesses_one, ← mr_none_iff hmaps (len_of_sized hb)]
    exact bind_none_iff fun _ => Option.some_ne_none _
  | store len =>
    rw [accesses, mem_accesses_one]
    exact mw_none_iff hmaps (len_of_sized hb)
  | lrW =>
    rw [accesses, mem_accesses_one, ← mr_none_iff hmaps (.inr (.inr rfl))]
    exact bind_none_iff fun _ => Option.some_ne_none _
  | scW =>
    rw [accesses, mem_accesses_one, and_assoc]
    exact execSc_none_iff hmaps
  | amo op =>
    refine (execAmo_none_iff hmaps op).trans ?_
    rw [accesses]
    by_cases hm : memAccess P o.src1 4
    · rw [if_pos hm, exists_mem_pair, and_iff_right hm]
    · rw [if_neg hm]
      exact ⟨fun h => absurd h.1 hm, fun h => absurd h not_exists_mem_nil⟩
  | wfi =>
    rw [accesses, exists_mem_pair]
    refine ⟨fun h => absurd h (execWfi_ne_none hmaps), fun h => absurd h (not_or.mpr ⟨?_, ?_⟩)⟩
    · exact not_not.mpr (answered_mtimelo false)
    · exact not_not.mpr (answered_mtimelo true)
  | _ => exact some_iff_of_not not_exists_mem_nil

theorem accesses_bodyStart (b : Body) : accesses P o (bodyStart f) b = accesses P o f b := by
  cases b with
  | scW =>
    have hamw : scReserved (bodyStart f) o.src1 ↔ scReserved f o.src1 := by
      rw [scReserved, scReserved, dnpcAndCheck_amw]
    simp only [accesses, hamw]
  | _ => rfl

theorem timerLate_ne_none (hmaps : P.maps = defaultMaps) (st : State Devices) : timerLate P st ≠ none := by
  have hclint : ClintAt P.maps clintPortBase := hmaps ▸ defaultBoard_clint
  obtain ⟨skip, h⟩ := timerLate_clint st hclint
  rw [h]
  exact Option.some_ne_none _

theorem fetchAndCheck_none_iff (hmaps : P.maps = defaultMaps) :
    fetchAndCheck P st = none ↔ ¬Answered false st.s.snpc := by
  have hread : paddrRead P st.s.snpc 4 st = none ↔ ¬Answered false st.s.snpc :=
    paddrRead_answered hmaps (.inr (.inr rfl))
  rw [← hread]
  change (instFetch P st).bind _ = none ↔ _
  refine (bind_none_iff fun r => ?_).trans (bind_none_iff fun _ => Option.some_ne_none _)
  exact mt (bind_none_iff fun _ => Option.some_ne_none _).mp (timerLate_ne_none hmaps r)

theorem execOnce_none_iff (hmaps : P.maps = defaultMaps) : execOnce P st = none ↔ Fatal P st := by
  have hfetch : fetchAndCheck P st.enter = none ↔ ¬Answered false st.pc := fetchAndCheck_none_iff hmaps
  have hbody : ∀ f p, selectInst P.toConfig f.s.inst = some p →
      (decodeExec P f = none ↔ ∃ q ∈ accesses P (operands f p) f p.body, ¬Answered q.1 q.2) := by
    intro f p hp
    rw [← accesses_bodyStart, ← execBody_none_iff hmaps (sized_of_select hp)]
    refine (bind_none_iff fun _ => Option.some_ne_none _).trans ?_
    rw [decodeBody_eq hp, Option.map_eq_none_iff]
  change (isaExecOnce P st.enter).bind _ = none ↔ _
  refine (bind_none_iff fun _ => Option.some_ne_none _).trans ?_
  rw [Fatal, ← hfetch]
  change (fetchAndCheck P st.enter).bind _ = none ↔ _
  cases h : fetchAndCheck P st.enter with
  | none => exact ⟨fun _ => .inl rfl, fun _ => rfl⟩
  | some r =>
    rw [or_iff_right (Option.some_ne_none r)]
    obtain ⟨taken, f⟩ := r
    cases taken with
    | true =>
      refine some_iff_of_not ?_
      rintro ⟨f', p, hf, -⟩
      cases hf
    | false =>
      change decodeExec P f = none ↔ _
      constructor
      · intro hnone
        obtain ⟨p, hp⟩ := selectInst_exists P.toConfig f.s.inst
        exact ⟨f, p, rfl, hp, (hbody f p hp).mp hnone⟩
      · rintro ⟨f', p, hf, hp, hq⟩
        obtain rfl : f = f' := (Prod.mk.inj (Option.some.inj hf)).2
        exact (hbody f p hp).mpr hq

/-! ## Ticks -/

theorem sendKey_frame {st' : State Devices} {amKey : Word} {isKeydown : Bool}
    (h : sendKey amKey isKeydown st = some st') : ∃ io, st' = { st with io := io } := by
  unfold sendKey at h
  split at h
  · obtain ⟨d, -, rfl⟩ := Option.map_eq_some_iff.mp h
    exact ⟨_, rfl⟩
  · obtain rfl := Option.some.inj h
    exact ⟨_, rfl⟩

theorem handleEvents_frame {st' : State Devices} {events : List SdlEvent}
    (h : events.foldlM handleEvent st = some st') : ∃ io, st' =
      if events.any SdlEvent.closes then setRunState .nemuQuit { st with io := io } else { st with io := io } := by
  induction events generalizing st with
  | nil =>
    obtain rfl := Option.some.inj h
    exact ⟨st.io, rfl⟩
  | cons e events ih =>
    rw [List.foldlM_cons] at h
    obtain ⟨t, ht, h⟩ := Option.bind_eq_some_iff.mp h
    obtain ⟨io, rfl⟩ := ih h
    cases e with
    | quit =>
      obtain rfl := Option.some.inj ht
      exact ⟨io, by cases events.any SdlEvent.closes <;> rfl⟩
    | key amKey isKeydown =>
      obtain ⟨io₁, rfl⟩ := sendKey_frame ht
      exact ⟨io, rfl⟩
    | other =>
      obtain rfl := Option.some.inj ht
      exact ⟨io, rfl⟩

def boardTick : Option (List SdlEvent) → Tick Devices
  | none => .still false
  | some events => ⟨deviceUpdate events, events.any SdlEvent.closes, handleEvents_frame⟩

def boardHost (ticks : Nat → Option (List SdlEvent)) (env : Nat → CallEnv) : Host Devices :=
  ⟨fun n => boardTick (ticks n), env⟩

/-! ## Calls of `cpu_exec` -/

variable {R : Type} {A : Adapter R} {H : Host Devices} {ticks : Nat → Option (List SdlEvent)}
  {env : Nat → CallEnv} {x y : Emu Devices R}

theorem execRound_none_iff (hmaps : P.maps = defaultMaps) (hdiff : P.difftest = .none) :
    execRound P A H x = none ↔ Fatal P x.dut := by
  rw [← execOnce_none_iff hmaps]
  refine bind_none_iff fun st => ?_
  rw [traceAndDifftest, if_pos hdiff]
  exact Option.some_ne_none _

theorem execute_none_iff (hmaps : P.maps = defaultMaps) (hdiff : P.difftest = .none) {n : Nat} :
    execute P A H n x = none ↔ ∃ u ∈ visits P A H n x, Fatal P u.dut ∨ TickFails P A H u := by
  induction n generalizing x with
  | zero => exact some_iff_of_not not_exists_mem_nil
  | succ n ih =>
    have hround := execRound_none_iff (x := x) (A := A) (H := H) hmaps hdiff
    cases h : execRound P A H x with
    | none =>
      refine iff_of_true ?_ ⟨x, List.mem_cons_self .., .inl (hround.mp h)⟩
      simp only [execute, h, Option.bind_eq_bind, Option.bind_none]
    | some y =>
      have halive : ¬Fatal P x.dut := fun hfatal => Option.some_ne_none y (h.symm.trans (hround.mpr hfatal))
      have htick : TickFails P A H x ↔ y.dut.nemuState.state = .nemuRunning ∧ y.ticked H = none := by
        simp only [TickFails, h, Option.some.injEq, exists_eq_left']
      by_cases hrun : y.dut.nemuState.state = .nemuRunning
      · rw [execute_succ h hrun]
        cases hz : y.ticked H with
        | none => exact iff_of_true rfl ⟨x, List.mem_cons_self .., .inr (htick.mpr ⟨hrun, hz⟩)⟩
        | some z =>
          have hgood : ¬TickFails P A H x := by
            rw [htick, hz]
            exact fun h => Option.some_ne_none z h.2
          rw [visits_succ h hrun hz, List.exists_mem_cons_iff, or_iff_right (not_or.mpr ⟨halive, hgood⟩)]
          exact ih
      · rw [execute_stop h hrun]
        refine some_iff_of_not ?_
        rintro ⟨u, hu, hbad⟩
        simp only [visits, h, ne_eq, hrun, not_false_eq_true, if_true, List.mem_singleton] at hu
        obtain rfl := hu
        exact hbad.elim halive fun hfails => hrun (htick.mp hfails).1

/-- The tick after the round makes as many codes outstanding as the queue of keys has slots. -/
def Overflows (P : Platform Devices) (A : Adapter R) (ticks : Nat → Option (List SdlEvent))
    (env : Nat → CallEnv) (x : Emu Devices R) : Prop :=
  ∃ y events, execRound P A (boardHost ticks env) x = some y ∧ y.dut.nemuState.state = .nemuRunning ∧
    ticks y.nrGuestInst = some events ∧ keyQueueLen ≤ y.dut.io.dev.unread.length + keysTyped events

theorem tickFails_iff : TickFails P A (boardHost ticks env) x ↔ Overflows P A ticks env x := by
  refine exists_congr fun y => ?_
  have hticked : y.ticked (boardHost ticks env) = none ↔ (boardTick (ticks y.nrGuestInst)).update y.dut = none :=
    Option.map_eq_none_iff
  rw [hticked]
  cases hticks : ticks y.nrGuestInst with
  | none =>
    constructor
    · rintro ⟨-, -, hfails⟩
      exact absurd hfails (Option.some_ne_none _)
    · rintro ⟨events, -, -, hsome, -⟩
      cases hsome
  | some events =>
    constructor
    · rintro ⟨hround, hrun, hfails⟩
      exact ⟨events, hround, hrun, rfl, (deviceUpdate_none_iff events hrun).mp hfails⟩
    · rintro ⟨events', hround, hrun, hsame, hfull⟩
      obtain rfl := Option.some.inj hsame
      exact ⟨hround, hrun, (deviceUpdate_none_iff events hrun).mpr hfull⟩

/-- A call of `cpu_exec` on the default board ends the emulator exactly when one of its instructions is fetched
from, or accesses, an address at which the board does not answer, or a tick overflows the queue of keys. -/
theorem cpuExec_none_iff (hmaps : P.maps = defaultMaps) (hdiff : P.difftest = .none) (n : BitVec 64) (s : Decode) :
    cpuExec P A (boardHost ticks env) n s x = none ↔
      ∃ u ∈ cpuVisits P A (boardHost ticks env) n s x, Fatal P u.dut ∨ Overflows P A ticks env u := by
  by_cases hend : Ended x
  · have hvisits : cpuVisits P A (boardHost ticks env) n s x = [] := by
      rcases hend with h | h <;> simp only [cpuVisits, h]
    rw [cpuExec_ended hend, hvisits]
    exact some_iff_of_not not_exists_mem_nil
  · obtain ⟨hexec, hvisits⟩ := cpuExec_not_ended (P := P) (A := A) (H := boardHost ticks env) hend n s
    rw [hexec, hvisits, Option.map_eq_none_iff, execute_none_iff hmaps hdiff]
    simp only [tickFails_iff]

def storesAtZero : Emu Devices Unit := ⟨{ wfiMachine with pmem := image [0x00002023] 0 }, (), 0⟩

def crowded : Emu Devices Unit :=
  ⟨{ wfiMachine with
      pmem := image [0x13] 0
      io := { wfiMachine.io with dev := { wfiMachine.io.dev with keyR := ⟨1023, by decide⟩ } } }, (), 0⟩

def typist : Nat → Option (List SdlEvent) := fun _ => some [.key 43 true]

theorem cpuExec_none_iff_overflow :
    (cpuExec defaultBoard idleAdapter (boardHost typist fun _ => freshEnv) 1 ⟨0, 0, 0, 0⟩ storesAtZero = none ∧
      ∃ u ∈ cpuVisits defaultBoard idleAdapter (boardHost typist fun _ => freshEnv) 1 ⟨0, 0, 0, 0⟩ storesAtZero,
        Fatal defaultBoard u.dut ∨ Overflows defaultBoard idleAdapter typist (fun _ => freshEnv) u) ∧
    cpuExec defaultBoard idleAdapter (boardHost typist fun _ => freshEnv) 1 ⟨0, 0, 0, 0⟩ crowded = none ∧
      ∃ u ∈ cpuVisits defaultBoard idleAdapter (boardHost typist fun _ => freshEnv) 1 ⟨0, 0, 0, 0⟩ crowded,
        Fatal defaultBoard u.dut ∨ Overflows defaultBoard idleAdapter typist (fun _ => freshEnv) u := by
  have hstores : cpuExec defaultBoard idleAdapter (boardHost typist fun _ => freshEnv) 1 ⟨0, 0, 0, 0⟩ storesAtZero =
      none := Option.isNone_iff_eq_none.mp (by decide +kernel)
  have hcrowded : cpuExec defaultBoard idleAdapter (boardHost typist fun _ => freshEnv) 1 ⟨0, 0, 0, 0⟩ crowded =
      none := Option.isNone_iff_eq_none.mp (by decide +kernel)
  exact ⟨⟨hstores, (cpuExec_none_iff rfl rfl 1 ⟨0, 0, 0, 0⟩).mp hstores⟩, hcrowded,
    (cpuExec_none_iff rfl rfl 1 ⟨0, 0, 0, 0⟩).mp hcrowded⟩

end GsEmu.Difftest
