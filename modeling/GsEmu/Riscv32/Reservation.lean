import GsEmu.Lib.Tokens
import GsEmu.Riscv32.Privilege

/-! `lr.w` and `sc.w` over whole runs: the reservation list is a pool of tokens. -/

namespace GsEmu.Riscv32
open Tokens

variable {D : Type} {P : Platform D} {st₀ st st' f t : State D} {o : Operands} {p : Instpat}

/-! ## The list along a step -/

theorem execBody_amw {b : Body} (h : execBody P b o st = some st') (hlr : b ≠ .lrW)
    (hsc : b ≠ .scW) : st'.amw = st.amw := by
  cases b with
  | lrW => exact absurd rfl hlr
  | scW => exact absurd rfl hsc
  | load len ext => rcases execLoad_cases h with ⟨_, _, _, _, _, rfl⟩ | ⟨_, rfl⟩ <;> rfl
  | store len =>
    rcases mw_cases h with ⟨-, h⟩ | ⟨-, rfl⟩
    · obtain ⟨_, _, _, rfl, -⟩ := paddrWrite_bus h
      rfl
    · rfl
  | amo op => rcases execAmo_cases h with ⟨_, _, _, _, _, _, _, _, _, rfl⟩ | ⟨_, rfl⟩ <;> rfl
  | wfi => rcases execWfi_cases h with ⟨_, _, rfl⟩ | rfl <;> rfl
  | _ => exact (execBody_offBus rfl h).amw

theorem execLr_amw (h : execLr P o st = some st') : st'.amw = insertNode st.amw o.src1 true := by
  rcases execLr_cases h with ⟨_, _, _, _, _, rfl⟩ | ⟨_, rfl⟩ <;> rfl

theorem execSc_amw (h : execSc P o st = some st') :
    (scReserved st o.src1 → st'.amw = deleteNode st.amw o.src1) ∧
      (¬scReserved st o.src1 → st'.amw = st.amw) := by
  rcases execSc_cases h with ⟨hr, _, _, _, _, _, rfl⟩ | ⟨hr, _, rfl⟩ | ⟨hr, rfl⟩ <;>
    exact ⟨fun h => by first | rfl | exact absurd h hr, fun h => by first | rfl | exact absurd hr h⟩

theorem ecallExit_amw (st : State D) : (ecallExit P st).amw = st.amw := by
  unfold ecallExit
  split
  · rfl
  · split <;> rfl

theorem trapTail_amw : (trapTail P t).amw = t.amw := by
  unfold trapTail
  split
  · split <;> simp [recyException, delegateException, illegalInstruction, ecallExit_amw]
  · rfl

theorem fetchAndCheck_amw {taken : Bool} (h : fetchAndCheck P st = some (taken, f)) :
    f.amw = st.amw := by
  obtain ⟨inst, io, skip, late, h⟩ := fetchAndCheck_cases h
  rw [← afterFetch_amw P st inst io skip late]
  unfold irpTake at h
  dsimp only at h
  split at h
  · split at h
    · rw [(Prod.mk.inj h).2]
    · split at h
      · rw [(Prod.mk.inj h).2]
        simp [takeIrq]
      · rw [(Prod.mk.inj h).2]
  · rw [(Prod.mk.inj h).2]

/-! ## The list as a pool of tokens -/

def reservations (st : State D) : Multiset Word := (st.amw.map (·.memWord) : List Word)

def AllReserved (st : State D) : Prop := ∀ n ∈ st.amw, n.reserved = true

/-- `lr.w` grants a reservation of its address, `sc.w` claims one. -/
def reservationOp (P : Platform D) (st : State D) : Event D → Option (Op Word)
  | .outside .. => none
  | .inst =>
    match fetchAndCheck P st.enter with
    | some (false, f) =>
      match selectInst P.toConfig f.s.inst with
      | some p =>
        match p.body with
        | .lrW => some (.grant (operands f p).src1)
        | .scW => some (.claim (operands f p).src1)
        | _ => none
      | none => none
    | _ => none

theorem scReserved_iff (h : AllReserved st) (a : Word) :
    scReserved st a ↔ a ∈ reservations st := by
  unfold scReserved searchNode reservations
  constructor
  · rintro ⟨w, hw⟩
    have hmem := List.mem_of_find?_eq_some hw
    have hkey := List.find?_some hw
    exact List.mem_map.mpr ⟨_, hmem, by simpa using hkey⟩
  · intro hmem
    obtain ⟨n, hn, rfl⟩ := List.mem_map.mp (Multiset.mem_coe.mp hmem)
    have hsome : (st.amw.find? (·.memWord = n.memWord)).isSome = true := by
      rw [List.find?_isSome]
      exact ⟨n, hn, by simp⟩
    obtain ⟨m, hm⟩ := Option.isSome_iff_exists.mp hsome
    exact ⟨m.memWord, by rw [hm, ← h m (List.mem_of_find?_eq_some hm)]⟩

theorem deleteNode_words (l : List AtomicMemWord) (a : Word) :
    (deleteNode l a).map (·.memWord) = (l.map (·.memWord)).erase a := by
  rw [List.erase_eq_eraseP', List.eraseP_map, deleteNode]
  rfl

theorem insertNode_words (l : List AtomicMemWord) (a : Word) :
    (((insertNode l a true).map (·.memWord) : List Word) : Multiset Word) =
      a ::ₘ ((l.map (·.memWord) : List Word) : Multiset Word) := by
  rw [insertNode, List.map_append, ← Multiset.coe_add, add_comm]
  rfl

def amwAfter (l : List AtomicMemWord) : Option (Op Word) → List AtomicMemWord
  | none => l
  | some (.grant a) => insertNode l a true
  | some (.claim a) => if (searchNode l a).any (·.reserved) then deleteNode l a else l

theorem scReserved_iff_any (a : Word) :
    scReserved st a ↔ (searchNode st.amw a).any (·.reserved) = true := by
  unfold scReserved
  rcases searchNode st.amw a with _ | ⟨w, r⟩ <;> simp

instance (st : State D) (a : Word) : Decidable (scReserved st a) :=
  decidable_of_iff _ (scReserved_iff_any a).symm

theorem decodeBody_amw (hf : fetchAndCheck P st.enter = some (false, f))
    (ht : decodeBody P f = some t) : t.amw = amwAfter st.amw (reservationOp P st .inst) := by
  obtain ⟨p, t₀, hp, hbody, rfl⟩ := decodeBody_cases ht
  have hfetch : f.amw = st.enter.amw := fetchAndCheck_amw hf
  have hamw : (bodyStart f).amw = st.amw := (dnpcAndCheck_amw _ _).trans hfetch
  rw [resetFixed_amw, reservationOp, hf]
  simp only [hp]
  by_cases hlr : p.body = .lrW
  · rw [hlr] at hbody ⊢
    rw [execLr_amw hbody, hamw]
    rfl
  · by_cases hsc : p.body = .scW
    · rw [hsc] at hbody ⊢
      obtain ⟨hyes, hno⟩ := execSc_amw hbody
      rw [scReserved_iff_any, hamw] at hyes hno
      simp only [amwAfter]
      split
      · exact hyes ‹_›
      · exact hno ‹_›
    · rw [execBody_amw hbody hlr hsc, hamw]
      cases hb : p.body <;> first | rfl | exact absurd hb hlr | exact absurd hb hsc

theorem machineStep_amw {e : Event D} (h : MachineStep P st e st') :
    st'.amw = amwAfter st.amw (reservationOp P st e) := by
  cases e with
  | outside io nemuState skip => rw [show st' = _ from h]; rfl
  | inst =>
    obtain ⟨u, hu, rfl⟩ := execOnce_iff.mp h
    change u.amw = _
    rcases isaExecOnce_iff.mp hu with hf | ⟨f, t, hf, ht, rfl⟩
    · have hfetch : u.amw = st.enter.amw := fetchAndCheck_amw hf
      rw [hfetch, reservationOp, hf]
      rfl
    · rw [trapTail_amw, decodeBody_amw hf ht]

theorem machineStep_allReserved {e : Event D} (hall : AllReserved st)
    (h : MachineStep P st e st') : AllReserved st' := by
  unfold AllReserved
  rw [machineStep_amw h]
  intro n hn
  rcases hop : reservationOp P st e with _ | a | a
  · rw [hop] at hn
    exact hall n hn
  · rw [hop] at hn
    rcases List.mem_append.mp hn with hn | hn
    · exact hall n hn
    · rw [List.mem_singleton.mp hn]
  · rw [hop] at hn
    simp only [amwAfter] at hn
    split at hn
    · exact hall n (List.mem_of_mem_eraseP hn)
    · exact hall n hn

theorem machineStep_tokens {e : Event D} {op : Op Word} (hall : AllReserved st)
    (h : MachineStep P st e st') (hop : reservationOp P st e = some op) :
    Tokens.Step (reservations st) op (reservations st') := by
  have hamw := machineStep_amw h
  rw [hop] at hamw
  unfold Tokens.Step reservations
  rw [hamw]
  cases op with
  | grant a => exact insertNode_words st.amw a
  | claim a =>
    simp only [amwAfter, Tokens.next]
    have hiff := scReserved_iff hall a
    rw [scReserved_iff_any] at hiff
    split
    · rw [deleteNode_words, Multiset.coe_erase]
    · rename_i hno
      exact (Multiset.erase_of_notMem fun hmem => hno (hiff.mpr hmem)).symm

/-! ## Runs from reset -/

variable {tr : List (State D × Event D)}

def lrCount (P : Platform D) (tr : List (State D × Event D)) (a : Word) : Nat :=
  tr.countP fun q => decide (reservationOp P q.1 q.2 = some (.grant a))

def scCount (P : Platform D) (tr : List (State D × Event D)) (a : Word) : Nat :=
  tr.countP fun q => decide (reservationOp P q.1 q.2 = some (.claim a) ∧ scReserved q.1 a)

theorem reset_allReserved (h : Reset P st₀) : st₀.amw = [] := by
  obtain ⟨st, -, -, -, rfl⟩ := h
  rfl

theorem run_allReserved (hreset : Reset P st₀) (hrun : MachineRun P st₀ tr st) :
    AllReserved st := by
  have h₀ : AllReserved st₀ := by
    intro n hn
    rw [reset_allReserved hreset] at hn
    simp at hn
  exact hrun.state_invariant (I := AllReserved) (C := fun _ _ => True) h₀
    (fun _ _ _ hI _ hs => machineStep_allReserved hI hs) fun _ _ => trivial

def tokenRecord (P : Platform D) (tr : List (State D × Event D)) : List (Multiset Word × Op Word) :=
  tr.filterMap fun q => (reservationOp P q.1 q.2).map fun op => (reservations q.1, op)

theorem run_tokens (hreset : Reset P st₀) (hrun : MachineRun P st₀ tr st) :
    Run Tokens.Step 0 (tokenRecord P tr) (reservations st) := by
  have hempty : reservations st₀ = 0 := by
    rw [reservations, reset_allReserved hreset]
    rfl
  rw [← hempty]
  -- steps other than `lr.w` and `sc.w` are no steps of the pool
  refine hrun.simulates reservations (reservationOp P) (I := AllReserved) ?_
    (fun _ _ _ hI hs => machineStep_allReserved hI hs)
    (fun _ _ _ _ hI hs hop => machineStep_tokens hI hs hop) ?_
  · exact run_allReserved hreset .nil
  · intro s e s' _ hs hop
    rw [reservations, machineStep_amw hs, hop]
    rfl

theorem reserved_iff_lt (hreset : Reset P st₀) (hrun : MachineRun P st₀ tr st) (a : Word) :
    scReserved st a ↔ scCount P tr a < lrCount P tr a := by
  have hall : ∀ q ∈ tr, AllReserved q.1 := by
    intro q hq
    obtain ⟨tr', -, hrun', -⟩ := hrun.reaches hq
    exact run_allReserved hreset hrun'
  have hlr : (tokenRecord P tr).countP (granted a) = lrCount P tr a := by
    rw [tokenRecord, List.countP_filterMap, lrCount]
    congr 1
    funext q
    rcases reservationOp P q.1 q.2 with _ | op <;> simp [granted]
  have hsc : (tokenRecord P tr).countP (honoured a) = scCount P tr a := by
    rw [tokenRecord, List.countP_filterMap, scCount]
    apply List.countP_congr
    intro q hq
    have hiff := scReserved_iff (hall q hq) a
    rcases reservationOp P q.1 q.2 with _ | op <;> simp [honoured, hiff]
  rw [scReserved_iff (run_allReserved hreset hrun), mem_iff_lt (run_tokens hreset hrun), hlr, hsc]

structure ScOutcome (P : Platform D) (f : State D) (o : Operands) (t : State D) : Prop where
  success : scReserved f o.src1 → o.rd ≠ 0 → t.gpr o.rd = 0
  store : scReserved f o.src1 → memAccess P o.src1 4 →
    ∃ u, vaddrWrite P o.src1 4 o.src2 (bodyStart f) = some u ∧ t.pmem = u.pmem ∧ t.io = u.io
  failure : ¬scReserved f o.src1 → o.rd ≠ 0 → t.gpr o.rd = 1
  untouched : ¬scReserved f o.src1 → t.pmem = f.pmem ∧ t.io = f.io ∧ t.amw = f.amw

theorem gpr_resetFixed {r : Reg} {g : Reg → Word} {v : Word}
    (hs : st.gpr = Function.update g r v) (hr : r ≠ 0) : (resetFixed P st).gpr r = v := by
  rw [resetFixed_gpr, Function.update_of_ne hr, hs, Function.update_self]

theorem execSc_outcome (h : execSc P o (bodyStart f) = some st') :
    ScOutcome P f o (resetFixed P st') := by
  have hres : scReserved (bodyStart f) o.src1 ↔ scReserved f o.src1 := by simp [scReserved]
  rcases execSc_cases h with ⟨hr, -, pmem, io, skip, hw, rfl⟩ | ⟨hr, hm, rfl⟩ | ⟨hr, rfl⟩
  · rw [hres] at hr
    exact {
      success := fun _ hrd => gpr_resetFixed rfl hrd
      store := fun _ _ => ⟨_, hw, rfl, rfl⟩
      failure := fun hno => absurd hr hno
      untouched := fun hno => absurd hr hno }
  · rw [hres] at hr
    exact {
      success := fun _ hrd => gpr_resetFixed rfl hrd
      store := fun _ hmem => absurd hmem hm
      failure := fun hno => absurd hr hno
      untouched := fun hno => absurd hr hno }
  · rw [hres] at hr
    exact {
      success := fun hyes => absurd hyes hr
      store := fun hyes => absurd hyes hr
      failure := fun _ hrd => gpr_resetFixed rfl hrd
      untouched := fun _ => ⟨dnpcAndCheck_pmem _ _, dnpcAndCheck_io _ _, dnpcAndCheck_amw _ _⟩ }

/-- In every run from reset: an `sc.w` takes its success branch exactly when the `lr.w` to its
address so far outnumber the `sc.w` to it that took theirs; then it sets `rd` to 0 and stores unless
the address is refused, and otherwise it sets `rd` to 1 and changes nothing else. -/
theorem sc_success_iff (hreset : Reset P st₀) (hrun : MachineRun P st₀ tr st)
    (h : Executes P st f p t) (hsc : p.body = .scW) :
    (scReserved f (operands f p).src1 ↔
      scCount P tr (operands f p).src1 < lrCount P tr (operands f p).src1) ∧
    ScOutcome P f (operands f p) t := by
  have hamw : f.amw = st.enter.amw := fetchAndCheck_amw h.fetched
  constructor
  · rw [← reserved_iff_lt hreset hrun, scReserved, scReserved, hamw]
    rfl
  · obtain ⟨p', t₀, hp, hbody, rfl⟩ := decodeBody_cases h.executed
    obtain rfl := Option.some.inj (h.selected.symm.trans hp)
    rw [hsc] at hbody
    exact execSc_outcome hbody

theorem claim_executes {a : Word} (hop : reservationOp P st .inst = some (.claim a))
    (h : execOnce P st = some st') :
    ∃ f p t, Executes P st f p t ∧ p.body = .scW ∧ (operands f p).src1 = a := by
  obtain ⟨u, hu, -⟩ := execOnce_iff.mp h
  rcases isaExecOnce_iff.mp hu with hf | ⟨f, t, hf, ht, -⟩
  · simp [reservationOp, hf] at hop
  · obtain ⟨p, hp⟩ := selectInst_exists P.toConfig f.s.inst
    simp only [reservationOp, hf, hp] at hop
    cases hb : p.body with
    | scW =>
      rw [hb] at hop
      exact ⟨f, p, t, ⟨hf, hp, ht⟩, hb, by simpa using hop⟩
    | _ => simp [hb] at hop

def doubleSc : State Unit := booted clintBoard [0x00000097, 0x1000a12f, 0x1000a12f, 0x1800a1af,
  0x1810a22f]

theorem lr_sc_pairing_refuted :
    ∃ u v w, runInst clintBoard 3 doubleSc = some u ∧ execOnce clintBoard u = some v ∧
      execOnce clintBoard v = some w ∧
      reservationOp clintBoard u .inst = some (.claim 0x80000000) ∧ v.gpr 3 = 0 ∧
      reservationOp clintBoard v .inst = some (.claim 0x80000000) ∧ w.gpr 4 = 0 ∧
      Bytes.readLE v.pmem 0 4 = 0 ∧ Bytes.readLE w.pmem 0 4 = 0x80000000 := by
  have h : (do
      let u ← runInst clintBoard 3 doubleSc
      let v ← execOnce clintBoard u
      let w ← execOnce clintBoard v
      return (reservationOp clintBoard u .inst, reservationOp clintBoard v .inst,
        [v.gpr 3, w.gpr 4, Bytes.readLE v.pmem 0 4, Bytes.readLE w.pmem 0 4])) =
      some (some (.claim 0x80000000), some (.claim 0x80000000), [0, 0, 0, 0x80000000]) := by
    decide +kernel
  simp only [Option.bind_eq_bind, Option.pure_def, Option.bind_eq_some_iff, Option.some.injEq,
    Prod.mk.injEq, List.cons.injEq, and_true] at h
  obtain ⟨u, hu, v, hv, w, hw, hop, hop', hfst, hsnd, hmem, hmem'⟩ := h
  exact ⟨u, v, w, hu, hv, hw, hop, hfst, hop', hsnd, hmem, hmem'⟩

theorem sc_success_iff_doubleSc :
    ∃ tr st f p t, MachineRun clintBoard doubleSc tr st ∧ Executes clintBoard st f p t ∧
      (scReserved f (operands f p).src1 ↔
        scCount clintBoard tr (operands f p).src1 < lrCount clintBoard tr (operands f p).src1) ∧
      ScOutcome clintBoard f (operands f p) t := by
  have h : (do
      let st ← runInst clintBoard 4 doubleSc
      let _ ← execOnce clintBoard st
      return reservationOp clintBoard st .inst) = some (some (.claim 0x80000000)) := by
    decide +kernel
  simp only [Option.bind_eq_bind, Option.pure_def, Option.bind_eq_some_iff, Option.some.injEq] at h
  obtain ⟨st, hst, st', hst', hop⟩ := h
  obtain ⟨tr, hrun, -⟩ := runInst_run hst
  obtain ⟨f, p, t, hexec, hsc, -⟩ := claim_executes hop hst'
  exact ⟨tr, st, f, p, t, hrun, hexec, sc_success_iff (booted_reset clintBoard _) hrun hexec hsc⟩

end GsEmu.Riscv32
