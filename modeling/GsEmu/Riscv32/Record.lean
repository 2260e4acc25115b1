import GsEmu.Riscv32.ProgramCounter

/-! What a step makes of the previous contents of its `Decode` record: `pc` and `snpc` are assigned
before it, `inst` by the fetch, and `dnpc` only on the way out. -/

namespace GsEmu.Riscv32

variable {D : Type} {P : Platform D} {st st' g t : State D} {o : Operands}

def State.mapRecord (r : Decode → Decode) (st : State D) : State D := { st with s := r st.s }

theorem bind_commute {α β σ : Type*} {φ : σ → σ} {ψ : β → β} {x y : Option (α × σ)}
    {k : α × σ → Option β} (hx : y = x.map (Prod.map id φ))
    (hk : ∀ v s, k (v, φ s) = (k (v, s)).map ψ) : y.bind k = (x.bind k).map ψ := by
  subst hx
  cases x with
  | none => rfl
  | some x => exact hk x.1 x.2

/-! ## Bus accesses do not see the record -/

section bus
variable (r : Decode → Decode) (a : Word) (len : Nat) (v : Word)

theorem mmioRead_mapRecord : mmioRead P a len (st.mapRecord r) =
    (mmioRead P a len st).map (Prod.map id (State.mapRecord r)) := by
  unfold mmioRead fetchMmioMap
  cases P.maps.find? (mapInside · a) with
  | none => rfl
  | some map =>
    change (mapRead a len map st.io).bind _ = Option.map _ ((mapRead a len map st.io).bind _)
    cases mapRead a len map st.io <;> rfl

theorem mmioWrite_mapRecord : mmioWrite P a len v (st.mapRecord r) =
    (mmioWrite P a len v st).map (State.mapRecord r) := by
  unfold mmioWrite fetchMmioMap
  cases P.maps.find? (mapInside · a) with
  | none => rfl
  | some map =>
    change (mapWrite a len v map st.io).bind _ = Option.map _ ((mapWrite a len v map st.io).bind _)
    cases mapWrite a len v map st.io <;> rfl

theorem paddrRead_mapRecord : paddrRead P a len (st.mapRecord r) =
    (paddrRead P a len st).map (Prod.map id (State.mapRecord r)) := by
  cases hp : inPmem a with
  | true =>
    rw [paddrRead_pmem hp, paddrRead_pmem hp, Option.map_map]
    rfl
  | false => rw [paddrRead_mmio hp, paddrRead_mmio hp, mmioRead_mapRecord]

theorem paddrWrite_mapRecord : paddrWrite P a len v (st.mapRecord r) =
    (paddrWrite P a len v st).map (State.mapRecord r) := by
  cases hp : inPmem a with
  | true =>
    rw [paddrWrite_pmem hp, paddrWrite_pmem hp, Option.map_map]
    rfl
  | false => rw [paddrWrite_mmio hp, paddrWrite_mmio hp, mmioWrite_mapRecord]

theorem mr_mapRecord : mr P a len (st.mapRecord r) =
    (mr P a len st).map (Prod.map id (State.mapRecord r)) := by
  unfold mr
  split
  · exact paddrRead_mapRecord r a len
  · rfl

theorem mw_mapRecord : mw P a len v (st.mapRecord r) =
    (mw P a len v st).map (State.mapRecord r) := by
  unfold mw
  split
  · exact paddrWrite_mapRecord r a len v
  · rfl

theorem timerLate_mapRecord : timerLate P (st.mapRecord r) =
    (timerLate P st).map (Prod.map id (State.mapRecord r)) := by
  unfold timerLate
  refine bind_commute (mr_mapRecord r _ _) fun hi u => ?_
  refine bind_commute (mr_mapRecord r _ _) fun cmphi u => ?_
  dsimp only
  split
  · rfl
  · refine bind_commute (mr_mapRecord r _ _) fun lo u => ?_
    exact bind_commute (mr_mapRecord r _ _) fun cmplo u => rfl

end bus

/-! ## The atomic instructions do not see the record -/

section atomics
variable (r : Decode → Decode) (o : Operands)

theorem execLr_mapRecord : execLr P o (st.mapRecord r) = (execLr P o st).map (State.mapRecord r) :=
  bind_commute (mr_mapRecord r _ _) fun _ _ => rfl

theorem execSc_mapRecord : execSc P o (st.mapRecord r) = (execSc P o st).map (State.mapRecord r) := by
  have hsearch : searchNode (st.mapRecord r).amw o.src1 = searchNode st.amw o.src1 := rfl
  simp only [execSc, hsearch]
  split
  · change (mw P o.src1 4 o.src2 (st.mapRecord r)).bind _ = Option.map _ ((mw P o.src1 4 o.src2 st).bind _)
    rw [mw_mapRecord]
    cases mw P o.src1 4 o.src2 st <;> rfl
  · rfl

theorem execAmo_mapRecord (op : Word → Word → Word) :
    execAmo P op o (st.mapRecord r) = (execAmo P op o st).map (State.mapRecord r) := by
  refine bind_commute (mr_mapRecord r _ _) fun t u => ?_
  change (mw P o.src1 4 (op t o.src2) (u.mapRecord r)).bind _ =
    Option.map _ ((mw P o.src1 4 (op t o.src2) u).bind _)
  rw [mw_mapRecord]
  cases mw P o.src1 4 (op t o.src2) u <;> rfl

end atomics

theorem sampled_record (s : Decode) : sampled P { st with s := s }.enter =
    (sampled P st.enter).map (·.setDnpc s.dnpc) := by
  have hread := @paddrRead_mapRecord D P st.enter
    (fun x => { x with dnpc := s.dnpc, inst := s.inst }) st.pc 4
  have hfetch : instFetch P { st with s := s }.enter =
      (instFetch P st.enter).map (·.setDnpc s.dnpc) :=
    bind_commute hread fun v u => rfl
  unfold sampled
  rw [hfetch]
  cases instFetch P st.enter with
  | none => rfl
  | some u =>
    have htimer := @timerLate_mapRecord D P u fun x => { x with dnpc := s.dnpc }
    exact bind_commute htimer fun late w => rfl

/-! ## The bodies and the tails only assign `dnpc` -/

def SameGuest (u v : State D) : Prop := ∃ d, v = u.setDnpc d

namespace SameGuest

variable {u v : State D}

theorem setCsr (h : SameGuest u v) (n : Word) (f : State D → Word)
    (hf : ∀ w d, f (w.setDnpc d) = f w) :
    SameGuest (setCsr P n (f u) u) (setCsr P n (f v) v) := by
  obtain ⟨d, rfl⟩ := h
  rw [hf]
  exact ⟨d, rfl⟩

theorem setCsrChecked (h : SameGuest u v) (n : Word) (f : State D → Word)
    (hf : ∀ w d, f (w.setDnpc d) = f w) :
    SameGuest (setCsrChecked P n (f u) u) (setCsrChecked P n (f v) v) := by
  unfold Riscv32.setCsrChecked
  split
  · exact h
  · exact h.setCsr n f hf

theorem setCurPri (h : SameGuest u v) (f : State D → Word) (hf : ∀ w d, f (w.setDnpc d) = f w) :
    SameGuest (u.setCurPri (f u)) (v.setCurPri (f v)) := by
  obtain ⟨d, rfl⟩ := h
  rw [hf]
  exact ⟨d, rfl⟩

theorem setR (h : SameGuest u v) (r : Reg) (f : State D → Word)
    (hf : ∀ w d, f (w.setDnpc d) = f w) : SameGuest (u.setR r (f u)) (v.setR r (f v)) := by
  obtain ⟨d, rfl⟩ := h
  rw [hf]
  exact ⟨d, rfl⟩

theorem setDnpc (h : SameGuest u v) (f : State D → Word) (hf : ∀ w d, f (w.setDnpc d) = f w) :
    SameGuest (u.setDnpc (f u)) (v.setDnpc (f v)) := by
  obtain ⟨d, rfl⟩ := h
  exact ⟨f u, by rw [hf]; rfl⟩

theorem trapPeekException (h : SameGuest u v) (f : State D → Word)
    (hf : ∀ w d, f (w.setDnpc d) = f w) (k : State D → Word) (hk : ∀ w d, k (w.setDnpc d) = k w) :
    SameGuest (u.trapPeekException (f u) (k u)) (v.trapPeekException (f v) (k v)) := by
  obtain ⟨d, rfl⟩ := h
  rw [hf, hk]
  exact ⟨d, rfl⟩

theorem dnpcAndCheck (h : SameGuest u v) (f : State D → Word)
    (hf : ∀ w d, f (w.setDnpc d) = f w) :
    SameGuest (dnpcAndCheck (f u) u) (dnpcAndCheck (f v) v) := by
  have hfv : f v = f u := by
    obtain ⟨d, rfl⟩ := h
    exact hf u d
  unfold Riscv32.dnpcAndCheck
  rw [hfv]
  split
  · obtain ⟨d, rfl⟩ := h
    exact ⟨f u, rfl⟩
  · exact h.trapPeekException (fun _ => riscvExcpInstAddrMis) (fun _ _ => rfl) (fun _ => f u)
      fun _ _ => rfl

theorem nemuTrap (h : SameGuest u v) : SameGuest (nemuTrap P u) (nemuTrap P v) := by
  obtain ⟨d, rfl⟩ := h
  exact ⟨d, rfl⟩

theorem takeIrq (h : SameGuest u v) (irq : Word) :
    SameGuest (takeIrq P irq u) (takeIrq P irq v) :=
  ((((((h.setCsr csrMcause (fun _ => irq ||| 0x80000000) fun _ _ => rfl).setCsr csrMepc
    (·.s.pc) fun _ _ => rfl).dnpcAndCheck (fun st => csr P st csrMtvec +
      (4 * irq - 1) * getField (csr P st csrMtvec) 0x01) fun _ _ => rfl).setCsr csrMstatus
    (fun st => setField (csr P st csrMstatus) mstatusMpie (getField (csr P st csrMstatus) mstatusMie))
      fun _ _ => rfl).setCsr csrMstatus (fun st => csr P st csrMstatus &&& ~~~mstatusMie)
      fun _ _ => rfl).setCsr csrMstatus
    (fun st => setField (csr P st csrMstatus) mstatusMpp st.curPri) fun _ _ => rfl).setCurPri
    (fun _ => prvM) fun _ _ => rfl

theorem ecallExit (h : SameGuest u v) : SameGuest (ecallExit P u) (ecallExit P v) := by
  have htrap := h.nemuTrap (P := P)
  obtain ⟨d, rfl⟩ := h
  unfold Riscv32.ecallExit
  simp only [State.setDnpc_haveRISCVException, State.setDnpc_gpr]
  split
  · exact ⟨d, rfl⟩
  · split
    · exact htrap
    · exact ⟨d, rfl⟩

theorem illegalInstruction (h : SameGuest u v) :
    SameGuest (illegalInstruction P u) (illegalInstruction P v) :=
  ((((((((h.setCsr csrMstatus
    (fun st => (csr P st csrMstatus &&& ~~~mstatusMpp) ||| (st.curPri <<< 11)) fun _ _ => rfl).setCsr
    csrMcause (·.haveRISCVException) fun _ _ => rfl).setCsr csrMepc (·.s.pc) fun _ _ => rfl).setCsr
    csrMtval (·.riscvExceptionTval) fun _ _ => rfl).setCsr
    csrMstatus (fun st => csr P st csrMstatus &&& ~~~0x80) fun _ _ => rfl).setCsr csrMstatus
    (fun st => ((csr P st csrMstatus &&& 0x8) <<< 4) ||| csr P st csrMstatus) fun _ _ => rfl).setCsr
    csrMstatus (fun st => csr P st csrMstatus &&& ~~~0x8) fun _ _ => rfl).dnpcAndCheck
    (fun st => csr P st csrMtvec) fun _ _ => rfl).ecallExit

theorem delegateException (h : SameGuest u v) :
    SameGuest (delegateException P u) (delegateException P v) :=
  (((((((((h.setCsr csrScause (·.haveRISCVException) fun _ _ => rfl).setCsr csrSepc (·.s.pc)
    fun _ _ => rfl).setCsr csrStval (·.riscvExceptionTval) fun _ _ => rfl).setCsr csrSstatus
    (fun st => setField (csr P st csrSstatus) sstatusSpie (getField (csr P st csrSstatus) sstatusSie))
      fun _ _ => rfl).setCsr csrMstatus
    (fun st => setField (csr P st csrMstatus) mstatusSpie (getField (csr P st csrMstatus) mstatusSie))
      fun _ _ => rfl).setCsr csrSstatus
    (fun st => setField (csr P st csrSstatus) sstatusSie 0) fun _ _ => rfl).dnpcAndCheck
    (fun st => csr P st csrStvec) fun _ _ => rfl).setCsr csrSstatus
    (fun st => setField (csr P st csrSstatus) sstatusSpp st.curPri) fun _ _ => rfl).setCurPri
    (fun _ => prvS) fun _ _ => rfl).setCsr csrMstatus
    (fun st => setField (csr P st csrMstatus) mstatusSpp st.curPri) fun _ _ => rfl

theorem recyException (h : SameGuest u v) : SameGuest (recyException u) (recyException v) :=
  h.trapPeekException (fun _ => riscvExcpNone) (fun _ _ => rfl) (fun _ => 0) fun _ _ => rfl

theorem resetFixed (h : SameGuest u v) : SameGuest (resetFixed P u) (resetFixed P v) :=
  (h.setR 0 (fun _ => 0) fun _ _ => rfl).setCsr csrMisa (fun st => csr P st csrMisa &&& ~~~0x4)
    fun _ _ => rfl

theorem trapTail (h : SameGuest u v) : SameGuest (trapTail P u) (trapTail P v) := by
  have hsame : v.haveRISCVException = u.haveRISCVException ∧ (delegated P v ↔ delegated P u) := by
    obtain ⟨d, rfl⟩ := h
    exact ⟨rfl, Iff.rfl⟩
  unfold Riscv32.trapTail
  simp only [hsame]
  split
  · split
    · exact h.delegateException.recyException
    · exact h.illegalInstruction.recyException
  · exact h

theorem execSret (h : SameGuest u v) : SameGuest (execSret P u) (execSret P v) :=
  ((((h.setDnpc (fun st => csr P st csrSepc) fun _ _ => rfl).setCsr csrSstatus (fun st =>
    csr P st csrSstatus ||| (getField (csr P st csrSstatus) sstatusSpie <<< 1)) fun _ _ => rfl).setCurPri
    (fun st => getField (csr P st csrSstatus) sstatusSpp) fun _ _ => rfl).setCsr csrSstatus
    (fun st => (csr P st csrSstatus &&& ~~~sstatusSpp) ||| sstatusSpie) fun _ _ => rfl).setCsrChecked
    csrMstatus (fun st => (csr P st csrMstatus &&& ~~~mstatusSpp) ||| sstatusSpie) fun _ _ => rfl

theorem execMret (h : SameGuest u v) : SameGuest (execMret P u) (execMret P v) :=
  ((((h.setDnpc (fun st => csr P st csrMepc) fun _ _ => rfl).setCsr csrMstatus (fun st => setField
    (csr P st csrMstatus) mstatusMie (getField (csr P st csrMstatus) mstatusMpie)) fun _ _ => rfl).setCsr
    csrMstatus (fun st => setField (csr P st csrMstatus) mstatusMpie 1) fun _ _ => rfl).setCurPri
    (fun st => getField (csr P st csrMstatus) mstatusMpp) fun _ _ => rfl).setCsrChecked csrMstatus
    (fun st => setField (csr P st csrMstatus) mstatusMpp 0) fun _ _ => rfl

end SameGuest

def SameGuests (x y : Option (State D)) : Prop :=
  (x = none ∧ y = none) ∨ ∃ u v, x = some u ∧ y = some v ∧ SameGuest u v

theorem SameGuests.of_map {x y : Option (State D)} {d : Word} (h : y = x.map (·.setDnpc d)) :
    SameGuests x y := by
  cases x with
  | none => exact .inl ⟨rfl, h⟩
  | some u => exact .inr ⟨u, _, rfl, h, d, rfl⟩

theorem SameGuest.ends {u v : State D} (h : SameGuest u v) : SameGuests (some u) (some v) :=
  .inr ⟨u, v, rfl, rfl, h⟩

theorem SameGuest.execBody {u v : State D} (h : SameGuest u v) (b : Body) :
    SameGuests (execBody P b o u) (execBody P b o v) := by
  have hcsr : ∀ n, csr P v n = csr P u n := by
    obtain ⟨d, rfl⟩ := h
    exact fun _ => rfl
  cases b with
  | write f => exact (h.setR o.rd (fun st => f st.s.pc o) fun _ _ => rfl).ends
  | jal =>
    obtain ⟨d, rfl⟩ := h
    have ht : instAligned (jalTarget o (u.setDnpc d)) ↔ instAligned (jalTarget o u) := Iff.rfl
    refine SameGuest.ends ?_
    simp only [execJal, ht]
    split
    · exact ⟨_, rfl⟩
    · exact ⟨d, rfl⟩
  | jalr =>
    obtain ⟨d, rfl⟩ := h
    refine SameGuest.ends ?_
    unfold execJalr
    split
    · exact ⟨_, rfl⟩
    · exact ⟨d, rfl⟩
  | branch cond =>
    refine SameGuest.ends ?_
    unfold execBranch
    split
    · exact h.dnpcAndCheck (branchTarget o) fun _ _ => rfl
    · exact h
  | load len ext =>
    obtain ⟨d, rfl⟩ := h
    have hr := @mr_mapRecord D P u (fun x => { x with dnpc := d }) (o.src1 + o.imm) len
    exact .of_map (d := d) (bind_commute hr fun v w => rfl)
  | store len =>
    obtain ⟨d, rfl⟩ := h
    exact .of_map (d := d)
      (@mw_mapRecord D P u (fun x => { x with dnpc := d }) (o.src1 + o.imm) len o.src2)
  | slli =>
    obtain ⟨d, rfl⟩ := h
    refine SameGuest.ends ?_
    unfold execSlli
    split
    · exact ⟨d, rfl⟩
    · exact ⟨d, rfl⟩
  | ecall =>
    have hpeek := h.trapPeekException (fun st => riscvExcpUEcall + st.curPri) (fun _ _ => rfl)
      (·.s.pc) fun _ _ => rfl
    have hgpr : v.gpr = u.gpr := by
      obtain ⟨d, rfl⟩ := h
      rfl
    refine SameGuest.ends ?_
    simp only [execEcall, State.trapPeekException_gpr, hgpr]
    split
    · exact hpeek.nemuTrap
    · exact hpeek
  | ebreak => exact (h.setCsr csrMepc (·.s.pc) fun _ _ => rfl).nemuTrap.ends
  | lrW =>
    obtain ⟨d, rfl⟩ := h
    exact .of_map (d := d) (execLr_mapRecord (fun x => { x with dnpc := d }) o)
  | scW =>
    obtain ⟨d, rfl⟩ := h
    exact .of_map (d := d) (execSc_mapRecord (fun x => { x with dnpc := d }) o)
  | amo op =>
    obtain ⟨d, rfl⟩ := h
    exact .of_map (d := d) (execAmo_mapRecord (fun x => { x with dnpc := d }) o op)
  | csr op =>
    refine SameGuest.ends ?_
    have hset := (h.setCsrChecked (P := P) o.imm (fun st => op (Riscv32.csr P st o.imm) o.src1)
      fun _ _ => rfl).setR o.rd (fun _ => Riscv32.csr P u o.imm) fun _ _ => rfl
    simp only [execCsr, hcsr] at hset ⊢
    split
    · exact hset
    · exact h.trapPeekException (fun _ => riscvExcpIllegalInst) (fun _ _ => rfl) (·.s.inst)
        fun _ _ => rfl
  | sret => exact h.execSret.ends
  | mret => exact h.execMret.ends
  | wfi =>
    obtain ⟨d, rfl⟩ := h
    have hr := @mr_mapRecord D P u (fun x => { x with dnpc := d })
      (configClintMmio + mtimelo) 4
    simp only [Riscv32.execBody, execWfi]
    split
    · exact .of_map (d := d) (bind_commute hr fun v w => paddrWrite_mapRecord _ _ _ _)
    · exact SameGuest.ends ⟨d, rfl⟩
  | nop => exact h.ends
  | inv =>
    exact (h.trapPeekException (fun _ => riscvExcpIllegalInst) (fun _ _ => rfl) (·.s.inst)
      fun _ _ => rfl).ends

theorem SameGuest.decodeBody {u v : State D} (h : SameGuest u v) :
    SameGuests (decodeBody P u) (decodeBody P v) := by
  obtain ⟨p, hp⟩ := selectInst_exists P.toConfig u.s.inst
  have hstart : SameGuest (bodyStart u) (bodyStart v) := h.dnpcAndCheck (·.s.snpc) fun _ _ => rfl
  have hword : v.s.inst = u.s.inst ∧ operands v p = operands u p := by
    obtain ⟨d, rfl⟩ := h
    exact ⟨rfl, rfl⟩
  rw [decodeBody_eq hp, decodeBody_eq (hword.1 ▸ hp), hword.2]
  rcases hstart.execBody (P := P) (o := operands u p) p.body with ⟨hx, hy⟩ | ⟨x, y, hx, hy, hxy⟩
  · rw [hx, hy]
    exact .inl ⟨rfl, rfl⟩
  · rw [hx, hy]
    exact hxy.resetFixed.ends

end GsEmu.Riscv32
