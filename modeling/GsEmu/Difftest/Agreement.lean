import GsEmu.Difftest.Conform
import GsEmu.Riscv32.Step

/-! The emulator on the shared instructions, and the two interpreters side by side. -/

namespace GsEmu.Difftest
open Bytes Riscv32 MiniRv32ima

variable {D : Type} {P : Platform D} {st st' : State D} {n : Nat} {b : Body} {o : Operands}
  {pc : Word} {e : Effect}

/-! ## Accesses with four bytes to spare -/

theorem inPmem_of_fits {a : Word} (hn : n ≤ configMsize.toNat) (ha : guestToHost a + 4 ≤ n) :
    inPmem a = true := by
  have hoff : (a - configMbase).toNat = guestToHost a := rfl
  rw [inPmem, decide_eq_true_eq, BitVec.lt_def, hoff]
  omega

section
variable (hma : P.rvMemMisalignAccess = true) (hn : n ≤ configMsize.toNat)
include hma hn

theorem mr_fits {a : Word} {len : Nat} (hlen : len ∈ [1, 2, 4]) (ha : guestToHost a + 4 ≤ n) :
    mr P a len st = some (readLE st.pmem (guestToHost a) len, st) := by
  have hread : vaddrRead P a len st = some (readLE st.pmem (guestToHost a) len, st) := by
    rw [vaddrRead, paddrRead_pmem (inPmem_of_fits hn ha), hostRead_eq _ _ (by simpa using hlen)]
    rfl
  rw [mr, if_pos (.inl hma), hread]

theorem mw_fits {a v : Word} {len : Nat} (hlen : len ∈ [1, 2, 4]) (ha : guestToHost a + 4 ≤ n) :
    mw P a len v st =
      some (st.setBus (writeLE st.pmem (guestToHost a) len v) st.io st.skip) := by
  have hwrite : vaddrWrite P a len v st =
      some (st.setBus (writeLE st.pmem (guestToHost a) len v) st.io st.skip) := by
    rw [vaddrWrite, paddrWrite_pmem (inPmem_of_fits hn ha), hostWrite_eq _ _ _ (by simpa using hlen)]
    rfl
  rw [mw, if_pos (.inl hma), hwrite]

/-! ## The emulator has the effect -/

structure Did (e : Effect) (st t : State D) : Prop where
  gpr : Function.update t.gpr 0 0 = Function.update (Function.update st.gpr e.rd e.val) 0 0
  dnpc : t.s.dnpc = e.next
  pmem : t.pmem = e.ram
  csr : t.csr = st.csr
  clean : t.haveRISCVException = st.haveRISCVException

theorem execBody_effect (hseq : st.s.dnpc = st.s.pc + 4) (hfits : Fits n o st.s.pc b)
    (he : effect b o st.s.pc st.pmem = some e) : ∃ t, execBody P b o st = some t ∧ Did e st t := by
  have hzero : Function.update st.gpr 0 0 =
      Function.update (Function.update st.gpr 0 0) 0 0 := (Function.update_idem ..).symm
  cases b with
  | write f =>
    obtain rfl := Option.some.inj he
    exact ⟨_, rfl, rfl, hseq, rfl, rfl, rfl⟩
  | jal =>
    obtain rfl := Option.some.inj he
    have ht : instAligned (jalTarget o st) := hfits
    refine ⟨_, rfl, ?_⟩
    rw [execJal, if_pos ht]
    exact ⟨rfl, rfl, rfl, rfl, rfl⟩
  | jalr =>
    obtain rfl := Option.some.inj he
    have ht : instAligned (jalrTarget o) := hfits
    refine ⟨_, rfl, ?_⟩
    rw [execJalr, if_pos ht]
    exact ⟨rfl, rfl, rfl, rfl, rfl⟩
  | branch cond =>
    obtain rfl := Option.some.inj he
    by_cases hc : cond o.src1 o.src2 = true
    · have ht : instAligned (branchTarget o st) := hfits hc
      have hexec : Riscv32.execBranch cond o st = st.setDnpc (branchTarget o st) := by
        rw [Riscv32.execBranch, if_pos hc, dnpcAndCheck, if_pos ht]
      exact ⟨_, congrArg some hexec, hzero, (if_pos hc).symm, rfl, rfl, rfl⟩
    · have hexec : Riscv32.execBranch cond o st = st := if_neg hc
      exact ⟨st, congrArg some hexec, hzero, hseq.trans (if_neg hc).symm, rfl, rfl, rfl⟩
  | load len ext =>
    obtain rfl := Option.some.inj he
    refine ⟨st.setR o.rd (ext (readLE st.pmem (guestToHost (o.src1 + o.imm)) len)), ?_,
      rfl, hseq, rfl, rfl, rfl⟩
    rw [execBody, Riscv32.execLoad, mr_fits hma hn hfits.1 hfits.2]
    rfl
  | store len =>
    obtain rfl := Option.some.inj he
    exact ⟨_, mw_fits hma hn hfits.1 hfits.2, hzero, hseq, rfl, rfl, rfl⟩
  | slli =>
    obtain rfl := Option.some.inj he
    have hlegal : o.imm &&& 0x20 = 0 := hfits
    refine ⟨_, rfl, ?_⟩
    rw [execSlli, if_neg fun hne => hne hlegal]
    exact ⟨rfl, hseq, rfl, rfl, rfl⟩
  | amo op =>
    obtain rfl := Option.some.inj he
    have hfour : 4 ∈ [1, 2, 4] := by decide
    obtain ⟨t, ht⟩ : ∃ t, readLE st.pmem (guestToHost o.src1) 4 = t := ⟨_, rfl⟩
    refine ⟨(st.setBus (writeLE st.pmem (guestToHost o.src1) 4 (op t o.src2)) st.io st.skip).setR
      o.rd t, ?_, ?_⟩
    · rw [execBody, execAmo, mr_fits hma hn hfour hfits, Option.bind_eq_bind, Option.bind_some, ht]
      dsimp only
      rw [mw_fits hma hn hfour hfits]
      rfl
    · rw [ht]
      exact ⟨rfl, hseq, rfl, rfl, rfl⟩
  | _ => cases he

end

/-! ## Two memories that agree below `n` -/

def Below (n : Nat) (m m' : Memory) : Prop := ∀ i < n, m i = m' i

theorem Below.readLE {m m' : Memory} (h : Below n m m') {a len : Nat} (ha : a + len ≤ n) :
    readLE m a len = readLE m' a len :=
  readLE_congr fun x _ hx => h x (by omega)

theorem Below.writeLE {m m' : Memory} (h : Below n m m') (a len : Nat) (v : Word) :
    Below n (writeLE m a len v) (writeLE m' a len v) := by
  intro i hi
  simp only [Bytes.writeLE]
  split
  · rfl
  · exact h i hi

theorem effect_congr {m m' : Memory} (h : Below n m m') (hfits : Fits n o pc b)
    (he : effect b o pc m = some e) :
    ∃ ram, effect b o pc m' = some { e with ram := ram } ∧ Below n e.ram ram := by
  cases b with
  | load len ext =>
    obtain rfl := Option.some.inj he
    obtain ⟨hlen, ha⟩ := hfits
    have hle : len ≤ 4 := by
      simp only [List.mem_cons, List.not_mem_nil, or_false] at hlen
      omega
    refine ⟨m', ?_, h⟩
    rw [effect, h.readLE (show guestToHost (o.src1 + o.imm) + len ≤ n by omega)]
  | store len =>
    obtain rfl := Option.some.inj he
    exact ⟨_, rfl, h.writeLE _ _ _⟩
  | amo op =>
    obtain rfl := Option.some.inj he
    have ha : guestToHost o.src1 + 4 ≤ n := hfits
    refine ⟨_, ?_, h.writeLE _ _ _⟩
    rw [effect, h.readLE ha]
  | write | jal | jalr | branch | slli =>
    obtain rfl := Option.some.inj he
    exact ⟨m', rfl, h⟩
  | _ => cases he

/-! ## The fetch -/

/-- Each of the four words that the timer check reads belongs to a map that answers. -/
def ClintAnswers (P : Platform D) : Prop :=
  ∀ off ∈ [mtimehi, mtimecmphi, mtimelo, mtimecmplo], ∃ map,
    P.maps.find? (mapInside · (configClintMmio + off)) = some map ∧
      ∀ io, (invokeCallback map (configClintMmio + off - map.low) 4 false io).isSome

theorem clintBoard_answers : ClintAnswers clintBoard := by
  intro off hoff
  simp only [List.mem_cons, List.not_mem_nil, or_false] at hoff
  rcases hoff with rfl | rfl | rfl | rfl <;> exact ⟨clintMap, rfl, fun _ => rfl⟩

theorem mr_clint_some (hclint : ClintAnswers P) (off : Word)
    (hoff : off ∈ [mtimehi, mtimecmphi, mtimelo, mtimecmplo]) (st : State D) :
    ∃ v io skip, mr P (configClintMmio + off) 4 st = some (v, st.setBus st.pmem io skip) := by
  obtain ⟨map, hfind, hanswer⟩ := hclint off hoff
  have hplace : inPmem (configClintMmio + off) = false ∧ (configClintMmio + off).toNat % 4 = 0 := by
    simp only [List.mem_cons, List.not_mem_nil, or_false] at hoff
    rcases hoff with rfl | rfl | rfl | rfl <;> decide
  have hinside := List.find?_some hfind
  obtain ⟨io, hio⟩ := Option.isSome_iff_exists.mp (hanswer st.io)
  refine ⟨readLE io.space (map.space + (configClintMmio + off - map.low).toNat) 4, io,
    difftestSkipRef P.difftest st.skip, ?_⟩
  rw [mr, if_pos (.inr hplace.2), vaddrRead, paddrRead_mmio hplace.1, mmioRead, fetchMmioMap, hfind]
  simp only [Option.bind_eq_bind, Option.bind_some, mapRead, hinside, and_true, State.setBus_io, hio]
  rfl

theorem timerLate_some (hclint : ClintAnswers P) (st : State D) :
    ∃ late io skip, timerLate P st = some (late, st.setBus st.pmem io skip) := by
  obtain ⟨hi, io₁, skip₁, h₁⟩ := mr_clint_some hclint mtimehi (by decide) st
  obtain ⟨cmphi, io₂, skip₂, h₂⟩ :=
    mr_clint_some hclint mtimecmphi (by decide) (st.setBus st.pmem io₁ skip₁)
  obtain ⟨lo, io₃, skip₃, h₃⟩ :=
    mr_clint_some hclint mtimelo (by decide) (st.setBus st.pmem io₂ skip₂)
  obtain ⟨cmplo, io₄, skip₄, h₄⟩ :=
    mr_clint_some hclint mtimecmplo (by decide) (st.setBus st.pmem io₃ skip₃)
  simp only [State.setBus_pmem, setBus_setBus] at h₂ h₃ h₄
  simp only [timerLate, h₁, h₂, Option.bind_eq_bind, Option.bind_some]
  by_cases hlt : cmphi < hi
  · exact ⟨true, io₂, skip₂, if_pos hlt⟩
  · refine ⟨decide (cmplo < lo), io₄, skip₄, ?_⟩
    rw [if_neg hlt, h₃, Option.bind_some, h₄, Option.bind_some]
    rfl

theorem fetchAndCheck_quiet (hclint : ClintAnswers P) (hn : n ≤ configMsize.toNat)
    (hfetch : guestToHost st.s.snpc + 4 ≤ n) (hmie : csr P st csrMstatus &&& 0x8 = 0) :
    ∃ io skip late, fetchAndCheck P st =
      some (false, afterFetch P st (readLE st.pmem (guestToHost st.s.snpc) 4) io skip late) := by
  obtain ⟨late, io, skip, ht⟩ := timerLate_some hclint
    { st with s := { st.s with
      inst := readLE st.pmem (guestToHost st.s.snpc) 4
      snpc := st.s.snpc + 4 } }
  refine ⟨io, skip, late, ?_⟩
  have hread : vaddrIfetch P st.s.snpc 4 st =
      some (readLE st.pmem (guestToHost st.s.snpc) 4, st) := by
    rw [vaddrIfetch, paddrRead_pmem (inPmem_of_fits hn hfetch)]
    rfl
  have hquiet : csr P (afterFetch P st (readLE st.pmem (guestToHost st.s.snpc) 4) io skip late)
      csrMstatus &&& 0x8 = 0 := by
    rw [csr_afterFetch P st _ io skip late (by simp), hmie]
  rw [fetchAndCheck, instFetch, hread]
  simp only [Option.bind_eq_bind, Option.bind_some, Option.pure_def, irpAnd, ht]
  exact congrArg some (if_neg fun h => h hquiet)

/-! ## One step of the emulator -/

/-- The options that the shared instructions depend on, and a CLINT to read. -/
structure Standard (P : Platform D) : Prop where
  rva : P.rva = true
  misalign : P.rvMemMisalignAccess = true
  clint : ClintAnswers P

structure AtRest (P : Platform D) (st : State D) : Prop where
  zero : st.gpr 0 = 0
  aligned : instAligned st.pc
  clean : st.haveRISCVException = riscvExcpNone
  mie : csr P st csrMstatus &&& 0x8 = 0

theorem execOnce_effect (hP : Standard P) (hn : n ≤ configMsize.toNat) (hrest : AtRest P st)
    (hfetch : guestToHost st.pc + 4 ≤ n) {ir : Word} (hir : readLE st.pmem (guestToHost st.pc) 4 = ir)
    {p : Instpat} (hp : selectInst P.toConfig ir = some p)
    (hfits : Fits n (decodeOperand ir p.type st.gpr) st.pc p.body)
    (he : effect p.body (decodeOperand ir p.type st.gpr) st.pc st.pmem = some e) :
    ∃ st', execOnce P st = some st' ∧
      st'.gpr = Function.update (Function.update st.gpr e.rd e.val) 0 0 ∧ st'.pc = e.next ∧
      st'.pmem = e.ram ∧ st'.haveRISCVException = riscvExcpNone ∧
      csr P st' csrMstatus = csr P st csrMstatus := by
  obtain ⟨io, skip, late, hf⟩ := @fetchAndCheck_quiet D P st.enter _ hP.clint hn hfetch hrest.mie
  have hword : readLE st.enter.pmem (guestToHost st.enter.s.snpc) 4 = ir := hir
  rw [hword] at hf
  obtain ⟨f, hfeq⟩ : ∃ f, afterFetch P st.enter ir io skip late = f := ⟨_, rfl⟩
  have hstart : bodyStart f = f.setDnpc (st.pc + 4) := by
    rw [bodyStart, ← hfeq]
    exact if_pos (instAligned_add_four hrest.aligned)
  have hfits' : Fits n (operands f p) (bodyStart f).s.pc p.body := by
    rw [hstart, ← hfeq]
    exact hfits
  have he' : effect p.body (operands f p) (bodyStart f).s.pc (bodyStart f).pmem = some e := by
    rw [hstart, ← hfeq]
    exact he
  have hseq : (bodyStart f).s.dnpc = (bodyStart f).s.pc + 4 := by
    rw [hstart, ← hfeq]
    rfl
  obtain ⟨t, ht, hdid⟩ := execBody_effect hP.misalign hn hseq hfits' he'
  have hbody : decodeBody P f = some (resetFixed P t) := by
    have hinst : selectInst P.toConfig f.s.inst = some p := by
      rw [← hfeq]
      exact hp
    rw [decodeBody_eq hinst, ht]
    rfl
  have hclean : (resetFixed P t).haveRISCVException = riscvExcpNone := by
    have hf0 : (bodyStart f).haveRISCVException = riscvExcpNone := by
      rw [hstart, ← hfeq]
      exact hrest.clean
    exact hdid.clean.trans hf0
  have htail : trapTail P (resetFixed P t) = resetFixed P t := if_neg fun h => h hclean
  have hisa : isaExecOnce P st.enter = some (resetFixed P t) := by
    refine isaExecOnce_iff.mpr (.inr ⟨f, resetFixed P t, ?_, hbody, htail.symm⟩)
    rw [hf, hfeq]
  refine ⟨_, execOnce_iff.mpr ⟨_, hisa, rfl⟩, ?_, hdid.dnpc, hdid.pmem, hclean, ?_⟩
  · change Function.update t.gpr 0 0 = _
    rw [hdid.gpr, hstart, ← hfeq]
    rfl
  · change csr P (resetFixed P t) csrMstatus = _
    rw [csr_resetFixed P t (by simp), csr, hdid.csr, hstart, ← hfeq]
    exact csr_afterFetch P st.enter ir io skip late (by simp)

/-! ## One step of the reference -/

section
variable (el : Word) (s : MiniRV32IMAState)

@[simp] theorem advanceTimer_regs : (advanceTimer el s).regs = s.regs := by
  unfold advanceTimer
  dsimp only
  split_ifs <;> rfl

@[simp] theorem advanceTimer_pc : (advanceTimer el s).pc = s.pc := by
  unfold advanceTimer
  dsimp only
  split_ifs <;> rfl

@[simp] theorem advanceTimer_mstatus : (advanceTimer el s).mstatus = s.mstatus := by
  unfold advanceTimer
  dsimp only
  split_ifs <;> rfl

theorem advanceTimer_awake (h : s.extraflags &&& 4 = 0) :
    (advanceTimer el s).extraflags &&& 4 = 0 := by
  have hclear : ∀ x : Word, x &&& ~~~(4 : Word) &&& 4 = 0 := by
    intro x
    rw [BitVec.and_assoc]
    exact BitVec.and_zero
  unfold advanceTimer
  dsimp only
  split_ifs <;> first | exact hclear _ | exact h

end

theorem ofsPc_aligned {a : Word} (h : instAligned a) : (a - ramImageOffset) &&& 3 = 0 := by
  rw [← instAligned_iff]
  have hmod : a.toNat % 4 = 0 := h
  have hoff : ramImageOffset.toNat = 0x80000000 := rfl
  rw [instAligned, BitVec.toNat_sub, hoff]
  omega

theorem miniStep_effect {h : Host} {s : MiniRV32IMAState} {image : Memory}
    (hn : n ≤ h.ramAmt.toNat) (hwake : s.extraflags &&& 4 = 0) (hmie : s.mstatus &&& 0x8 = 0)
    (halign : instAligned s.pc) (hfetch : guestToHost s.pc + 4 ≤ n) {ir : Word}
    (hir : readLE image (guestToHost s.pc) 4 = ir)
    (hexec : ∀ cycle s', s'.regs = s.regs →
      execOpcode h cycle ir s.pc s' image = .next e.rd e.val (e.next - 4) s' e.ram) :
    ∃ s', miniRV32IMAStep h 0 1 s image = (0, s', e.ram, []) ∧
      s'.regs = (if e.rd = 0 then s.regs else Function.update s.regs e.rd e.val) ∧
      s'.pc = e.next ∧ s'.extraflags &&& 4 = 0 ∧ s'.mstatus = s.mstatus := by
  obtain ⟨u, hu⟩ : ∃ u, advanceTimer 0 s = u := ⟨_, rfl⟩
  have hregs : u.regs = s.regs := hu ▸ advanceTimer_regs 0 s
  have hupc : u.pc = s.pc := hu ▸ advanceTimer_pc 0 s
  have hmst : u.mstatus = s.mstatus := hu ▸ advanceTimer_mstatus 0 s
  have hawake : u.extraflags &&& 4 = 0 := hu ▸ advanceTimer_awake 0 s hwake
  rw [← hupc] at halign hfetch hir hexec
  have hin : ¬h.ramAmt ≤ u.pc - ramImageOffset := by
    have hoff : (u.pc - ramImageOffset).toNat = guestToHost u.pc := rfl
    rw [BitVec.le_def, hoff]
    omega
  have hword : readLE image (u.pc - ramImageOffset).toNat 4 = ir := hir
  have hquiet : ¬(u.mip &&& 0x80 ≠ 0 ∧ u.mie &&& 0x80 ≠ 0 ∧ u.mstatus &&& 0x8 ≠ 0) := by
    rw [hmst]
    exact fun hint => hint.2.2 hmie
  have hloop : instLoop h 1 u.pc u.cyclel u image =
      .done e.next (u.cyclel + 1)
        (if e.rd = 0 then u else { u with regs := Function.update u.regs e.rd e.val }) e.ram := by
    rw [instLoop]
    dsimp only
    rw [if_neg hin, if_neg fun hne => hne (ofsPc_aligned halign), hword, hexec _ _ hregs]
    dsimp only
    rw [instLoop, BitVec.sub_add_cancel]
    rfl
  refine ⟨finish e.next (u.cyclel + 1)
    (if e.rd = 0 then u else { u with regs := Function.update u.regs e.rd e.val }), ?_, ?_⟩
  · rw [miniRV32IMAStep]
    dsimp only
    rw [hu, if_neg fun hne => hne hawake, if_neg hquiet, hloop]
  · rw [← hregs, ← hmst]
    unfold finish
    dsimp only
    split_ifs <;> exact ⟨rfl, rfl, hawake, rfl⟩

/-! ## Side by side -/

/-- The same `x1` to `x31`, the same `pc` and the same first `n` bytes of RAM. -/
structure Agree (n : Nat) (st : State D) (s : MiniRV32IMAState) (image : Memory) : Prop where
  regs : ∀ r ≠ 0, st.gpr r = s.regs r
  pc : st.pc = s.pc
  ram : Below n st.pmem image

/-- The states of the two interpreters between two shared instructions; neither takes an interrupt
and the reference does not sleep. -/
structure Lockstep (P : Platform D) (n : Nat) (st : State D) (s : MiniRV32IMAState)
    (image : Memory) : Prop where
  quiet : AtRest P st
  regs : st.gpr = s.regs
  pc : st.pc = s.pc
  ram : Below n st.pmem image
  awake : s.extraflags &&& 4 = 0
  mie : s.mstatus &&& 0x8 = 0

theorem Lockstep.agree {s : MiniRV32IMAState} {image : Memory} (hl : Lockstep P n st s image) :
    Agree n st s image :=
  ⟨fun r _ => congrFun hl.regs r, hl.pc, hl.ram⟩

theorem effect_next_aligned (hpc : instAligned pc) {m : Memory} (hfits : Fits n o pc b)
    (he : effect b o pc m = some e) : instAligned e.next := by
  cases b with
  | jal | jalr =>
    obtain rfl := Option.some.inj he
    exact hfits
  | branch cond =>
    obtain rfl := Option.some.inj he
    dsimp only
    split
    · exact hfits ‹_›
    · exact instAligned_add_four hpc
  | write | load | store | slli | amo =>
    obtain rfl := Option.some.inj he
    exact instAligned_add_four hpc
  | _ => cases he

theorem conforms_uniform {c : Config} {h : Host} {ir : Word} {s : MiniRV32IMAState} {image : Memory}
    (hconf : ∀ cycle s', s'.regs = s.regs → Conforms c h n ir pc cycle s' image) :
    ∃ p e, selectInst c ir = some p ∧
      effect p.body (decodeOperand ir p.type s.regs) pc image = some e ∧
      Fits n (decodeOperand ir p.type s.regs) pc p.body ∧
      ∀ cycle s', s'.regs = s.regs →
        execOpcode h cycle ir pc s' image = .next e.rd e.val (e.next - 4) s' e.ram := by
  obtain ⟨p, e, hp, he, hfits, -⟩ := hconf 0 s rfl
  refine ⟨p, e, hp, he, hfits, fun cycle s' hs => ?_⟩
  obtain ⟨p', e', hp', he', -, hexec⟩ := hconf cycle s' hs
  obtain rfl := Option.some.inj (hp.symm.trans hp')
  rw [hs] at he'
  obtain rfl := Option.some.inj (he.symm.trans he')
  exact hexec

theorem Lockstep.step {h : Host} {s : MiniRV32IMAState} {image : Memory} (hP : Standard P)
    (hmsize : n ≤ configMsize.toNat) (hramAmt : n ≤ h.ramAmt.toNat) (hl : Lockstep P n st s image)
    (hcov : Covered n (readLE st.pmem (guestToHost st.pc) 4) st.pc st.gpr) :
    ∃ st' s' image', execOnce P st = some st' ∧
      miniRV32IMAStep h 0 1 s image = (0, s', image', []) ∧ Lockstep P n st' s' image' := by
  obtain ⟨ir, hir⟩ : ∃ ir, readLE st.pmem (guestToHost st.pc) 4 = ir := ⟨_, rfl⟩
  have hfetch := hcov.fetch
  rw [hir, hl.regs] at hcov
  have hconf : ∀ cycle s', s'.regs = s.regs →
      Conforms P.toConfig h n ir st.pc cycle s' image := fun cycle s' hs =>
    conforms_of_covered hP.rva hramAmt (hs ▸ hcov)
  obtain ⟨p, e, hp, he, hfits, hexec⟩ := conforms_uniform hconf
  have hram : Below n image st.pmem := fun i hi => (hl.ram i hi).symm
  obtain ⟨ram, he', hbelow⟩ := effect_congr hram hfits he
  have hword : readLE image (guestToHost s.pc) 4 = ir := by
    rw [← hl.pc, ← hl.ram.readLE hfetch, hir]
  have halign : instAligned s.pc := hl.pc ▸ hl.quiet.aligned
  obtain ⟨s', hs', hregs', hpc', hawake', hmst'⟩ := miniStep_effect hramAmt hl.awake hl.mie halign
    (hl.pc ▸ hfetch) hword (e := e) (hl.pc ▸ hexec)
  rw [← hl.regs] at he' hfits
  obtain ⟨st', hst', hgpr, hpc, hpmem, hclean, hmst⟩ :=
    execOnce_effect hP hmsize hl.quiet hfetch hir hp hfits he'
  refine ⟨st', s', e.ram, hst', hs', ?_⟩
  exact {
    quiet := {
      zero := by rw [hgpr, Function.update_self]
      aligned := by
        rw [hpc]
        exact effect_next_aligned hl.quiet.aligned hfits he'
      clean := hclean
      mie := by rw [hmst, hl.quiet.mie] }
    regs := by
      have hzero : s.regs 0 = 0 := by rw [← hl.regs, hl.quiet.zero]
      rw [hgpr, hregs', hl.regs]
      by_cases hrd : e.rd = 0
      · rw [if_pos hrd, hrd, Function.update_idem, ← hzero, Function.update_eq_self]
      · rw [if_neg hrd, Function.update_comm hrd, ← hzero, Function.update_eq_self]
    pc := hpc.trans hpc'.symm
    ram := fun i hi => by rw [hpmem, hbelow i hi]
    awake := hawake'
    mie := by rw [hmst', hl.mie] }

def miniRun (h : Host) : Nat → MiniRV32IMAState × Memory → MiniRV32IMAState × Memory
  | 0, m => m
  | k + 1, m =>
    let m := miniRun h k m
    let (_, s, image, _) := miniRV32IMAStep h 0 1 m.1 m.2
    (s, image)

theorem Lockstep.run {h : Host} {s : MiniRV32IMAState} {image : Memory} (hP : Standard P)
    (hmsize : n ≤ configMsize.toNat) (hramAmt : n ≤ h.ramAmt.toNat) (hl : Lockstep P n st s image)
    {k : Nat} (hcov : ∀ j < k, ∀ u, runInst P j st = some u →
      Covered n (readLE u.pmem (guestToHost u.pc) 4) u.pc u.gpr) :
    ∃ st', runInst P k st = some st' ∧
      Lockstep P n st' (miniRun h k (s, image)).1 (miniRun h k (s, image)).2 := by
  -- one shared instruction after the other; the cover is restricted to the steps taken
  induction k with
  | zero => exact ⟨st, rfl, hl⟩
  | succ k ih =>
    obtain ⟨u, hu, hlu⟩ := ih fun j hj => hcov j (by omega)
    obtain ⟨st', s', image', hst', hs', hl'⟩ := hlu.step hP hmsize hramAmt (hcov k (by omega) u hu)
    refine ⟨st', ?_, ?_⟩
    · rw [runInst, hu, Option.bind_eq_bind, Option.bind_some, hst']
    · have hnext : miniRun h (k + 1) (s, image) = (s', image') := by
        rw [miniRun, hs']
      rw [hnext]
      exact hl'

/-- From the same registers, `pc` and RAM the two interpreters agree after every step of a run whose
instructions are all covered. -/
theorem runs_agree {h : Host} {s : MiniRV32IMAState} {image : Memory} (hP : Standard P)
    (hmsize : n ≤ configMsize.toNat) (hramAmt : n ≤ h.ramAmt.toNat) (hl : Lockstep P n st s image)
    {k : Nat} (hcov : ∀ j < k, ∀ u, runInst P j st = some u →
      Covered n (readLE u.pmem (guestToHost u.pc) 4) u.pc u.gpr) :
    ∀ j ≤ k, ∃ st', runInst P j st = some st' ∧
      Agree n st' (miniRun h j (s, image)).1 (miniRun h j (s, image)).2 := by
  intro j hj
  obtain ⟨st', hst', hl'⟩ := hl.run (k := j) hP hmsize hramAmt fun i hi => hcov i (by omega)
  exact ⟨st', hst', hl'.agree⟩

def miniStart (x : Reg → Word) (pc : Word) : MiniRV32IMAState :=
  ⟨x, pc, 0, 0, 0, 0, 0, 0, 0, 0, 0, 0, 0, 0, 0, 0, 0⟩

def amoStart : State Unit :=
  (booted clintBoard [0x00a322af]).setR 6 0x80000010

theorem runs_agree_amo :
    ∃ st', runInst clintBoard 1 amoStart = some st' ∧
      Agree 0x1000 st' (miniRun ⟨0x8000000, 0, 0⟩ 1 (miniStart amoStart.gpr 0x80000000, amoStart.pmem)).1
        (miniRun ⟨0x8000000, 0, 0⟩ 1 (miniStart amoStart.gpr 0x80000000, amoStart.pmem)).2 := by
  have hP : Standard clintBoard := ⟨rfl, rfl, clintBoard_answers⟩
  have hstart : Lockstep clintBoard 0x1000 amoStart (miniStart amoStart.gpr 0x80000000)
      amoStart.pmem :=
    ⟨⟨by decide, by decide, by decide, by decide⟩, rfl, rfl, fun _ _ => rfl, by decide, by decide⟩
  refine runs_agree hP (by decide) (by decide) hstart (fun j hj u hu => ?_) 1 le_rfl
  obtain rfl : j = 0 := by omega
  obtain rfl := Option.some.inj hu
  have hword : readLE amoStart.pmem (guestToHost amoStart.pc) 4 = 0x00a322af := by decide
  rw [hword]
  refine ⟨?_, by decide, ?_, ?_⟩
  · exact ⟨by decide, by decide⟩
  · rintro a ⟨⟩
    decide
  · rintro a ⟨⟩

end GsEmu.Difftest
