import GsEmu.Riscv32.CsrForms

/-! The `aq` and `rl` bits of the atomic instructions. -/

namespace GsEmu.Riscv32
open BitVec

variable {D : Type} {P : Platform D} {st f g : State D} {w w' : Word}

/-! ## The words -/

inductive AmoOp
  | swap
  | add
  | xor
  | and
  | or
  | min
  | max
  | minu
  | maxu

/-- The atomic instructions; `lr.w` has no second source register. -/
inductive Atomic
  | lrW
  | scW (rs2 : Reg)
  | amo (op : AmoOp) (rs2 : Reg)

def AmoOp.value : AmoOp → Word → Word → Word
  | .swap => fun _ b => b
  | .add => fun t b => t + b
  | .xor => fun t b => t ^^^ b
  | .and => fun t b => t &&& b
  | .or => fun t b => t ||| b
  | .min => fun t b => if t.slt b then t else b
  | .max => fun t b => if b.slt t then t else b
  | .minu => fun t b => if t.ult b then t else b
  | .maxu => fun t b => if b.ult t then t else b

def AmoOp.funct5 : AmoOp → BitVec 5
  | .swap => 0b00001
  | .add => 0b00000
  | .xor => 0b00100
  | .and => 0b01100
  | .or => 0b01000
  | .min => 0b10000
  | .max => 0b10100
  | .minu => 0b11000
  | .maxu => 0b11100

def Atomic.funct5 : Atomic → BitVec 5
  | .lrW => 0b00010
  | .scW _ => 0b00011
  | .amo op _ => op.funct5

def Atomic.rs2 : Atomic → Reg
  | .lrW => 0
  | .scW rs2 => rs2
  | .amo _ rs2 => rs2

def Atomic.body : Atomic → Body
  | .lrW => .lrW
  | .scW _ => .scW
  | .amo op _ => .amo op.value

def Atomic.word (k : Atomic) (aqrl : BitVec 2) (rd rs1 : Reg) : Word :=
  encodeR (k.funct5 ++ aqrl) ⟨rd, rs1, k.rs2, 2, 0x2f⟩

theorem encodeR_and_funct5 (funct5 : BitVec 5) (aqrl : BitVec 2) (r : Fields) :
    encodeR (funct5 ++ aqrl) r &&& 0xf800707f =
      encodeR (funct5 ++ (0 : BitVec 2)) { r with rd := 0, rs1 := 0, rs2 := 0 } := by
  apply eq_of_getLsbD_eq
  intro k hk
  rw [getLsbD_and]
  interval_cases k <;> simp only [encodeR, getLsbD_append] <;> simp

theorem encodeR_and_rs2 (funct7 : BitVec 7) (r : Fields) :
    encodeR funct7 r &&& 0xfff0707f = encodeR funct7 { r with rd := 0, rs1 := 0 } := by
  apply eq_of_getLsbD_eq
  intro k hk
  rw [getLsbD_and]
  interval_cases k <;> simp only [encodeR, getLsbD_append] <;> simp

theorem encodeR_and_opcode (funct7 : BitVec 7) (r : Fields) :
    encodeR funct7 r &&& 0x7f = r.opcode.setWidth 32 := by
  apply eq_of_getLsbD_eq
  intro k hk
  rw [getLsbD_and, getLsbD_setWidth]
  interval_cases k <;> simp only [encodeR, getLsbD_append] <;> simp

/-! ## Selection -/

/-- What the ordering bits and the registers leave of a word. -/
def Atomic.key (k : Atomic) : Word := encodeR (k.funct5 ++ (0 : BitVec 2)) ⟨0, 0, 0, 2, 0x2f⟩

theorem lrW_row : ∃ p ∈ rv32a, p.code = ⟨Atomic.lrW.key.setWidth 64, (0xfff0707f : Word).setWidth 64, 0⟩ ∧
    p.body = .lrW ∧ p.type = .R :=
  ⟨_, List.get_mem rv32a ⟨0, by decide⟩, rfl, rfl, rfl⟩

theorem scW_row : ∃ p ∈ rv32a,
    p.code = ⟨(Atomic.scW 0).key.setWidth 64, (0xf800707f : Word).setWidth 64, 0⟩ ∧
    p.body = .scW ∧ p.type = .R :=
  ⟨_, List.get_mem rv32a ⟨1, by decide⟩, rfl, rfl, rfl⟩

theorem amo_row (op : AmoOp) : ∃ p ∈ rv32a,
    p.code = ⟨(Atomic.amo op 0).key.setWidth 64, (0xf800707f : Word).setWidth 64, 0⟩ ∧
    p.body = .amo op.value ∧ p.type = .R := by
  cases op with
  | swap => exact ⟨_, List.get_mem rv32a ⟨2, by decide⟩, rfl, rfl, rfl⟩
  | add => exact ⟨_, List.get_mem rv32a ⟨3, by decide⟩, rfl, rfl, rfl⟩
  | xor => exact ⟨_, List.get_mem rv32a ⟨4, by decide⟩, rfl, rfl, rfl⟩
  | and => exact ⟨_, List.get_mem rv32a ⟨5, by decide⟩, rfl, rfl, rfl⟩
  | or => exact ⟨_, List.get_mem rv32a ⟨6, by decide⟩, rfl, rfl, rfl⟩
  | min => exact ⟨_, List.get_mem rv32a ⟨7, by decide⟩, rfl, rfl, rfl⟩
  | max => exact ⟨_, List.get_mem rv32a ⟨8, by decide⟩, rfl, rfl, rfl⟩
  | minu => exact ⟨_, List.get_mem rv32a ⟨9, by decide⟩, rfl, rfl, rfl⟩
  | maxu => exact ⟨_, List.get_mem rv32a ⟨10, by decide⟩, rfl, rfl, rfl⟩

theorem atomic_row (k : Atomic) {aqrl : BitVec 2} (h : k = .lrW → aqrl = 0) (rd rs1 : Reg) :
    ∃ p ∈ rv32a, p.hits (k.word aqrl rd rs1) = true ∧ p.body = k.body ∧ p.type = .R := by
  cases k with
  | lrW =>
    obtain rfl := h rfl
    obtain ⟨p, hp, hcode, hbody, htype⟩ := lrW_row
    exact ⟨p, hp, hits_of_and hcode (encodeR_and_rs2 ..), hbody, htype⟩
  | scW rs2 =>
    obtain ⟨p, hp, hcode, hbody, htype⟩ := scW_row
    exact ⟨p, hp, hits_of_and hcode (encodeR_and_funct5 ..), hbody, htype⟩
  | amo op rs2 =>
    obtain ⟨p, hp, hcode, hbody, htype⟩ := amo_row op
    exact ⟨p, hp, hits_of_and hcode (encodeR_and_funct5 ..), hbody, htype⟩

theorem selectInst_atomic {c : Config} (hc : c.rva = true) (k : Atomic) {aqrl : BitVec 2}
    (h : k = .lrW → aqrl = 0) (rd rs1 : Reg) :
    ∃ p, selectInst c (k.word aqrl rd rs1) = some p ∧ p.body = k.body ∧ p.type = .R := by
  obtain ⟨p, hmem, hits, hbody, htype⟩ := atomic_row k h rd rs1
  have hlegal : p ∈ legalLines c := by
    unfold legalLines
    rw [if_pos hc]
    exact List.mem_append_left _ (List.mem_append_left _ (List.mem_append_right _ hmem))
  exact ⟨p, selectInst_of_mem hlegal hits, hbody, htype⟩

theorem selectInst_inv_of_apart {c : Config} {l : List Instpat} (hc : legalLines c ⊆ l) {key mask : Word}
    (hapart : ∀ p ∈ l, Pattern.Apart ⟨key.setWidth 64, mask.setWidth 64, 0⟩ p.code)
    (hw : w &&& mask = key) : ∃ p, selectInst c w = some p ∧ p.body = .inv :=
  selectInst_inv fun p hp => (hapart p (hc hp)).hits (Pattern.hits_of_and hw)

theorem lrW_apart : ∀ aqrl : BitVec 2, aqrl ≠ 0 →
    ∀ p ∈ rv32i ++ rv32m ++ rv32a ++ rvZicsr ++ rvZifencei,
      Pattern.Apart ⟨(encodeR (Atomic.lrW.funct5 ++ aqrl) ⟨0, 0, 0, 2, 0x2f⟩).setWidth 64,
        (0xfff0707f : Word).setWidth 64, 0⟩ p.code := by
  decide +kernel

theorem opcode_apart : ∀ p ∈ rv32i ++ rv32m ++ rvZicsr ++ rvZifencei,
    Pattern.Apart ⟨(0x2f : Word).setWidth 64, (0x7f : Word).setWidth 64, 0⟩ p.code := by
  decide +kernel

theorem selectInst_lrW {c : Config} {aqrl : BitVec 2} (h : aqrl ≠ 0) (rd rs1 : Reg) :
    ∃ p, selectInst c (Atomic.lrW.word aqrl rd rs1) = some p ∧ p.body = .inv :=
  selectInst_inv_of_apart (legalLines_sublist c).subset (lrW_apart aqrl h) (encodeR_and_rs2 ..)

theorem selectInst_no_rva {c : Config} (hc : c.rva = false) (k : Atomic) (aqrl : BitVec 2) (rd rs1 : Reg) :
    ∃ p, selectInst c (k.word aqrl rd rs1) = some p ∧ p.body = .inv := by
  refine selectInst_inv_of_apart (l := rv32i ++ rv32m ++ rvZicsr ++ rvZifencei) ?_ opcode_apart
    (encodeR_and_opcode ..)
  intro p hp
  simp only [legalLines, hc, Bool.false_eq_true, if_false, List.append_nil, List.mem_append] at hp ⊢
  rcases hp with (hp | hp) | hp
  · exact .inl (.inl hp)
  · exact .inl (.inr ((ite_nil_sublist _ _).subset hp))
  · exact .inr ((ite_nil_sublist _ _).subset hp)

/-! ## One step with a given word -/

/-- `isa_exec_once` where the fetch delivers `w`. -/
def isaExecOnceOn (P : Platform D) (w : Word) (st : State D) : Option (State D) := do
  let st ← instFetch P st
  let (taken, st) ← irpAnd P (st.setInst w)
  if taken then return st
  decodeExec P st

theorem isaExecOnceOn_fetched (h : instFetch P st = some f) :
    isaExecOnceOn P f.s.inst st = isaExecOnce P st := by
  unfold isaExecOnceOn isaExecOnce fetchAndCheck
  rw [h]
  rfl

/-- The fetch succeeds and no interrupt is taken. -/
def Decodes (P : Platform D) (st : State D) : Prop := ∃ f, fetchAndCheck P st = some (false, f)

theorem SameButWord.takeIrq {t u : State D} (h : SameButWord w w' t u) (irqType : Word) :
    SameButWord w w' (takeIrq P irqType t) (Riscv32.takeIrq P irqType u) := by
  have hm : checkCsrIdx P.priv csrMstatus ∉ tvalSlots := by simp [tvalSlots]
  have hv : checkCsrIdx P.priv csrMtvec ∉ tvalSlots := by simp [tvalSlots]
  have h1 := h.setCsr (P := P) csrMcause (v := irqType ||| 0x80000000) rfl
  have h2 := h1.setCsr (P := P) csrMepc h1.fields.2.1
  have h3 := h2.dnpcAndCheck
    (congrArg (fun v => v + (4 * irqType - 1) * getField v 0x01) (h2.csr_eq hv))
  have h4 := h3.setCsr (P := P) csrMstatus
    (congrArg (fun m => setField m mstatusMpie (getField m mstatusMie)) (h3.csr_eq hm))
  have h5 := h4.setCsr (P := P) csrMstatus (congrArg (· &&& ~~~mstatusMie) (h4.csr_eq hm))
  have h6 := h5.setCsr (P := P) csrMstatus
    (congrArg₂ (setField · mstatusMpp ·) (h5.csr_eq hm) h5.fields.1)
  exact h6.setCurPri prvM

theorem irpTake_setInst (st : State D) :
    (∀ w, irpTake P (st.setInst w) = (false, st.setInst w)) ∨
      (irpTake P st).1 = true ∧ ∀ w w', ∃ t u, irpTake P (st.setInst w) = (true, t) ∧
        irpTake P (st.setInst w') = (true, u) ∧ SameButWord w w' t u := by
  have hcsr : ∀ w n, csr P (st.setInst w) n = csr P st n := fun _ _ => rfl
  have hstub : ∀ w, irpStub P (st.setInst w) = irpStub P st := fun _ => rfl
  have hip : ∀ w, haveIP P (st.setInst w) = haveIP P st := fun _ => rfl
  unfold irpTake
  simp only [hcsr, hstub, hip]
  split
  · split
    · exact .inr ⟨rfl, fun w w' => ⟨_, _, rfl, rfl, .of_setInst st⟩⟩
    · split
      · exact .inr ⟨rfl, fun w w' => ⟨_, _, rfl, rfl, (SameButWord.of_setInst st).takeIrq _⟩⟩
      · exact .inl fun _ => rfl
  · exact .inl fun _ => rfl

theorem isaExecOnceOn_sampled (P : Platform D) (st : State D) :
    (fetchAndCheck P st = none ∧ ∀ w, isaExecOnceOn P w st = none) ∨
      ∃ f, fetchAndCheck P st = some (irpTake P f) ∧ ∀ w, isaExecOnceOn P w st =
        if (irpTake P (f.setInst w)).1 then some (irpTake P (f.setInst w)).2
        else decodeExec P (irpTake P (f.setInst w)).2 := by
  unfold isaExecOnceOn fetchAndCheck
  cases hfetch : instFetch P st with
  | none => exact .inl ⟨rfl, fun _ => rfl⟩
  | some g =>
    have htimer : ∀ w, timerLate P (g.setInst w) =
        (timerLate P g).map (Prod.map id (State.setInst w)) := fun _ => timerLate_mapRecord ..
    cases htime : timerLate P g with
    | none =>
      refine .inl ⟨?_, fun w => ?_⟩
      · change (timerLate P g).bind _ = none
        rw [htime]
        rfl
      · change ((timerLate P (g.setInst w)).bind _).bind _ = none
        rw [htimer, htime]
        rfl
    | some x =>
      refine .inr ⟨setMtip P x.1 x.2, ?_, fun w => ?_⟩
      · change (timerLate P g).bind _ = _
        rw [htime]
        rfl
      · change ((timerLate P (g.setInst w)).bind _).bind _ = _
        rw [htimer, htime]
        rfl

/-- The same state up to the word, or neither word gets through. -/
abbrev SameStep (P : Platform D) (w w' : Word) (st : State D) : Prop :=
  Option.Rel (SameButWord w w') (isaExecOnceOn P w st) (isaExecOnceOn P w' st)

theorem isaExecOnceOn_decodes (h : fetchAndCheck P st = some (false, f)) (w : Word) :
    isaExecOnceOn P w st = decodeExec P (f.setInst w) := by
  rcases isaExecOnceOn_sampled P st with ⟨hnone, -⟩ | ⟨g, hg, hon⟩
  · exact absurd (hnone.symm.trans h) (by simp)
  have htake : irpTake P g = (false, f) := Option.some.inj (hg.symm.trans h)
  obtain rfl := irpTake_false htake
  rcases irpTake_setInst (P := P) f with hno | ⟨hyes, -⟩
  · rw [hon, hno]
    rfl
  · rw [htake] at hyes
    exact absurd hyes (by simp)

theorem sameStep_of_not_decodes (h : ¬Decodes P st) : SameStep P w w' st := by
  rcases isaExecOnceOn_sampled P st with ⟨-, hnone⟩ | ⟨g, hg, hon⟩
  · rw [SameStep, hnone, hnone]
    exact .none
  rcases irpTake_setInst (P := P) g with hno | ⟨-, hyes⟩
  · exact absurd ⟨g, hg.trans (congrArg some (hno g.s.inst))⟩ h
  · obtain ⟨t, u, ht, hu, hsame⟩ := hyes w w'
    rw [SameStep, hon, hon, ht, hu]
    exact .some hsame

/-! ## The bodies -/

theorem execBody_setInst (k : Atomic) (o : Operands) (w : Word) (g : State D) :
    execBody P k.body o (g.setInst w) = (execBody P k.body o g).map (State.setInst w) := by
  cases k with
  | lrW => exact execLr_mapRecord _ o
  | scW rs2 => exact execSc_mapRecord _ o
  | amo op rs2 => exact execAmo_mapRecord _ o op.value

theorem decodeExec_setInst {p : Instpat} {k : Atomic} (hp : selectInst P.toConfig w = some p)
    (hbody : p.body = k.body) : decodeExec P (f.setInst w) =
      (execBody P k.body (decodeOperand w p.type f.gpr) (bodyStart f)).map
        fun g => trapTail P (resetFixed P (g.setInst w)) := by
  have hstart : bodyStart (f.setInst w) = (bodyStart f).setInst w := bodyStart_setInst w f
  rw [decodeExec, decodeBody_eq (f := f.setInst w) hp, hbody, hstart, execBody_setInst]
  change (Option.map _ (Option.map _ (execBody P k.body (decodeOperand w p.type f.gpr) _))).bind _ = _
  cases execBody P k.body (decodeOperand w p.type f.gpr) (bodyStart f) <;> rfl

theorem decodeExec_illegal {p : Instpat} (hp : selectInst P.toConfig w = some p) (hbody : p.body = .inv) :
    decodeExec P (f.setInst w) = some (trapTail P (resetFixed P
      (((bodyStart f).trapPeekException riscvExcpIllegalInst w).setInst w))) := by
  have hstart : bodyStart (f.setInst w) = (bodyStart f).setInst w := bodyStart_setInst w f
  rw [decodeExec, decodeBody_eq (f := f.setInst w) hp, hbody, hstart]
  rfl

/-! ## Main result -/

section
variable (k : Atomic) (rd rs1 : Reg) (aqrl aqrl' : BitVec 2)

theorem decodeOperand_atomic (gpr : Reg → Word) :
    decodeOperand (k.word aqrl rd rs1) .R gpr = ⟨rd, gpr rs1, gpr k.rs2, 0⟩ :=
  decodeOperand_encodeR ..

theorem sameStep_of_legal (hA : P.rva = true) (h : k = .lrW → aqrl = 0 ∧ aqrl' = 0)
    (st : State D) : SameStep P (k.word aqrl rd rs1) (k.word aqrl' rd rs1) st := by
  by_cases hd : Decodes P st
  swap
  · exact sameStep_of_not_decodes hd
  obtain ⟨f, hf⟩ := hd
  obtain ⟨p, hp, hbody, htype⟩ := selectInst_atomic (c := P.toConfig) hA k (fun hk => (h hk).1) rd rs1
  obtain ⟨q, hq, hbody', htype'⟩ := selectInst_atomic (c := P.toConfig) hA k (fun hk => (h hk).2) rd rs1
  rw [SameStep, isaExecOnceOn_decodes hf, isaExecOnceOn_decodes hf, decodeExec_setInst hp hbody,
    decodeExec_setInst hq hbody', htype, htype', decodeOperand_atomic, decodeOperand_atomic]
  cases execBody P k.body ⟨rd, f.gpr rs1, f.gpr k.rs2, 0⟩ (bodyStart f) with
  | none => exact .none
  | some g => exact .some (SameButWord.of_setInst g).resetFixed.trapTail

theorem sameStep_of_no_rva (hA : P.rva = false) (st : State D) :
    SameStep P (k.word aqrl rd rs1) (k.word aqrl' rd rs1) st := by
  by_cases hd : Decodes P st
  swap
  · exact sameStep_of_not_decodes hd
  obtain ⟨f, hf⟩ := hd
  obtain ⟨p, hp, hbody⟩ := selectInst_no_rva (c := P.toConfig) hA k aqrl rd rs1
  obtain ⟨q, hq, hbody'⟩ := selectInst_no_rva (c := P.toConfig) hA k aqrl' rd rs1
  rw [SameStep, isaExecOnceOn_decodes hf, isaExecOnceOn_decodes hf, decodeExec_illegal hp hbody,
    decodeExec_illegal hq hbody']
  exact .some (SameButWord.of_illegal _ _).resetFixed.trapTail

/-- With a bit set `lr.w` is illegal and reserves nothing. -/
theorem not_sameStep_lrW (hA : P.rva = true) (haqrl : aqrl ≠ 0) (hd : Decodes P st) :
    ¬SameStep P (Atomic.lrW.word 0 rd rs1) (Atomic.lrW.word aqrl rd rs1) st := by
  obtain ⟨f, hf⟩ := hd
  obtain ⟨p, hp, hbody, htype⟩ := selectInst_atomic (c := P.toConfig) hA .lrW (fun _ => rfl) rd rs1
  obtain ⟨q, hq, hbody'⟩ := selectInst_lrW (c := P.toConfig) haqrl rd rs1
  rw [SameStep, isaExecOnceOn_decodes hf, isaExecOnceOn_decodes hf, decodeExec_setInst hp hbody,
    decodeExec_illegal hq hbody']
  intro hrel
  match hexec : execBody P Atomic.lrW.body
      (decodeOperand (Atomic.lrW.word 0 rd rs1) p.type f.gpr) (bodyStart f) with
  | none =>
    rw [hexec] at hrel
    cases hrel
  | some g =>
    rw [hexec] at hrel
    cases hrel with
    | some hsame =>
    have hg : g.amw = insertNode (bodyStart f).amw _ true := execLr_amw hexec
    have hamw := hsame.amw_eq
    rw [trapTail_amw, trapTail_amw] at hamw
    have hlen : (bodyStart f).amw.length = g.amw.length := congrArg List.length hamw
    rw [hg, insertNode, List.length_append] at hlen
    exact absurd hlen (by simp)

/-- A line of its own takes the word. -/
def Legal (c : Config) (w : Word) : Prop := ∃ p, selectInst c w = some p ∧ p.body ≠ .inv

theorem not_legal_of_inv {c : Config} (h : ∃ p, selectInst c w = some p ∧ p.body = .inv) :
    ¬Legal c w := by
  rintro ⟨q, hq, hne⟩
  obtain ⟨p, hp, hinv⟩ := h
  obtain rfl := Option.some.inj (hp.symm.trans hq)
  exact hne hinv

theorem legal_atomic {c : Config} (hc : c.rva = true) (h : k = .lrW → aqrl = 0) :
    Legal c (k.word aqrl rd rs1) := by
  obtain ⟨p, hp, hbody, -⟩ := selectInst_atomic hc k h rd rs1
  refine ⟨p, hp, ?_⟩
  rw [hbody]
  cases k <;> exact fun hno => nomatch hno

/-- The four settings of the ordering bits make the same step in every state, and none of them is
illegal, for every instruction but `lr.w`; for `lr.w` they differ in every state that decodes. -/
theorem ordering_iff (st : State D) :
    ((∀ aqrl aqrl', SameStep P (k.word aqrl rd rs1) (k.word aqrl' rd rs1) st) ↔
      ¬(P.rva = true ∧ k = .lrW ∧ Decodes P st)) ∧
    ((∀ aqrl, Legal P.toConfig (k.word aqrl rd rs1)) ↔ P.rva = true ∧ k ≠ .lrW) := by
  refine ⟨⟨?_, fun h aqrl aqrl' => ?_⟩, ?_, ?_⟩
  · rintro h ⟨hA, rfl, hd⟩
    exact not_sameStep_lrW rd rs1 1 hA (by decide) hd (h 0 1)
  · by_cases hA : P.rva = true
    · by_cases hk : k = .lrW
      · exact sameStep_of_not_decodes fun hd => h ⟨hA, hk, hd⟩
      · exact sameStep_of_legal k rd rs1 aqrl aqrl' hA (fun h => absurd h hk) st
    · exact sameStep_of_no_rva k rd rs1 aqrl aqrl' (Bool.eq_false_iff.mpr hA) st
  · intro h
    by_cases hA : P.rva = true
    · refine ⟨hA, ?_⟩
      rintro rfl
      exact not_legal_of_inv (selectInst_lrW (by decide) rd rs1) (h 1)
    · exact absurd (h 0) (not_legal_of_inv (selectInst_no_rva (Bool.eq_false_iff.mpr hA) k 0 rd rs1))
  · rintro ⟨hA, hk⟩ aqrl
    exact legal_atomic k rd rs1 aqrl hA fun h => absurd h hk

end

def loadReserved (aqrl : BitVec 2) : State Unit :=
  (booted clintBoard [Atomic.lrW.word aqrl 1 2]).enter.setR 2 pmemDtb

/-- `lr.w` reserves its word; `lr.w.aq` is an illegal instruction. -/
theorem ordering_refuted :
    (isaExecOnce clintBoard (loadReserved 0b00)).map (·.amw) = some [⟨pmemDtb, true⟩] ∧
    (isaExecOnce clintBoard (loadReserved 0b10)).map (fun st => (csr clintBoard st csrMcause, st.amw)) =
      some (riscvExcpIllegalInst, []) ∧
    ¬SameStep clintBoard (Atomic.lrW.word 0b00 1 2) (Atomic.lrW.word 0b10 1 2) (loadReserved 0b00) := by
  refine ⟨by decide +kernel, by decide +kernel, ?_⟩
  have hd : Decodes clintBoard (loadReserved 0b00) := by
    have hnot : (fetchAndCheck clintBoard (loadReserved 0b00)).map (·.1) = some false := by
      decide +kernel
    obtain ⟨⟨taken, f⟩, hf, htaken⟩ := Option.map_eq_some_iff.mp hnot
    obtain rfl : taken = false := htaken
    exact ⟨f, hf⟩
  exact not_sameStep_lrW 1 2 0b10 rfl (by decide) hd

end GsEmu.Riscv32
