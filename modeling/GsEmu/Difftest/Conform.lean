import GsEmu.Difftest.Effect

/-! The reference on the shared instructions, opcode by opcode. -/

namespace GsEmu.Difftest
open Bytes Riscv32 MiniRv32ima

variable {c : Config} {h : Host} {ir pc cycle : Word} {s : MiniRV32IMAState} {image : Memory}
  {n : Nat} {f3 f7 f5 : Word}

theorem next_sub_four (pc : Word) : pc + 4 - 4 = pc := BitVec.add_sub_cancel pc 4

section
variable (hc : c.rva = true)
include hc

theorem conforms_row (k : Fin rows.length) (hit : (rows.get k).hits ir = true) {e : Effect}
    (he : effect (rows.get k).body (decodeOperand ir (rows.get k).type s.regs) pc image = some e)
    (hfits : Fits n (decodeOperand ir (rows.get k).type s.regs) pc (rows.get k).body)
    (hexec : execOpcode h cycle ir pc s image = .next e.rd e.val (e.next - 4) s e.ram) :
    Conforms c h n ir pc cycle s image :=
  ⟨rows.get k, e, selectInst_row hc (List.get_mem _ _) hit, he, hfits, hexec⟩

theorem conforms_write (k : Fin rows.length) {f : Word → Operands → Word} {type : OperandType}
    {v : Word} (hbody : (rows.get k).body = .write f) (htype : (rows.get k).type = type)
    (hit : (rows.get k).hits ir = true)
    (hexec : execOpcode h cycle ir pc s image = .next (regId ir 7) v pc s image)
    (hv : f pc (decodeOperand ir type s.regs) = v) : Conforms c h n ir pc cycle s image := by
  subst htype
  have he : effect (rows.get k).body (decodeOperand ir (rows.get k).type s.regs) pc image =
      some ⟨regId ir 7, v, pc + 4, image⟩ := by
    rw [hbody, ← hv, ← regField_rd, ← decodeOperand_rd ir (rows.get k).type s.regs]
    rfl
  refine conforms_row hc k hit he ?_ ?_
  · rw [hbody]
    trivial
  · rw [hexec, next_sub_four]

/-! ## `lui`, `auipc` and jumps -/

theorem conforms_lui (hop : ir &&& 0x7f = 0x37) : Conforms c h n ir pc cycle s image := by
  refine conforms_write hc ⟨0, by decide⟩ (v := ir &&& 0xfffff000) rfl rfl
    (hits_of_and (m := 0x7f) rfl hop) ?_ (immU_eq ir)
  unfold execOpcode
  rw [hop]
  rfl

theorem conforms_auipc (hop : ir &&& 0x7f = 0x17) : Conforms c h n ir pc cycle s image := by
  refine conforms_write hc ⟨1, by decide⟩ (v := pc + (ir &&& 0xfffff000)) rfl rfl
    (hits_of_and (m := 0x7f) rfl hop) ?_ (congrArg (pc + ·) (immU_eq ir))
  unfold execOpcode
  rw [hop]
  rfl

theorem conforms_jal (hop : ir &&& 0x7f = 0x6f) (ht : instAligned (pc + immJ ir)) :
    Conforms c h n ir pc cycle s image := by
  refine conforms_row hc ⟨2, by decide⟩ (hits_of_and (m := 0x7f) rfl hop) rfl ht ?_
  change execOpcode h cycle ir pc s image =
    .next (regField ir 11 7) (pc + 4) (pc + immJ ir - 4) s image
  unfold execOpcode
  rw [hop, regField_rd, immJ_eq]
  rfl

theorem conforms_jalr (hop : ir &&& 0x7f = 0x67) (h3 : funct3 ir = 0)
    (ht : instAligned ((s.regs (rs1 ir) + immI ir) &&& ~~~1)) :
    Conforms c h n ir pc cycle s image := by
  have hit := and_mask3 hop h3
  refine conforms_row hc ⟨3, by decide⟩ (hits_of_and (k := 0x67) (m := 0x707f) rfl hit) rfl ht ?_
  change execOpcode h cycle ir pc s image =
    .next (regField ir 11 7) (pc + 4) (((s.regs (regField ir 19 15) + immI ir) &&& ~~~1) - 4) s image
  unfold execOpcode
  rw [hop, regField_rd, regField_rs1, immI_eq]
  rfl

/-! ## Branches -/

theorem conforms_branch (k : Fin rows.length) {cond : Word → Word → Bool}
    (hbody : (rows.get k).body = .branch cond) (htype : (rows.get k).type = .B)
    (hcode : (rows.get k).code =
      ⟨((0x63 : Word) ||| (f3 <<< 12)).setWidth 64, (0x707f : Word).setWidth 64, 0⟩)
    (hop : ir &&& 0x7f = 0x63) (h3 : funct3 ir = f3)
    (hcond : ∀ a b, branchTaken f3 a b = some (cond a b))
    (ht : ∀ a ∈ jumpTarget ir pc s.regs, instAligned a) :
    Conforms c h n ir pc cycle s image := by
  have ho : decodeOperand ir (rows.get k).type s.regs =
      ⟨regField ir 11 7, s.regs (rs1 ir), s.regs (rs2 ir), immB ir⟩ := by
    rw [htype]
    rfl
  have htaken : branchTaken (funct3 ir) (s.regs (regId ir 15)) (s.regs (regId ir 20)) =
      some (cond (s.regs (rs1 ir)) (s.regs (rs2 ir))) := by
    rw [h3, hcond, rs1, rs2, regField_rs1, regField_rs2]
  have hfits : cond (s.regs (rs1 ir)) (s.regs (rs2 ir)) = true → instAligned (pc + immB ir) := by
    intro hyes
    apply ht
    unfold jumpTarget
    rw [hop, h3, hcond, hyes]
    rfl
  refine conforms_row hc k (hits_of_and hcode (and_mask3 hop h3)) (by rw [hbody]; rfl) ?_ ?_
  · rw [hbody, ho]
    change _ → instAligned (pc + (sext ((immB ir).setWidth 64) 13).setWidth 32)
    rw [sext_immB, ← immB_eq]
    exact hfits
  · rw [ho]
    change execOpcode h cycle ir pc s image = .next 0 0
      ((if cond (s.regs (rs1 ir)) (s.regs (rs2 ir)) then
        pc + (sext ((immB ir).setWidth 64) 13).setWidth 32 else pc + 4) - 4) s image
    unfold execOpcode
    rw [hop, sext_immB]
    change MiniRv32ima.execBranch ir pc s image = _
    unfold MiniRv32ima.execBranch
    rw [htaken]
    cases cond (s.regs (rs1 ir)) (s.regs (rs2 ir)) with
    | true => rfl
    | false => exact congrArg (Outcome.next 0 0 · s image) (next_sub_four pc).symm

/-! ## Op and op-immediate -/

omit hc in
theorem and_of_opcode {op : Word} (m : Word) (hm : (0x7f : Word) &&& m = m)
    (hop : ir &&& 0x7f = op) : ir &&& m = op &&& m := by
  rw [← hop, BitVec.and_assoc, hm]

omit hc in
theorem and_of_funct7 (m : Word) (h7 : funct7 ir = f7) : ir &&& (m <<< 25) = (f7 &&& m) <<< 25 := by
  rw [and_shiftLeft, ← h7, funct7]

omit hc in
theorem opValue_op (hop : ir &&& 0x7f = 0x33) (h7 : funct7 ir = f7) :
    opValue ir s = opResult (funct3 ir) true ((f7 &&& 1) <<< 25 ≠ 0) ((f7 &&& 0x20) <<< 25 ≠ 0)
      (s.regs (regId ir 15)) (s.regs (regId ir 20)) := by
  have hreg : ir &&& 0x20 = 0x20 := and_of_opcode 0x20 (by decide) hop
  have hm : ir &&& (0x02000000 : Word) = (f7 &&& 1) <<< 25 := and_of_funct7 1 h7
  have halt : ir &&& (0x40000000 : Word) = (f7 &&& 0x20) <<< 25 := and_of_funct7 0x20 h7
  unfold opValue
  rw [hreg, hm, halt, ← regId_immSe]
  rfl

omit hc in
theorem opValue_imm (hop : ir &&& 0x7f = 0x13) (h7 : funct7 ir = f7) :
    opValue ir s = alu (funct3 ir) false ((f7 &&& 0x20) <<< 25 ≠ 0) (s.regs (regId ir 15))
      (immSe ir) := by
  have hreg : ir &&& 0x20 = 0 := and_of_opcode 0x20 (by decide) hop
  have halt : ir &&& (0x40000000 : Word) = (f7 &&& 0x20) <<< 25 := and_of_funct7 0x20 h7
  unfold opValue
  rw [hreg, halt]
  rfl

theorem conforms_op (k : Fin rows.length) {f : Word → Operands → Word}
    (hbody : (rows.get k).body = .write f) (htype : (rows.get k).type = .R)
    (hcode : (rows.get k).code = ⟨((0x33 : Word) ||| (f3 <<< 12) ||| (f7 <<< 25)).setWidth 64,
      (0xfe00707f : Word).setWidth 64, 0⟩)
    (hop : ir &&& 0x7f = 0x33) (h3 : funct3 ir = f3) (h7 : funct7 ir = f7)
    (hv : ∀ rd a b, f pc ⟨rd, a, b, 0⟩ =
      opResult f3 true ((f7 &&& 1) <<< 25 ≠ 0) ((f7 &&& 0x20) <<< 25 ≠ 0) a b) :
    Conforms c h n ir pc cycle s image := by
  have hmask : ir &&& (0xfe00707f : Word) = (0x33 : Word) ||| (f3 <<< 12) ||| (f7 <<< 25) := by
    have hall : f7 &&& 0x7f = f7 := by
      rw [← h7, funct7]
      apply BitVec.eq_of_getLsbD_eq
      intro i hi
      interval_cases i <;> simp
    rw [← hall]
    exact and_mask7 0x7f hop h3 h7
  refine conforms_write hc k hbody htype (hits_of_and hcode hmask) (v := opValue ir s) ?_ ?_
  · unfold execOpcode
    rw [hop]
    rfl
  · rw [opValue_op hop h7, h3, ← regField_rs1, ← regField_rs2]
    exact hv _ _ _

theorem conforms_opImm (k : Fin rows.length) {f : Word → Operands → Word}
    (hbody : (rows.get k).body = .write f) (htype : (rows.get k).type = .I)
    (hit : (rows.get k).hits ir = true) (hop : ir &&& 0x7f = 0x13) (h3 : funct3 ir = f3)
    (h7 : funct7 ir = f7)
    (hv : ∀ rd a, f pc ⟨rd, a, 0, immSe ir⟩ =
      alu f3 false ((f7 &&& 0x20) <<< 25 ≠ 0) a (immSe ir)) :
    Conforms c h n ir pc cycle s image := by
  refine conforms_write hc k hbody htype hit (v := opValue ir s) ?_ ?_
  · unfold execOpcode
    rw [hop]
    rfl
  · rw [opValue_imm hop h7, h3, ← regField_rs1, ← hv (regField ir 11 7), ← immI_eq]
    rfl

omit hc in
theorem div_eq (a b : Word) : div a b = muldiv 4 a b := by
  change (if a = 0x80000000 ∧ b = 0xffffffff then a else if b ≠ 0 then a.sdiv b else ~~~0) =
    if b = 0 then -1 else if a = 0x80000000 ∧ b = -1 then a else a.sdiv b
  have hm1 : (0xffffffff : Word) = -1 := by decide
  have hnot : (~~~0 : Word) = -1 := by decide
  rw [hm1, hnot]
  by_cases hb : b = 0
  · subst hb
    rw [if_neg fun h => absurd h.2 (by decide), if_neg (by simp), if_pos rfl]
  · rw [if_neg hb, if_pos hb]

omit hc in
theorem rem_eq (a b : Word) : rem a b = muldiv 6 a b := by
  change (if a = 0x80000000 ∧ b = 0xffffffff then 0 else if b ≠ 0 then a.srem b else a) =
    if b = 0 then a else if a = 0x80000000 ∧ b = -1 then 0 else a.srem b
  have hm1 : (0xffffffff : Word) = -1 := by decide
  rw [hm1]
  by_cases hb : b = 0
  · subst hb
    rw [if_neg fun h => absurd h.2 (by decide), if_neg (by simp), if_pos rfl]
  · rw [if_neg hb, if_pos hb]

omit hc in
theorem divu_eq (a b : Word) : divu a b = muldiv 5 a b := ite_not ..

omit hc in
theorem remu_eq (a b : Word) : remu a b = muldiv 7 a b := ite_not ..

omit hc in
theorem shamt_reg (x : Word) : (bits x 4 0).toNat = (x &&& 0x1f).toNat :=
  bits_shamt x le_rfl (by decide) fun j h5 h4 => by omega

theorem conforms_op_base (hop : ir &&& 0x7f = 0x33) (h7 : funct7 ir = 0) :
    Conforms c h n ir pc cycle s image := by
  have hmem := funct3_cases ir
  simp only [List.mem_cons, List.not_mem_nil, or_false] at hmem
  rcases hmem with h3 | h3 | h3 | h3 | h3 | h3 | h3 | h3
  · exact conforms_op hc ⟨27, by decide⟩ rfl rfl rfl hop h3 h7 fun _ _ _ => rfl
  · refine conforms_op hc ⟨29, by decide⟩ rfl rfl rfl hop h3 h7 fun _ a b => ?_
    exact congrArg (a <<< ·) (shamt_reg b)
  · exact conforms_op hc ⟨30, by decide⟩ rfl rfl rfl hop h3 h7 fun _ _ _ => rfl
  · exact conforms_op hc ⟨31, by decide⟩ rfl rfl rfl hop h3 h7 fun _ _ _ => rfl
  · exact conforms_op hc ⟨32, by decide⟩ rfl rfl rfl hop h3 h7 fun _ _ _ => rfl
  · refine conforms_op hc ⟨33, by decide⟩ rfl rfl rfl hop h3 h7 fun _ a b => ?_
    exact congrArg (a >>> ·) (shamt_reg b)
  · exact conforms_op hc ⟨35, by decide⟩ rfl rfl rfl hop h3 h7 fun _ _ _ => rfl
  · exact conforms_op hc ⟨36, by decide⟩ rfl rfl rfl hop h3 h7 fun _ _ _ => rfl

theorem conforms_op_alt (hop : ir &&& 0x7f = 0x33) (h3 : funct3 ir = 0 ∨ funct3 ir = 5)
    (h7 : funct7 ir = 0x20) : Conforms c h n ir pc cycle s image := by
  rcases h3 with h3 | h3
  · exact conforms_op hc ⟨28, by decide⟩ rfl rfl rfl hop h3 h7 fun _ _ _ => rfl
  · refine conforms_op hc ⟨34, by decide⟩ rfl rfl rfl hop h3 h7 fun _ a b => ?_
    exact congrArg a.sshiftRight (shamt_reg b)

theorem conforms_op_muldiv (hop : ir &&& 0x7f = 0x33) (h7 : funct7 ir = 1) :
    Conforms c h n ir pc cycle s image := by
  have hmem := funct3_cases ir
  simp only [List.mem_cons, List.not_mem_nil, or_false] at hmem
  rcases hmem with h3 | h3 | h3 | h3 | h3 | h3 | h3 | h3
  · exact conforms_op hc ⟨39, by decide⟩ rfl rfl rfl hop h3 h7 fun _ _ _ => rfl
  · exact conforms_op hc ⟨40, by decide⟩ rfl rfl rfl hop h3 h7 fun _ _ _ => rfl
  · exact conforms_op hc ⟨41, by decide⟩ rfl rfl rfl hop h3 h7 fun _ _ _ => rfl
  · exact conforms_op hc ⟨42, by decide⟩ rfl rfl rfl hop h3 h7 fun _ _ _ => rfl
  · exact conforms_op hc ⟨43, by decide⟩ rfl rfl rfl hop h3 h7 fun _ => div_eq
  · exact conforms_op hc ⟨44, by decide⟩ rfl rfl rfl hop h3 h7 fun _ => divu_eq
  · exact conforms_op hc ⟨45, by decide⟩ rfl rfl rfl hop h3 h7 fun _ => rem_eq
  · exact conforms_op hc ⟨46, by decide⟩ rfl rfl rfl hop h3 h7 fun _ => remu_eq

omit hc in
theorem immSe_shamt (h7 : funct7 ir = f7) (hf7 : f7 &&& 3 = 0) (j : Nat) (h5 : 5 ≤ j) (h6 : j ≤ 6) :
    (immSe ir).getLsbD j = false := by
  have hbit : (immSe ir).getLsbD j = (funct7 ir).getLsbD (j - 5) := by
    rw [← immI_eq, getLsbD_immI ir (by omega), if_pos (by omega), funct7]
    interval_cases j <;> simp
  have hlow : (f7 &&& 3).getLsbD (j - 5) = false := by
    rw [hf7]
    exact BitVec.getLsbD_zero
  rw [hbit, h7]
  rw [BitVec.getLsbD_and] at hlow
  interval_cases j
  · simpa using hlow
  · simpa using hlow

omit hc in
theorem shamt_imm (h7 : funct7 ir = f7) (hf7 : f7 &&& 3 = 0) {hi : Nat} (h4 : 4 ≤ hi)
    (h6 : hi ≤ 6) : (bits (immSe ir) hi 0).toNat = (immSe ir &&& 0x1f).toNat :=
  bits_shamt _ h4 h6 fun j h5 hj => immSe_shamt h7 hf7 j h5 (hj.trans h6)

theorem conforms_slli (hop : ir &&& 0x7f = 0x13) (h3 : funct3 ir = 1) (h7 : funct7 ir = 0) :
    Conforms c h n ir pc cycle s image := by
  have hit : ir &&& (0xfc00707f : Word) = 0x1013 := and_mask7 0x7e hop h3 h7
  have hlegal : immSe ir &&& 0x20 = 0 := by
    by_contra hne
    have hbit := (and_twoPow_ne_zero (immSe ir) 5).mp hne
    rw [immSe_shamt h7 (by decide) 5 le_rfl (by decide)] at hbit
    exact absurd hbit (by decide)
  refine conforms_row hc ⟨24, by decide⟩ (hits_of_and (k := 0x1013) (m := 0xfc00707f) rfl hit) rfl
    ?_ ?_
  · change immI ir &&& 0x20 = 0
    rw [immI_eq, hlegal]
  · change execOpcode h cycle ir pc s image = .next (regField ir 11 7)
      (s.regs (regField ir 19 15) <<< (bits (immI ir) 6 0).toNat) (pc + 4 - 4) s image
    unfold execOpcode
    rw [hop, opValue_imm hop h7, h3, immI_eq, shamt_imm h7 (by decide) (by decide) le_rfl,
      regField_rd, regField_rs1, next_sub_four]
    rfl

theorem conforms_shiftRight (hop : ir &&& 0x7f = 0x13) (h3 : funct3 ir = 5)
    (h7 : funct7 ir = 0 ∨ funct7 ir = 0x20) : Conforms c h n ir pc cycle s image := by
  rcases h7 with h7 | h7
  · have hit : ir &&& (0xfe00707f : Word) = 0x5013 := and_mask7 0x7f hop h3 h7
    refine conforms_opImm hc ⟨25, by decide⟩ rfl rfl
      (hits_of_and (k := 0x5013) (m := 0xfe00707f) rfl hit) hop h3 h7 fun _ a => ?_
    exact congrArg (a >>> ·) (shamt_imm h7 (by decide) (by decide) (by decide))
  · have hit : ir &&& (0xfe00707f : Word) = 0x40005013 := and_mask7 0x7f hop h3 h7
    refine conforms_opImm hc ⟨26, by decide⟩ rfl rfl
      (hits_of_and (k := 0x40005013) (m := 0xfe00707f) rfl hit) hop h3 h7 fun _ a => ?_
    exact congrArg a.sshiftRight (shamt_imm h7 (by decide) (by decide) (by decide))

theorem conforms_imm (hop : ir &&& 0x7f = 0x13) (h1 : funct3 ir = 1 → funct7 ir = 0)
    (h5 : funct3 ir = 5 → funct7 ir = 0 ∨ funct7 ir = 0x20) :
    Conforms c h n ir pc cycle s image := by
  have hmem := funct3_cases ir
  simp only [List.mem_cons, List.not_mem_nil, or_false] at hmem
  rcases hmem with h3 | h3 | h3 | h3 | h3 | h3 | h3 | h3
  · exact conforms_opImm hc ⟨18, by decide⟩ rfl rfl
      (hits_of_and (k := 0x13) (m := 0x707f) rfl (and_mask3 hop h3)) hop h3 rfl fun _ _ => rfl
  · exact conforms_slli hc hop h3 (h1 h3)
  · exact conforms_opImm hc ⟨19, by decide⟩ rfl rfl
      (hits_of_and (k := 0x2013) (m := 0x707f) rfl (and_mask3 hop h3)) hop h3 rfl fun _ _ => rfl
  · exact conforms_opImm hc ⟨20, by decide⟩ rfl rfl
      (hits_of_and (k := 0x3013) (m := 0x707f) rfl (and_mask3 hop h3)) hop h3 rfl fun _ _ => rfl
  · exact conforms_opImm hc ⟨21, by decide⟩ rfl rfl
      (hits_of_and (k := 0x4013) (m := 0x707f) rfl (and_mask3 hop h3)) hop h3 rfl fun _ _ => rfl
  · exact conforms_shiftRight hc hop h3 (h5 h3)
  · exact conforms_opImm hc ⟨22, by decide⟩ rfl rfl
      (hits_of_and (k := 0x6013) (m := 0x707f) rfl (and_mask3 hop h3)) hop h3 rfl fun _ _ => rfl
  · exact conforms_opImm hc ⟨23, by decide⟩ rfl rfl
      (hits_of_and (k := 0x7013) (m := 0x707f) rfl (and_mask3 hop h3)) hop h3 rfl fun _ _ => rfl

/-! ## Memory -/

omit hc in
theorem not_ramAmt_le {a : Word} (hn : n ≤ h.ramAmt.toNat) (ha : guestToHost a + 4 ≤ n) :
    ¬h.ramAmt - 3 ≤ a - ramImageOffset := by
  have hoff : (a - ramImageOffset).toNat = guestToHost a := rfl
  rw [BitVec.le_def, hoff]
  have hsub : (h.ramAmt - 3).toNat = h.ramAmt.toNat - 3 := by
    rw [BitVec.toNat_sub_of_le]
    · rfl
    · rw [BitVec.le_def]
      have h3 : (3 : Word).toNat = 3 := rfl
      omega
  omega

theorem conforms_load (k : Fin rows.length) {len : Nat} {ext : Word → Word}
    (hbody : (rows.get k).body = .load len ext) (htype : (rows.get k).type = .I)
    (hcode : (rows.get k).code =
      ⟨((0x03 : Word) ||| (f3 <<< 12)).setWidth 64, (0x707f : Word).setWidth 64, 0⟩)
    (hop : ir &&& 0x7f = 0x03) (h3 : funct3 ir = f3) (hlen : len ∈ [1, 2, 4])
    (hv : ∀ a, loadValue image a f3 = some (ext (readLE image a.toNat len)))
    (hn : n ≤ h.ramAmt.toNat) (ha : guestToHost (s.regs (rs1 ir) + immI ir) + 4 ≤ n) :
    Conforms c h n ir pc cycle s image := by
  have ho : decodeOperand ir (rows.get k).type s.regs =
      ⟨regField ir 11 7, s.regs (rs1 ir), 0, immI ir⟩ := by
    rw [htype]
    rfl
  have haddr : s.regs (regId ir 15) + immSe ir = s.regs (rs1 ir) + immI ir := by
    rw [rs1, regField_rs1, immI_eq]
  refine conforms_row hc k (hits_of_and hcode (and_mask3 hop h3)) (by rw [hbody]; rfl) ?_ ?_
  · rw [hbody, ho]
    exact ⟨hlen, ha⟩
  · rw [ho]
    unfold execOpcode
    rw [hop]
    change MiniRv32ima.execLoad h cycle ir pc s image = .next (regField ir 11 7)
      (ext (readLE image (guestToHost (s.regs (rs1 ir) + immI ir)) len)) (pc + 4 - 4) s image
    unfold MiniRv32ima.execLoad
    dsimp only
    rw [haddr, if_neg (not_ramAmt_le hn ha), h3, hv, regField_rd, next_sub_four]
    rfl

theorem conforms_store (k : Fin rows.length) {len : Nat}
    (hbody : (rows.get k).body = .store len) (htype : (rows.get k).type = .S)
    (hcode : (rows.get k).code =
      ⟨((0x23 : Word) ||| (f3 <<< 12)).setWidth 64, (0x707f : Word).setWidth 64, 0⟩)
    (hop : ir &&& 0x7f = 0x23) (h3 : funct3 ir = f3) (hlen : len ∈ [1, 2, 4])
    (hv : storeLen f3 = some len) (hn : n ≤ h.ramAmt.toNat)
    (ha : guestToHost (s.regs (rs1 ir) + immS ir) + 4 ≤ n) :
    Conforms c h n ir pc cycle s image := by
  have ho : decodeOperand ir (rows.get k).type s.regs =
      ⟨regField ir 11 7, s.regs (rs1 ir), s.regs (rs2 ir), immS ir⟩ := by
    rw [htype]
    rfl
  have haddr : storeImm ir + s.regs (regId ir 15) = s.regs (rs1 ir) + immS ir := by
    rw [rs1, regField_rs1, immS_eq, BitVec.add_comm]
  have he : effect (rows.get k).body (decodeOperand ir (rows.get k).type s.regs) pc image =
      some ⟨0, 0, pc + 4,
        writeLE image (guestToHost (s.regs (rs1 ir) + immS ir)) len (s.regs (rs2 ir))⟩ := by
    rw [hbody, ho, effect]
  refine conforms_row hc k (hits_of_and hcode (and_mask3 hop h3)) he ?_ ?_
  · rw [hbody, ho]
    exact ⟨hlen, ha⟩
  · have hexec : execOpcode h cycle ir pc s image = execStore h ir pc s image := by
      unfold execOpcode
      rw [hop]
      rfl
    rw [hexec, execStore, haddr, if_neg (not_ramAmt_le hn ha), h3, hv, rs2, regField_rs2,
      next_sub_four]
    rfl

theorem conforms_amo (k : Fin rows.length) {op : Word → Word → Word}
    (hbody : (rows.get k).body = .amo op) (htype : (rows.get k).type = .R)
    (hcode : (rows.get k).code = ⟨((0x2f : Word) ||| ((2 : Word) <<< 12) ||| (f5 <<< 27)).setWidth 64,
      (0xf800707f : Word).setWidth 64, 0⟩)
    (hop : ir &&& 0x7f = 0x2f) (h3 : funct3 ir = 2) (h5 : funct5 ir = f5)
    (hlr : f5 ≠ 2) (hsc : f5 ≠ 3) (hv : ∀ t b, amoValue f5 b t = some (op t b))
    (hn : n ≤ h.ramAmt.toNat) (ha : guestToHost (s.regs (rs1 ir)) + 4 ≤ n) :
    Conforms c h n ir pc cycle s image := by
  have ho : decodeOperand ir (rows.get k).type s.regs =
      ⟨regField ir 11 7, s.regs (rs1 ir), s.regs (rs2 ir), 0⟩ := by
    rw [htype]
    rfl
  have hirmid : (ir >>> 27) &&& 0x1f = f5 := h5
  have he : effect (rows.get k).body (decodeOperand ir (rows.get k).type s.regs) pc image =
      some ⟨regField ir 11 7, readLE image (guestToHost (s.regs (rs1 ir))) 4, pc + 4,
        writeLE image (guestToHost (s.regs (rs1 ir))) 4
          (op (readLE image (guestToHost (s.regs (rs1 ir))) 4) (s.regs (rs2 ir)))⟩ := by
    rw [hbody, ho, effect]
  refine conforms_row hc k (hits_of_and hcode (and_mask5 hop h3 h5)) he ?_ ?_
  · rw [hbody, ho]
    exact ha
  · have hexec : execOpcode h cycle ir pc s image = execAtomic h ir pc s image := by
      unfold execOpcode
      rw [hop]
      rfl
    rw [hexec, execAtomic, ← regField_rs1, ← regField_rs2, hirmid, if_neg hlr, if_neg hsc, ← rs1,
      ← rs2, if_neg (not_ramAmt_le hn ha), hv, regField_rd, next_sub_four]
    rfl

omit hc in
theorem sextLoad_eq (v : Word) {len : Nat} (h0 : 0 < len) (hlen : len ≤ 32) :
    sextLoad len v = (v.setWidth len).signExtend 32 := by
  apply BitVec.eq_of_getLsbD_eq
  intro i hi
  rw [sextLoad, getLsbD_sext _ h0 hi, BitVec.getLsbD_signExtend, BitVec.msb_eq_getLsbD_last]
  simp only [BitVec.getLsbD_setWidth]
  split <;> simp [show i < 64 by omega, show len - 1 < 64 by omega, *]

omit hc in
theorem ite_slt_swap (x y : Word) {u v : Word} (htie : x = y → u = v) :
    (if x.slt y then u else v) = if y.slt x then v else u := by
  simp only [BitVec.slt_iff_toInt_lt]
  by_cases heq : x.toInt = y.toInt
  · rw [htie (BitVec.eq_of_toInt_eq heq), ite_self, ite_self]
  · by_cases hlt : x.toInt < y.toInt
    · rw [if_pos hlt, if_neg (by omega)]
    · rw [if_neg hlt, if_pos (by omega)]

omit hc in
theorem ite_ult_swap (x y : Word) {u v : Word} (htie : x = y → u = v) :
    (if x.ult y then u else v) = if y.ult x then v else u := by
  simp only [BitVec.ult_iff_toNat_lt]
  by_cases heq : x.toNat = y.toNat
  · rw [htie (BitVec.eq_of_toNat_eq heq), ite_self, ite_self]
  · by_cases hlt : x.toNat < y.toNat
    · rw [if_pos hlt, if_neg (by omega)]
    · rw [if_neg hlt, if_pos (by omega)]

/-! ## All of them -/

theorem conforms_branches (hop : ir &&& 0x7f = 0x63) (h3 : funct3 ir ∈ [0, 1, 4, 5, 6, 7])
    (ht : ∀ a ∈ jumpTarget ir pc s.regs, instAligned a) : Conforms c h n ir pc cycle s image := by
  simp only [List.mem_cons, List.not_mem_nil, or_false] at h3
  rcases h3 with h3 | h3 | h3 | h3 | h3 | h3
  · exact conforms_branch hc ⟨4, by decide⟩ rfl rfl rfl hop h3 (fun _ _ => rfl) ht
  · exact conforms_branch hc ⟨5, by decide⟩ rfl rfl rfl hop h3 (fun _ _ => rfl) ht
  · exact conforms_branch hc ⟨6, by decide⟩ rfl rfl rfl hop h3 (fun _ _ => rfl) ht
  · exact conforms_branch hc ⟨7, by decide⟩ rfl rfl rfl hop h3 (fun _ _ => rfl) ht
  · exact conforms_branch hc ⟨8, by decide⟩ rfl rfl rfl hop h3 (fun _ _ => rfl) ht
  · exact conforms_branch hc ⟨9, by decide⟩ rfl rfl rfl hop h3 (fun _ _ => rfl) ht

theorem conforms_loads (hop : ir &&& 0x7f = 0x03) (h3 : funct3 ir ∈ [0, 1, 2, 4, 5])
    (hn : n ≤ h.ramAmt.toNat) (ha : guestToHost (s.regs (rs1 ir) + immI ir) + 4 ≤ n) :
    Conforms c h n ir pc cycle s image := by
  have hbyte : ∀ v, some ((v.setWidth 8).signExtend 32) = some (sextLoad (1 * 8) v) := fun v =>
    congrArg some (sextLoad_eq v (by decide) (by decide)).symm
  have hhalf : ∀ v, some ((v.setWidth 16).signExtend 32) = some (sextLoad (2 * 8) v) := fun v =>
    congrArg some (sextLoad_eq v (by decide) (by decide)).symm
  have hword : ∀ v, some v = some (sextLoad (4 * 8) v) := by
    intro v
    rw [sextLoad_eq v (by decide) (by decide)]
    simp
  simp only [List.mem_cons, List.not_mem_nil, or_false] at h3
  rcases h3 with h3 | h3 | h3 | h3 | h3
  · exact conforms_load hc ⟨10, by decide⟩ rfl rfl rfl hop h3 (by decide) (fun _ => hbyte _) hn ha
  · exact conforms_load hc ⟨11, by decide⟩ rfl rfl rfl hop h3 (by decide) (fun _ => hhalf _) hn ha
  · exact conforms_load hc ⟨12, by decide⟩ rfl rfl rfl hop h3 (by decide) (fun _ => hword _) hn ha
  · exact conforms_load hc ⟨13, by decide⟩ rfl rfl rfl hop h3 (by decide) (fun _ => rfl) hn ha
  · exact conforms_load hc ⟨14, by decide⟩ rfl rfl rfl hop h3 (by decide) (fun _ => rfl) hn ha

theorem conforms_stores (hop : ir &&& 0x7f = 0x23) (h3 : funct3 ir ∈ [0, 1, 2])
    (hn : n ≤ h.ramAmt.toNat) (ha : guestToHost (s.regs (rs1 ir) + immS ir) + 4 ≤ n) :
    Conforms c h n ir pc cycle s image := by
  simp only [List.mem_cons, List.not_mem_nil, or_false] at h3
  rcases h3 with h3 | h3 | h3
  · exact conforms_store hc ⟨15, by decide⟩ rfl rfl rfl hop h3 (by decide) rfl hn ha
  · exact conforms_store hc ⟨16, by decide⟩ rfl rfl rfl hop h3 (by decide) rfl hn ha
  · exact conforms_store hc ⟨17, by decide⟩ rfl rfl rfl hop h3 (by decide) rfl hn ha

theorem conforms_amos (hop : ir &&& 0x7f = 0x2f) (h3 : funct3 ir = 2)
    (h5 : funct5 ir ∈ [1, 0, 4, 12, 8, 16, 20, 24, 28])
    (hn : n ≤ h.ramAmt.toNat) (ha : guestToHost (s.regs (rs1 ir)) + 4 ≤ n) :
    Conforms c h n ir pc cycle s image := by
  simp only [List.mem_cons, List.not_mem_nil, or_false] at h5
  rcases h5 with h5 | h5 | h5 | h5 | h5 | h5 | h5 | h5 | h5
  · exact conforms_amo hc ⟨49, by decide⟩ rfl rfl rfl hop h3 h5 (by decide) (by decide)
      (fun _ _ => rfl) hn ha
  · exact conforms_amo hc ⟨50, by decide⟩ rfl rfl rfl hop h3 h5 (by decide) (by decide)
      (fun t b => congrArg some (BitVec.add_comm b t)) hn ha
  · exact conforms_amo hc ⟨51, by decide⟩ rfl rfl rfl hop h3 h5 (by decide) (by decide)
      (fun t b => congrArg some (BitVec.xor_comm b t)) hn ha
  · exact conforms_amo hc ⟨52, by decide⟩ rfl rfl rfl hop h3 h5 (by decide) (by decide)
      (fun t b => congrArg some (BitVec.and_comm b t)) hn ha
  · exact conforms_amo hc ⟨53, by decide⟩ rfl rfl rfl hop h3 h5 (by decide) (by decide)
      (fun t b => congrArg some (BitVec.or_comm b t)) hn ha
  · exact conforms_amo hc ⟨54, by decide⟩ rfl rfl rfl hop h3 h5 (by decide) (by decide)
      (fun t b => congrArg some (ite_slt_swap b t id)) hn ha
  · exact conforms_amo hc ⟨55, by decide⟩ rfl rfl rfl hop h3 h5 (by decide) (by decide)
      (fun t b => congrArg some (ite_slt_swap t b Eq.symm)) hn ha
  · exact conforms_amo hc ⟨56, by decide⟩ rfl rfl rfl hop h3 h5 (by decide) (by decide)
      (fun t b => congrArg some (ite_ult_swap b t id)) hn ha
  · exact conforms_amo hc ⟨57, by decide⟩ rfl rfl rfl hop h3 h5 (by decide) (by decide)
      (fun t b => congrArg some (ite_ult_swap t b Eq.symm)) hn ha

theorem conforms_of_covered (hn : n ≤ h.ramAmt.toNat) (hcov : Covered n ir pc s.regs) :
    Conforms c h n ir pc cycle s image := by
  obtain ⟨hlegal, -, hdata, htarget⟩ := hcov
  have hjump := htarget
  unfold Legal at hlegal
  unfold dataAddr at hdata
  unfold jumpTarget at htarget
  split at hlegal
  case h_1 hop => exact conforms_lui hc hop
  case h_2 hop => exact conforms_auipc hc hop
  case h_3 hop =>
    rw [hop] at htarget
    exact conforms_jal hc hop (htarget _ rfl)
  case h_4 hop =>
    rw [hop] at htarget
    exact conforms_jalr hc hop hlegal (htarget _ rfl)
  case h_5 hop => exact conforms_branches hc hop hlegal hjump
  case h_6 hop =>
    rw [hop] at hdata
    exact conforms_loads hc hop hlegal hn (hdata _ rfl)
  case h_7 hop =>
    rw [hop] at hdata
    exact conforms_stores hc hop hlegal hn (hdata _ rfl)
  case h_8 hop => exact conforms_imm hc hop hlegal.1 hlegal.2
  case h_9 hop =>
    rcases hlegal with h7 | h7 | ⟨h7, h3⟩
    · exact conforms_op_base hc hop h7
    · exact conforms_op_muldiv hc hop h7
    · exact conforms_op_alt hc hop h3 h7
  case h_10 hop =>
    rw [hop] at hdata
    exact conforms_amos hc hop hlegal.1 hlegal.2 hn (hdata _ rfl)
  case h_11 => exact hlegal.elim

end

end GsEmu.Difftest
