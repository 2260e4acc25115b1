import GsEmu.Riscv32.Encoding
import GsEmu.Riscv32.Select
import GsEmu.Riscv32.Step

/-! RV32M against the integers: exact products and truncating division, and that the bodies only write
a register. -/

namespace GsEmu.Riscv32
open BitVec Signed

variable {D : Type}

/-! ## Values -/

def DivOverflow (a b : Word) : Prop := a = 0x80000000 ∧ b = 0xffffffff

instance (a b : Word) : Decidable (DivOverflow a b) := inferInstanceAs (Decidable (_ ∧ _))

def MulDiv.value : MulDiv → Word → Word → Word
  | .mul => Riscv32.mul
  | .mulh => Riscv32.mulh
  | .mulhsu => Riscv32.mulhsu
  | .mulhu => Riscv32.mulhu
  | .div => Riscv32.div
  | .divu => Riscv32.divu
  | .rem => Riscv32.rem
  | .remu => Riscv32.remu

/-- What the extension asks of the eight results on one pair of operands. -/
structure Exact (a b : Word) (v : MulDiv → Word) : Prop where
  mul : (v .mul).toNat = a.toInt * b.toInt % 2 ^ 32
  mulh : (v .mulh).toInt = a.toInt * b.toInt / 2 ^ 32
  mulhsu : (v .mulhsu).toInt = a.toInt * b.toNat / 2 ^ 32
  mulhu : (v .mulhu).toNat = a.toNat * b.toNat / 2 ^ 32
  signed : b ≠ 0 → ¬DivOverflow a b → TruncDiv a.toInt b.toInt (v .div).toInt (v .rem).toInt
  unsigned : b ≠ 0 → a.toNat = (v .divu).toNat * b.toNat + (v .remu).toNat ∧
    (v .remu).toNat < b.toNat
  zero : b = 0 → v .div = ~~~0 ∧ v .divu = ~~~0 ∧ v .rem = a ∧ v .remu = a
  overflow : DivOverflow a b → v .div = a ∧ v .rem = 0

theorem toInt_mulh (a b : Word) : (mulh a b).toInt = a.toInt * b.toInt / 2 ^ 32 := by
  have hp : (a.signExtend 64 * b.signExtend 64).toInt = a.toInt * b.toInt :=
    toInt_signExtend_mul (by decide) a b
  have hhigh := toInt_high (w := 32) (by decide) (a.signExtend 64 * b.signExtend 64)
  rw [hp] at hhigh
  exact (congrArg BitVec.toInt (setWidth_sshiftRight (w := 32) _)).trans hhigh

theorem toInt_mulhsu (a b : Word) : (mulhsu a b).toInt = a.toInt * b.toNat / 2 ^ 32 := by
  have hp : (a.signExtend 64 * b.setWidth 64).toInt = a.toInt * b.toNat :=
    toInt_signExtend_mul_setWidth (by decide) a b
  have hhigh := toInt_high (w := 32) (by decide) (a.signExtend 64 * b.setWidth 64)
  rwa [hp] at hhigh

theorem toNat_mulhu (a b : Word) : (mulhu a b).toNat = a.toNat * b.toNat / 2 ^ 32 := by
  have hp : (a.setWidth 64 * b.setWidth 64).toNat = a.toNat * b.toNat := toNat_setWidth_mul a b
  have hhigh := toNat_high (w := 32) (a.setWidth 64 * b.setWidth 64)
  rwa [hp] at hhigh

theorem div_of_ne {a b : Word} (hb : b ≠ 0) (h : ¬DivOverflow a b) :
    div a b = a.sdiv b ∧ rem a b = a.srem b := by
  exact ⟨(if_neg h).trans (if_pos hb), (if_neg h).trans (if_pos hb)⟩

theorem truncDiv_div {a b : Word} (hb : b ≠ 0) (h : ¬DivOverflow a b) :
    TruncDiv a.toInt b.toInt (div a b).toInt (rem a b).toInt := by
  obtain ⟨hdiv, hrem⟩ := div_of_ne hb h
  rw [hdiv, hrem]
  exact truncDiv_sdiv a hb (not_and_or.mp h)

theorem divu_mul_add_remu {a b : Word} (hb : b ≠ 0) :
    a.toNat = (divu a b).toNat * b.toNat + (remu a b).toNat ∧ (remu a b).toNat < b.toNat := by
  have hpos : 0 < b.toNat := Nat.pos_of_ne_zero fun h => hb (eq_of_toNat_eq h)
  have hdivu : divu a b = a.udiv b := if_pos hb
  have hremu : remu a b = a.umod b := if_pos hb
  rw [hdivu, hremu, udiv_eq, umod_eq, toNat_udiv, toNat_umod]
  exact ⟨(Nat.div_add_mod' a.toNat b.toNat).symm, Nat.mod_lt _ hpos⟩

theorem exact_value (a b : Word) : Exact a b fun op => op.value a b where
  mul := toNat_mul_ofInt a b
  mulh := toInt_mulh a b
  mulhsu := toInt_mulhsu a b
  mulhu := toNat_mulhu a b
  signed := truncDiv_div
  unsigned := divu_mul_add_remu
  zero := by
    rintro rfl
    have h : ¬(a = 0x80000000 ∧ (0 : Word) = 0xffffffff) := fun h => absurd h.2 (by decide)
    have h0 : ¬(0 : Word) ≠ 0 := fun h0 => h0 rfl
    have hdivu : divu a 0 = ~~~0 := if_neg (t := a.udiv 0) h0
    have hremu : remu a 0 = a := if_neg (t := a.umod 0) h0
    exact ⟨(if_neg h).trans (if_neg h0), hdivu, (if_neg h).trans (if_neg h0), hremu⟩
  overflow := fun h => ⟨if_pos h, if_pos h⟩

/-! ## The host's operators -/

/-- `/` and `%` on `int32_t`, where the host has a result. -/
def hostDefined (a b : Word) : Prop := b ≠ 0 ∧ ¬DivOverflow a b

instance (a b : Word) : Decidable (hostDefined a b) := inferInstanceAs (Decidable (_ ∧ _))

/-- The operators with nothing where C leaves the result open. -/
def definedOps : HostOps Option where
  mul64 a b := if a.smulOverflow b then none else some (a * b)
  sdiv a b := if hostDefined a b then some (a.sdiv b) else none
  srem a b := if hostDefined a b then some (a.srem b) else none
  udiv a b := if b = 0 then none else some (a.udiv b)
  umod a b := if b = 0 then none else some (a.umod b)

def MulDiv.onHost (op : MulDiv) (src1 src2 : Word) : Option Word := op.on definedOps src1 src2

theorem mul64_defined (a b : Word) : definedOps.mul64 (a.signExtend 64) (b.signExtend 64) =
    some (a.signExtend 64 * b.signExtend 64) := by
  refine if_neg ?_
  have hlo := le_toInt_mul_toInt (x := a) (y := b)
  have hhi := toInt_mul_toInt_le (x := a) (y := b)
  rw [smulOverflow, toInt_signExtend_of_le (by decide), toInt_signExtend_of_le (by decide)]
  simp only [Bool.or_eq_true, decide_eq_true_eq]
  omega

theorem divGuards {a b : Word} {special zero : Word} {op : Word → Word → Word} :
    (if a = 0x80000000 ∧ b = 0xffffffff then some special
      else if b ≠ 0 then if hostDefined a b then some (op a b) else none else some zero) =
    some (if a = 0x80000000 ∧ b = 0xffffffff then special else if b ≠ 0 then op a b else zero) := by
  by_cases hover : a = 0x80000000 ∧ b = 0xffffffff
  · rw [if_pos hover, if_pos hover]
  · by_cases hb : b = 0
    · rw [if_neg hover, if_neg hover, if_neg (not_not.mpr hb), if_neg (not_not.mpr hb)]
    · rw [if_neg hover, if_neg hover, if_pos hb, if_pos hb, if_pos ⟨hb, hover⟩]

theorem udivGuards {a b : Word} {zero : Word} {op : Word → Word → Word} :
    (if b ≠ 0 then if b = 0 then none else some (op a b) else some zero) = some (if b ≠ 0 then op a b else zero) := by
  by_cases hb : b = 0
  · rw [if_neg (not_not.mpr hb), if_neg (not_not.mpr hb)]
  · rw [if_pos hb, if_pos hb, if_neg hb]

/-- No operand reaches an operator that has no result for it. -/
theorem onHost_eq (op : MulDiv) (a b : Word) : op.onHost a b = some (op.value a b) := by
  cases op with
  | mul | mulhsu | mulhu => rfl
  | mulh =>
    change (definedOps.mul64 (a.signExtend 64) (b.signExtend 64)).bind _ = _
    rw [mul64_defined]
    rfl
  | div | rem => exact divGuards
  | divu | remu => exact udivGuards

/-! ## Execution -/

def MulDiv.funct3 : MulDiv → BitVec 3
  | .mul => 0
  | .mulh => 1
  | .mulhsu => 2
  | .mulhu => 3
  | .div => 4
  | .divu => 5
  | .rem => 6
  | .remu => 7

def MulDiv.word (op : MulDiv) (rd rs1 rs2 : Reg) : Word :=
  encodeR 0x01 ⟨rd, rs1, rs2, op.funct3, 0x33⟩

theorem selectInst_mulDiv (c : Config) (op : MulDiv) (rd rs1 rs2 : Reg) :
    ∃ p, selectInst c (op.word rd rs1 rs2) = some p ∧ p.type = .R ∧
      p.body = .write fun _ o => op.value o.src1 o.src2 := by
  have hrow : ∃ p ∈ rv32m, p.code = ⟨(op.word 0 0 0).setWidth 64, (0xfe00707f : Word).setWidth 64, 0⟩ ∧
      p.type = .R ∧ p.body = .write fun _ o => op.value o.src1 o.src2 := by
    cases op with
    | mul => exact ⟨_, List.get_mem rv32m ⟨0, by decide⟩, rfl, rfl, rfl⟩
    | mulh => exact ⟨_, List.get_mem rv32m ⟨1, by decide⟩, rfl, rfl, rfl⟩
    | mulhsu => exact ⟨_, List.get_mem rv32m ⟨2, by decide⟩, rfl, rfl, rfl⟩
    | mulhu => exact ⟨_, List.get_mem rv32m ⟨3, by decide⟩, rfl, rfl, rfl⟩
    | div => exact ⟨_, List.get_mem rv32m ⟨4, by decide⟩, rfl, rfl, rfl⟩
    | divu => exact ⟨_, List.get_mem rv32m ⟨5, by decide⟩, rfl, rfl, rfl⟩
    | rem => exact ⟨_, List.get_mem rv32m ⟨6, by decide⟩, rfl, rfl, rfl⟩
    | remu => exact ⟨_, List.get_mem rv32m ⟨7, by decide⟩, rfl, rfl, rfl⟩
  obtain ⟨p, hmem, hcode, htype, hbody⟩ := hrow
  have hlegal : p ∈ legalLines c := by
    unfold legalLines
    simp only [List.append_assoc]
    exact List.mem_append_right _ (List.mem_append_left _ hmem)
  exact ⟨p, selectInst_of_mem hlegal (hits_of_and hcode (encodeR_and ..)), htype, hbody⟩

structure Writes (P : Platform D) (f : State D) (rd : Reg) (v : Word) (t : State D) : Prop where
  body : decodeBody P f = some t
  gpr : t.gpr = Function.update (Function.update f.gpr rd v) 0 0
  exception : t.haveRISCVException = (bodyStart f).haveRISCVException
  exec : f.haveRISCVException = riscvExcpNone → instAligned f.s.snpc →
    decodeExec P f = some t ∧ t.haveRISCVException = riscvExcpNone ∧ t.s.dnpc = f.s.snpc

theorem writes_of_body {P : Platform D} {f : State D} {p : Instpat} {g : Word → Operands → Word}
    (hp : selectInst P.toConfig f.s.inst = some p) (hbody : p.body = .write g) :
    ∃ t, Writes P f (operands f p).rd (g f.s.pc (operands f p)) t := by
  obtain ⟨t, ht⟩ : ∃ t, t = resetFixed P ((bodyStart f).setR (operands f p).rd
    (g f.s.pc (operands f p))) := ⟨_, rfl⟩
  have hrun : decodeBody P f = some t := by
    rw [decodeBody_eq hp, hbody, ht]
    simp only [execBody, Option.map_some, dnpcAndCheck_s]
  have hex : t.haveRISCVException = (bodyStart f).haveRISCVException := by rw [ht]; rfl
  refine ⟨t, hrun, ?_, hex, fun hnone hal => ?_⟩
  · rw [ht, resetFixed_gpr, State.setR_gpr, dnpcAndCheck_gpr]
  · have hclear : t.haveRISCVException = riscvExcpNone := by
      rw [hex, dnpcAndCheck_haveRISCVException, if_pos hal, hnone]
    refine ⟨?_, hclear, ?_⟩
    · rw [decodeExec, hrun]
      exact congrArg some (if_neg fun h => h hclear)
    · rw [ht, resetFixed_s, State.setR_s, dnpcAndCheck_s, if_pos hal]

/-- Every RV32M word writes the exact result of its operands, whatever its registers. -/
theorem rv32m_exact (P : Platform D) (f : State D) (rd rs1 rs2 : Reg) :
    ∃ v : MulDiv → Word, Exact (f.gpr rs1) (f.gpr rs2) v ∧
      ∀ op, op.onHost (f.gpr rs1) (f.gpr rs2) = some (v op) ∧
        (f.s.inst = op.word rd rs1 rs2 → ∃ t, Writes P f rd (v op) t) := by
  refine ⟨fun op => op.value (f.gpr rs1) (f.gpr rs2), exact_value _ _, fun op => ?_⟩
  refine ⟨onHost_eq op _ _, fun hinst => ?_⟩
  obtain ⟨p, hsel, htype, hbody⟩ := selectInst_mulDiv P.toConfig op rd rs1 rs2
  rw [← hinst] at hsel
  have hops : operands f p = ⟨rd, f.gpr rs1, f.gpr rs2, 0⟩ := by
    rw [operands, htype, hinst]
    exact decodeOperand_encodeR ..
  have hwrites := writes_of_body hsel hbody
  rwa [hops] at hwrites

end GsEmu.Riscv32
