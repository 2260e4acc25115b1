import GsEmu.Difftest.Fields
import GsEmu.Riscv32.Exec
import GsEmu.Riscv32.Select

/-! The instructions both interpreters share: their encodings, their effect on registers, `pc` and
RAM, and that the reference has it. -/

namespace GsEmu.Difftest
open Bytes Riscv32 MiniRv32ima

variable {c : Config} {h : Host} {ir pc cycle : Word} {s : MiniRV32IMAState} {image : Memory} {n : Nat}

/-! ## Encodings -/

def funct7 (ir : Word) : Word := ir >>> 25
def funct5 (ir : Word) : Word := (ir >>> 27) &&& 0x1f

/-- A legal RV32I load, store, branch, jump, `lui`, `auipc`, op-imm or op, an RV32M instruction, or
an AMO other than `lr.w` and `sc.w`. -/
def Legal (ir : Word) : Prop :=
  match ir &&& 0x7f with
  | 0x37 | 0x17 | 0x6f => True
  | 0x67 => funct3 ir = 0
  | 0x63 => funct3 ir ∈ [0, 1, 4, 5, 6, 7]
  | 0x03 => funct3 ir ∈ [0, 1, 2, 4, 5]
  | 0x23 => funct3 ir ∈ [0, 1, 2]
  | 0x13 =>
    (funct3 ir = 1 → funct7 ir = 0) ∧ (funct3 ir = 5 → funct7 ir = 0 ∨ funct7 ir = 0x20)
  | 0x33 => funct7 ir = 0 ∨ funct7 ir = 1 ∨ funct7 ir = 0x20 ∧ (funct3 ir = 0 ∨ funct3 ir = 5)
  | 0x2f => funct3 ir = 2 ∧ funct5 ir ∈ [1, 0, 4, 12, 8, 16, 20, 24, 28]
  | _ => False

def rs1 (ir : Word) : Reg := regField ir 19 15
def rs2 (ir : Word) : Reg := regField ir 24 20

def dataAddr (ir : Word) (x : Reg → Word) : Option Word :=
  match ir &&& 0x7f with
  | 0x03 => some (x (rs1 ir) + immI ir)
  | 0x23 => some (x (rs1 ir) + immS ir)
  | 0x2f => some (x (rs1 ir))
  | _ => none

def jumpTarget (ir pc : Word) (x : Reg → Word) : Option Word :=
  match ir &&& 0x7f with
  | 0x6f => some (pc + immJ ir)
  | 0x67 => some ((x (rs1 ir) + immI ir) &&& ~~~1)
  | 0x63 =>
    if branchTaken (funct3 ir) (x (rs1 ir)) (x (rs2 ir)) = some true then some (pc + immB ir)
    else none
  | _ => none

/-- The instruction at `pc` is one of these, its fetch and data addresses lie in the first `n` bytes
of RAM with four bytes to spare, and a jump that is taken goes to a multiple of 4. -/
structure Covered (n : Nat) (ir pc : Word) (x : Reg → Word) : Prop where
  legal : Legal ir
  fetch : guestToHost pc + 4 ≤ n
  data : ∀ a ∈ dataAddr ir x, guestToHost a + 4 ≤ n
  target : ∀ a ∈ jumpTarget ir pc x, instAligned a

/-! ## Effects -/

/-- What an instruction does: the register it writes (`x0` for none), where it goes on, and RAM. -/
structure Effect where
  rd : Reg
  val : Word
  next : Word
  ram : Memory

def effect (b : Body) (o : Operands) (pc : Word) (ram : Memory) : Option Effect :=
  match b with
  | .write f => some ⟨o.rd, f pc o, pc + 4, ram⟩
  | .jal => some ⟨o.rd, pc + 4, pc + o.imm, ram⟩
  | .jalr => some ⟨o.rd, pc + 4, jalrTarget o, ram⟩
  | .branch cond =>
    some ⟨0, 0, if cond o.src1 o.src2 then pc + (sext (o.imm.setWidth 64) 13).setWidth 32
      else pc + 4, ram⟩
  | .load len ext => some ⟨o.rd, ext (readLE ram (guestToHost (o.src1 + o.imm)) len), pc + 4, ram⟩
  | .store len => some ⟨0, 0, pc + 4, writeLE ram (guestToHost (o.src1 + o.imm)) len o.src2⟩
  | .slli => some ⟨o.rd, o.src1 <<< (bits o.imm 6 0).toNat, pc + 4, ram⟩
  | .amo op =>
    let t := readLE ram (guestToHost o.src1) 4
    some ⟨o.rd, t, pc + 4, writeLE ram (guestToHost o.src1) 4 (op t o.src2)⟩
  | _ => none

def Fits (n : Nat) (o : Operands) (pc : Word) : Body → Prop
  | .jal => instAligned (pc + o.imm)
  | .jalr => instAligned (jalrTarget o)
  | .branch cond => cond o.src1 o.src2 = true →
    instAligned (pc + (sext (o.imm.setWidth 64) 13).setWidth 32)
  | .load len _ => len ∈ [1, 2, 4] ∧ guestToHost (o.src1 + o.imm) + 4 ≤ n
  | .store len => len ∈ [1, 2, 4] ∧ guestToHost (o.src1 + o.imm) + 4 ≤ n
  | .slli => o.imm &&& 0x20 = 0
  | .amo _ => guestToHost o.src1 + 4 ≤ n
  | _ => True

def Conforms (c : Config) (h : Host) (n : Nat) (ir pc cycle : Word) (s : MiniRV32IMAState)
    (image : Memory) : Prop :=
  ∃ p e, selectInst c ir = some p ∧
    effect p.body (decodeOperand ir p.type s.regs) pc image = some e ∧
    Fits n (decodeOperand ir p.type s.regs) pc p.body ∧
    execOpcode h cycle ir pc s image = .next e.rd e.val (e.next - 4) s e.ram

/-! ## The selected line -/

def rows : List Instpat := rv32i ++ rv32m ++ rv32a

theorem selectInst_row (hc : c.rva = true) {p : Instpat} (hp : p ∈ rows) (hit : p.hits ir = true) :
    selectInst c ir = some p := by
  have hsplit : legalLines c = rows ++ ((if c.rvZicsr then rvZicsr else []) ++
      if c.rvZifencei then rvZifencei else []) := by
    simp only [legalLines, rows, hc, if_true, List.append_assoc]
  apply selectInst_of_mem _ hit
  rw [hsplit]
  exact List.mem_append_left _ hp

/-! ## Masks and fields -/

theorem and_mask7 {op f3 f7 : Word} (m : Word) (hop : ir &&& 0x7f = op) (h3 : funct3 ir = f3)
    (h7 : funct7 ir = f7) :
    ir &&& ((0x707f : Word) ||| (m <<< 25)) = op ||| (f3 <<< 12) ||| ((f7 &&& m) <<< 25) := by
  have h12 : ir &&& ((7 : Word) <<< 12) = f3 <<< 12 := by rw [and_shiftLeft, ← h3, funct3]
  have hsplit : (0x707f : Word) = (0x7f : Word) ||| ((7 : Word) <<< 12) := by decide
  rw [hsplit, BitVec.and_or_distrib_left, BitVec.and_or_distrib_left, hop, h12, and_shiftLeft,
    ← h7, funct7]

theorem and_mask3 {op f3 : Word} (hop : ir &&& 0x7f = op) (h3 : funct3 ir = f3) :
    ir &&& (0x707f : Word) = op ||| (f3 <<< 12) := by
  simpa using and_mask7 0 hop h3 rfl

theorem and_mask5 {op f3 f5 : Word} (hop : ir &&& 0x7f = op) (h3 : funct3 ir = f3)
    (h5 : funct5 ir = f5) : ir &&& (0xf800707f : Word) = op ||| (f3 <<< 12) ||| (f5 <<< 27) := by
  have h27 : ir &&& ((0x1f : Word) <<< 27) = f5 <<< 27 := by rw [and_shiftLeft, ← h5, funct5]
  have hsplit : (0xf800707f : Word) = (0x707f : Word) ||| ((0x1f : Word) <<< 27) := by decide
  rw [hsplit, BitVec.and_or_distrib_left, and_mask3 hop h3, h27]

theorem funct3_cases (ir : Word) : funct3 ir ∈ [0, 1, 2, 3, 4, 5, 6, 7] := by
  have hlt : (funct3 ir).toNat < 8 := by
    rw [funct3, BitVec.toNat_and]
    exact lt_of_le_of_lt Nat.and_le_right (by decide)
  have heq : funct3 ir = BitVec.ofNat 32 (funct3 ir).toNat := by simp
  rw [heq]
  interval_cases (funct3 ir).toNat <;> decide

end GsEmu.Difftest
