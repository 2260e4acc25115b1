import GsEmu.Riscv32.Body

/-! Pattern matching (`cpu/decode.h`), operand decoding and the pattern table of `decode_exec`. -/

namespace GsEmu.Riscv32

/-! ## `pattern_decode` -/

structure Pattern where
  key : BitVec 64
  mask : BitVec 64
  shift : BitVec 64
  deriving DecidableEq

def patternLoop : List Char → BitVec 64 → BitVec 64 → BitVec 64 → Option Pattern
  | [], key, mask, shift => some ⟨key >>> shift.toNat, mask >>> shift.toNat, shift⟩
  | c :: cs, key, mask, shift =>
    if c = ' ' then patternLoop cs key mask shift
    else if c = '0' ∨ c = '1' ∨ c = '?' then
      patternLoop cs ((key <<< 1) ||| (if c = '1' then 1 else 0))
        ((mask <<< 1) ||| (if c = '?' then 0 else 1)) (if c = '?' then shift + 1 else 0)
    else none

/-- The unrolled loop reads 64 characters and panics without looking for the end of a 64th. -/
def patternDecode (str : String) : Option Pattern :=
  if str.toList.length < 64 then patternLoop str.toList 0 0 0 else none

def Pattern.hits (p : Pattern) (inst : Word) : Bool :=
  decide (((inst.setWidth 64 >>> p.shift.toNat) &&& p.mask) = p.key)

/-! ## Operands -/

inductive OperandType
  | I
  | U
  | S
  | J
  | B
  | R
  | CsrII
  | CsrI
  | N
  deriving DecidableEq, Repr

def immI (i : Word) : Word := (sext (bits i 31 20) 12).setWidth 32

def immU (i : Word) : Word := (sext (bits i 31 12) 20 <<< 12).setWidth 32

def immS (i : Word) : Word := ((sext (bits i 31 25) 7 <<< 5) ||| bits i 11 7).setWidth 32

def immB (i : Word) : Word :=
  (sext ((bits i 31 31 <<< 12) ||| (bits i 7 7 <<< 11) ||| (bits i 30 25 <<< 5) |||
    (bits i 11 8 <<< 1)) 13).setWidth 32

def immJ (i : Word) : Word :=
  (sext ((bits i 31 31 <<< 20) ||| (bits i 19 12 <<< 12) ||| (bits i 20 20 <<< 11) |||
    (bits i 30 25 <<< 5) ||| (bits i 24 21 <<< 1)) 21).setWidth 32

def regField (i : Word) (hi lo : Nat) : Reg := (bits i hi lo).setWidth 5

def decodeOperand (i : Word) (type : OperandType) (gpr : Reg → Word) : Operands :=
  let rs1 := regField i 19 15
  let rs2 := regField i 24 20
  let rd := regField i 11 7
  match type with
  | .I => ⟨rd, gpr rs1, 0, immI i⟩
  | .U => ⟨rd, 0, 0, immU i⟩
  | .J => ⟨rd, 0, 0, immJ i⟩
  | .S => ⟨rd, gpr rs1, gpr rs2, immS i⟩
  | .B => ⟨rd, gpr rs1, gpr rs2, immB i⟩
  | .R => ⟨rd, gpr rs1, gpr rs2, 0⟩
  | .CsrI => ⟨rd, gpr rs1, 0, (bits i 31 20).setWidth 32⟩
  | .CsrII => ⟨rd, rs1.setWidth 32, 0, immI i⟩
  | .N => ⟨rd, 0, 0, 0⟩

theorem decodeOperand_rd (i : Word) (type : OperandType) (gpr : Reg → Word) :
    (decodeOperand i type gpr).rd = regField i 11 7 := by
  cases type <;> rfl

/-! ## The table -/

/-- One `INSTPAT` line, with the constants `pattern_decode` makes of its string. -/
structure Instpat where
  pattern : String
  name : String
  type : OperandType
  body : Body
  code : Pattern
  code_eq : patternDecode pattern = some code := by decide +kernel

def sextLoad (len : Nat) (v : Word) : Word := (sext (v.setWidth 64) len).setWidth 32

def rv32i : List Instpat :=
  [.mk "??????? ????? ????? ??? ????? 01101 11" "lui" .U (.write fun _ o => o.imm) ⟨0x37, 0x7f, 0⟩,
    .mk "??????? ????? ????? ??? ????? 00101 11" "auipc" .U
      (.write fun pc o => pc + o.imm) ⟨0x17, 0x7f, 0⟩,
    .mk "??????? ????? ????? ??? ????? 11011 11" "jal" .J .jal ⟨0x6f, 0x7f, 0⟩,
    .mk "??????? ????? ????? 000 ????? 11001 11" "jalr" .I .jalr ⟨0x67, 0x707f, 0⟩,
    .mk "??????? ????? ????? 000 ????? 11000 11" "beq" .B
      (.branch fun a b => a = b) ⟨0x63, 0x707f, 0⟩,
    .mk "??????? ????? ????? 001 ????? 11000 11" "bne" .B
      (.branch fun a b => a ≠ b) ⟨0x1063, 0x707f, 0⟩,
    .mk "??????? ????? ????? 100 ????? 11000 11" "blt" .B
      (.branch fun a b => a.slt b) ⟨0x4063, 0x707f, 0⟩,
    .mk "??????? ????? ????? 101 ????? 11000 11" "bge" .B
      (.branch fun a b => b.sle a) ⟨0x5063, 0x707f, 0⟩,
    .mk "??????? ????? ????? 110 ????? 11000 11" "bltu" .B
      (.branch fun a b => a.ult b) ⟨0x6063, 0x707f, 0⟩,
    .mk "??????? ????? ????? 111 ????? 11000 11" "bgeu" .B
      (.branch fun a b => b.ule a) ⟨0x7063, 0x707f, 0⟩,
    .mk "??????? ????? ????? 000 ????? 00000 11" "lb" .I
      (.load 1 (sextLoad (1 * 8))) ⟨0x3, 0x707f, 0⟩,
    .mk "??????? ????? ????? 001 ????? 00000 11" "lh" .I
      (.load 2 (sextLoad (2 * 8))) ⟨0x1003, 0x707f, 0⟩,
    .mk "??????? ????? ????? 010 ????? 00000 11" "lw" .I
      (.load 4 (sextLoad (4 * 8))) ⟨0x2003, 0x707f, 0⟩,
    .mk "??????? ????? ????? 100 ????? 00000 11" "lbu" .I (.load 1 id) ⟨0x4003, 0x707f, 0⟩,
    .mk "??????? ????? ????? 101 ????? 00000 11" "lhu" .I (.load 2 id) ⟨0x5003, 0x707f, 0⟩,
    .mk "??????? ????? ????? 000 ????? 01000 11" "sb" .S (.store 1) ⟨0x23, 0x707f, 0⟩,
    .mk "??????? ????? ????? 001 ????? 01000 11" "sh" .S (.store 2) ⟨0x1023, 0x707f, 0⟩,
    .mk "??????? ????? ????? 010 ????? 01000 11" "sw" .S (.store 4) ⟨0x2023, 0x707f, 0⟩,
    .mk "??????? ????? ????? 000 ????? 00100 11" "addi" .I
      (.write fun _ o => o.src1 + o.imm) ⟨0x13, 0x707f, 0⟩,
    .mk "??????? ????? ????? 010 ????? 00100 11" "slti" .I
      (.write fun _ o => ofCond (o.src1.slt o.imm)) ⟨0x2013, 0x707f, 0⟩,
    .mk "??????? ????? ????? 011 ????? 00100 11" "sltiu" .I
      (.write fun _ o => ofCond (o.src1.ult o.imm)) ⟨0x3013, 0x707f, 0⟩,
    .mk "??????? ????? ????? 100 ????? 00100 11" "xori" .I
      (.write fun _ o => o.src1 ^^^ o.imm) ⟨0x4013, 0x707f, 0⟩,
    .mk "??????? ????? ????? 110 ????? 00100 11" "ori" .I
      (.write fun _ o => o.src1 ||| o.imm) ⟨0x6013, 0x707f, 0⟩,
    .mk "??????? ????? ????? 111 ????? 00100 11" "andi" .I
      (.write fun _ o => o.src1 &&& o.imm) ⟨0x7013, 0x707f, 0⟩,
    .mk "000000? ????? ????? 001 ????? 00100 11" "slli" .I .slli ⟨0x1013, 0xfc00707f, 0⟩,
    .mk "0000000 ????? ????? 101 ????? 00100 11" "srli" .I
      (.write fun _ o => o.src1 >>> (bits o.imm 5 0).toNat) ⟨0x5013, 0xfe00707f, 0⟩,
    .mk "0100000 ????? ????? 101 ????? 00100 11" "srai" .I
      (.write fun _ o => o.src1.sshiftRight (bits o.imm 5 0).toNat) ⟨0x40005013, 0xfe00707f, 0⟩,
    .mk "0000000 ????? ????? 000 ????? 01100 11" "add" .R
      (.write fun _ o => o.src1 + o.src2) ⟨0x33, 0xfe00707f, 0⟩,
    .mk "0100000 ????? ????? 000 ????? 01100 11" "sub" .R
      (.write fun _ o => o.src1 - o.src2) ⟨0x40000033, 0xfe00707f, 0⟩,
    .mk "0000000 ????? ????? 001 ????? 01100 11" "sll" .R
      (.write fun _ o => o.src1 <<< (bits o.src2 4 0).toNat) ⟨0x1033, 0xfe00707f, 0⟩,
    .mk "0000000 ????? ????? 010 ????? 01100 11" "slt" .R
      (.write fun _ o => ofCond (o.src1.slt o.src2)) ⟨0x2033, 0xfe00707f, 0⟩,
    .mk "0000000 ????? ????? 011 ????? 01100 11" "sltu" .R
      (.write fun _ o => ofCond (o.src1.ult o.src2)) ⟨0x3033, 0xfe00707f, 0⟩,
    .mk "0000000 ????? ????? 100 ????? 01100 11" "xor" .R
      (.write fun _ o => o.src1 ^^^ o.src2) ⟨0x4033, 0xfe00707f, 0⟩,
    .mk "0000000 ????? ????? 101 ????? 01100 11" "srl" .R
      (.write fun _ o => o.src1 >>> (bits o.src2 4 0).toNat) ⟨0x5033, 0xfe00707f, 0⟩,
    .mk "0100000 ????? ????? 101 ????? 01100 11" "sra" .R
      (.write fun _ o => o.src1.sshiftRight (bits o.src2 4 0).toNat) ⟨0x40005033, 0xfe00707f, 0⟩,
    .mk "0000000 ????? ????? 110 ????? 01100 11" "or" .R
      (.write fun _ o => o.src1 ||| o.src2) ⟨0x6033, 0xfe00707f, 0⟩,
    .mk "0000000 ????? ????? 111 ????? 01100 11" "and" .R
      (.write fun _ o => o.src1 &&& o.src2) ⟨0x7033, 0xfe00707f, 0⟩,
    .mk "0000000 00000 00000 000 00000 11100 11" "ecall" .N .ecall ⟨0x73, 0xffffffff, 0⟩,
    .mk "0000000 00001 00000 000 00000 11100 11" "ebreak" .N .ebreak ⟨0x100073, 0xffffffff, 0⟩]

def rv32m : List Instpat :=
  [.mk "0000001 ????? ????? 000 ????? 01100 11" "mul" .R
      (.write fun _ o => mul o.src1 o.src2) ⟨0x2000033, 0xfe00707f, 0⟩,
    .mk "0000001 ????? ????? 001 ????? 01100 11" "mulh" .R
      (.write fun _ o => mulh o.src1 o.src2) ⟨0x2001033, 0xfe00707f, 0⟩,
    .mk "0000001 ????? ????? 010 ????? 01100 11" "mulhsu" .R
      (.write fun _ o => mulhsu o.src1 o.src2) ⟨0x2002033, 0xfe00707f, 0⟩,
    .mk "0000001 ????? ????? 011 ????? 01100 11" "mulhu" .R
      (.write fun _ o => mulhu o.src1 o.src2) ⟨0x2003033, 0xfe00707f, 0⟩,
    .mk "0000001 ????? ????? 100 ????? 01100 11" "div" .R
      (.write fun _ o => div o.src1 o.src2) ⟨0x2004033, 0xfe00707f, 0⟩,
    .mk "0000001 ????? ????? 101 ????? 01100 11" "divu" .R
      (.write fun _ o => divu o.src1 o.src2) ⟨0x2005033, 0xfe00707f, 0⟩,
    .mk "0000001 ????? ????? 110 ????? 01100 11" "rem" .R
      (.write fun _ o => rem o.src1 o.src2) ⟨0x2006033, 0xfe00707f, 0⟩,
    .mk "0000001 ????? ????? 111 ????? 01100 11" "remu" .R
      (.write fun _ o => remu o.src1 o.src2) ⟨0x2007033, 0xfe00707f, 0⟩]

def rv32a : List Instpat :=
  [.mk "00010 00 00000 ????? 010 ????? 01011 11" "lr.w" .R .lrW ⟨0x1000202f, 0xfff0707f, 0⟩,
    .mk "00011 ?? ????? ????? 010 ????? 01011 11" "sc.w" .R .scW ⟨0x1800202f, 0xf800707f, 0⟩,
    .mk "00001 ?? ????? ????? 010 ????? 01011 11" "amoswap.w" .R
      (.amo fun _ b => b) ⟨0x800202f, 0xf800707f, 0⟩,
    .mk "00000 ?? ????? ????? 010 ????? 01011 11" "amoadd.w" .R
      (.amo fun t b => t + b) ⟨0x202f, 0xf800707f, 0⟩,
    .mk "00100 ?? ????? ????? 010 ????? 01011 11" "amoxor.w" .R
      (.amo fun t b => t ^^^ b) ⟨0x2000202f, 0xf800707f, 0⟩,
    .mk "01100 ?? ????? ????? 010 ????? 01011 11" "amoand.d" .R
      (.amo fun t b => t &&& b) ⟨0x6000202f, 0xf800707f, 0⟩,
    .mk "01000 ?? ????? ????? 010 ????? 01011 11" "amoor.w" .R
      (.amo fun t b => t ||| b) ⟨0x4000202f, 0xf800707f, 0⟩,
    .mk "10000 ?? ????? ????? 010 ????? 01011 11" "amomin.w" .R
      (.amo fun t b => if t.slt b then t else b) ⟨0x8000202f, 0xf800707f, 0⟩,
    .mk "10100 ?? ????? ????? 010 ????? 01011 11" "amomax.w" .R
      (.amo fun t b => if b.slt t then t else b) ⟨0xa000202f, 0xf800707f, 0⟩,
    .mk "11000 ?? ????? ????? 010 ????? 01011 11" "amominu.w" .R
      (.amo fun t b => if t.ult b then t else b) ⟨0xc000202f, 0xf800707f, 0⟩,
    .mk "11100 ?? ????? ????? 010 ????? 01011 11" "amomaxu.w" .R
      (.amo fun t b => if b.ult t then t else b) ⟨0xe000202f, 0xf800707f, 0⟩]

def rvZicsr : List Instpat :=
  [.mk "??????? ????? ????? 001 ????? 11100 11" "csrrw" .CsrI
      (.csr fun _ b => b) ⟨0x1073, 0x707f, 0⟩,
    .mk "??????? ????? ????? 011 ????? 11100 11" "csrrc" .CsrI
      (.csr fun t b => t &&& ~~~b) ⟨0x3073, 0x707f, 0⟩,
    .mk "??????? ????? ????? 010 ????? 11100 11" "csrrs" .CsrI
      (.csr fun t b => t ||| b) ⟨0x2073, 0x707f, 0⟩,
    .mk "??????? ????? ????? 101 ????? 11100 11" "csrrwi" .CsrII
      (.csr fun _ b => b) ⟨0x5073, 0x707f, 0⟩,
    .mk "??????? ????? ????? 111 ????? 11100 11" "csrrci" .CsrII
      (.csr fun t b => t &&& ~~~b) ⟨0x7073, 0x707f, 0⟩,
    .mk "??????? ????? ????? 110 ????? 11100 11" "csrrsi" .CsrII
      (.csr fun t b => t ||| b) ⟨0x6073, 0x707f, 0⟩,
    .mk "0001000 00010 00000 000 00000 11100 11" "sret" .N .sret ⟨0x10200073, 0xffffffff, 0⟩,
    .mk "0011000 00010 00000 000 00000 11100 11" "mret" .R .mret ⟨0x30200073, 0xffffffff, 0⟩,
    .mk "0001000 00101 00000 000 00000 11100 11" "wfi" .N .wfi ⟨0x10500073, 0xffffffff, 0⟩]

def rvZifencei : List Instpat :=
  [.mk "0000??? ????? 00000 000 00000 00011 11" "fence" .N .nop ⟨0xf, 0xf00fffff, 0⟩,
    .mk "0000000 00000 00000 001 00000 00011 11" "fence.i" .N .nop ⟨0x100f, 0xffffffff, 0⟩,
    .mk "0001001 ????? ????? 000 00000 11100 11" "sfence.vma" .N .nop ⟨0x12000073, 0xfe007fff, 0⟩]

def rvInv : List Instpat :=
  [.mk "0000000 00000 00000 000 00000 00000 00" "inv" .N .inv ⟨0x0, 0xffffffff, 0⟩,
    .mk "??????? ????? ????? ??? ????? ????? ??" "inv" .N .inv ⟨0x0, 0x0, 32⟩]

/-- The `INSTPAT` lines of a build, in source order. -/
def instpats (c : Config) : List Instpat :=
  rv32i ++ rv32m ++ (if c.rva then rv32a else []) ++ (if c.rvZicsr then rvZicsr else []) ++
    (if c.rvZifencei then rvZifencei else []) ++ rvInv

def Instpat.hits (p : Instpat) (inst : Word) : Bool := p.code.hits inst

def selectInst (c : Config) (inst : Word) : Option Instpat :=
  (instpats c).find? (·.hits inst)

end GsEmu.Riscv32
