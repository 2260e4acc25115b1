import GsEmu.Lib.Field

/-! Words, the bit macros of `macro.h` and `cpu_bits.h`, and the constants of `cpu_bits.h`
that the interpreter uses. -/

namespace GsEmu.Riscv32

abbrev Word := BitVec 32

def bitmask (n : Nat) : BitVec 64 := (1#64 <<< n) - 1#64

/-- `BITS(x, hi, lo)` of a 32-bit `x`; the mask makes the result 64 bits wide. -/
def bits (x : Word) (hi lo : Nat) : BitVec 64 := (x >>> lo).setWidth 64 &&& bitmask (hi - lo + 1)

/-- `SEXT(x, len)`: the bit field `int64_t n : len` widened to 64 bits. -/
def sext (x : BitVec 64) (len : Nat) : BitVec 64 := (x.setWidth len).signExtend 64

def getField (reg mask : Word) : Word := (reg &&& mask) / (mask &&& ~~~(mask <<< 1))

def setField (reg mask val : Word) : Word :=
  (reg &&& ~~~mask) ||| ((val * (mask &&& ~~~(mask <<< 1))) &&& mask)

def csrSstatus : Word := 0x100
def csrSie : Word := 0x104
def csrStvec : Word := 0x105
def csrScounteren : Word := 0x106
def csrSenvcfg : Word := 0x10A
def csrSscratch : Word := 0x140
def csrSepc : Word := 0x141
def csrScause : Word := 0x142
def csrStval : Word := 0x143
def csrSip : Word := 0x144
def csrSatp : Word := 0x180
def csrMstatus : Word := 0x300
def csrMisa : Word := 0x301
def csrMedeleg : Word := 0x302
def csrMideleg : Word := 0x303
def csrMie : Word := 0x304
def csrMtvec : Word := 0x305
def csrMcounteren : Word := 0x306
def csrMscratch : Word := 0x340
def csrMepc : Word := 0x341
def csrMcause : Word := 0x342
def csrMtval : Word := 0x343
def csrMip : Word := 0x344
def csrPmpcfg0 : Word := 0x3a0
def csrPmpaddr0 : Word := 0x3b0
def csrPmpaddr1 : Word := 0x3b1
def csrTselect : Word := 0x7a0
def csrTdata1 : Word := 0x7a1
def csrTdata2 : Word := 0x7a2
def csrTdata3 : Word := 0x7a3
def csrTinfo : Word := 0x7a4
def csrDcsr : Word := 0x7b0
def csrDpc : Word := 0x7b1
def csrDscratch0 : Word := 0x7b2
def csrMvendorid : Word := 0xf11
def csrMarchid : Word := 0xf12
def csrMimpid : Word := 0xf13
def csrMhartid : Word := 0xf14

def mstatusSie : Word := 0x2
def mstatusMie : Word := 0x8
def mstatusSpie : Word := 0x20
def mstatusMpie : Word := 0x80
def mstatusSpp : Word := 0x100
def mstatusMpp : Word := 0x1800
def mstatusUbe : Word := 0x40
def sstatusUie : Word := 0x1
def sstatusSie : Word := 0x2
def sstatusUpie : Word := 0x10
def sstatusSpie : Word := 0x20
def sstatusSpp : Word := 0x100
def sstatusVs : Word := 0x600
def sstatusFs : Word := 0x6000
def sstatusXs : Word := 0x18000
def sstatusSum : Word := 0x40000
def sstatusMxr : Word := 0x80000
def sstatus32Sd : Word := 0x80000000
def mipMtip : Word := 0x80

def prvU : Word := 0
def prvS : Word := 1
def prvM : Word := 3

def riscvExcpNone : Word := 0xffffffff
def riscvExcpInstAddrMis : Word := 0x0
def riscvExcpIllegalInst : Word := 0x2
def riscvExcpLoadAddrMis : Word := 0x4
def riscvExcpStoreAmoAddrMis : Word := 0x6
def riscvExcpUEcall : Word := 0x8
def riscvExcpMEcall : Word := 0xb

open BitVec

/-! ## The bit macros, bit by bit -/

theorem getLsbD_bits (x : Word) {hi lo i : Nat} (hi32 : hi < 32) (hlo : lo ≤ hi) :
    (bits x hi lo).getLsbD i = (decide (i ≤ hi - lo) && x.getLsbD (lo + i)) := by
  have hmask : bitmask (hi - lo + 1) = setWidth 64 (allOnes (hi - lo + 1)) := by
    apply eq_of_toNat_eq
    have hpow : 2 ^ (hi - lo + 1) ≤ 2 ^ 32 := Nat.pow_le_pow_right (by decide) (by omega)
    have hpos := Nat.two_pow_pos (hi - lo + 1)
    simp only [bitmask, toNat_sub, toNat_shiftLeft, toNat_setWidth, toNat_allOnes, toNat_ofNat,
      Nat.shiftLeft_eq]
    omega
  rw [bits, hmask, getLsbD_and, getLsbD_setWidth, getLsbD_setWidth, getLsbD_ushiftRight,
    getLsbD_allOnes]
  by_cases hi64 : i < 64
  · by_cases hle : i ≤ hi - lo
    · simp [hi64, hle, Nat.lt_succ_of_le hle]
    · simp [hle, show ¬i < hi - lo + 1 by omega]
  · simp [hi64, show ¬i ≤ hi - lo by omega]

theorem getLsbD_sext (x : BitVec 64) {len i : Nat} (h0 : 0 < len) (hi : i < 32) :
    ((sext x len).setWidth 32).getLsbD i =
      if i < len then x.getLsbD i else x.getLsbD (len - 1) := by
  rw [getLsbD_setWidth, sext, getLsbD_signExtend, msb_eq_getLsbD_last]
  simp only [getLsbD_setWidth]
  split <;> simp [show i < 64 by omega, *]

theorem sext_sext (x : BitVec 64) {len : Nat} (h0 : 0 < len) (hlen : len ≤ 32) :
    (sext (((sext x len).setWidth 32).setWidth 64) len).setWidth 32 =
      (sext x len).setWidth 32 := by
  apply eq_of_getLsbD_eq
  intro i hi
  have hlow : ∀ j < len, (((sext x len).setWidth 32).setWidth 64).getLsbD j = x.getLsbD j := by
    intro j hj
    rw [getLsbD_setWidth, getLsbD_sext _ h0 (by omega), if_pos hj]
    simp [show j < 64 by omega]
  rw [getLsbD_sext _ h0 hi, getLsbD_sext _ h0 hi]
  split
  · exact hlow i ‹_›
  · exact hlow (len - 1) (by omega)

/-! ## Reading and writing the status fields -/

theorem getField_bit (mask : Word) (k : Nat) (hk : k < 32) (hm : mask = twoPow 32 k)
    (hl : mask &&& ~~~(mask <<< 1) = twoPow 32 k) (x : Word) :
    getField x mask = if x.getLsbD k then 1 else 0 := by
  rw [getField, hl, hm, Field.and_twoPow_udiv x hk]

@[simp] theorem getField_mstatusSie (x : Word) :
    getField x mstatusSie = if x.getLsbD 1 then 1 else 0 :=
  getField_bit mstatusSie 1 (by decide) rfl rfl x

@[simp] theorem getField_mstatusMie (x : Word) :
    getField x mstatusMie = if x.getLsbD 3 then 1 else 0 :=
  getField_bit mstatusMie 3 (by decide) rfl rfl x

@[simp] theorem getField_mstatusSpie (x : Word) :
    getField x mstatusSpie = if x.getLsbD 5 then 1 else 0 :=
  getField_bit mstatusSpie 5 (by decide) rfl rfl x

@[simp] theorem getField_mstatusMpie (x : Word) :
    getField x mstatusMpie = if x.getLsbD 7 then 1 else 0 :=
  getField_bit mstatusMpie 7 (by decide) rfl rfl x

@[simp] theorem getField_mstatusSpp (x : Word) :
    getField x mstatusSpp = if x.getLsbD 8 then 1 else 0 :=
  getField_bit mstatusSpp 8 (by decide) rfl rfl x

@[simp] theorem getField_sstatusSie (x : Word) :
    getField x sstatusSie = if x.getLsbD 1 then 1 else 0 :=
  getField_bit sstatusSie 1 (by decide) rfl rfl x

@[simp] theorem getField_sstatusSpie (x : Word) :
    getField x sstatusSpie = if x.getLsbD 5 then 1 else 0 :=
  getField_bit sstatusSpie 5 (by decide) rfl rfl x

@[simp] theorem getField_sstatusSpp (x : Word) :
    getField x sstatusSpp = if x.getLsbD 8 then 1 else 0 :=
  getField_bit sstatusSpp 8 (by decide) rfl rfl x

@[simp] theorem getField_mstatusMpp (x : Word) :
    getField x mstatusMpp = (if x.getLsbD 11 then 1 else 0) ||| (if x.getLsbD 12 then 2 else 0) :=
  Field.and_pair_udiv x (show 11 + 1 < 32 by decide)

theorem getLsbD_setField {mask : Word} {k : Nat} (hl : mask &&& ~~~(mask <<< 1) = twoPow 32 k)
    (x v : Word) (j : Nat) : (setField x mask v).getLsbD j =
      if mask.getLsbD j then decide (j < 32) && (decide (k ≤ j) && v.getLsbD (j - k))
      else x.getLsbD j := by
  rw [setField, hl, Field.getLsbD_write]

theorem setField_and {mask m : Word} (hdisj : ∀ i < 32, m.getLsbD i = true → mask.getLsbD i = false)
    (x v : Word) : setField x mask v &&& m = x &&& m := by
  apply eq_of_getLsbD_eq
  intro i hi
  simp only [setField, getLsbD_and, getLsbD_or, getLsbD_not]
  cases hm : m.getLsbD i with
  | false => simp
  | true =>
    rw [hdisj i hi hm]
    simp [hi]

end GsEmu.Riscv32
