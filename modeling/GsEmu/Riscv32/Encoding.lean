import GsEmu.Lib.Signed
import GsEmu.Riscv32.Decode

/-! The instruction formats with an immediate, as the specification lays their fields out, and
`decode_operand` as the inverse of that layout. -/

namespace GsEmu.Riscv32
open BitVec Signed

inductive Format
  | I
  | S
  | B
  | U
  | J

def Format.type : Format → OperandType
  | .I => .I
  | .S => .S
  | .B => .B
  | .U => .U
  | .J => .J

def Format.Immediate : Format → Word → Prop
  | .I, imm | .S, imm => Signed.Fits 12 imm
  | .B, imm => Signed.Fits 13 imm ∧ 2 ∣ imm.toInt
  | .U, imm => 2 ^ 12 ∣ imm.toNat
  | .J, imm => Signed.Fits 21 imm ∧ 2 ∣ imm.toInt

/-- Registers and function codes of a word; a format uses those it has room for. -/
structure Fields where
  rd : Reg
  rs1 : Reg
  rs2 : Reg
  funct3 : BitVec 3
  opcode : BitVec 7

def Format.encode (imm : Word) (w : Fields) : Format → Word
  | .I => imm.extractLsb' 0 12 ++ w.rs1 ++ w.funct3 ++ w.rd ++ w.opcode
  | .S => imm.extractLsb' 5 7 ++ w.rs2 ++ w.rs1 ++ w.funct3 ++ imm.extractLsb' 0 5 ++ w.opcode
  | .B => imm.extractLsb' 12 1 ++ imm.extractLsb' 5 6 ++ w.rs2 ++ w.rs1 ++ w.funct3 ++
      imm.extractLsb' 1 4 ++ imm.extractLsb' 11 1 ++ w.opcode
  | .U => imm.extractLsb' 12 20 ++ w.rd ++ w.opcode
  | .J => imm.extractLsb' 20 1 ++ imm.extractLsb' 1 10 ++ imm.extractLsb' 11 1 ++
      imm.extractLsb' 12 8 ++ w.rd ++ w.opcode

def encodeR (funct7 : BitVec 7) (w : Fields) : Word :=
  funct7 ++ w.rs2 ++ w.rs1 ++ w.funct3 ++ w.rd ++ w.opcode

def Format.Decoded (imm : Word) (w : Fields) (gpr : Reg → Word) (o : Operands) : Format → Prop
  | .I => o.rd = w.rd ∧ o.src1 = gpr w.rs1 ∧ o.imm = imm
  | .S | .B => o.src1 = gpr w.rs1 ∧ o.src2 = gpr w.rs2 ∧ o.imm = imm
  | .U | .J => o.rd = w.rd ∧ o.imm = imm

/-! ## The immediates, bit by bit -/

theorem getLsbD_immI (i : Word) {k : Nat} (hk : k < 32) :
    (immI i).getLsbD k = if k < 12 then i.getLsbD (20 + k) else i.getLsbD 31 := by
  have hbits : ∀ j < 12, (bits i 31 20).getLsbD j = i.getLsbD (20 + j) := by
    intro j hj
    rw [getLsbD_bits i (by decide) (by decide), decide_eq_true (Nat.le_of_lt_succ hj),
      Bool.true_and]
  rw [immI, getLsbD_sext _ (by decide) hk]
  split
  · exact hbits k ‹_›
  · exact hbits 11 (by decide)

theorem getLsbD_immU (i : Word) {k : Nat} (hk : k < 32) :
    (immU i).getLsbD k = if k < 12 then false else i.getLsbD k := by
  have hsext : ∀ j < 20, (sext (bits i 31 12) 20).getLsbD j = i.getLsbD (12 + j) := by
    intro j hj
    have h : ((sext (bits i 31 12) 20).setWidth 32).getLsbD j = _ := getLsbD_sext _ (by decide) (by omega)
    rw [getLsbD_setWidth, if_pos hj, getLsbD_bits i (by decide) (by decide)] at h
    simpa [show j < 32 by omega, show j ≤ 31 - 12 by omega] using h
  rw [immU, getLsbD_setWidth, getLsbD_shiftLeft]
  by_cases h12 : k < 12
  · simp [h12]
  · rw [if_neg h12, hsext _ (by omega), show 12 + (k - 12) = k by omega]
    simp [hk, h12, show k < 64 by omega]

theorem getLsbD_immS (i : Word) {k : Nat} (hk : k < 32) :
    (immS i).getLsbD k = if k < 5 then i.getLsbD (7 + k) else
      if k < 12 then i.getLsbD (20 + k) else i.getLsbD 31 := by
  have hhigh : ∀ j < 32, (sext (bits i 31 25) 7).getLsbD j =
      if j < 7 then i.getLsbD (25 + j) else i.getLsbD 31 := by
    intro j hj
    have h : ((sext (bits i 31 25) 7).setWidth 32).getLsbD j = _ := getLsbD_sext _ (by decide) hj
    rw [getLsbD_setWidth, getLsbD_bits i (by decide) (by decide),
      getLsbD_bits i (by decide) (by decide)] at h
    simp only [hj, decide_true, Bool.true_and] at h
    rw [h]
    split
    · simp [show j ≤ 31 - 25 by omega]
    · rfl
  rw [immS, getLsbD_setWidth, getLsbD_or, getLsbD_shiftLeft,
    getLsbD_bits i (by decide) (by decide)]
  by_cases h5 : k < 5
  · simp [hk, h5, show k ≤ 11 - 7 by omega]
  · rw [if_neg h5, hhigh _ (by omega)]
    simp [hk, h5, show k < 64 by omega, show ¬k ≤ 11 - 7 by omega]
    split
    · simp [show k < 12 by omega, show 25 + (k - 5) = 20 + k by omega]
    · simp [show ¬k < 12 by omega]

theorem getLsbD_immB (i : Word) {k : Nat} (hk : k < 32) :
    (immB i).getLsbD k = if k = 0 then false else if k < 5 then i.getLsbD (7 + k) else
      if k < 11 then i.getLsbD (20 + k) else if k = 11 then i.getLsbD 7 else i.getLsbD 31 := by
  have hfields : ∀ j < 13, ((bits i 31 31 <<< 12) ||| (bits i 7 7 <<< 11) |||
      (bits i 30 25 <<< 5) ||| (bits i 11 8 <<< 1)).getLsbD j =
      if j = 0 then false else if j < 5 then i.getLsbD (7 + j) else
        if j < 11 then i.getLsbD (20 + j) else if j = 11 then i.getLsbD 7 else i.getLsbD 31 := by
    intro j hj
    simp only [getLsbD_or, getLsbD_shiftLeft, getLsbD_bits _ (show 31 < 32 by decide) le_rfl,
      getLsbD_bits _ (show 7 < 32 by decide) le_rfl,
      getLsbD_bits _ (show 30 < 32 by decide) (show 25 ≤ 30 by decide),
      getLsbD_bits _ (show 11 < 32 by decide) (show 8 ≤ 11 by decide)]
    interval_cases j <;> simp
  rw [immB, getLsbD_sext _ (by decide) hk]
  split
  · exact hfields k ‹_›
  · rw [hfields 12 (by decide)]
    simp [show k ≠ 0 by omega, show ¬k < 5 by omega, show ¬k < 11 by omega, show k ≠ 11 by omega]

theorem getLsbD_immJ (i : Word) {k : Nat} (hk : k < 32) :
    (immJ i).getLsbD k = if k = 0 then false else if k < 11 then i.getLsbD (20 + k) else
      if k = 11 then i.getLsbD 20 else if k < 20 then i.getLsbD k else i.getLsbD 31 := by
  have hfields : ∀ j < 21, ((bits i 31 31 <<< 20) ||| (bits i 19 12 <<< 12) |||
      (bits i 20 20 <<< 11) ||| (bits i 30 25 <<< 5) ||| (bits i 24 21 <<< 1)).getLsbD j =
      if j = 0 then false else if j < 11 then i.getLsbD (20 + j) else
        if j = 11 then i.getLsbD 20 else if j < 20 then i.getLsbD j else i.getLsbD 31 := by
    intro j hj
    simp only [getLsbD_or, getLsbD_shiftLeft, getLsbD_bits _ (show 31 < 32 by decide) le_rfl,
      getLsbD_bits _ (show 20 < 32 by decide) le_rfl,
      getLsbD_bits _ (show 19 < 32 by decide) (show 12 ≤ 19 by decide),
      getLsbD_bits _ (show 30 < 32 by decide) (show 25 ≤ 30 by decide),
      getLsbD_bits _ (show 24 < 32 by decide) (show 21 ≤ 24 by decide)]
    interval_cases j <;> simp
  rw [immJ, getLsbD_sext _ (by decide) hk]
  split
  · exact hfields k ‹_›
  · rw [hfields 20 (by decide)]
    simp [show k ≠ 0 by omega, show ¬k < 11 by omega, show k ≠ 11 by omega,
      show ¬k < 20 by omega]

/-! ## Decoding an assembled word -/

theorem regField_of_bits {i : Word} {hi lo : Nat} {r : Reg} (hhi : hi < 32) (hlo : hi = lo + 4)
    (h : ∀ k < 5, i.getLsbD (lo + k) = r.getLsbD k) : regField i hi lo = r := by
  subst hlo
  apply eq_of_getLsbD_eq
  intro k hk
  rw [regField, getLsbD_setWidth, getLsbD_bits i hhi (Nat.le_add_right lo 4), h k hk]
  simp [hk, show k ≤ 4 by omega]

section encode
variable {imm : Word} (w : Fields)

theorem rd_encode {f : Format} (hf : f = .I ∨ f = .U ∨ f = .J) :
    regField (f.encode imm w) 11 7 = w.rd := by
  apply regField_of_bits (by decide) rfl
  intro k hk
  rcases hf with rfl | rfl | rfl <;> interval_cases k <;>
    simp only [Format.encode, getLsbD_append] <;> rfl

theorem rs1_encode {f : Format} (hf : f = .I ∨ f = .S ∨ f = .B) :
    regField (f.encode imm w) 19 15 = w.rs1 := by
  apply regField_of_bits (by decide) rfl
  intro k hk
  rcases hf with rfl | rfl | rfl <;> interval_cases k <;>
    simp only [Format.encode, getLsbD_append] <;> rfl

theorem rs2_encode {f : Format} (hf : f = .S ∨ f = .B) :
    regField (f.encode imm w) 24 20 = w.rs2 := by
  apply regField_of_bits (by decide) rfl
  intro k hk
  rcases hf with rfl | rfl <;> interval_cases k <;>
    simp only [Format.encode, getLsbD_append] <;> rfl

theorem getLsbD_encodeI {k : Nat} (hk : k < 12) :
    (Format.encode imm w .I).getLsbD (20 + k) = imm.getLsbD k := by
  interval_cases k <;> simp only [Format.encode, getLsbD_append, getLsbD_extractLsb'] <;> rfl

theorem immI_encode (h : Signed.Fits 12 imm) : immI (Format.encode imm w .I) = imm := by
  have hsign := (fits_iff (by decide) (by decide)).mp h
  apply eq_of_getLsbD_eq
  intro k hk
  rw [getLsbD_immI _ hk]
  split
  · exact getLsbD_encodeI w ‹_›
  · exact (getLsbD_encodeI w (by decide)).trans (hsign k (Nat.le_of_not_lt ‹_›) hk).symm

theorem immS_encode (h : Signed.Fits 12 imm) : immS (Format.encode imm w .S) = imm := by
  have hsign := (fits_iff (by decide) (by decide)).mp h
  have hlow : ∀ k < 5, (Format.encode imm w .S).getLsbD (7 + k) = imm.getLsbD k := by
    intro k hk
    interval_cases k <;> simp only [Format.encode, getLsbD_append, getLsbD_extractLsb'] <;> rfl
  have hhigh : ∀ k, 5 ≤ k → k < 12 → (Format.encode imm w .S).getLsbD (20 + k) = imm.getLsbD k := by
    intro k h5 hk
    interval_cases k <;> simp only [Format.encode, getLsbD_append, getLsbD_extractLsb'] <;> rfl
  apply eq_of_getLsbD_eq
  intro k hk
  rw [getLsbD_immS _ hk]
  split
  · exact hlow k ‹_›
  split
  · exact hhigh k (Nat.le_of_not_lt ‹_›) ‹_›
  · exact (hhigh 11 (by decide) (by decide)).trans (hsign k (Nat.le_of_not_lt ‹_›) hk).symm

theorem immU_encode (h : 2 ^ 12 ∣ imm.toNat) : immU (Format.encode imm w .U) = imm := by
  have hzero := (two_pow_dvd_toNat_iff 12).mp h
  apply eq_of_getLsbD_eq
  intro k hk
  rw [getLsbD_immU _ hk]
  split
  · exact (hzero k ‹_›).symm
  · interval_cases k <;> simp only [Format.encode, getLsbD_append, getLsbD_extractLsb'] <;> rfl

theorem immB_encode (h : Signed.Fits 13 imm) (heven : 2 ∣ imm.toInt) :
    immB (Format.encode imm w .B) = imm := by
  have hsign := (fits_iff (by decide) (by decide)).mp h
  have hzero := (two_dvd_toInt_iff (by decide)).mp heven
  have hlow : ∀ k, 1 ≤ k → k < 5 → (Format.encode imm w .B).getLsbD (7 + k) = imm.getLsbD k := by
    intro k h1 hk
    interval_cases k <;> simp only [Format.encode, getLsbD_append, getLsbD_extractLsb'] <;> rfl
  have hmid : ∀ k, 5 ≤ k → k < 11 → (Format.encode imm w .B).getLsbD (20 + k) = imm.getLsbD k := by
    intro k h5 hk
    interval_cases k <;> simp only [Format.encode, getLsbD_append, getLsbD_extractLsb'] <;> rfl
  have heleven : (Format.encode imm w .B).getLsbD 7 = imm.getLsbD 11 := by
    simp only [Format.encode, getLsbD_append, getLsbD_extractLsb']
    rfl
  have htop : (Format.encode imm w .B).getLsbD 31 = imm.getLsbD 12 := by
    simp only [Format.encode, getLsbD_append, getLsbD_extractLsb']
    rfl
  apply eq_of_getLsbD_eq
  intro k hk
  rw [getLsbD_immB _ hk]
  split
  · exact hzero.symm.trans (by rw [‹k = 0›])
  split
  · exact hlow k (Nat.one_le_iff_ne_zero.mpr ‹_›) ‹_›
  split
  · exact hmid k (Nat.le_of_not_lt ‹_›) ‹_›
  split
  · exact heleven.trans (by rw [‹k = 11›])
  · rw [htop]
    rcases Nat.lt_or_ge k 13 with h13 | h13
    · rw [show k = 12 by omega]
    · exact (hsign k h13 hk).symm

theorem immJ_encode (h : Signed.Fits 21 imm) (heven : 2 ∣ imm.toInt) :
    immJ (Format.encode imm w .J) = imm := by
  have hsign := (fits_iff (by decide) (by decide)).mp h
  have hzero := (two_dvd_toInt_iff (by decide)).mp heven
  have hlow : ∀ k, 1 ≤ k → k < 11 → (Format.encode imm w .J).getLsbD (20 + k) = imm.getLsbD k := by
    intro k h1 hk
    interval_cases k <;> simp only [Format.encode, getLsbD_append, getLsbD_extractLsb'] <;> rfl
  have heleven : (Format.encode imm w .J).getLsbD 20 = imm.getLsbD 11 := by
    simp only [Format.encode, getLsbD_append, getLsbD_extractLsb']
    rfl
  have hmid : ∀ k, 12 ≤ k → k < 20 → (Format.encode imm w .J).getLsbD k = imm.getLsbD k := by
    intro k h12 hk
    interval_cases k <;> simp only [Format.encode, getLsbD_append, getLsbD_extractLsb'] <;> rfl
  have htop : (Format.encode imm w .J).getLsbD 31 = imm.getLsbD 20 := by
    simp only [Format.encode, getLsbD_append, getLsbD_extractLsb']
    rfl
  apply eq_of_getLsbD_eq
  intro k hk
  rw [getLsbD_immJ _ hk]
  split
  · exact hzero.symm.trans (by rw [‹k = 0›])
  split
  · exact hlow k (Nat.one_le_iff_ne_zero.mpr ‹_›) ‹_›
  split
  · exact heleven.trans (by rw [‹k = 11›])
  split
  · exact hmid k (by omega) ‹_›
  · rw [htop]
    rcases Nat.lt_or_ge k 21 with h21 | h21
    · rw [show k = 20 by omega]
    · exact (hsign k h21 hk).symm

end encode

/-! ## Words without an immediate -/

theorem decodeOperand_encodeR (funct7 : BitVec 7) (w : Fields) (gpr : Reg → Word) :
    decodeOperand (encodeR funct7 w) .R gpr = ⟨w.rd, gpr w.rs1, gpr w.rs2, 0⟩ := by
  have hrd : regField (encodeR funct7 w) 11 7 = w.rd := by
    apply regField_of_bits (by decide) rfl
    intro k hk
    interval_cases k <;> simp only [encodeR, getLsbD_append] <;> rfl
  have hrs1 : regField (encodeR funct7 w) 19 15 = w.rs1 := by
    apply regField_of_bits (by decide) rfl
    intro k hk
    interval_cases k <;> simp only [encodeR, getLsbD_append] <;> rfl
  have hrs2 : regField (encodeR funct7 w) 24 20 = w.rs2 := by
    apply regField_of_bits (by decide) rfl
    intro k hk
    interval_cases k <;> simp only [encodeR, getLsbD_append] <;> rfl
  simp only [decodeOperand, hrd, hrs1, hrs2]

theorem encodeI_and (imm : Word) (w : Fields) : Format.encode imm w .I &&& 0x707f =
    Format.encode 0 { w with rd := 0, rs1 := 0 } .I := by
  apply eq_of_getLsbD_eq
  intro k hk
  rw [getLsbD_and]
  interval_cases k <;> simp only [Format.encode, getLsbD_append, getLsbD_extractLsb'] <;> simp

theorem encodeR_and (funct7 : BitVec 7) (w : Fields) :
    encodeR funct7 w &&& 0xfe00707f = encodeR funct7 { w with rd := 0, rs1 := 0, rs2 := 0 } := by
  apply eq_of_getLsbD_eq
  intro k hk
  rw [getLsbD_and]
  interval_cases k <;> simp only [encodeR, getLsbD_append] <;> simp

/-! ## The range of every word -/

theorem immediate_immI (i : Word) : Signed.Fits 12 (immI i) := by
  rw [fits_iff (by decide) (by decide)]
  intro k hk hw
  rw [getLsbD_immI i hw, if_neg (Nat.not_lt.mpr hk), getLsbD_immI i (by decide)]
  rfl

theorem immediate_immS (i : Word) : Signed.Fits 12 (immS i) := by
  rw [fits_iff (by decide) (by decide)]
  intro k hk hw
  rw [getLsbD_immS i hw, if_neg (by omega), if_neg (Nat.not_lt.mpr hk),
    getLsbD_immS i (by decide)]
  rfl

theorem immediate_immU (i : Word) : 2 ^ 12 ∣ (immU i).toNat := by
  rw [two_pow_dvd_toNat_iff]
  intro k hk
  rw [getLsbD_immU i (by omega), if_pos hk]

theorem immediate_immB (i : Word) : Signed.Fits 13 (immB i) ∧ 2 ∣ (immB i).toInt := by
  constructor
  · rw [fits_iff (by decide) (by decide)]
    intro k hk hw
    rw [getLsbD_immB i hw, if_neg (by omega), if_neg (by omega), if_neg (by omega),
      if_neg (by omega), getLsbD_immB i (by decide)]
    rfl
  · rw [two_dvd_toInt_iff (by decide), getLsbD_immB i (by decide)]
    rfl

theorem immediate_immJ (i : Word) : Signed.Fits 21 (immJ i) ∧ 2 ∣ (immJ i).toInt := by
  constructor
  · rw [fits_iff (by decide) (by decide)]
    intro k hk hw
    rw [getLsbD_immJ i hw, if_neg (by omega), if_neg (by omega), if_neg (by omega),
      if_neg (by omega), getLsbD_immJ i (by decide)]
    rfl
  · rw [two_dvd_toInt_iff (by decide), getLsbD_immJ i (by decide)]
    rfl

/-! ## Main result -/

theorem decodeOperand_encode (f : Format) (w : Fields) (gpr : Reg → Word) {imm : Word}
    (h : f.Immediate imm) : f.Decoded imm w gpr (decodeOperand (f.encode imm w) f.type gpr) := by
  cases f with
  | I =>
    refine ⟨rd_encode w (.inl rfl), ?_, immI_encode w h⟩
    exact congrArg gpr (rs1_encode w (.inl rfl))
  | S =>
    refine ⟨?_, ?_, immS_encode w h⟩
    · exact congrArg gpr (rs1_encode w (.inr (.inl rfl)))
    · exact congrArg gpr (rs2_encode w (.inl rfl))
  | B =>
    refine ⟨?_, ?_, immB_encode w h.1 h.2⟩
    · exact congrArg gpr (rs1_encode w (.inr (.inr rfl)))
    · exact congrArg gpr (rs2_encode w (.inr rfl))
  | U => exact ⟨rd_encode w (.inr (.inl rfl)), immU_encode w h⟩
  | J => exact ⟨rd_encode w (.inr (.inr rfl)), immJ_encode w h.1 h.2⟩

theorem decodeOperand_immediate (f : Format) (i : Word) (gpr : Reg → Word) :
    f.Immediate (decodeOperand i f.type gpr).imm := by
  cases f with
  | I => exact immediate_immI i
  | S => exact immediate_immS i
  | B => exact immediate_immB i
  | U => exact immediate_immU i
  | J => exact immediate_immJ i

/-- `decode_operand` inverts the layout, and no word decodes to an immediate outside its format. -/
theorem decodeOperand_inverts (f : Format) (gpr : Reg → Word) :
    (∀ (w : Fields) (imm : Word), f.Immediate imm →
      f.Decoded imm w gpr (decodeOperand (f.encode imm w) f.type gpr)) ∧
    ∀ i : Word, f.Immediate (decodeOperand i f.type gpr).imm :=
  ⟨fun w _ h => decodeOperand_encode f w gpr h, fun i => decodeOperand_immediate f i gpr⟩

/-- `jal` backwards by two, the highest bit of every field set. -/
example : (decodeOperand (Format.encode (-2) ⟨1, 0, 0, 0, 0x6f⟩ .J) .J fun _ => 0).imm = -2 := by
  decide

end GsEmu.Riscv32
