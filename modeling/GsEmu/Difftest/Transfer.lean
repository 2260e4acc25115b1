import GsEmu.Difftest.Adapter

/-! Register transfer by memory layout: where the fields of `CPU_state` and those of an adapter
coincide. -/

namespace GsEmu.Difftest
open Bytes Layout Riscv32 MiniRv32ima

variable {r : RegFile} {dut rest : Memory} {s : MiniRV32IMAState} {rva : Bool} {priv : PrivModes}

/-! ## Offsets -/

theorem off_gpr_isaGdbRegs : off isaGdbRegs "gpr" = off cpuState "gpr" := by
  have hmem : "gpr" ∈ [gprField].map Field.name := by simp [gprField]
  exact congrArg (Option.getD · 0)
    ((offsetFrom_append [pcField] hmem).trans
      (offsetFrom_append [csrField, amwField, pcField] hmem).symm)

theorem off_csr_minirv32Regs : off (minirv32Regs rva) "csr" = off cpuState "csr" := by
  have hmem : "csr" ∈ [gprField, csrField].map Field.name := by simp [gprField, csrField]
  rw [off, minirv32Regs, List.append_assoc, offsetOf, offsetFrom_append _ hmem]
  exact congrArg (Option.getD · 0) (offsetFrom_append [amwField, pcField] hmem).symm

theorem off_pc_minirv32Regs :
    off (minirv32Regs rva) "pc" = if rva then off cpuState "pc" else off cpuState "amw" := by
  cases rva <;> decide

theorem checkCsrIdx_lt (p : PrivModes) (n : Word) : checkCsrIdx p n < 64 := by
  have hlt := nrCsr_lt p
  rcases checkCsrIdx_le p n with hle | rfl
  · omega
  · rw [slot_zero]
    decide

/-! ## `qemu-diff` -/

theorem qemu_toDut (exec : RegFile → RegFile) :
    regFileAt cpuState ((qemuAdapter exec rest).toDut r dut) =
      ⟨r.x, (regFileAt cpuState dut).pc⟩ := by
  have himg : regFileAt isaGdbRegs (gdbGetregs r rest) = r := regFileAt_putRegs (by decide) r rest
  ext1
  · funext i
    have hi := i.isLt
    have hin : off cpuState "gpr" + 4 * i.toNat + 4 ≤ difftestRegSize := by
      rw [show off cpuState "gpr" = 0 by decide, difftestRegSize]
      omega
    calc readLE (memcpy dut (gdbGetregs r rest) difftestRegSize) (off cpuState "gpr" + 4 * i.toNat) 4
      _ = readLE (gdbGetregs r rest) (off cpuState "gpr" + 4 * i.toNat) 4 :=
        readLE_memcpy_inside hin
      _ = (regFileAt isaGdbRegs (gdbGetregs r rest)).x i := by
        rw [← off_gpr_isaGdbRegs]
        rfl
      _ = r.x i := by rw [himg]
  · exact readLE_memcpy_outside (by decide)

theorem qemu_toRef (exec : RegFile → RegFile) :
    ((qemuAdapter exec rest).toRef dut r).2 =
      ⟨(regFileAt cpuState dut).x, csrAt cpuState dut 0⟩ := by
  ext1
  · funext i
    have hi := i.isLt
    have hin : off cpuState "gpr" + 4 * i.toNat + 4 ≤ difftestRegSize := by
      rw [show off cpuState "gpr" = 0 by decide, difftestRegSize]
      omega
    change readLE _ (off isaGdbRegs "gpr" + 4 * i.toNat) 4 = _
    rw [off_gpr_isaGdbRegs, readLE_memcpy_inside hin]
    rfl
  · exact readLE_memcpy_inside (by decide)

/-! ## `rv32ima-diff` -/

theorem readLE_putCsrs (l : List (Word × Word)) (m : Memory) {b : Nat}
    (hb : b + 4 ≤ off cpuState "csr" ∨ off cpuState "amw" ≤ b) :
    readLE (l.foldl (fun m c =>
      writeLE m (off (minirv32Regs rva) "csr" + 4 * checkCsrIdx priv c.1) 4 c.2) m) b 4 =
      readLE m b 4 := by
  have hcsr : off cpuState "csr" = 128 := by decide
  have hamw : off cpuState "amw" = 384 := by decide
  induction l generalizing m with
  | nil => rfl
  | cons c l ih =>
    have hlt := checkCsrIdx_lt priv c.1
    rw [List.foldl_cons, ih, off_csr_minirv32Regs]
    exact readLE_writeLE_outside _ (by omega)

theorem stateBytes_gpr (i : Reg) : readLE (stateBytes s) (4 * i.toNat) 4 = s.regs i := by
  have hi : i.toNat < (gprWords s.regs).length := by
    rw [gprWords_length]
    exact i.isLt
  have hread := readLE_storeWords (fun _ => 0) (a := 0) (List.length_append ▸ Nat.lt_add_right 16 hi :
    i.toNat < (gprWords s.regs ++ [s.pc, s.mstatus, s.cyclel, s.cycleh, s.timerl, s.timerh,
      s.timermatchl, s.timermatchh, s.mscratch, s.mtvec, s.mie, s.mip, s.mepc, s.mtval, s.mcause,
      s.extraflags]).length)
  rw [Nat.zero_add, List.getElem_append_left hi] at hread
  exact hread.trans (gprWords_get ..)

/-- Without `CONFIG_RVA` the adapter's struct has no list pointer, and its `pc` is written where the
pointer is. -/
theorem minirv32_toDut (exec : MiniRV32IMAState → MiniRV32IMAState) :
    regFileAt cpuState ((minirv32Adapter rva priv exec).toDut s dut) =
      ⟨s.regs, if rva then s.pc else (regFileAt cpuState dut).pc⟩ := by
  have hgpr : off cpuState "gpr" = 0 := by decide
  have hcsr : off cpuState "csr" = 128 := by decide
  have hamw : off cpuState "amw" = 384 := by decide
  have hpc : off cpuState "pc" = 392 := by decide
  have hsize : difftestRegSize - 1 = 131 := by decide
  ext1
  · funext i
    have hi := i.isLt
    have hout : off cpuState "gpr" + 4 * i.toNat + 4 ≤ off (minirv32Regs rva) "pc" := by
      rw [off_pc_minirv32Regs]
      split <;> omega
    simp only [regFileAt, minirv32Adapter, tGetRegs]
    rw [readLE_putCsrs _ _ (.inl (by omega)), readLE_writeLE_outside _ (.inl hout),
      readLE_memcpy_inside (by omega), hgpr, Nat.zero_add, stateBytes_gpr]
  · simp only [regFileAt, minirv32Adapter, tGetRegs]
    rw [readLE_putCsrs _ _ (.inr (by omega)), off_pc_minirv32Regs]
    cases rva with
    | true => exact readLE_writeLE _ _ _
    | false =>
      simp only [Bool.false_eq_true, if_false]
      rw [readLE_writeLE_outside _ (.inr (by omega)), readLE_memcpy_outside (by omega),
        readLE_memcpy_outside (by omega)]

/-! ## Which transfers are right -/

/-- Each transfer by layout moves every general register; for each, when it moves the `pc`. -/
theorem transfer_iff (exec : RegFile → RegFile) (miniExec : MiniRV32IMAState → MiniRV32IMAState)
    (r : RegFile) (s : MiniRV32IMAState) (dut rest : Memory) (rva : Bool) (priv : PrivModes) :
    (regFileAt cpuState ((qemuAdapter exec rest).toDut r dut) = r ↔
      (regFileAt cpuState dut).pc = r.pc) ∧
    (((qemuAdapter exec rest).toRef dut r).2 = regFileAt cpuState dut ↔
      csrAt cpuState dut 0 = (regFileAt cpuState dut).pc) ∧
    (regFileAt cpuState ((minirv32Adapter rva priv miniExec).toDut s dut) = ⟨s.regs, s.pc⟩ ↔
      rva = true ∨ (regFileAt cpuState dut).pc = s.pc) := by
  rw [qemu_toDut, qemu_toRef, minirv32_toDut]
  refine ⟨?_, ?_, ?_⟩
  · rw [RegFile.ext_iff]
    exact and_iff_right rfl
  · rw [RegFile.ext_iff]
    exact and_iff_right rfl
  · rw [RegFile.ext_iff]
    cases rva <;> simp

/-- The program counter is lost on the way from a reference that stands at the reset vector. -/
theorem transfer_refuted : ¬∀ (r : RegFile) (dut rest : Memory),
    regFileAt cpuState ((qemuAdapter id rest).toDut r dut) = r := by
  intro h
  have hpc := congrArg RegFile.pc (h ⟨fun _ => 0, resetVector⟩ (fun _ => 0) fun _ => 0)
  revert hpc
  decide +kernel

end GsEmu.Difftest
