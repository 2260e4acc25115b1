import GsEmu.Difftest.MiniRv32ima
import GsEmu.Lib.Layout

/-! The reference adapters under `tools/`: their registers, the structs they lay over the emulator's
`CPU_state`, and `difftest_regcpy`. -/

namespace GsEmu.Difftest
open Bytes Layout Riscv32 MiniRv32ima

/-! ## Structs -/

def gprField : Field := ⟨"gpr", 32 * 4, 4⟩
def csrField : Field := ⟨"csr", 64 * 4, 4⟩
def amwField : Field := ⟨"amw", 8, 8⟩
def pcField : Field := ⟨"pc", 4, 4⟩

/-- `riscv32_CPU_state` on a 64-bit host. -/
def cpuState : List Field := [gprField, csrField, amwField, pcField]

/-- `diff_context_t` of `spike-diff`. -/
def diffContext : List Field := [gprField, csrField, amwField, pcField]

def isaGdbRegs : List Field := [gprField, pcField]

/-- `minirv32_regs` of `rv32ima-diff`, which builds with `CONFIG_RVZicsr` only. -/
def minirv32Regs (rva : Bool) : List Field :=
  [gprField, csrField] ++ (if rva then [amwField] else []) ++ [pcField]

def off (l : List Field) (x : String) : Nat := (offsetOf l x).getD 0

def difftestRegSize : Nat := 4 * (32 + 1)

@[ext] structure RegFile where
  x : Reg → Word
  pc : Word

def csrAt (l : List Field) (m : Memory) (k : Nat) : Word := readLE m (off l "csr" + 4 * k) 4

def regFileAt (l : List Field) (m : Memory) : RegFile where
  x i := readLE m (off l "gpr" + 4 * i.toNat) 4
  pc := readLE m (off l "pc") 4

def gprWords (x : Reg → Word) : List Word := List.ofFn fun i : Fin 32 => x (.ofFin i)

def putRegs (l : List Field) (r : RegFile) (m : Memory) : Memory :=
  writeLE (storeWords m (off l "gpr") (gprWords r.x)) (off l "pc") 4 r.pc

theorem gprWords_length (x : Reg → Word) : (gprWords x).length = 32 := List.length_ofFn

theorem gprWords_get (x : Reg → Word) (i : Reg) (h : i.toNat < (gprWords x).length) :
    (gprWords x).get ⟨i.toNat, h⟩ = x i :=
  List.getElem_ofFn ..

theorem regFileAt_putRegs {l : List Field} (hl : off l "gpr" + 128 ≤ off l "pc") (r : RegFile)
    (m : Memory) : regFileAt l (putRegs l r m) = r := by
  ext1
  · funext i
    have hi := i.isLt
    simp only [regFileAt, putRegs]
    have hlen : i.toNat < (gprWords r.x).length := by rwa [gprWords_length]
    rw [readLE_writeLE_outside _ (.inl (by omega)), readLE_storeWords _ hlen]
    exact gprWords_get ..
  · exact readLE_writeLE _ _ _

/-! ## `difftest_exec` and `difftest_regcpy` -/

/-- The entry points of a reference. `toRef` may also write to the buffer it is given. -/
structure Adapter (R : Type) where
  exec : R → R
  toRef : Memory → R → Memory × R
  toDut : R → Memory → Memory

structure SpikeState where
  regs : RegFile
  csrmap : Word → Word

def spikeDecode (ctx : Memory) : RegFile where
  x i := if i = 0 then 0 else (regFileAt diffContext ctx).x i
  pc := (regFileAt diffContext ctx).pc

def spikeGetRegs (c : Config) (r : SpikeState) (ctx : Memory) : Memory :=
  let m := putRegs diffContext r.regs ctx
  if c.rvZicsr then
    storeWords m (off diffContext "csr") ((csrIdxMap c.priv).map r.csrmap)
  else m

def spikeAdapter (c : Config) (exec : SpikeState → SpikeState) : Adapter SpikeState where
  exec := exec
  toRef ctx r := (ctx, { r with regs := spikeDecode ctx })
  toDut := spikeGetRegs c

/-- `gdb_getregs` over a link that delivers the register image unchanged; `rest` is what the words
after the registers decode to. -/
def gdbGetregs (r : RegFile) (rest : Memory) : Memory := putRegs isaGdbRegs r rest

def gdbSetregs (qemuR : Memory) : RegFile := regFileAt isaGdbRegs qemuR

def qemuAdapter (exec : RegFile → RegFile) (rest : Memory) : Adapter RegFile where
  exec := exec
  toRef dut r := (dut, gdbSetregs (memcpy (gdbGetregs r rest) dut difftestRegSize))
  toDut r dut := memcpy dut (gdbGetregs r rest) difftestRegSize

def stateBytes (s : MiniRV32IMAState) : Memory :=
  storeWords (fun _ => 0) 0
    (gprWords s.regs ++ [s.pc, s.mstatus, s.cyclel, s.cycleh, s.timerl, s.timerh, s.timermatchl,
      s.timermatchh, s.mscratch, s.mtvec, s.mie, s.mip, s.mepc, s.mtval, s.mcause, s.extraflags])

def miniCsrs (s : MiniRV32IMAState) : List (Word × Word) :=
  [(csrMepc, s.mepc), (csrMcause, s.mcause), (csrMie, s.mie), (csrMip, s.mip),
    (csrMscratch, s.mscratch), (csrMstatus, s.mstatus), (csrMtval, s.mtval), (csrMtvec, s.mtvec),
    (csrMvendorid, 0xff0ff0ff), (csrMisa, 0x40401101)]

def tGetRegs (rva : Bool) (priv : PrivModes) (s : MiniRV32IMAState) (st : Memory) : Memory :=
  let m := memcpy st (stateBytes s) (difftestRegSize - 1)
  let m := writeLE m (off (minirv32Regs rva) "pc") 4 s.pc
  (miniCsrs s).foldl
    (fun m c => writeLE m (off (minirv32Regs rva) "csr" + 4 * checkCsrIdx priv c.1) 4 c.2) m

/-- `regcpy` to this reference only reads its timer. -/
def minirv32Adapter (rva : Bool) (priv : PrivModes) (exec : MiniRV32IMAState → MiniRV32IMAState) :
    Adapter MiniRV32IMAState where
  exec := exec
  toRef dut s := (writeLE (writeLE dut 0 4 s.timerl) 4 4 s.timerh, s)
  toDut s dut :=
    tGetRegs rva priv s (memcpy dut (stateBytes s) (difftestRegSize - 1))

end GsEmu.Difftest
