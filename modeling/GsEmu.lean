import GsEmu.Riscv32.Supervisor
import GsEmu.Riscv32.TrapEntry
import GsEmu.Riscv32.Interrupt
import GsEmu.Riscv32.Privilege
import GsEmu.Riscv32.Reservation
import GsEmu.Riscv32.Precise
import GsEmu.Difftest.CpuExec
import GsEmu.Difftest.Skipping
import GsEmu.Difftest.Agreement
import GsEmu.Riscv32.ProgramCounter
import GsEmu.Riscv32.Modes
import GsEmu.Riscv32.InstFrame
import GsEmu.Device.Confine
import GsEmu.Device.Storage
import GsEmu.Sdb.Value
import GsEmu.Sdb.Plan
import GsEmu.Sdb.Safety
import GsEmu.Device.Regions
import GsEmu.Riscv32.ReadOnly
import GsEmu.Device.SerialInput
import GsEmu.Device.SdStream
import GsEmu.Riscv32.InterruptEntry
import GsEmu.Riscv32.Delegation
import GsEmu.Difftest.Stopping
import GsEmu.Riscv32.MachineTime
import GsEmu.Riscv32.Encoding
import GsEmu.Riscv32.Multiply
import GsEmu.Riscv32.StatusStack
import GsEmu.Riscv32.TrapReturn
import GsEmu.Riscv32.CsrFile
import GsEmu.Riscv32.CsrForms
import GsEmu.Riscv32.Ordering
import GsEmu.Device.SdRead
import GsEmu.Difftest.TimerSync
import GsEmu.Lib.Regex
import GsEmu.Sdb.Tokenizer
import GsEmu.Sdb.Lexing
import GsEmu.Sdb.Spelling
import GsEmu.Difftest.Tolerance
import GsEmu.Sdb.Registers
import GsEmu.Riscv32.PatternCompile
import GsEmu.Riscv32.PatternOrder
import GsEmu.Lib.Ring
import GsEmu.Device.Keyboard
import GsEmu.Difftest.CatchUp
import GsEmu.Lib.Chain
import GsEmu.Riscv32.NodeList
import GsEmu.Lib.Blocks
import GsEmu.Monitor.LoadImg
import GsEmu.Difftest.GdbMemcpy
import GsEmu.Gdb.Packet
import GsEmu.Gdb.Framing
import GsEmu.Lib.StopAndWait
import GsEmu.Gdb.Link
import GsEmu.Gdb.Registers
import GsEmu.Gdb.Remote
import GsEmu.Device.SdHost
import GsEmu.Device.SdPio
import GsEmu.Device.SdRequests
import GsEmu.Difftest.RunTo
import GsEmu.Difftest.Prompt
import GsEmu.Difftest.Transparent
import GsEmu.Difftest.RefRam
import GsEmu.Device.Answers
import GsEmu.Difftest.Survival
import GsEmu.Difftest.Boot
import GsEmu.Difftest.Silent
