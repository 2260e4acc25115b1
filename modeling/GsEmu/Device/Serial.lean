import GsEmu.Device.Init
import GsEmu.Lib.Format

/-! `serial.c`: the UART on the MMIO bus and the host's standard streams. -/

namespace GsEmu.Riscv32
open Bytes

/-! ## The device -/

def uartRx : Word := 0
def uartIer : Word := 1
def uartFcr : Word := 2
def uartLcr : Word := 3
def uartMcr : Word := 4
def uartLsr : Word := 5
def uartMsr : Word := 6

def uartIerRdi : Byte := 0x01
def uartIerThri : Byte := 0x02
def uartIerRlsi : Byte := 0x04
def uartIerMsi : Byte := 0x08
def uartFcrEnableFifo : Byte := 0x01
def uartFcrClearRcvr : Byte := 0x02
def uartFcrClearXmit : Byte := 0x04
def uartFcrTrigger4 : Byte := 0x40
def uartLcrWlen8 : Byte := 0x03
def uartLsrThre : Byte := 0x20
def uartLsrTemt : Byte := 0x40

def chOffset : Word := 0

/-- `is_eofd` and the host's side: the bytes that wait on stdin, whether it has ended, whether the empty write
of a query fails before and after the end, which of the `ioctl` calls fail, each with what `byteswaiting` then
happens to hold, how many queries there have been, and what has been printed, to stdout alone and to the
terminal that shows stderr too. -/
structure Uart where
  isEofd : Bool
  waiting : List Byte
  ended : Bool
  emptyWriteFails : Nat → Bool → Bool
  stale : Nat → Option Int
  queries : Nat
  stdout : List Byte
  terminal : List Byte

def serialReg (base : Nat) (off : Word) (io : Io Uart) : Byte := io.space (base + off.toNat)

def setSerialReg (base : Nat) (off : Word) (v : Byte) (io : Io Uart) : Io Uart :=
  { io with space := Function.update io.space (base + off.toNat) v }

/-- A `read` that has to wait for a byte is one after the byte has arrived; without one it returns none. -/
def readKBByte (base : Nat) (io : Io Uart) : Int × Io Uart :=
  if io.dev.isEofd then (-1, io)
  else match io.dev.waiting with
    | rxchar :: waiting => (rxchar.toInt,
        setSerialReg base uartRx rxchar { io with dev := { io.dev with waiting := waiting } })
    | [] => (-1, io)

def Uart.byteswaiting (u : Uart) : Int := (u.stale u.queries).getD u.waiting.length

def isKBHit (io : Io Uart) : Int × Io Uart :=
  if io.dev.isEofd then (-1, io)
  else if io.dev.byteswaiting = 0 ∧ io.dev.emptyWriteFails io.dev.queries io.dev.ended = true then
    (-1, { io with dev := { io.dev with queries := io.dev.queries + 1, isEofd := true } })
  else
    (if io.dev.byteswaiting = 0 then 0 else 1,
      { io with dev := { io.dev with queries := io.dev.queries + 1 } })

def serialPutc (ch : Byte) (io : Io Uart) : Io Uart :=
  { io with dev := { io.dev with
      stdout := io.dev.stdout ++ [ch], terminal := io.dev.terminal ++ [ch] } }

def serialGetc (base : Nat) (io : Io Uart) : Io Uart :=
  let (hit, io) := isKBHit io
  if hit ≠ 0 then (readKBByte base io).2 else io

def printErr (msg : List Byte) (io : Io Uart) : Io Uart :=
  { io with dev := { io.dev with terminal := io.dev.terminal ++ msg } }

def fcrMessage (isWrite : Bool) (targetVal : Byte) : List Byte :=
  if isWrite = true ∧ targetVal &&& (uartFcrEnableFifo ||| uartFcrClearRcvr ||| uartFcrClearXmit |||
      uartFcrTrigger4) ≠ 0 then text "FIFO init\n"
  else if isWrite = true ∧ targetVal &&& uartFcrEnableFifo ≠ 0 then text "Enable FIFO's\n"
  else if isWrite = true ∧ targetVal &&& uartFcrClearRcvr ≠ 0 then text "Clear receiver FIFO\n"
  else if isWrite = true ∧ targetVal &&& uartFcrClearXmit ≠ 0 then text "Clear transmitter FIFO\n"
  else if isWrite = true ∧ targetVal &&& uartFcrTrigger4 ≠ 0 then text "Set FIFO trigger at 4-bytes\n"
  else []

def ierMessage (isWrite : Bool) (targetVal : Byte) : List Byte :=
  (if isWrite = true ∧ targetVal &&& uartIerRdi ≠ 0 then text "Enable receiver data interrupt\n"
  else if isWrite = true ∧ targetVal &&& uartIerThri ≠ 0 then
    text "Enable Transmitter holding register int\n"
  else if isWrite = true ∧ targetVal &&& uartIerRlsi ≠ 0 then
    text "Enable receiver line status interrupt\n"
  else if isWrite = true ∧ targetVal &&& uartIerMsi ≠ 0 then text "Enable Modem status interrupt\n"
  else []) ++ text "UART IER NULL\n"

def otherMessage (offset : Word) (isWrite : Bool) (v : Byte) : List Byte :=
  text "other offset " ++ hexPadded 2 offset.toNat ++ text " write is " ++ dec isWrite.toNat ++
    text " val is " ++ dec v.toNat ++ text " " ++ [if v ≠ 12 then v else 12] ++ text "\n"

/-- `serial_io_handler`; the length of the access plays no part. -/
def serialSwitch (base : Nat) (offset : Word) (isWrite : Bool) (io : Io Uart) : Io Uart :=
  let targetVal := serialReg base offset io
  if offset = chOffset then
    if isWrite then serialPutc (serialReg base 0 io) io else serialGetc base io
  else if offset = uartFcr then
    setSerialReg base offset 0 (printErr (fcrMessage isWrite targetVal) io)
  else if offset = uartLcr then
    if isWrite then
      let io := printErr (text "write uart lcr val is " ++ hexPadded 2 targetVal.toNat ++ text "\n") io
      if targetVal = uartLcrWlen8 then setSerialReg base offset 0 (printErr (text "uart set 8n1 mode\n") io)
      else io
    else printErr (text "read uart lcr val is " ++ hexPadded 2 targetVal.toNat ++ text "\n") io
  else if offset = uartLsr then
    if isWrite then printErr (text "write uart lsr val is " ++ hexPadded 2 targetVal.toNat ++ text "\n") io
    else
      let io := printErr (text "read uart lsr val is " ++ hexPadded 2 targetVal.toNat ++ text "\n") io
      let (hit, io) := isKBHit io
      setSerialReg base offset ((uartLsrTemt ||| uartLsrThre) ||| BitVec.ofInt 8 hit) io
  else if offset = uartIer then
    setSerialReg base uartIer 0 (printErr (ierMessage isWrite targetVal) io)
  else if offset = uartMcr then
    setSerialReg base uartMcr 0 (printErr (if isWrite then
      text "uart MCR val is " ++ hexPadded 2 targetVal.toNat ++ text " !! null \n" else []) io)
  else if offset = uartMsr then setSerialReg base uartMsr 0 io
  else setSerialReg base offset 0 (printErr (otherMessage offset isWrite targetVal) io)

def serialIoHandler (base : Nat) : IoCallback Uart := fun offset _ isWrite io =>
  some (serialSwitch base offset isWrite io)

def serialMapAt (base : Nat) : IOMap Uart :=
  ⟨"serial", configSerialMmio, configSerialMmio + 0x1000 - 1, base, some (serialIoHandler base)⟩

/-! ## Byte accesses -/

def serialRead (base : Nat) (off : Word) (io : Io Uart) : Option (Byte × Io Uart) := do
  let (v, io) ← mapRead (configSerialMmio + off) 1 (serialMapAt base) io
  return (v.setWidth 8, io)

def serialWrite (base : Nat) (off : Word) (v : Byte) (io : Io Uart) : Option (Io Uart) :=
  mapWrite (configSerialMmio + off) 1 (v.setWidth 32) (serialMapAt base) io

variable {base : Nat} {io io' : Io Uart} {off : Word} {v : Byte} {w : Bool}

theorem mapInside_serial (hoff : off < 0x1000) :
    mapInside (serialMapAt base) (configSerialMmio + off) = true := by
  have hserial : configSerialMmio.toNat = 0xa00003f8 := rfl
  have hlast : (configSerialMmio + 0x1000 - 1).toNat = 0xa00013f7 := rfl
  have hlt : off.toNat < 0x1000 := hoff
  refine decide_eq_true ⟨?_, ?_⟩
  · change configSerialMmio ≤ _
    rw [BitVec.le_def, BitVec.toNat_add, hserial]
    omega
  · change _ ≤ configSerialMmio + 0x1000 - 1
    rw [BitVec.le_def, BitVec.toNat_add, hserial, hlast]
    omega

theorem serialRead_eq (hoff : off < 0x1000) : serialRead base off io =
    some (serialReg base off (serialSwitch base off false io), serialSwitch base off false io) := by
  have hcancel : configSerialMmio + off - (serialMapAt base).low = off := add_sub_cancel_left _ _
  have hbyte : ∀ b : Byte, (((0 : Word) <<< 8) ||| b.setWidth 32).setWidth 8 = b := by
    intro b
    apply BitVec.eq_of_getLsbD_eq
    intro i hi
    simp [hi]
  rw [serialRead, mapRead, if_pos ⟨le_rfl, by decide, mapInside_serial hoff⟩, hcancel]
  change some (((readLE _ _ 1).setWidth 8), _) = _
  rw [readLE, readLE, hbyte]
  rfl

theorem serialWrite_eq (hoff : off < 0x1000) : serialWrite base off v io =
    some (serialSwitch base off true (setSerialReg base off v io)) := by
  have hcancel : configSerialMmio + off - (serialMapAt base).low = off := add_sub_cancel_left _ _
  have hstore : writeLE io.space (base + off.toNat) 1 (v.setWidth 32) =
      Function.update io.space (base + off.toNat) v := by
    funext x
    rw [writeLE, Function.update_apply]
    by_cases hx : x = base + off.toNat
    · rw [if_pos (by omega), if_pos hx, hx, Nat.sub_self]
      simp
    · rw [if_neg (by omega), if_neg hx]
  rw [serialWrite, mapWrite, if_pos ⟨le_rfl, by decide, mapInside_serial hoff⟩, hcancel]
  change some (serialSwitch base off true { io with space := writeLE io.space (base + off.toNat) 1 _ }) = _
  rw [hstore]
  rfl

/-! ## What the handler does -/

theorem serialReg_setSerialReg {off' : Word} :
    serialReg base off' (setSerialReg base off v io) = if off' = off then v else serialReg base off' io := by
  rw [serialReg, setSerialReg]
  change Function.update io.space (base + off.toNat) v (base + off'.toNat) = _
  rw [Function.update_apply]
  have heq : base + off'.toNat = base + off.toNat ↔ off' = off := by
    rw [Nat.add_left_cancel_iff, BitVec.toNat_inj]
  simp only [heq]
  rfl

theorem isKBHit_cases (io : Io Uart) :
    ∃ e n, (isKBHit io).2 = { io with dev := { io.dev with isEofd := e, queries := n } } := by
  unfold isKBHit
  split
  · exact ⟨_, _, rfl⟩
  · dsimp only
    split <;> exact ⟨_, _, rfl⟩

theorem serialGetc_cases (base : Nat) (io : Io Uart) : ∃ e n,
    serialGetc base io = { io with dev := { io.dev with isEofd := e, queries := n } } ∨
    ∃ b bs, serialGetc base io = setSerialReg base uartRx b
      { io with dev := { io.dev with isEofd := e, queries := n, waiting := bs } } := by
  obtain ⟨e, n, hhit⟩ := isKBHit_cases io
  refine ⟨e, n, ?_⟩
  unfold serialGetc
  dsimp only
  rw [hhit]
  split
  · unfold readKBByte
    split
    · exact .inl rfl
    · split
      · exact .inr ⟨_, _, rfl⟩
      · exact .inl rfl
  · exact .inl rfl

theorem printErr_nil (io : Io Uart) : printErr [] io = io := by
  rw [printErr, List.append_nil]

theorem printErr_printErr (msg msg' : List Byte) (io : Io Uart) :
    printErr msg' (printErr msg io) = printErr (msg ++ msg') io := by
  simp only [printErr, List.append_assoc]

def serialMessage (offset : Word) (isWrite : Bool) (targetVal : Byte) : List Byte :=
  if offset = chOffset then []
  else if offset = uartFcr then fcrMessage isWrite targetVal
  else if offset = uartLcr then
    text (if isWrite then "write uart lcr val is " else "read uart lcr val is ") ++
      hexPadded 2 targetVal.toNat ++ text "\n" ++
        if isWrite = true ∧ targetVal = uartLcrWlen8 then text "uart set 8n1 mode\n" else []
  else if offset = uartLsr then
    text (if isWrite then "write uart lsr val is " else "read uart lsr val is ") ++
      hexPadded 2 targetVal.toNat ++ text "\n"
  else if offset = uartIer then ierMessage isWrite targetVal
  else if offset = uartMcr then
    if isWrite then text "uart MCR val is " ++ hexPadded 2 targetVal.toNat ++ text " !! null \n" else []
  else if offset = uartMsr then []
  else otherMessage offset isWrite targetVal

theorem serialSwitch_cases (base : Nat) (off : Word) (w : Bool) (io : Io Uart) :
    off = chOffset ∧ w = true ∧ serialSwitch base off w io = serialPutc (serialReg base 0 io) io ∨
    off = chOffset ∧ w = false ∧ serialSwitch base off w io = serialGetc base io ∨
    ∃ io₁, io₁ = printErr (serialMessage off w (serialReg base off io)) io ∧ off ≠ chOffset ∧
      (off = uartLsr ∧ w = false ∧ serialSwitch base off w io = setSerialReg base off
          ((uartLsrTemt ||| uartLsrThre) ||| BitVec.ofInt 8 (isKBHit io₁).1) (isKBHit io₁).2 ∨
        serialSwitch base off w io = io₁ ∨
        (off = uartLcr → serialReg base off io = uartLcrWlen8) ∧
          serialSwitch base off w io = setSerialReg base off 0 io₁) := by
  unfold serialSwitch serialMessage
  dsimp only
  by_cases hch : off = chOffset
  · rw [if_pos hch]
    cases w with
    | true => exact .inl ⟨hch, rfl, rfl⟩
    | false => exact .inr (.inl ⟨hch, rfl, rfl⟩)
  refine .inr (.inr ⟨_, rfl, hch, ?_⟩)
  rw [if_neg hch, if_neg hch]
  by_cases hfcr : off = uartFcr
  · rw [if_pos hfcr, if_pos hfcr]
    exact .inr (.inr ⟨fun h => absurd (hfcr.symm.trans h) (by decide), rfl⟩)
  rw [if_neg hfcr, if_neg hfcr]
  by_cases hlcr : off = uartLcr
  · rw [if_pos hlcr, if_pos hlcr]
    cases w with
    | true =>
      by_cases hval : serialReg base off io = uartLcrWlen8
      · simp only [if_true, hval, true_and, printErr_printErr, List.append_assoc]
        exact .inr (.inr ⟨fun _ => trivial, trivial⟩)
      · simp only [if_true, hval, and_false, if_false, List.append_nil]
        exact .inr (.inl trivial)
    | false =>
      simp only [Bool.false_eq_true, if_false, false_and, List.append_nil]
      exact .inr (.inl trivial)
  rw [if_neg hlcr, if_neg hlcr]
  by_cases hlsr : off = uartLsr
  · rw [if_pos hlsr, if_pos hlsr]
    cases w with
    | true => exact .inr (.inl rfl)
    | false => exact .inl ⟨hlsr, rfl, rfl⟩
  rw [if_neg hlsr, if_neg hlsr]
  refine .inr (.inr ⟨fun h => absurd h hlcr, ?_⟩)
  by_cases hier : off = uartIer
  · rw [if_pos hier, if_pos hier, hier]
  rw [if_neg hier, if_neg hier]
  by_cases hmcr : off = uartMcr
  · rw [if_pos hmcr, if_pos hmcr, hmcr]
  rw [if_neg hmcr, if_neg hmcr]
  by_cases hmsr : off = uartMsr
  · rw [if_pos hmsr, if_pos hmsr, hmsr, printErr_nil]
  · rw [if_neg hmsr, if_neg hmsr]

end GsEmu.Riscv32
