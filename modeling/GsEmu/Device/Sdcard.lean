import GsEmu.Device.Init
import GsEmu.Lib.ByteFile

/-! `sdcard.c`: the controller, its card image, and the word accesses that drive it. -/

namespace GsEmu.Riscv32
open Bytes

/-! ## The controller -/

def memorySize : Nat := 16 * 1024 * 1024 * 1024
def readBlLen : Nat := 15
def blockLen : Nat := 2 ^ readBlLen
def nrBlock : Nat := memorySize / blockLen
def cSizeMult : Nat := 7
def mult : Nat := 2 ^ (cSizeMult + 2)
def cSize : Nat := nrBlock / mult - 1

def sdcmd : Nat := 0
def sdarg : Nat := 1
def sdrsp0 : Nat := 4
def sdrsp1 : Nat := 5
def sdrsp2 : Nat := 6
def sdrsp3 : Nat := 7
def sddata : Nat := 16

def mmcGoIdleState : Word := 0
def mmcSendOpCond : Word := 1
def mmcAllSendCid : Word := 2
def mmcSetRelativeAddr : Word := 3
def mmcSleepAwake : Word := 5
def mmcSelectCard : Word := 7
def mmcSendExtCsd : Word := 8
def mmcSendCsd : Word := 9
def mmcStopTransmission : Word := 12
def mmcSendStatus : Word := 13
def mmcReadMultipleBlock : Word := 18
def mmcSetBlockCount : Word := 23
def mmcWriteMultipleBlock : Word := 25
def mmcAppCmd : Word := 55

/-- The globals of the file; `fp` is the card image, if there is one. -/
structure SdCard where
  fp : Option ByteFile
  blkcnt : Word
  blkAddr : Nat
  addr : Word
  writeCmd : Bool
  readExtCsd : Bool

def sdReg (base idx : Nat) (io : Io SdCard) : Word := readLE io.space (base + 4 * idx) 4

def setSdReg (base idx : Nat) (v : Word) (io : Io SdCard) : Io SdCard :=
  { io with space := writeLE io.space (base + 4 * idx) 4 v }

def prepareRw (base : Nat) (isWrite : Bool) (io : Io SdCard) : Io SdCard :=
  let blkAddr := (sdReg base sdarg io).toNat
  { io with dev := { io.dev with
      blkAddr := blkAddr
      addr := 0
      fp := io.dev.fp.map (·.seek (blkAddr <<< 9))
      writeCmd := isWrite } }

/-- `none` is the panic on a command that is not handled. -/
def sdcardHandleCmd (base : Nat) (cmd : Word) (io : Io SdCard) : Option (Io SdCard) :=
  if cmd = mmcGoIdleState then some io
  else if cmd = mmcSendOpCond then some (setSdReg base sdrsp0 0x80ff8000 io)
  else if cmd = mmcAllSendCid then
    some (setSdReg base sdrsp3 0x15000000 (setSdReg base sdrsp2 0 (setSdReg base sdrsp1 0
      (setSdReg base sdrsp0 1 io))))
  else if cmd = 52 then some io
  else if cmd = mmcSendCsd then
    some (setSdReg base sdrsp3 0x9026012a
      (setSdReg base sdrsp2 (0x0f508000 ||| BitVec.ofNat 32 (cSize >>> 2) |||
          BitVec.ofNat 32 (readBlLen <<< 16))
        (setSdReg base sdrsp1 (0x124b97e3 ||| BitVec.ofNat 32 ((cSize &&& 3) <<< 30))
          (setSdReg base sdrsp0 0x92404001 io))))
  else if cmd = mmcSendExtCsd then
    some { io with dev := { io.dev with readExtCsd := true, addr := 0 } }
  else if cmd = mmcSleepAwake then some io
  else if cmd = mmcAppCmd then some io
  else if cmd = mmcSetRelativeAddr then some io
  else if cmd = mmcSelectCard then some io
  else if cmd = mmcSetBlockCount then
    some { io with dev := { io.dev with blkcnt := sdReg base sdarg io &&& 0xffff } }
  else if cmd = mmcReadMultipleBlock then some (prepareRw base false io)
  else if cmd = mmcWriteMultipleBlock then some (prepareRw base true io)
  else if cmd = mmcSendStatus then
    some (setSdReg base sdrsp1 0 (setSdReg base sdrsp2 0 (setSdReg base sdrsp3 0
      (setSdReg base sdrsp0 0x900 io))))
  else if cmd = mmcStopTransmission then some io
  else none

def extCsdData (addr : Word) : Word :=
  if addr = 192 then 2 else if addr = 212 then BitVec.ofNat 32 (memorySize / 512) else 0

/-- `case SDDATA`; whether the access reads or writes plays no part. -/
def sdDataPort (base : Nat) (io : Io SdCard) : Io SdCard :=
  let io :=
    if io.dev.readExtCsd then
      let io := setSdReg base sddata (extCsdData io.dev.addr) io
      if io.dev.addr = 512 - 4 then { io with dev := { io.dev with readExtCsd := false } } else io
    else match io.dev.fp with
      | some fp =>
        if !io.dev.writeCmd then
          let (fp, space) := fp.readTo 4 io.space (base + 4 * sddata)
          { io with space := space, dev := { io.dev with fp := some fp } }
        else
          { io with dev := { io.dev with
              fp := some (fp.writeFrom 4 io.space (base + 4 * sddata)) } }
      | none => io
  { io with dev := { io.dev with addr := io.dev.addr + 4 } }

/-- The switch of `sdcard_io_handler`; `none` is the panic on an offset that is not handled. -/
def sdSwitch (base idx : Nat) (io : Io SdCard) : Option (Io SdCard) :=
  if idx = sdcmd then sdcardHandleCmd base (sdReg base sdcmd io &&& 0x3f) io
  else if idx = sdarg ∨ idx = sdrsp0 ∨ idx = sdrsp1 ∨ idx = sdrsp2 ∨ idx = sdrsp3 then some io
  else if idx = sddata then some (sdDataPort base io)
  else none

def sdcardIoHandler (base : Nat) : IoCallback SdCard := fun offset _ _ io =>
  sdSwitch base (offset.toNat / 4) io

def sdhciMapAt (base : Nat) : IOMap SdCard :=
  ⟨"sdhci", configSdcardCtlMmio, configSdcardCtlMmio + 0x80 - 1, base, some (sdcardIoHandler base)⟩

def initialCard (image : ByteFile) : SdCard := ⟨some (image.seek 0), 0, 0, 0, false, false⟩

/-! ## Word accesses -/

def sdRead (base idx : Nat) (io : Io SdCard) : Option (Word × Io SdCard) :=
  mapRead (configSdcardCtlMmio + BitVec.ofNat 32 (4 * idx)) 4 (sdhciMapAt base) io

def sdWrite (base idx : Nat) (v : Word) (io : Io SdCard) : Option (Io SdCard) :=
  mapWrite (configSdcardCtlMmio + BitVec.ofNat 32 (4 * idx)) 4 v (sdhciMapAt base) io

variable {base idx : Nat} {io io' : Io SdCard} {v : Word}

theorem mapInside_sdhci (hidx : idx < 32) :
    mapInside (sdhciMapAt base) (configSdcardCtlMmio + BitVec.ofNat 32 (4 * idx)) = true := by
  have hsd : configSdcardCtlMmio.toNat = 0xa3000000 := rfl
  have hlast : (configSdcardCtlMmio + 0x80 - 1).toNat = 0xa300007f := rfl
  refine decide_eq_true ⟨?_, ?_⟩
  · change configSdcardCtlMmio ≤ _
    rw [BitVec.le_def, BitVec.toNat_add, BitVec.toNat_ofNat, hsd]
    omega
  · change _ ≤ configSdcardCtlMmio + 0x80 - 1
    rw [BitVec.le_def, BitVec.toNat_add, BitVec.toNat_ofNat, hsd, hlast]
    omega

theorem sdcard_offset (hidx : idx < 32) : (configSdcardCtlMmio + BitVec.ofNat 32 (4 * idx) -
    (sdhciMapAt base).low).toNat = 4 * idx := by
  have hcancel : configSdcardCtlMmio + BitVec.ofNat 32 (4 * idx) - (sdhciMapAt base).low =
      BitVec.ofNat 32 (4 * idx) := add_sub_cancel_left _ _
  rw [hcancel, BitVec.toNat_ofNat, Nat.mod_eq_of_lt (by omega)]

theorem sdRead_eq (hidx : idx < 32) : sdRead base idx io =
    (sdSwitch base idx io).map fun io => (sdReg base idx io, io) := by
  obtain ⟨off, hoff⟩ : ∃ off, configSdcardCtlMmio + BitVec.ofNat 32 (4 * idx) -
      (sdhciMapAt base).low = off := ⟨_, rfl⟩
  have hnat : off.toNat = 4 * idx := hoff ▸ sdcard_offset hidx
  have hcall : invokeCallback (sdhciMapAt base) off 4 false io = sdSwitch base idx io := by
    change sdcardIoHandler base off 4 false io = _
    rw [sdcardIoHandler, hnat, Nat.mul_div_cancel_left idx (by decide)]
  have hspace : (sdhciMapAt base).space = base := rfl
  rw [sdRead, mapRead, if_pos ⟨by decide, by decide, mapInside_sdhci hidx⟩, hoff]
  simp only [hcall, hnat, hspace, Option.bind_eq_bind]
  cases sdSwitch base idx io <;> rfl

theorem sdWrite_eq (hidx : idx < 32) : sdWrite base idx v io =
    sdSwitch base idx (setSdReg base idx v io) := by
  obtain ⟨off, hoff⟩ : ∃ off, configSdcardCtlMmio + BitVec.ofNat 32 (4 * idx) -
      (sdhciMapAt base).low = off := ⟨_, rfl⟩
  have hnat : off.toNat = 4 * idx := hoff ▸ sdcard_offset hidx
  have hcall : ∀ io, invokeCallback (sdhciMapAt base) off 4 true io = sdSwitch base idx io := by
    intro io
    change sdcardIoHandler base off 4 true io = _
    rw [sdcardIoHandler, hnat, Nat.mul_div_cancel_left idx (by decide)]
  have hspace : (sdhciMapAt base).space = base := rfl
  rw [sdWrite, mapWrite, if_pos ⟨by decide, by decide, mapInside_sdhci hidx⟩, hoff]
  simp only [hcall, hnat, hspace]
  rfl

end GsEmu.Riscv32
