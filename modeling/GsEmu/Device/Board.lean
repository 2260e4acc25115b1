import GsEmu.Device.Clint
import GsEmu.Device.Serial

/-! The devices of the default build with their handlers, where `init_device` places them, and
`device_update`. -/

namespace GsEmu.Riscv32
open Bytes

/-! ## The handlers -/

def keyQueueLen : Nat := 1024

/-- The state of the devices outside the I/O space: the UART and the standard streams, what the host's
clock shows at each reading and how often it has been read, and the queue of keys. -/
structure Devices where
  uart : Uart
  getTime : Nat → BitVec 64
  readings : Nat
  keyQueue : Nat → Word
  keyF : Fin keyQueueLen
  keyR : Fin keyQueueLen

def serialBase : Nat := 0
def rtcPortBase : Nat := 0x1000
def vgactlPortBase : Nat := 0x2000
def vmemBase : Nat := 0x3000
def i8042DataPortBase : Nat := 0x79000
def audioBase : Nat := 0x7a000
def sbufBase : Nat := 0x7b000
def clintPortBase : Nat := 0x8b000
def sysconBase : Nat := 0x8c000

def keydownMask : Word := 0x8000
def nemuKeyNone : Word := 0

def onUart (c : IoCallback Uart) : IoCallback Devices := fun offset len isWrite io =>
  (c offset len isWrite ⟨io.space, io.dev.uart⟩).map fun u => ⟨u.space, { io.dev with uart := u.dev }⟩

def rtcIoHandler : IoCallback Devices := fun offset _ isWrite io =>
  if offset = 0 ∨ offset = 4 then
    if isWrite = false ∧ offset = 4 then
      let us := io.dev.getTime io.dev.readings
      some
        { space := writeLE (writeLE io.space rtcPortBase 4 (us.setWidth 32)) (rtcPortBase + 4) 4
            ((us >>> 32).setWidth 32)
          dev := { io.dev with readings := io.dev.readings + 1 } }
    else some io
  else none

def keyNext (i : Fin keyQueueLen) : Fin keyQueueLen := ⟨(i.val + 1) % keyQueueLen, Nat.mod_lt _ (by decide)⟩

def keyDequeue (d : Devices) : Word × Devices :=
  if d.keyF ≠ d.keyR then (d.keyQueue d.keyF, { d with keyF := keyNext d.keyF }) else (nemuKeyNone, d)

/-- `none` is one of the two failed assertions. -/
def i8042DataIoHandler : IoCallback Devices := fun offset _ isWrite io =>
  if isWrite = false ∧ offset = 0 then
    let (key, d) := keyDequeue io.dev
    some ⟨writeLE io.space i8042DataPortBase 4 key, d⟩
  else none

def audioIoHandler : IoCallback Devices := fun _ _ _ io => some io

def printOut (msg : List Byte) (d : Devices) : Devices :=
  { d with uart := { d.uart with stdout := d.uart.stdout ++ msg, terminal := d.uart.terminal ++ msg } }

def sysconIoHandler : IoCallback Devices := fun offset _ isWrite io =>
  if offset = 0 ∨ offset = 4 then
    if isWrite = true ∧ offset = 0 then
      if readLE io.space sysconBase 4 = 0x7777 then some ⟨io.space, printOut (text "reboot\n") io.dev⟩
      else if readLE io.space sysconBase 4 = 0x5555 then
        some ⟨io.space, printOut (text "shutdown\n") io.dev⟩
      else some io
    else some io
  else none

/-- The default build has no SD card. -/
def defaultHandlers : Handlers Devices where
  serialIoHandler := onUart (serialIoHandler serialBase)
  rtcIoHandler := rtcIoHandler
  i8042DataIoHandler := i8042DataIoHandler
  audioIoHandler := audioIoHandler
  sdcardIoHandler := fun _ _ _ _ => none
  clintIoHandler := clintIoHandler
  sysconIoHandler := sysconIoHandler

/-! ## The maps -/

def defaultMaps : List (IOMap Devices) :=
  [(serialWindow defaultHandlers).toMap serialBase, (rtcWindow defaultHandlers).toMap rtcPortBase,
    vgactlWindow.toMap vgactlPortBase, (vmemWindow .size400x300).toMap vmemBase,
    (keyboardWindow defaultHandlers).toMap i8042DataPortBase, (audioWindow defaultHandlers).toMap audioBase,
    audioSbufWindow.toMap sbufBase, (clintWindow defaultHandlers).toMap clintPortBase,
    (sysconWindow defaultHandlers).toMap sysconBase]

theorem initDevice_default :
    (initDevice defaultHandlers defaultDevices).map Setup.maps = some defaultMaps := by
  have hsome : (initDevice defaultHandlers defaultDevices).isSome = true := by decide +kernel
  obtain ⟨s, hs⟩ := Option.isSome_iff_exists.mp hsome
  have hall : registerAll (windows defaultHandlers defaultDevices) initMap = some s := by
    rw [← initDevice_eq, hs]
  rw [hs, Option.map_some, (registerAll_maps hall).1]
  rfl

def defaultBoard : Platform Devices := { Config.default with maps := defaultMaps }

theorem defaultBoard_clint : ClintAt defaultBoard.maps clintPortBase := by
  obtain ⟨s, hs, hmaps⟩ := Option.map_eq_some_iff.mp initDevice_default
  have hmem : (clintMapAt clintPortBase : IOMap Devices) ∈ defaultMaps := by
    simp only [defaultMaps, List.mem_cons]
    exact .inr (.inr (.inr (.inr (.inr (.inr (.inr (.inl rfl)))))))
  intro a ha
  exact (hmaps ▸ initDevice_registered hs).find (List.Perm.refl _) hmem ha

/-! ## `device_update` -/

def clintUpdate {D : Type} (base : Nat) (io : Io D) : Io D :=
  let t := mtime base io + 1
  setClintWord base mtimehi ((t >>> 32).setWidth 32) (setClintWord base mtimelo (t.setWidth 32) io)

/-- An event of the window; the scan code of a key has been looked up in `keymap`. -/
inductive SdlEvent
  | quit
  | key (amKey : Word) (isKeydown : Bool)
  | other

def SdlEvent.closes : SdlEvent → Bool
  | .quit => true
  | _ => false

/-- `none` is the assertion against an overflow. -/
def keyEnqueue (amScancode : Word) (d : Devices) : Option Devices :=
  let d := { d with keyQueue := Function.update d.keyQueue d.keyR amScancode, keyR := keyNext d.keyR }
  if d.keyR ≠ d.keyF then some d else none

def sendKey (amKey : Word) (isKeydown : Bool) (st : State Devices) : Option (State Devices) :=
  if st.nemuState.state = .nemuRunning ∧ amKey ≠ nemuKeyNone then
    (keyEnqueue (amKey ||| if isKeydown then keydownMask else 0) st.io.dev).map fun d =>
      { st with io := { st.io with dev := d } }
  else some st

def handleEvent (st : State Devices) : SdlEvent → Option (State Devices)
  | .quit => some { st with nemuState := { st.nemuState with state := .nemuQuit } }
  | .key amKey isKeydown => sendKey amKey isKeydown st
  | .other => some st

/-- The part behind the test of the host's clock. Drawing the screen reads `vmem` and writes nothing that
is modelled. -/
def deviceUpdate (events : List SdlEvent) (st : State Devices) : Option (State Devices) :=
  events.foldlM handleEvent { st with io := clintUpdate clintPortBase st.io }

end GsEmu.Riscv32
