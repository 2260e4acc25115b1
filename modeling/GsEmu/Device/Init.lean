import GsEmu.Device.Ram
import GsEmu.Lib.Bump
import Mathlib.Order.Interval.Set.Disjoint

/-! `init_device`: the I/O space that each device takes and the window it registers for it. What the
`init` functions store in their new space is left out. -/

namespace GsEmu.Riscv32
open Bytes Layout

variable {D : Type}

def pageSize : Nat := 4096
def ioSpaceMax : Nat := 2 * 1024 * 1024
def nrMap : Nat := 16

def configSerialMmio : Word := 0xa00003f8
def configRtcMmio : Word := 0xa0000048
def configI8042DataMmio : Word := 0xa0000060
def configFbAddr : Word := 0xa1000000
def configVgaCtlMmio : Word := 0xa0000100
def configSbAddr : Word := 0xa1200000
def configSbSize : Nat := 0x10000
def configAudioCtlMmio : Word := 0xa0000200
def configSdcardCtlMmio : Word := 0xa3000000
def configSysconMmio : Word := 0x11100000

inductive VgaSize
  | size400x300
  | size800x600
  | size1600x1200
  deriving DecidableEq

def screenWidth : VgaSize → Nat
  | .size400x300 => 400
  | .size800x600 => 800
  | .size1600x1200 => 1600

def screenHeight : VgaSize → Nat
  | .size400x300 => 300
  | .size800x600 => 600
  | .size1600x1200 => 1200

def screenSize (v : VgaSize) : Nat := screenWidth v * screenHeight v * 4

structure DeviceConfig where
  hasSerial : Bool
  hasTimer : Bool
  hasVga : Bool
  hasKeyboard : Bool
  hasAudio : Bool
  hasDisk : Bool
  hasSdcard : Bool
  hasClint : Bool
  hasSyscon : Bool
  vgaSize : VgaSize

abbrev IoCallback (D : Type) := Word → Nat → Bool → Io D → Option (Io D)

structure Handlers (D : Type) where
  serialIoHandler : IoCallback D
  rtcIoHandler : IoCallback D
  i8042DataIoHandler : IoCallback D
  audioIoHandler : IoCallback D
  sdcardIoHandler : IoCallback D
  clintIoHandler : IoCallback D
  sysconIoHandler : IoCallback D

structure Setup (D : Type) where
  pSpace : Nat
  maps : List (IOMap D)

def initMap : Setup D := ⟨0, []⟩

def newSpace (size : Nat) (s : Setup D) : Option (Nat × Setup D) :=
  let p := s.pSpace
  let s := { s with pSpace := p + roundUp size pageSize }
  if s.pSpace < ioSpaceMax then some (p, s) else none

/-- `none` is the failed assertion or one of the two overlap panics. -/
def addMmioMap (name : String) (addr : Word) (space : Nat) (len : Word)
    (callback : Option (IoCallback D)) (s : Setup D) : Option (Setup D) :=
  let left := addr
  let right := addr + len - 1
  if nrMap ≤ s.maps.length then none
  else if inPmem left || inPmem right then none
  else if s.maps.any fun m => decide (left ≤ m.high ∧ m.low ≤ right) then none
  else some { s with maps := s.maps ++ [⟨name, addr, addr + len - 1, space, callback⟩] }

structure Window (D : Type) where
  name : String
  addr : Word
  size : Nat
  len : Word
  callback : Option (IoCallback D)

def register (w : Window D) (s : Setup D) : Option (Setup D) := do
  let (p, s) ← newSpace w.size s
  addMmioMap w.name w.addr p w.len w.callback s

section devices
variable (H : Handlers D) (v : VgaSize) (s : Setup D)

def serialWindow : Window D := ⟨"serial", configSerialMmio, 8, 0x1000, some H.serialIoHandler⟩
def rtcWindow : Window D := ⟨"rtc", configRtcMmio, 8, 8, some H.rtcIoHandler⟩
def vgactlWindow : Window D := ⟨"vgactl", configVgaCtlMmio, 8, 8, none⟩
def vmemWindow : Window D :=
  ⟨"vmem", configFbAddr, screenSize v, BitVec.ofNat 32 (screenSize v), none⟩
def keyboardWindow : Window D :=
  ⟨"keyboard", configI8042DataMmio, 4, 4, some H.i8042DataIoHandler⟩
def audioWindow : Window D := ⟨"audio", configAudioCtlMmio, 24, 24, some H.audioIoHandler⟩
def audioSbufWindow : Window D :=
  ⟨"audio-sbuf", configSbAddr, configSbSize, BitVec.ofNat 32 configSbSize, none⟩
def sdhciWindow : Window D := ⟨"sdhci", configSdcardCtlMmio, 0x80, 0x80, some H.sdcardIoHandler⟩
def clintWindow : Window D := ⟨"clint", configClintMmio, 8, 0x10000, some H.clintIoHandler⟩
def sysconWindow : Window D := ⟨"syscon", configSysconMmio, 8, 0x1000, some H.sysconIoHandler⟩

def initSerial : Option (Setup D) := register (serialWindow H) s

def initTimer : Option (Setup D) := register (rtcWindow H) s

def initVga : Option (Setup D) := do
  let s ← register vgactlWindow s
  register (vmemWindow v) s

def initI8042 : Option (Setup D) := register (keyboardWindow H) s

def initAudio : Option (Setup D) := do
  let s ← register (audioWindow H) s
  register audioSbufWindow s

def initDisk : Option (Setup D) := some s

def initSdcard : Option (Setup D) := register (sdhciWindow H) s

def initClint : Option (Setup D) := register (clintWindow H) s

def initSyscon : Option (Setup D) := register (sysconWindow H) s

end devices

def ifdef (b : Bool) (init : Setup D → Option (Setup D)) (s : Setup D) : Option (Setup D) :=
  if b then init s else some s

/-- `none` where some assertion or overlap check fails. -/
def initDevice (H : Handlers D) (c : DeviceConfig) : Option (Setup D) := do
  let s := initMap
  let s ← ifdef c.hasSerial (initSerial H) s
  let s ← ifdef c.hasTimer (initTimer H) s
  let s ← ifdef c.hasVga (initVga c.vgaSize) s
  let s ← ifdef c.hasKeyboard (initI8042 H) s
  let s ← ifdef c.hasAudio (initAudio H) s
  let s ← ifdef c.hasDisk initDisk s
  let s ← ifdef c.hasSdcard (initSdcard H) s
  let s ← ifdef c.hasClint (initClint H) s
  ifdef c.hasSyscon (initSyscon H) s

/-! ## The windows of a build, in order -/

def registerAll (ws : List (Window D)) (s : Setup D) : Option (Setup D) :=
  ws.foldlM (fun s w => register w s) s

def windows (H : Handlers D) (c : DeviceConfig) : List (Window D) :=
  (if c.hasSerial then [serialWindow H] else []) ++
  ((if c.hasTimer then [rtcWindow H] else []) ++
  ((if c.hasVga then [vgactlWindow, vmemWindow c.vgaSize] else []) ++
  ((if c.hasKeyboard then [keyboardWindow H] else []) ++
  ((if c.hasAudio then [audioWindow H, audioSbufWindow] else []) ++
  ((if c.hasSdcard then [sdhciWindow H] else []) ++
  ((if c.hasClint then [clintWindow H] else []) ++
  (if c.hasSyscon then [sysconWindow H] else [])))))))

theorem toNat_last {addr len : Word} (hpos : 0 < len.toNat) (hfit : addr.toNat + len.toNat ≤ 2 ^ 32) :
    (addr + len - 1).toNat = addr.toNat + len.toNat - 1 := by
  have heq : addr + len - 1 = addr + (len - 1) := add_sub_assoc _ _ _
  have hle : (1 : Word) ≤ len := BitVec.le_def.mpr hpos
  rw [heq, BitVec.toNat_add, BitVec.toNat_sub_of_le hle]
  change (addr.toNat + (len.toNat - 1)) % 2 ^ 32 = _
  rw [Nat.mod_eq_of_lt (by omega)]
  omega

theorem registerAll_append (ws us : List (Window D)) (s : Setup D) :
    registerAll (ws ++ us) s = (registerAll ws s).bind (registerAll us) :=
  List.foldlM_append

theorem ifdef_eq {b : Bool} {init : Setup D → Option (Setup D)} {ws : List (Window D)}
    (h : ∀ s, init s = registerAll ws s) (s : Setup D) :
    ifdef b init s = registerAll (if b then ws else []) s := by
  cases b with
  | true => exact h s
  | false => rfl

theorem register_eq (w : Window D) (s : Setup D) : register w s = registerAll [w] s := by
  unfold registerAll
  rw [List.foldlM_cons]
  cases register w s <;> rfl

theorem register_two_eq (w u : Window D) (s : Setup D) :
    (register w s).bind (register u) = registerAll [w, u] s := by
  rw [register_eq w]
  change _ = registerAll ([w] ++ [u]) s
  rw [registerAll_append]
  exact congrArg _ (funext fun t => register_eq u t)

theorem initDevice_eq (H : Handlers D) (c : DeviceConfig) :
    initDevice H c = registerAll (windows H c) initMap := by
  have hserial : ∀ s, ifdef c.hasSerial (initSerial H) s =
      registerAll (if c.hasSerial then [serialWindow H] else []) s := ifdef_eq (register_eq _)
  have htimer : ∀ s, ifdef c.hasTimer (initTimer H) s =
      registerAll (if c.hasTimer then [rtcWindow H] else []) s := ifdef_eq (register_eq _)
  have hvga : ∀ s : Setup D, ifdef c.hasVga (initVga c.vgaSize) s =
      registerAll (if c.hasVga then [vgactlWindow, vmemWindow c.vgaSize] else []) s :=
    ifdef_eq (register_two_eq _ _)
  have hkeyboard : ∀ s, ifdef c.hasKeyboard (initI8042 H) s =
      registerAll (if c.hasKeyboard then [keyboardWindow H] else []) s := ifdef_eq (register_eq _)
  have haudio : ∀ s, ifdef c.hasAudio (initAudio H) s =
      registerAll (if c.hasAudio then [audioWindow H, audioSbufWindow] else []) s :=
    ifdef_eq (register_two_eq _ _)
  have hdisk : ∀ s : Setup D, ifdef c.hasDisk initDisk s = some s := by
    intro s
    cases c.hasDisk <;> rfl
  have hsdcard : ∀ s, ifdef c.hasSdcard (initSdcard H) s =
      registerAll (if c.hasSdcard then [sdhciWindow H] else []) s := ifdef_eq (register_eq _)
  have hclint : ∀ s, ifdef c.hasClint (initClint H) s =
      registerAll (if c.hasClint then [clintWindow H] else []) s := ifdef_eq (register_eq _)
  have hsyscon : ∀ s, ifdef c.hasSyscon (initSyscon H) s =
      registerAll (if c.hasSyscon then [sysconWindow H] else []) s := ifdef_eq (register_eq _)
  simp only [windows, registerAll_append, ← hserial, ← htimer, ← hvga, ← hkeyboard, ← haudio,
    ← hsdcard, ← hclint, ← hsyscon]
  unfold initDevice
  simp only [hdisk]
  rfl

end GsEmu.Riscv32
