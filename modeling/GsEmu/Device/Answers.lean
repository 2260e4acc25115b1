import GsEmu.Device.Board
import GsEmu.Device.Confine

/-! The memory map of the default build as a guest sees it: which accesses return and which of them end the
emulator in a failed assertion. -/

namespace GsEmu.Riscv32

/-! ## The addresses -/

def InWindow (addr : Word) (len : Nat) (a : Word) : Prop := addr.toNat ≤ a.toNat ∧ a.toNat < addr.toNat + len

instance (addr : Word) (len : Nat) (a : Word) : Decidable (InWindow addr len a) :=
  inferInstanceAs (Decidable (_ ∧ _))

/-- RAM, and of the registers those at which no handler asserts. -/
def Answered (isWrite : Bool) (a : Word) : Prop :=
  InWindow configMbase configMsize.toNat a ∨
  InWindow configSerialMmio 0x1000 a ∨
  (a = configRtcMmio ∨ a = configRtcMmio + 4) ∨
  InWindow configVgaCtlMmio 8 a ∨
  InWindow configFbAddr (screenSize .size400x300) a ∨
  (isWrite = false ∧ a = configI8042DataMmio) ∨
  InWindow configAudioCtlMmio 24 a ∨
  InWindow configSbAddr configSbSize a ∨
  InWindow configClintMmio 0x10000 a ∨
  (a = configSysconMmio ∨ a = configSysconMmio + 4)

instance (isWrite : Bool) (a : Word) : Decidable (Answered isWrite a) := inferInstanceAs (Decidable (_ ∨ _))

/-! ## The handlers -/

/-- The accesses, by direction and offset, that the handler of a map takes; neither the length nor the state of
the devices plays a part. -/
structure Port where
  map : IOMap Devices
  takes : Bool → Word → Prop
  callback : ∀ offset len isWrite io, invokeCallback map offset len isWrite io = none ↔ ¬takes isWrite offset

def openPort (w : Window Devices) (base : Nat)
    (h : ∀ offset len isWrite io, (invokeCallback (w.toMap base) offset len isWrite io).isSome = true) : Port where
  map := w.toMap base
  takes _ _ := True
  callback offset len isWrite io := by
    rw [← Option.not_isSome_iff_eq_none, h]
    exact ⟨absurd rfl, fun h => absurd trivial h⟩

theorem assert_none_iff {α : Type} {p : Prop} [Decidable p] {r : Option α} (hr : r.isSome = true) :
    (if p then r else none) = none ↔ ¬p := by
  by_cases h : p
  · rw [if_pos h, ← Option.not_isSome_iff_eq_none, hr]
    exact ⟨absurd rfl, absurd h⟩
  · rw [if_neg h]
    exact ⟨fun _ => h, fun _ => rfl⟩

def rtcPort : Port where
  map := (rtcWindow defaultHandlers).toMap rtcPortBase
  takes _ offset := offset = 0 ∨ offset = 4
  callback _ _ _ _ := assert_none_iff (by split <;> rfl)

def keyboardPort : Port where
  map := (keyboardWindow defaultHandlers).toMap i8042DataPortBase
  takes isWrite offset := isWrite = false ∧ offset = 0
  callback _ _ _ _ := assert_none_iff rfl

def sysconPort : Port where
  map := (sysconWindow defaultHandlers).toMap sysconBase
  takes _ offset := offset = 0 ∨ offset = 4
  callback _ _ _ _ := by
    refine assert_none_iff ?_
    split
    · split
      · rfl
      · split <;> rfl
    · rfl

def ports : List Port :=
  [openPort (serialWindow defaultHandlers) serialBase fun _ _ _ _ => rfl, rtcPort,
    openPort vgactlWindow vgactlPortBase fun _ _ _ _ => rfl,
    openPort (vmemWindow .size400x300) vmemBase fun _ _ _ _ => rfl, keyboardPort,
    openPort (audioWindow defaultHandlers) audioBase fun _ _ _ _ => rfl,
    openPort audioSbufWindow sbufBase fun _ _ _ _ => rfl,
    openPort (clintWindow defaultHandlers) clintPortBase fun _ _ _ _ => rfl, sysconPort]

theorem defaultMaps_ports : defaultMaps = ports.map Port.map := rfl

theorem defaultMaps_registered : Registered defaultMaps := by
  obtain ⟨s, hs, hmaps⟩ := Option.map_eq_some_iff.mp initDevice_default
  exact hmaps ▸ initDevice_registered hs

/-! ## The addresses of the ports -/

def Port.Reaches (p : Port) (isWrite : Bool) (a : Word) : Prop :=
  mapInside p.map a = true ∧ p.takes isWrite (a - p.map.low)

section reaches
variable {w : Window Devices} {p : Nat} {a off : Word} {isWrite : Bool}

theorem toMap_inside (hw : w.Proper) : mapInside (w.toMap p) a = true ↔ InWindow w.addr w.len.toNat a := by
  obtain ⟨hpos, hfit⟩ := hw
  have hlast : (w.addr + w.len - 1).toNat = w.addr.toNat + w.len.toNat - 1 := toNat_last hpos hfit
  refine mem_addresses.trans ?_
  change w.addr.toNat ≤ a.toNat ∧ a.toNat ≤ (w.addr + w.len - 1).toNat ↔ _
  rw [hlast, InWindow]
  omega

theorem inside_offset (hw : w.Proper) (hoff : off.toNat < w.len.toNat) :
    mapInside (w.toMap p) a = true ∧ a - w.addr = off ↔ a = w.addr + off := by
  rw [sub_eq_iff_eq_add', toMap_inside hw, and_iff_right_iff_imp]
  rintro rfl
  have hfit := hw.2
  have hnat : (w.addr + off).toNat = w.addr.toNat + off.toNat :=
    (BitVec.toNat_add ..).trans (Nat.mod_eq_of_lt (by omega))
  rw [InWindow, hnat]
  omega

theorem openPort_reaches (hw : w.Proper) {h} :
    (openPort w p h).Reaches isWrite a ↔ InWindow w.addr w.len.toNat a :=
  (and_iff_left trivial).trans (toMap_inside hw)

theorem rtcPort_reaches : rtcPort.Reaches isWrite a ↔ a = configRtcMmio ∨ a = configRtcMmio + 4 := by
  have hw : (rtcWindow defaultHandlers).Proper := ⟨by decide, by decide⟩
  refine and_or_left.trans (or_congr ((inside_offset hw (by decide)).trans ?_) (inside_offset hw (by decide)))
  rw [add_zero]
  rfl

theorem sysconPort_reaches : sysconPort.Reaches isWrite a ↔ a = configSysconMmio ∨ a = configSysconMmio + 4 := by
  have hw : (sysconWindow defaultHandlers).Proper := ⟨by decide, by decide⟩
  refine and_or_left.trans (or_congr ((inside_offset hw (by decide)).trans ?_) (inside_offset hw (by decide)))
  rw [add_zero]
  rfl

theorem keyboardPort_reaches : keyboardPort.Reaches isWrite a ↔ isWrite = false ∧ a = configI8042DataMmio := by
  have hw : (keyboardWindow defaultHandlers).Proper := ⟨by decide, by decide⟩
  refine and_left_comm.trans (and_congr_right fun _ => (inside_offset hw (by decide)).trans ?_)
  rw [add_zero]
  rfl

theorem answered_iff : Answered isWrite a ↔ inPmem a = true ∨ ∃ p ∈ ports, p.Reaches isWrite a := by
  have hram : InWindow configMbase configMsize.toNat a ↔ inPmem a = true := mem_pmemAddresses.symm
  simp only [ports, List.mem_cons, List.not_mem_nil, or_false, exists_eq_or_imp, exists_eq_left]
  rw [Answered, hram, rtcPort_reaches, keyboardPort_reaches, sysconPort_reaches]
  refine or_congr .rfl (or_congr ?_ (or_congr .rfl (or_congr ?_ (or_congr ?_ (or_congr .rfl (or_congr ?_
    (or_congr ?_ (or_congr ?_ .rfl))))))))
  · exact (openPort_reaches (w := serialWindow defaultHandlers) ⟨by decide, by decide⟩).symm
  · exact (openPort_reaches (w := vgactlWindow) ⟨by decide, by decide⟩).symm
  · exact (openPort_reaches (w := vmemWindow .size400x300) ⟨by decide, by decide⟩).symm
  · exact (openPort_reaches (w := audioWindow defaultHandlers) ⟨by decide, by decide⟩).symm
  · exact (openPort_reaches (w := audioSbufWindow) ⟨by decide, by decide⟩).symm
  · exact (openPort_reaches (w := clintWindow defaultHandlers) ⟨by decide, by decide⟩).symm

end reaches

/-! ## Accesses -/

variable {P : Platform Devices} {st : State Devices} {a v : Word} {len : Nat}

theorem refused_iff (hmaps : P.maps = defaultMaps) (isWrite : Bool) (io : IOMap Devices → Io Devices) :
    (P.maps.find? (mapInside · a) = none ∨ ∃ map ∈ P.maps.find? (mapInside · a),
      invokeCallback map (a - map.low) len isWrite (io map) = none) ↔ ¬∃ p ∈ ports, p.Reaches isWrite a := by
  rw [hmaps]
  constructor
  · rintro hrefused ⟨p, hp, hin, htakes⟩
    have hmem : p.map ∈ defaultMaps := defaultMaps_ports ▸ List.mem_map_of_mem hp
    have hfind := defaultMaps_registered.find (List.Perm.refl _) hmem hin
    rw [hfind] at hrefused
    rcases hrefused with hnone | ⟨map, hmap, hcall⟩
    · cases hnone
    · obtain rfl := Option.some.inj hmap
      exact (p.callback _ _ _ _).mp hcall htakes
  · intro hno
    cases hfind : defaultMaps.find? (mapInside · a) with
    | none => exact .inl rfl
    | some map =>
      have hmem : map ∈ ports.map Port.map := defaultMaps_ports ▸ List.mem_of_find?_eq_some hfind
      obtain ⟨p, hp, rfl⟩ := List.mem_map.mp hmem
      have hin := List.find?_some hfind
      exact .inr ⟨p.map, rfl, (p.callback _ _ _ _).mpr fun htakes => hno ⟨p, hp, hin, htakes⟩⟩

theorem paddrRead_answered (hmaps : P.maps = defaultMaps) (hlen : len = 1 ∨ len = 2 ∨ len = 4) :
    paddrRead P a len st = none ↔ ¬Answered false a := by
  rw [paddrRead_none_iff hlen, ReadRefused, ← and_or_left, refused_iff hmaps false fun _ => st.io, answered_iff,
    not_or, Bool.not_eq_true]

theorem paddrWrite_answered (hmaps : P.maps = defaultMaps) (hlen : len = 1 ∨ len = 2 ∨ len = 4) :
    paddrWrite P a len v st = none ↔ ¬Answered true a := by
  rw [paddrWrite_none_iff hlen, WriteRefused, ← and_or_left, refused_iff hmaps true fun map =>
    { st.io with space := Bytes.writeLE st.io.space (map.space + (a - map.low).toNat) len v }, answered_iff,
    not_or, Bool.not_eq_true]

end GsEmu.Riscv32
