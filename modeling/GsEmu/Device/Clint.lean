import Mathlib
import GsEmu.Device.Confine
import GsEmu.Device.Regions
import GsEmu.Device.Storage

/-! The CLINT: its registers in the I/O space, and the bus accesses that reach them. -/

namespace GsEmu.Riscv32
open Bytes

variable {D : Type} {P : Platform D} {st : State D} {s s' : Setup D} {a v : Word} {base len : Nat}

/-! ## The map that a device's addresses find -/

theorem register_registered {w : Window D} (hw : w.Proper) (hs : Registered s.maps)
    (h : register w s = some s') : Registered s'.maps := by
  obtain ⟨⟨p, t⟩, hspace, hadd⟩ := Option.bind_eq_some_iff.mp
    (show (newSpace w.size s).bind _ = some s' from h)
  have hmaps : t.maps = s.maps := by
    unfold newSpace at hspace
    dsimp only at hspace
    split at hspace
    · rw [← (Prod.mk.inj (Option.some.inj hspace)).2]
    · simp at hspace
  have hr : (⟨w.name, w.addr, p, w.len, w.callback⟩ : MapRequest D).Fits := hw
  exact (addMmioMap_registered hr (hmaps ▸ hs) hadd).2

theorem registerAll_registered {ws : List (Window D)} (hws : ∀ w ∈ ws, w.Proper)
    (hs : Registered s.maps) (h : registerAll ws s = some s') : Registered s'.maps := by
  induction ws generalizing s with
  | nil =>
    obtain rfl := Option.some.inj h
    exact hs
  | cons w ws ih =>
    obtain ⟨t, ht, h⟩ := Option.bind_eq_some_iff.mp
      (show (register w s).bind (registerAll ws) = _ from h)
    have hreg := register_registered (hws w (List.mem_cons_self ..)) hs ht
    exact ih (fun u hu => hws u (List.mem_cons_of_mem _ hu)) hreg h

theorem initDevice_registered {H : Handlers D} {c : DeviceConfig} (h : initDevice H c = some s) :
    Registered s.maps := by
  rw [initDevice_eq] at h
  exact registerAll_registered (windows_proper H c) Registered.nil h

theorem initDevice_find {H : Handlers D} {c : DeviceConfig} (h : initDevice H c = some s)
    {w : Window D} (hw : w ∈ windows H c) : ∃ p, w.toMap p ∈ s.maps ∧
      ∀ a, mapInside (w.toMap p) a = true → s.maps.find? (mapInside · a) = some (w.toMap p) := by
  have hreg := initDevice_registered h
  rw [initDevice_eq] at h
  have hmaps := (registerAll_maps h).1
  obtain ⟨p, hp⟩ := Bump.exists_mem_place pageSize Window.size initMap.pSpace (x := w) hw
  have hmem : w.toMap p ∈ s.maps := by
    rw [hmaps]
    exact List.mem_append_right _ (List.mem_map.mpr ⟨(p, w), hp, rfl⟩)
  exact ⟨p, hmem, fun a ha => hreg.find (List.Perm.refl _) hmem ha⟩

/-! ## The registers -/

def clintIoHandler : IoCallback D := fun _ _ _ io => some io

def clintMapAt (base : Nat) : IOMap D :=
  ⟨"clint", configClintMmio, configClintMmio + 0x10000 - 1, base, some clintIoHandler⟩

/-- The addresses of the CLINT lead to its handler and to the space from `base` upwards. -/
def ClintAt (maps : List (IOMap D)) (base : Nat) : Prop :=
  ∀ a, mapInside (clintMapAt base : IOMap D) a = true →
    maps.find? (mapInside · a) = some (clintMapAt base)

theorem initDevice_clint {H : Handlers D} {c : DeviceConfig} (h : initDevice H c = some s)
    (hclint : c.hasClint = true) (hH : H.clintIoHandler = clintIoHandler) :
    ∃ base, clintMapAt base ∈ s.maps ∧ ClintAt s.maps base := by
  have hw : clintWindow H ∈ windows H c := by simp [windows, hclint]
  obtain ⟨base, hmem, hfind⟩ := initDevice_find h hw
  have hmap : (clintWindow H).toMap base = clintMapAt base := by
    rw [Window.toMap, clintWindow, hH]
    rfl
  rw [hmap] at hmem hfind
  exact ⟨base, hmem, hfind⟩

def clintWord (base : Nat) (off : Word) (io : Io D) : Word := readLE io.space (base + off.toNat) 4

def mtime (base : Nat) (io : Io D) : BitVec 64 :=
  clintWord base mtimehi io ++ clintWord base mtimelo io

def mtimecmp (base : Nat) (io : Io D) : BitVec 64 :=
  clintWord base mtimecmphi io ++ clintWord base mtimecmplo io

theorem toNat_words (hi lo : Word) : (hi ++ lo).toNat = hi.toNat * 2 ^ 32 + lo.toNat := by
  rw [BitVec.toNat_append, ← Nat.shiftLeft_add_eq_or_of_lt lo.isLt, Nat.shiftLeft_eq]

theorem words_lt_iff (hi lo hi' lo' : Word) :
    hi ++ lo < hi' ++ lo' ↔ hi < hi' ∨ hi = hi' ∧ lo < lo' := by
  have hlo := lo.isLt
  have hlo' := lo'.isLt
  rw [BitVec.lt_def, BitVec.lt_def, BitVec.lt_def, toNat_words, toNat_words, ← BitVec.toNat_inj]
  omega

/-! ## Accesses -/

theorem inPmem_clint {off : Word} (hoff : off < 0x10000) : inPmem (configClintMmio + off) = false := by
  have hbase : configMbase.toNat = 0x80000000 := rfl
  have hsize : configMsize.toNat = 0x8000000 := rfl
  have hclint : configClintMmio.toNat = 0x11000000 := rfl
  have hlt : off.toNat < 0x10000 := hoff
  rw [inPmem, decide_eq_false_iff_not, BitVec.lt_def, BitVec.toNat_sub, BitVec.toNat_add, hbase, hsize,
    hclint]
  omega

theorem mapInside_clint {off : Word} (hoff : off < 0x10000) :
    mapInside (clintMapAt base : IOMap D) (configClintMmio + off) = true := by
  have hclint : configClintMmio.toNat = 0x11000000 := rfl
  have hlast : (configClintMmio + 0x10000 - 1).toNat = 0x1100ffff := rfl
  have hlt : off.toNat < 0x10000 := hoff
  refine decide_eq_true ⟨?_, ?_⟩
  · change configClintMmio ≤ _
    rw [BitVec.le_def, BitVec.toNat_add, hclint]
    omega
  · change _ ≤ configClintMmio + 0x10000 - 1
    rw [BitVec.le_def, BitVec.toNat_add, hclint, hlast]
    omega

theorem paddrRead_clintWord (hclint : ClintAt P.maps base) {off : Word} (hoff : off < 0x10000) :
    paddrRead P (configClintMmio + off) 4 st = some (clintWord base off st.io,
      st.setBus st.pmem st.io (difftestSkipRef P.difftest st.skip)) := by
  have hfind := hclint _ (mapInside_clint hoff)
  have hcancel : configClintMmio + off - (clintMapAt base : IOMap D).low = off :=
    add_sub_cancel_left _ _
  rw [paddrRead_map (inPmem_clint hoff) hfind (.inr (.inr rfl)), hcancel]
  rfl

def setClintWord (base : Nat) (off v : Word) (io : Io D) : Io D :=
  { io with space := writeLE io.space (base + off.toNat) 4 v }

theorem clintWord_setClintWord {off : Word} (io : Io D) (v : Word) :
    clintWord base off (setClintWord base off v io) = v := readLE_writeLE _ _ _

theorem clintWord_setClintWord_of_apart {off off' : Word} (io : Io D) (v : Word)
    (h : off.toNat + 4 ≤ off'.toNat ∨ off'.toNat + 4 ≤ off.toNat) :
    clintWord base off (setClintWord base off' v io) = clintWord base off io :=
  readLE_writeLE_outside _ (by omega)

theorem paddrWrite_clintWord (hclint : ClintAt P.maps base) {off : Word} (hoff : off < 0x10000) :
    paddrWrite P (configClintMmio + off) 4 v st = some (st.setBus st.pmem
      (setClintWord base off v st.io) (difftestSkipRef P.difftest st.skip)) := by
  have hfind := hclint _ (mapInside_clint hoff)
  have hcancel : configClintMmio + off - (clintMapAt base : IOMap D).low = off :=
    add_sub_cancel_left _ _
  rw [paddrWrite_map (inPmem_clint hoff) hfind (.inr (.inr rfl)), hcancel]
  rfl

end GsEmu.Riscv32
