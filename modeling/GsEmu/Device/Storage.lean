import Mathlib
import GsEmu.Device.Init

/-! The storage behind the registered windows: when no device can reach another's. -/

namespace GsEmu.Riscv32
open Bytes Layout

variable {D : Type} {m n : IOMap D} {a b : Word} {len len' : Nat}

def IOMap.size (m : IOMap D) : Nat := (m.high - m.low).toNat + 1

def IOMap.storage (m : IOMap D) : Set Nat := Set.Ico m.space (m.space + m.size)

def IOMap.load (m : IOMap D) (a : Word) (len : Nat) (mem : Memory) : Option Word :=
  hostRead mem (m.space + (a - m.low).toNat) len

def IOMap.store (m : IOMap D) (a : Word) (len : Nat) (v : Word) (mem : Memory) : Option Memory :=
  hostWrite mem (m.space + (a - m.low).toNat) len v

/-- The regions share no storage, and no write to an address of `m` shows at an address of `n`. -/
structure Apart (m n : IOMap D) : Prop where
  disjoint : Disjoint m.storage n.storage
  unaffected : ∀ a b len len' v mem mem', mapInside m a = true → mapInside n b = true →
    (len = 1 ∨ len = 2 ∨ len = 4) → (len' = 1 ∨ len' = 2 ∨ len' = 4) →
    m.store a len v mem = some mem' → n.load b len' mem' = n.load b len' mem

/-- Any two regions are apart, and all storage is in the I/O space. -/
def StorageSeparate (maps : List (IOMap D)) : Prop :=
  maps.Pairwise (fun m n => Apart m n ∧ Apart n m) ∧ ∀ m ∈ maps, m.storage ⊆ Set.Ico 0 ioSpaceMax

/-! ## Two regions -/

theorem offset_lt (h : mapInside m a = true) : (a - m.low).toNat < m.size := by
  obtain ⟨hlo, hhi⟩ : m.low ≤ a ∧ a ≤ m.high := of_decide_eq_true h
  rw [IOMap.size, BitVec.toNat_sub_of_le hlo, BitVec.toNat_sub_of_le (BitVec.le_trans hlo hhi)]
  have hle := BitVec.le_def.mp hhi
  omega

theorem exists_offset (hm : m.low ≤ m.high) {o : Nat} (ho : o < m.size) :
    ∃ a, mapInside m a = true ∧ (a - m.low).toNat = o := by
  have hle := BitVec.le_def.mp hm
  have hsize : m.size = m.high.toNat - m.low.toNat + 1 := by
    rw [IOMap.size, BitVec.toNat_sub_of_le hm]
  have hhigh := m.high.isLt
  have hnat : (BitVec.ofNat 32 o).toNat = o := by
    rw [BitVec.toNat_ofNat, Nat.mod_eq_of_lt (by omega)]
  have hsum : (m.low + BitVec.ofNat 32 o).toNat = m.low.toNat + o := by
    rw [BitVec.toNat_add, hnat, Nat.mod_eq_of_lt (by omega)]
  refine ⟨m.low + BitVec.ofNat 32 o, decide_eq_true ⟨?_, ?_⟩, ?_⟩
  · rw [BitVec.le_def, hsum]
    omega
  · rw [BitVec.le_def, hsum]
    omega
  · rw [add_sub_cancel_left, hnat]

theorem hostRead_outside {mem : Memory} {x y : Nat} (v : Word) (h : y + len' ≤ x ∨ x + len ≤ y)
    (hlen' : len' = 1 ∨ len' = 2 ∨ len' = 4) :
    hostRead (writeLE mem x len v) y len' = hostRead mem y len' := by
  rcases hlen' with rfl | rfl | rfl <;> exact congrArg some (readLE_writeLE_outside v h)

theorem apart_of_gap
    (h : m.space + m.size + 3 ≤ n.space ∨ n.space + n.size + 3 ≤ m.space) : Apart m n where
  disjoint := by
    rw [Set.disjoint_left]
    rintro x ⟨hlo, hhi⟩ ⟨hlo', hhi'⟩
    omega
  unaffected a b len len' v mem mem' ha hb hlen hlen' hstore := by
    have hoa := offset_lt ha
    have hob := offset_lt hb
    have h4 : len ≤ 4 ∧ len' ≤ 4 := by
      constructor
      · rcases hlen with rfl | rfl | rfl <;> decide
      · rcases hlen' with rfl | rfl | rfl <;> decide
    have hwrite : mem' = writeLE mem (m.space + (a - m.low).toNat) len v := by
      rcases hlen with rfl | rfl | rfl <;> exact (Option.some.inj hstore).symm
    rw [hwrite]
    exact hostRead_outside v (by omega) hlen'

theorem ones_byte {d : Nat} (hd : d < 4) : ((0xffffffff : Word) >>> (8 * d)).setWidth 8 = 0xff := by
  interval_cases d <;> rfl

theorem gap_of_apart (hm : m.low ≤ m.high) (hn : n.low ≤ n.high) (hle : m.space ≤ n.space)
    (h : Apart m n) : m.space + m.size + 3 ≤ n.space := by
  by_contra hlt
  have hmpos : 0 < m.size := Nat.succ_pos _
  obtain ⟨o, ho⟩ : ∃ o, min (m.size - 1) (n.space - m.space) = o := ⟨_, rfl⟩
  obtain ⟨a, ha, hao⟩ := exists_offset hm (show o < m.size by omega)
  obtain ⟨b, hb, hbo⟩ := exists_offset hn (show 0 < n.size from Nat.succ_pos _)
  have hsame := h.unaffected a b 4 1 0xffffffff (fun _ => 0) _ ha hb (.inr (.inr rfl)) (.inl rfl) rfl
  simp only [IOMap.load, hao, hbo, Nat.add_zero] at hsame
  have hbyte : writeLE (fun _ => 0) (m.space + o) 4 0xffffffff n.space = 0xff := by
    have hd : n.space = m.space + o + (n.space - (m.space + o)) := by omega
    rw [hd, writeLE_inside _ _ (by omega)]
    exact ones_byte (by omega)
  have hread : ∀ mem : Memory, hostRead mem n.space 1 = some ((mem n.space).setWidth 32) := by
    intro mem
    simp [hostRead, readLE]
  rw [hread, hread, hbyte] at hsame
  exact absurd (Option.some.inj hsame) (by decide)

/-! ## The regions of a build -/

def Window.toMap (p : Nat) (w : Window D) : IOMap D :=
  ⟨w.name, w.addr, w.addr + w.len - 1, p, w.callback⟩

def Window.extent (w : Window D) : Nat × Nat := (w.size, w.len.toNat)

abbrev placed (p : Nat) (ws : List (Window D)) : List (Nat × Window D) :=
  Bump.place pageSize Window.size p ws

theorem addMmioMap_maps {w : Window D} {p : Nat} {s s' : Setup D}
    (h : addMmioMap w.name w.addr p w.len w.callback s = some s') :
    s' = { s with maps := s.maps ++ [w.toMap p] } := by
  unfold addMmioMap at h
  dsimp only at h
  split at h
  · simp at h
  · split at h
    · simp at h
    · split at h
      · simp at h
      · exact (Option.some.inj h).symm

theorem registerAll_maps {ws : List (Window D)} {s s' : Setup D}
    (h : registerAll ws s = some s') :
    s'.maps = s.maps ++ (placed s.pSpace ws).map (fun x => x.2.toMap x.1) ∧
      ∀ x ∈ placed s.pSpace ws, x.1 + roundUp x.2.size pageSize < ioSpaceMax := by
  induction ws generalizing s with
  | nil =>
    obtain rfl := Option.some.inj h
    simp [placed, Bump.place]
  | cons w ws ih =>
    obtain ⟨t, ht, h⟩ := Option.bind_eq_some_iff.mp (show (register w s).bind (registerAll ws) = _ from h)
    obtain ⟨⟨p, u⟩, hspace, hadd⟩ := Option.bind_eq_some_iff.mp
      (show (newSpace w.size s).bind _ = some t from ht)
    obtain rfl := addMmioMap_maps hadd
    unfold newSpace at hspace
    dsimp only at hspace
    split at hspace
    · rename_i hfree
      obtain ⟨rfl, rfl⟩ := Prod.mk.inj (Option.some.inj hspace)
      obtain ⟨hmaps, hrest⟩ := ih h
      have hcons : placed s.pSpace (w :: ws) =
          (s.pSpace, w) :: placed (s.pSpace + roundUp w.size pageSize) ws := rfl
      rw [hcons]
      refine ⟨?_, ?_⟩
      · rw [hmaps, List.map_cons, List.append_assoc]
        rfl
      · intro x hx
        rcases List.mem_cons.mp hx with rfl | hx
        · exact hfree
        · exact hrest x hx
    · simp at hspace

def Window.Proper (w : Window D) : Prop := 0 < w.len.toNat ∧ w.addr.toNat + w.len.toNat ≤ 2 ^ 32

theorem Window.Proper.toMap {w : Window D} (h : w.Proper) (p : Nat) :
    (w.toMap p).low ≤ (w.toMap p).high ∧ (w.toMap p).size = w.len.toNat := by
  obtain ⟨hpos, hfit⟩ := h
  have hsub : (w.addr + w.len - 1 - w.addr).toNat = w.len.toNat - 1 := by
    have hcancel : w.addr + w.len - 1 - w.addr = w.len - 1 := by
      rw [add_sub_assoc, add_sub_cancel_left]
    have hle : (1 : Word) ≤ w.len := BitVec.le_def.mpr hpos
    rw [hcancel, BitVec.toNat_sub_of_le hle]
    rfl
  have hhigh := toNat_last hpos hfit
  constructor
  · rw [BitVec.le_def]
    change w.addr.toNat ≤ (w.addr + w.len - 1).toNat
    omega
  · change (w.addr + w.len - 1 - w.addr).toNat + 1 = _
    omega

theorem windows_proper (H : Handlers D) (c : DeviceConfig) : ∀ w ∈ windows H c, w.Proper := by
  intro w hw
  simp only [windows, List.mem_append, List.mem_ite_nil_right, List.mem_cons, List.not_mem_nil,
    or_false] at hw
  rcases hw with ⟨-, rfl⟩ | ⟨-, rfl⟩ | ⟨-, rfl | rfl⟩ | ⟨-, rfl⟩ | ⟨-, rfl | rfl⟩ | ⟨-, rfl⟩ |
    ⟨-, rfl⟩ | ⟨-, rfl⟩
  case inr.inr.inl.inr =>
    cases hv : c.vgaSize <;> simp only [Window.Proper, vmemWindow] <;> decide
  all_goals
    simp only [Window.Proper, serialWindow, rtcWindow, vgactlWindow, keyboardWindow, audioWindow,
      audioSbufWindow, sdhciWindow, clintWindow, sysconWindow]
    decide

/-! ## The layout -/

def extents (c : DeviceConfig) : List (Nat × Nat) :=
  (if c.hasSerial then [(8, 0x1000)] else []) ++
  ((if c.hasTimer then [(8, 8)] else []) ++
  ((if c.hasVga then [(8, 8), (screenSize c.vgaSize, screenSize c.vgaSize)] else []) ++
  ((if c.hasKeyboard then [(4, 4)] else []) ++
  ((if c.hasAudio then [(24, 24), (configSbSize, configSbSize)] else []) ++
  ((if c.hasSdcard then [(0x80, 0x80)] else []) ++
  ((if c.hasClint then [(8, 0x10000)] else []) ++
  (if c.hasSyscon then [(8, 0x1000)] else [])))))))

theorem windows_extents (H : Handlers D) (c : DeviceConfig) :
    (windows H c).map Window.extent = extents c := by
  have hvmem : (vmemWindow (D := D) c.vgaSize).extent =
      (screenSize c.vgaSize, screenSize c.vgaSize) := by
    cases c.vgaSize <;> rfl
  simp only [windows, extents, List.map_append, apply_ite (List.map Window.extent), List.map_cons,
    List.map_nil, hvmem]
  rfl

/-- No window that reaches the last three bytes of its pages has another device's pages behind it. -/
def Roomy (c : DeviceConfig) : Prop :=
  ¬(c.hasClint ∧ c.hasSyscon) ∧
  ¬(c.hasSerial ∧ (c.hasTimer ∨ c.hasVga ∨ c.hasKeyboard ∨ c.hasAudio ∨ c.hasSdcard ∨ c.hasClint ∨
    c.hasSyscon)) ∧
  ¬(c.hasAudio ∧ (c.hasSdcard ∨ c.hasClint ∨ c.hasSyscon))

instance (c : DeviceConfig) : Decidable (Roomy c) := inferInstanceAs (Decidable (_ ∧ _ ∧ _))

/-- The pages of all devices fit in the I/O space; those of the largest screen do not. -/
def PagesFit (c : DeviceConfig) : Prop :=
  ∀ x ∈ Bump.place pageSize Prod.fst 0 (extents c), x.1 + roundUp x.2.1 pageSize < ioSpaceMax

instance (c : DeviceConfig) : Decidable (PagesFit c) :=
  inferInstanceAs (Decidable (∀ x ∈ Bump.place pageSize Prod.fst 0 (extents c), _))

theorem roomy_iff (c : DeviceConfig) (h : PagesFit c) :
    (∀ x ∈ (extents c).dropLast, x.2 + 3 ≤ roundUp x.1 pageSize) ↔ Roomy c := by
  have hall : ∀ serial timer vga keyboard audio sdcard clint syscon : Bool,
      PagesFit ⟨serial, timer, vga, keyboard, audio, false, sdcard, clint, syscon, c.vgaSize⟩ →
      ((∀ x ∈ (extents ⟨serial, timer, vga, keyboard, audio, false, sdcard, clint, syscon,
        c.vgaSize⟩).dropLast, x.2 + 3 ≤ roundUp x.1 pageSize) ↔
        Roomy ⟨serial, timer, vga, keyboard, audio, false, sdcard, clint, syscon, c.vgaSize⟩) := by
    cases c.vgaSize <;> decide +kernel
  exact hall _ _ _ _ _ _ _ _ h

theorem windows_inside (c : DeviceConfig) (h : PagesFit c) :
    ∀ x ∈ Bump.place pageSize Prod.fst 0 (extents c), x.1 + x.2.2 ≤ ioSpaceMax := by
  have hall : ∀ serial timer vga keyboard audio sdcard clint syscon : Bool,
      PagesFit ⟨serial, timer, vga, keyboard, audio, false, sdcard, clint, syscon, c.vgaSize⟩ →
      ∀ x ∈ Bump.place pageSize Prod.fst 0 (extents ⟨serial, timer, vga, keyboard, audio, false,
        sdcard, clint, syscon, c.vgaSize⟩), x.1 + x.2.2 ≤ ioSpaceMax := by
    cases c.vgaSize <;> decide +kernel
  exact hall _ _ _ _ _ _ _ _ h

theorem placed_extents (H : Handlers D) (c : DeviceConfig) :
    (placed 0 (windows H c)).map (Prod.map id Window.extent) =
      Bump.place pageSize Prod.fst 0 (extents c) := by
  rw [← windows_extents H c]
  exact Bump.place_map pageSize Prod.fst Window.extent 0 (windows H c)

/-! ## The devices of a build -/

theorem apart_iff {x y : Nat × Window D} (hx : x.2.Proper) (hy : y.2.Proper) (hle : x.1 ≤ y.1) :
    (Apart (x.2.toMap x.1) (y.2.toMap y.1) ∧ Apart (y.2.toMap y.1) (x.2.toMap x.1)) ↔
      x.1 + x.2.len.toNat + 3 ≤ y.1 := by
  obtain ⟨hxlow, hxsize⟩ := hx.toMap x.1
  obtain ⟨hylow, -⟩ := hy.toMap y.1
  rw [← hxsize]
  constructor
  · rintro ⟨h, -⟩
    exact gap_of_apart hxlow hylow hle h
  · intro h
    exact ⟨apart_of_gap (.inl h), apart_of_gap (.inr h)⟩

/-- Whenever `init_device` returns, the devices' storage is separate exactly when the build is
roomy. -/
theorem storage_separate_iff {H : Handlers D} {c : DeviceConfig} {s : Setup D}
    (h : initDevice H c = some s) : StorageSeparate s.maps ↔ Roomy c := by
  rw [initDevice_eq] at h
  obtain ⟨hmaps, hpages⟩ := registerAll_maps h
  have hmaps : s.maps = (placed 0 (windows H c)).map fun x => x.2.toMap x.1 := hmaps
  have hproper : ∀ x ∈ placed 0 (windows H c), x.2.Proper := fun x hx =>
    windows_proper H c _ (Bump.mem_of_mem_place _ _ hx)
  have hfit : PagesFit c := by
    intro x hx
    rw [← placed_extents H c] at hx
    obtain ⟨y, hy, rfl⟩ := List.mem_map.mp hx
    exact hpages y hy
  have hpair : s.maps.Pairwise (fun m n => Apart m n ∧ Apart n m) ↔ Roomy c := by
    have hplaced : (placed 0 (windows H c)).Pairwise (fun x y => Apart (x.2.toMap x.1) (y.2.toMap y.1) ∧
        Apart (y.2.toMap y.1) (x.2.toMap x.1)) ↔
        (placed 0 (windows H c)).Pairwise fun x y => x.1 + x.2.len.toNat + 3 ≤ y.1 := by
      have hsorted := Bump.place_sorted pageSize Window.size 0 (windows H c)
      constructor
      · intro h
        exact (h.and hsorted).imp_of_mem fun hx hy hxy =>
          (apart_iff (hproper _ hx) (hproper _ hy) hxy.2).mp hxy.1
      · intro h
        exact (h.and hsorted).imp_of_mem fun hx hy hxy =>
          (apart_iff (hproper _ hx) (hproper _ hy) hxy.2).mpr hxy.1
    rw [hmaps, List.pairwise_map, hplaced, ← roomy_iff c hfit, ← windows_extents H c,
      ← List.map_dropLast, List.forall_mem_map]
    exact Bump.place_pairwise_iff pageSize Window.size (fun w => w.len.toNat) 3 0 (windows H c)
  have hinside : ∀ m ∈ s.maps, m.storage ⊆ Set.Ico 0 ioSpaceMax := by
    rw [hmaps]
    intro m hm
    obtain ⟨x, hx, rfl⟩ := List.mem_map.mp hm
    have hend := windows_inside c hfit (x.1, x.2.extent)
      (placed_extents H c ▸ List.mem_map_of_mem hx)
    rw [IOMap.storage, ((hproper x hx).toMap x.1).2]
    exact Set.Ico_subset_Ico (Nat.zero_le _) hend
  rw [StorageSeparate, hpair]
  exact and_iff_left hinside

def defaultDevices : DeviceConfig :=
  { hasSerial := true, hasTimer := true, hasVga := true, hasKeyboard := true, hasAudio := true,
    hasDisk := true, hasSdcard := false, hasClint := true, hasSyscon := true,
    vgaSize := .size400x300 }

def idleCallback : IoCallback Unit := fun _ _ _ io => some io

def idleHandlers : Handlers Unit :=
  ⟨idleCallback, idleCallback, idleCallback, idleCallback, idleCallback, idleCallback, idleCallback⟩

/-- The CLINT's window, sixteen pages over one page of space, covers the registers of `syscon`: a word
written at offset 0x1000 of the CLINT is read from `syscon`. -/
theorem storage_separate_refuted : ∃ s clint syscon,
    initDevice idleHandlers defaultDevices = some s ∧ clint ∈ s.maps ∧ syscon ∈ s.maps ∧
      clint.name = "clint" ∧ syscon.name = "syscon" ∧
      (clint.store 0x11001000 4 0x5555 fun _ => 0).bind (syscon.load 0x11100000 4) = some 0x5555 ∧
      syscon.load 0x11100000 4 (fun _ => 0) = some 0 := by
  have h : ((initDevice idleHandlers defaultDevices).bind fun s =>
      (s.maps.find? (·.name = "clint")).bind fun clint =>
        (s.maps.find? (·.name = "syscon")).bind fun syscon =>
          (clint.store 0x11001000 4 0x5555 fun _ => 0).bind (syscon.load 0x11100000 4)) =
      some 0x5555 := by decide +kernel
  obtain ⟨s, hs, h⟩ := Option.bind_eq_some_iff.mp h
  obtain ⟨clint, hclint, h⟩ := Option.bind_eq_some_iff.mp h
  obtain ⟨syscon, hsyscon, h⟩ := Option.bind_eq_some_iff.mp h
  refine ⟨s, clint, syscon, hs, List.mem_of_find?_eq_some hclint,
    List.mem_of_find?_eq_some hsyscon, of_decide_eq_true (List.find?_some hclint :),
    of_decide_eq_true (List.find?_some hsyscon :), h, ?_⟩
  simp [IOMap.load, hostRead, readLE]

theorem storage_separate_iff_default : ∃ s : Setup Unit,
    initDevice idleHandlers defaultDevices = some s ∧
      (StorageSeparate s.maps ↔ Roomy defaultDevices) := by
  have h : (initDevice idleHandlers defaultDevices).isSome = true := by decide +kernel
  obtain ⟨s, hs⟩ := Option.isSome_iff_exists.mp h
  exact ⟨s, hs, storage_separate_iff hs⟩

end GsEmu.Riscv32
