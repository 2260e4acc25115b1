import GsEmu.Device.Ram
import Mathlib.Order.Interval.Set.Basic

/-! The bytes of the emulator that one guest access handles, and when they stay in the region around
its address. `in_pmem` and `check_bound` look at the first byte only. -/

namespace GsEmu.Riscv32
open Bytes

variable {D : Type} {P : Platform D} {st st' : State D} {a v : Word} {len : Nat}

/-! ## Handled bytes -/

inductive HostArray
  | pmem
  | ioSpace
  deriving DecidableEq

abbrev HostByte := HostArray × Nat

def hostByte (st : State D) : HostByte → Byte
  | (.pmem, i) => st.pmem i
  | (.ioSpace, i) => st.io.space i

/-- The array and index that an access starts at: `guest_to_host(addr)`, or `map->space + offset` of
the first map around the address. -/
def hostStart (P : Platform D) (addr : Word) : Option HostByte :=
  if inPmem addr then some (.pmem, guestToHost addr)
  else (P.maps.find? (mapInside · addr)).map fun map =>
    (.ioSpace, map.space + (addr - map.low).toNat)

def touched (P : Platform D) (addr : Word) (len : Nat) : Set HostByte :=
  { x | ∃ s ∈ hostStart P addr, x.1 = s.1 ∧ x.2 ∈ Set.Ico s.2 (s.2 + len) }

/-- The bytes of physical memory, or of the MMIO region around the address. -/
def region (P : Platform D) (addr : Word) : Set HostByte :=
  if inPmem addr then { x | x.1 = .pmem ∧ x.2 ∈ Set.Ico 0 configMsize.toNat }
  else { x | ∃ map ∈ P.maps.find? (mapInside · addr), x.1 = .ioSpace ∧
    x.2 ∈ Set.Ico map.space (map.space + ((map.high - map.low).toNat + 1)) }

theorem len_le (hlen : len = 1 ∨ len = 2 ∨ len = 4) : len ≤ 4 := by
  rcases hlen with rfl | rfl | rfl <;> decide

/-! ## Accesses in closed form -/

theorem paddrRead_ram (hp : inPmem a = true) (hlen : len = 1 ∨ len = 2 ∨ len = 4) :
    paddrRead P a len st = some (readLE st.pmem (guestToHost a) len, st) := by
  rw [paddrRead_pmem hp, hostRead_eq _ _ hlen]
  rfl

theorem paddrWrite_ram (hp : inPmem a = true) (hlen : len = 1 ∨ len = 2 ∨ len = 4) :
    paddrWrite P a len v st =
      some (st.setBus (writeLE st.pmem (guestToHost a) len v) st.io st.skip) := by
  rw [paddrWrite_pmem hp, hostWrite_eq _ _ _ hlen]
  rfl

section mmio
variable {map : IOMap D}

theorem mapInside_of_find (hf : P.maps.find? (mapInside · a) = some map) :
    mapInside map a = true := by
  have hin := List.find?_some hf
  exact hin

theorem paddrRead_map (hp : inPmem a = false) (hf : P.maps.find? (mapInside · a) = some map)
    (hlen : len = 1 ∨ len = 2 ∨ len = 4) : paddrRead P a len st =
      (invokeCallback map (a - map.low) len false st.io).map fun io =>
        (readLE io.space (map.space + (a - map.low).toNat) len,
          st.setBus st.pmem io (difftestSkipRef P.difftest st.skip)) := by
  have hguard : 1 ≤ len ∧ len ≤ 8 ∧ mapInside map a = true := by
    refine ⟨?_, ?_, mapInside_of_find hf⟩ <;> rcases hlen with rfl | rfl | rfl <;> decide
  have hread : mapRead a len map st.io = (invokeCallback map (a - map.low) len false st.io).map
      fun io => (readLE io.space (map.space + (a - map.low).toNat) len, io) := by
    rw [mapRead, if_pos hguard]
    simp only [hostRead_eq _ _ hlen]
    cases invokeCallback map (a - map.low) len false st.io <;> rfl
  rw [paddrRead_mmio hp]
  unfold mmioRead fetchMmioMap
  rw [hf]
  change (mapRead a len map st.io).bind _ = _
  rw [hread]
  cases invokeCallback map (a - map.low) len false st.io <;> rfl

theorem paddrWrite_map (hp : inPmem a = false) (hf : P.maps.find? (mapInside · a) = some map)
    (hlen : len = 1 ∨ len = 2 ∨ len = 4) : paddrWrite P a len v st =
      (invokeCallback map (a - map.low) len true
        { st.io with space := writeLE st.io.space (map.space + (a - map.low).toNat) len v }).map
          fun io => st.setBus st.pmem io (difftestSkipRef P.difftest st.skip) := by
  have hguard : 1 ≤ len ∧ len ≤ 8 ∧ mapInside map a = true := by
    refine ⟨?_, ?_, mapInside_of_find hf⟩ <;> rcases hlen with rfl | rfl | rfl <;> decide
  have hwrite : mapWrite a len v map st.io = invokeCallback map (a - map.low) len true
      { st.io with space := writeLE st.io.space (map.space + (a - map.low).toNat) len v } := by
    rw [mapWrite, if_pos hguard]
    simp only [hostWrite_eq _ _ _ hlen]
    rfl
  rw [paddrWrite_mmio hp]
  unfold mmioWrite fetchMmioMap
  rw [hf]
  change (mapWrite a len v map st.io).bind _ = _
  rw [hwrite]
  cases invokeCallback map (a - map.low) len true _ <;> rfl

theorem paddrRead_unmapped (hp : inPmem a = false) (hf : P.maps.find? (mapInside · a) = none) :
    paddrRead P a len st = none := by
  rw [paddrRead_mmio hp]
  unfold mmioRead fetchMmioMap
  rw [hf]
  rfl

theorem paddrWrite_unmapped (hp : inPmem a = false) (hf : P.maps.find? (mapInside · a) = none) :
    paddrWrite P a len v st = none := by
  rw [paddrWrite_mmio hp]
  unfold mmioWrite fetchMmioMap
  rw [hf]
  rfl

end mmio

/-! ## The handled bytes are those the access depends on -/

/-- A read returns the little-endian number of the touched bytes, as the callback left them. -/
theorem paddrRead_touched (hlen : len = 1 ∨ len = 2 ∨ len = 4)
    (h : paddrRead P a len st = some (v, st')) : ∃ x ∈ hostStart P a,
      v.toNat = leNat ((List.range len).map fun k => hostByte st' (x.1, x.2 + k)) := by
  cases hp : inPmem a with
  | true =>
    rw [paddrRead_ram hp hlen] at h
    obtain ⟨rfl, rfl⟩ := Prod.mk.inj (Option.some.inj h)
    exact ⟨_, if_pos hp, readLE_toNat _ _ (len_le hlen)⟩
  | false =>
    cases hf : P.maps.find? (mapInside · a) with
    | none =>
      rw [paddrRead_unmapped hp hf] at h
      simp at h
    | some map =>
      rw [paddrRead_map hp hf hlen] at h
      obtain ⟨io, -, heq⟩ := Option.map_eq_some_iff.mp h
      obtain ⟨rfl, rfl⟩ := Prod.mk.inj heq
      refine ⟨(.ioSpace, map.space + (a - map.low).toNat), ?_, readLE_toNat _ _ (len_le hlen)⟩
      rw [hostStart, if_neg (by simp [hp]), hf]
      rfl

/-- A write puts its data into the touched bytes and nothing elsewhere, before the callback runs. -/
theorem paddrWrite_touched (hlen : len = 1 ∨ len = 2 ∨ len = 4)
    (h : paddrWrite P a len v st = some st') : ∃ x ∈ hostStart P a, ∃ mid : State D,
      (∀ k < len, hostByte mid (x.1, x.2 + k) = (v >>> (8 * k)).setWidth 8) ∧
      (∀ y, y ∉ touched P a len → hostByte mid y = hostByte st y) ∧ mid.pmem = st'.pmem ∧
      (inPmem a = true → mid.io = st'.io) ∧
      ∀ map ∈ P.maps.find? (mapInside · a), inPmem a = false →
        invokeCallback map (a - map.low) len true mid.io = some st'.io := by
  cases hp : inPmem a with
  | true =>
    rw [paddrWrite_ram hp hlen] at h
    obtain rfl := Option.some.inj h
    have hstart : hostStart P a = some (.pmem, guestToHost a) := if_pos hp
    refine ⟨_, hstart, st.setBus (writeLE st.pmem (guestToHost a) len v) st.io st.skip, ?_, ?_,
      rfl, fun _ => rfl, by simp⟩
    · exact fun k hk => writeLE_inside _ _ hk
    · rintro ⟨array, i⟩ hy
      cases array with
      | pmem => exact writeLE_outside _ _ fun hi => hy ⟨_, hstart, rfl, hi⟩
      | ioSpace => rfl
  | false =>
    cases hf : P.maps.find? (mapInside · a) with
    | none =>
      rw [paddrWrite_unmapped hp hf] at h
      simp at h
    | some map =>
      rw [paddrWrite_map hp hf hlen] at h
      obtain ⟨io, hio, rfl⟩ := Option.map_eq_some_iff.mp h
      have hstart : hostStart P a = some (.ioSpace, map.space + (a - map.low).toNat) := by
        rw [hostStart, if_neg (by simp [hp]), hf]
        rfl
      refine ⟨_, hstart, { st with io := { st.io with
        space := writeLE st.io.space (map.space + (a - map.low).toNat) len v } }, ?_, ?_, rfl,
        by simp, ?_⟩
      · exact fun k hk => writeLE_inside _ _ hk
      · rintro ⟨array, i⟩ hy
        cases array with
        | pmem => rfl
        | ioSpace => exact writeLE_outside _ _ fun hi => hy ⟨_, hstart, rfl, hi⟩
      · rintro map' hmap' -
        obtain rfl := Option.some.inj hmap'
        exact hio

/-! ## Confinement -/

/-- An access that reaches its bytes ends in RAM or in the map it started in. -/
def Fits (P : Platform D) (a : Word) (len : Nat) : Prop :=
  if inPmem a then guestToHost a + len ≤ configMsize.toNat
  else ∀ map ∈ P.maps.find? (mapInside · a),
    (a - map.low).toNat + len ≤ (map.high - map.low).toNat + 1

instance : Decidable (Fits P a len) := inferInstanceAs (Decidable (ite _ _ _))

/-- The callback of the region asserts on the access before its bytes are read. -/
def ReadRefused (P : Platform D) (a : Word) (len : Nat) (io : Io D) : Prop :=
  inPmem a = false ∧ ∃ map ∈ P.maps.find? (mapInside · a),
    invokeCallback map (a - map.low) len false io = none

/-- The callback of the region asserts on the access after its bytes are written. -/
def WriteRefused (P : Platform D) (a : Word) (len : Nat) (v : Word) (io : Io D) : Prop :=
  inPmem a = false ∧ ∃ map ∈ P.maps.find? (mapInside · a),
    invokeCallback map (a - map.low) len true
      { io with space := writeLE io.space (map.space + (a - map.low).toNat) len v } = none

theorem interval_subset_iff {x n y m : Nat} (hn : 0 < n) :
    Set.Ico x (x + n) ⊆ Set.Ico y (y + m) ↔ y ≤ x ∧ x + n ≤ y + m :=
  Set.Ico_subset_Ico_iff (by omega)

theorem touched_subset_iff (hlen : len = 1 ∨ len = 2 ∨ len = 4) :
    touched P a len ⊆ region P a ↔ Fits P a len := by
  have hpos : 0 < len := by
    rcases hlen with rfl | rfl | rfl <;> decide
  cases hp : inPmem a with
  | true =>
    have htouch : touched P a len =
        {x | x.1 = .pmem ∧ x.2 ∈ Set.Ico (guestToHost a) (guestToHost a + len)} := by
      simp only [touched, hostStart, hp, if_true, Option.mem_def, Option.some.injEq,
        exists_eq_left']
    have hregion : region P a = {x | x.1 = .pmem ∧ x.2 ∈ Set.Ico 0 (0 + configMsize.toNat)} := by
      rw [region, if_pos hp, Nat.zero_add]
    have hfits : Fits P a len ↔ guestToHost a + len ≤ configMsize.toNat := by
      rw [Fits, if_pos hp]
    rw [htouch, hregion, hfits]
    constructor
    · intro h
      have hsub := (interval_subset_iff hpos).mp fun i hi => (h (a := (.pmem, i)) ⟨rfl, hi⟩).2
      omega
    · rintro h ⟨array, i⟩ ⟨hx, hi⟩
      exact ⟨hx, (interval_subset_iff hpos).mpr (by omega) hi⟩
  | false =>
    have hnp : ¬inPmem a = true := by simp [hp]
    cases hf : P.maps.find? (mapInside · a) with
    | none =>
      have htouch : touched P a len = ∅ := by
        simp [touched, hostStart, hp, hf]
      rw [htouch, Fits, if_neg hnp, hf]
      simp
    | some map =>
      obtain ⟨off, hoff⟩ : ∃ off, (a - map.low).toNat = off := ⟨_, rfl⟩
      have htouch : touched P a len = {x | x.1 = .ioSpace ∧
          x.2 ∈ Set.Ico (map.space + off) (map.space + off + len)} := by
        simp only [touched, hostStart, hp, hf, hoff, Bool.false_eq_true, if_false, Option.map_some,
          Option.mem_def, Option.some.injEq, exists_eq_left']
      have hregion : region P a = {x | x.1 = .ioSpace ∧
          x.2 ∈ Set.Ico map.space (map.space + ((map.high - map.low).toNat + 1))} := by
        simp only [region, hp, hf, Bool.false_eq_true, if_false, Option.mem_def,
          Option.some.injEq, exists_eq_left']
      have hfits : Fits P a len ↔ off + len ≤ (map.high - map.low).toNat + 1 := by
        simp only [Fits, hp, hf, hoff, Bool.false_eq_true, if_false, Option.mem_def,
          Option.some.injEq, forall_eq']
      rw [htouch, hregion, hfits]
      constructor
      · intro h
        have hsub := (interval_subset_iff hpos).mp fun i hi => (h (a := (.ioSpace, i)) ⟨rfl, hi⟩).2
        omega
      · rintro h ⟨array, i⟩ ⟨hx, hi⟩
        exact ⟨hx, (interval_subset_iff hpos).mpr (by omega) hi⟩

theorem paddrRead_none_iff (hlen : len = 1 ∨ len = 2 ∨ len = 4) : paddrRead P a len st = none ↔
    (inPmem a = false ∧ P.maps.find? (mapInside · a) = none) ∨ ReadRefused P a len st.io := by
  cases hp : inPmem a with
  | true =>
    rw [paddrRead_ram hp hlen]
    simp [ReadRefused, hp]
  | false =>
    cases hf : P.maps.find? (mapInside · a) with
    | none => simp [paddrRead_unmapped hp hf]
    | some map =>
      rw [paddrRead_map hp hf hlen]
      simp [ReadRefused, hp, hf]

theorem paddrWrite_none_iff (hlen : len = 1 ∨ len = 2 ∨ len = 4) :
    paddrWrite P a len v st = none ↔
      (inPmem a = false ∧ P.maps.find? (mapInside · a) = none) ∨ WriteRefused P a len v st.io := by
  cases hp : inPmem a with
  | true =>
    rw [paddrWrite_ram hp hlen]
    simp [WriteRefused, hp]
  | false =>
    cases hf : P.maps.find? (mapInside · a) with
    | none => simp [paddrWrite_unmapped hp hf]
    | some map =>
      rw [paddrWrite_map hp hf hlen]
      simp [WriteRefused, hp, hf]

theorem fits_of_unmapped (hp : inPmem a = false) (hf : P.maps.find? (mapInside · a) = none) :
    Fits P a len := by
  rw [Fits, if_neg (by simp [hp]), hf]
  simp

theorem unmapped_or_fits {refused : Prop} :
    (((inPmem a = false ∧ P.maps.find? (mapInside · a) = none) ∨ refused) ∨ Fits P a len ↔
      Fits P a len ∨ refused) := by
  constructor
  · rintro ((⟨hp, hf⟩ | hr) | hfits)
    · exact .inl (fits_of_unmapped hp hf)
    · exact .inr hr
    · exact .inl hfits
  · rintro (hfits | hr)
    · exact .inr hfits
    · exact .inl (.inr hr)

/-- An access panics or keeps to the region around its address exactly when it ends in that region or
the callback asserts. -/
theorem access_confined_iff (hlen : len = 1 ∨ len = 2 ∨ len = 4) :
    ((paddrRead P a len st = none ∨ touched P a len ⊆ region P a) ↔
      Fits P a len ∨ ReadRefused P a len st.io) ∧
    ((paddrWrite P a len v st = none ∨ touched P a len ⊆ region P a) ↔
      Fits P a len ∨ WriteRefused P a len v st.io) := by
  rw [paddrRead_none_iff hlen, paddrWrite_none_iff hlen, touched_subset_iff hlen]
  exact ⟨unmapped_or_fits, unmapped_or_fits⟩

theorem access_confined_iff_last :
    ((paddrRead bareBoard 0x87ffffff 4 blank = none ∨
        touched bareBoard 0x87ffffff 4 ⊆ region bareBoard 0x87ffffff) ↔
      Fits bareBoard 0x87ffffff 4 ∨ ReadRefused bareBoard 0x87ffffff 4 blank.io) ∧
    ((paddrWrite bareBoard 0x87ffffff 4 0x11223344 blank = none ∨
        touched bareBoard 0x87ffffff 4 ⊆ region bareBoard 0x87ffffff) ↔
      Fits bareBoard 0x87ffffff 4 ∨ WriteRefused bareBoard 0x87ffffff 4 0x11223344 blank.io) :=
  access_confined_iff (.inr (.inr rfl))

def pageBoard : Platform Unit :=
  { Config.default with maps := [⟨"page", 0xa0000000, 0xa0000fff, 0, none⟩] }

/-- A word stored at the last byte of RAM changes the byte behind `pmem`, and one stored at the last
byte of a region the byte behind its store. -/
theorem access_confined_refuted :
    ((paddrWrite bareBoard 0x87ffffff 4 0x11223344 blank).map
        fun st => hostByte st (.pmem, 0x8000000)) = some 0x33 ∧
      (.pmem, 0x8000000) ∉ region bareBoard 0x87ffffff ∧
    ((paddrWrite pageBoard 0xa0000fff 4 0x11223344 blank).map
        fun st => hostByte st (.ioSpace, 0x1000)) = some 0x33 ∧
      (.ioSpace, 0x1000) ∉ region pageBoard 0xa0000fff := by
  refine ⟨by decide +kernel, ?_, by decide +kernel, ?_⟩
  · rintro ⟨-, -, hlt⟩
    exact absurd hlt (by decide)
  · rintro ⟨map, hmap, -, -, hlt⟩
    obtain rfl := List.mem_singleton.mp (List.mem_of_find?_eq_some hmap)
    exact absurd hlt (by decide)

end GsEmu.Riscv32
