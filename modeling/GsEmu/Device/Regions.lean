import Mathlib
import GsEmu.Device.Init

/-! The guest addresses of the registered maps. `add_mmio_map` compares a new range with the earlier maps
as intervals, but with physical memory by its two ends only. -/

namespace GsEmu.Riscv32

variable {D : Type} {s s' : Setup D} {m : IOMap D} {maps : List (IOMap D)}

structure MapRequest (D : Type) where
  name : String
  addr : Word
  space : Nat
  len : Word
  callback : Option (IoCallback D)

/-- The range has an address, and its last one does not wrap. -/
def MapRequest.Fits (r : MapRequest D) : Prop :=
  0 < r.len.toNat ∧ r.addr.toNat + r.len.toNat ≤ 2 ^ 32

def addMmioMaps (rs : List (MapRequest D)) (s : Setup D) : Option (Setup D) :=
  rs.foldlM (fun s r => addMmioMap r.name r.addr r.space r.len r.callback s) s

def IOMap.addresses (m : IOMap D) : Set Word := { a | mapInside m a = true }

def pmemAddresses : Set Word := { a | inPmem a = true }

/-- An address belongs to physical memory or to at most one map, and `find_mapid_by_addr` finds the map
in whatever order they are registered. -/
structure MapsSound (maps : List (IOMap D)) : Prop where
  disjoint : maps.Pairwise fun m n => Disjoint m.addresses n.addresses
  offPmem : ∀ m ∈ maps, Disjoint m.addresses pmemAddresses
  unique : ∀ a, { m | m ∈ maps ∧ a ∈ m.addresses }.Subsingleton
  found : ∀ maps' : List (IOMap D), maps'.Perm maps → ∀ m ∈ maps, ∀ a ∈ m.addresses,
    maps'.find? (mapInside · a) = some m

/-- The range begins below physical memory and ends above it. -/
def MapRequest.Encloses (r : MapRequest D) : Prop :=
  r.addr.toNat < configMbase.toNat ∧
    configMbase.toNat + configMsize.toNat < r.addr.toNat + r.len.toNat

/-! ## What `add_mmio_map` has checked -/

def IOMap.Before (m n : IOMap D) : Prop := m.high < n.low

/-- The maps as `add_mmio_map` leaves them. -/
structure Registered (maps : List (IOMap D)) : Prop where
  ordered : ∀ m ∈ maps, m.low ≤ m.high
  apart : maps.Pairwise fun m n => m.Before n ∨ n.Before m
  ends : ∀ m ∈ maps, inPmem m.low = false ∧ inPmem m.high = false

theorem addMmioMap_registered {r : MapRequest D} (hr : r.Fits) (hs : Registered s.maps)
    (h : addMmioMap r.name r.addr r.space r.len r.callback s = some s') :
    s'.maps = s.maps ++ [⟨r.name, r.addr, r.addr + r.len - 1, r.space, r.callback⟩] ∧
      Registered s'.maps := by
  unfold addMmioMap at h
  dsimp only at h
  split at h
  · simp at h
  · split at h
    · simp at h
    · rename_i hends
      split at h
      · simp at h
      · rename_i hover
        obtain rfl := Option.some.inj h
        rw [Bool.or_eq_true, not_or, Bool.not_eq_true, Bool.not_eq_true] at hends
        have hlast := toNat_last hr.1 hr.2
        have hle : r.addr ≤ r.addr + r.len - 1 := by
          rw [BitVec.le_def, hlast]
          have := hr.1
          omega
        refine ⟨rfl, ?_, ?_, ?_⟩
        · intro m hm
          rcases List.mem_append.mp hm with hm | hm
          · exact hs.ordered m hm
          · obtain rfl := List.mem_singleton.mp hm
            exact hle
        · refine List.pairwise_append.mpr ⟨hs.apart, List.pairwise_singleton _ _, ?_⟩
          intro m hm n hn
          obtain rfl := List.mem_singleton.mp hn
          have hno : ¬(r.addr ≤ m.high ∧ m.low ≤ r.addr + r.len - 1) := by
            intro hyes
            exact hover (List.any_eq_true.mpr ⟨m, hm, decide_eq_true hyes⟩)
          by_cases hlow : r.addr ≤ m.high
          · exact .inr (BitVec.not_le.mp fun hle => hno ⟨hlow, hle⟩)
          · exact .inl (BitVec.not_le.mp hlow)
        · intro m hm
          rcases List.mem_append.mp hm with hm | hm
          · exact hs.ends m hm
          · obtain rfl := List.mem_singleton.mp hm
            exact hends

theorem Registered.nil : Registered ([] : List (IOMap D)) := ⟨by simp, .nil, by simp⟩

theorem addMmioMaps_registered {rs : List (MapRequest D)} (hrs : ∀ r ∈ rs, r.Fits)
    (hs : Registered s.maps) (h : addMmioMaps rs s = some s') :
    s'.maps = s.maps ++ rs.map (fun r => ⟨r.name, r.addr, r.addr + r.len - 1, r.space, r.callback⟩) ∧
      Registered s'.maps := by
  induction rs generalizing s with
  | nil =>
    obtain rfl := Option.some.inj h
    exact ⟨(List.append_nil _).symm, hs⟩
  | cons r rs ih =>
    obtain ⟨t, ht, h⟩ := Option.bind_eq_some_iff.mp (show Option.bind _ (addMmioMaps rs) = _ from h)
    obtain ⟨hmaps, ht⟩ := addMmioMap_registered (hrs r (List.mem_cons_self ..)) hs ht
    obtain ⟨hmaps', hs'⟩ := ih (fun q hq => hrs q (List.mem_cons_of_mem _ hq)) ht h
    refine ⟨?_, hs'⟩
    rw [hmaps', hmaps, List.append_assoc]
    rfl

/-! ## Addresses -/

theorem mem_addresses {a : Word} :
    a ∈ m.addresses ↔ m.low.toNat ≤ a.toNat ∧ a.toNat ≤ m.high.toNat := by
  change decide _ = true ↔ _
  rw [decide_eq_true_eq, BitVec.le_def, BitVec.le_def]

theorem mem_pmemAddresses {a : Word} : a ∈ pmemAddresses ↔
    configMbase.toNat ≤ a.toNat ∧ a.toNat < configMbase.toNat + configMsize.toNat := by
  change inPmem a = true ↔ _
  have hbase : configMbase.toNat = 0x80000000 := rfl
  have hsize : configMsize.toNat = 0x8000000 := rfl
  rw [inPmem, decide_eq_true_eq, BitVec.lt_def, BitVec.toNat_sub, hbase, hsize]
  have := a.isLt
  omega

theorem Registered.disjoint (h : Registered maps) :
    maps.Pairwise fun m n => Disjoint m.addresses n.addresses := by
  refine h.apart.imp ?_
  intro m n hmn
  rw [Set.disjoint_left]
  intro a ham han
  rw [mem_addresses] at ham han
  rcases hmn with hlt | hlt
  · have := BitVec.lt_def.mp hlt
    omega
  · have := BitVec.lt_def.mp hlt
    omega

theorem Registered.eq_of_mem (h : Registered maps) {n : IOMap D} {a : Word} (hm : m ∈ maps)
    (hn : n ∈ maps) (ham : a ∈ m.addresses) (han : a ∈ n.addresses) : m = n := by
  by_contra hne
  have : Std.Symm fun m n : IOMap D => Disjoint m.addresses n.addresses := ⟨fun _ _ hd => hd.symm⟩
  have hdis := h.disjoint.forall hm hn hne
  exact Set.disjoint_left.mp hdis ham han

theorem Registered.find (h : Registered maps) {maps' : List (IOMap D)} (hperm : maps'.Perm maps)
    (hm : m ∈ maps) {a : Word} (ha : a ∈ m.addresses) :
    maps'.find? (mapInside · a) = some m := by
  have hsome : (maps'.find? (mapInside · a)).isSome = true :=
    List.find?_isSome.mpr ⟨m, hperm.mem_iff.mpr hm, ha⟩
  obtain ⟨n, hn⟩ := Option.isSome_iff_exists.mp hsome
  have hmem := hperm.mem_iff.mp (List.mem_of_find?_eq_some hn)
  have hin := List.find?_some hn
  rw [hn, h.eq_of_mem hmem hm hin ha]

theorem Registered.offPmem_iff (h : Registered maps) (hm : m ∈ maps) :
    Disjoint m.addresses pmemAddresses ↔ ¬(m.low.toNat < configMbase.toNat ∧
      configMbase.toNat + configMsize.toNat ≤ m.high.toNat) := by
  obtain ⟨hlow, hhigh⟩ := h.ends m hm
  have hle := BitVec.le_def.mp (h.ordered m hm)
  have hlow : m.low ∉ pmemAddresses := Bool.eq_false_iff.mp hlow
  have hhigh : m.high ∉ pmemAddresses := Bool.eq_false_iff.mp hhigh
  have hpos : 0 < configMsize.toNat := by decide
  rw [mem_pmemAddresses] at hlow hhigh
  constructor
  · intro hdis hout
    have hin : configMbase ∈ m.addresses := by
      rw [mem_addresses]
      omega
    have hp : configMbase ∈ pmemAddresses := by
      rw [mem_pmemAddresses]
      omega
    exact Set.disjoint_left.mp hdis hin hp
  · intro hout
    rw [Set.disjoint_left]
    intro a ham hap
    rw [mem_addresses] at ham
    rw [mem_pmemAddresses] at hap
    omega

/-- After calls that all return, the maps are sound exactly when no range goes around physical memory. -/
theorem maps_sound_iff {rs : List (MapRequest D)} (hrs : ∀ r ∈ rs, r.Fits)
    (h : addMmioMaps rs initMap = some s) : MapsSound s.maps ↔ ∀ r ∈ rs, ¬r.Encloses := by
  obtain ⟨hmaps, hreg⟩ := addMmioMaps_registered hrs Registered.nil h
  have hoff : (∀ m ∈ s.maps, Disjoint m.addresses pmemAddresses) ↔ ∀ r ∈ rs, ¬r.Encloses := by
    have hall := forall₂_congr fun m hm => hreg.offPmem_iff (m := m) hm
    rw [hall, hmaps]
    change (∀ m ∈ [] ++ List.map _ rs, _) ↔ _
    rw [List.nil_append, List.forall_mem_map]
    refine forall₂_congr fun r hr => not_congr ?_
    obtain ⟨hpos, hfit⟩ := hrs r hr
    have hlast := toNat_last hpos hfit
    rw [MapRequest.Encloses, hlast]
    exact and_congr_right fun _ => by omega
  constructor
  · exact fun hsound => hoff.mp hsound.offPmem
  · intro hno
    exact {
      disjoint := hreg.disjoint
      offPmem := hoff.mpr hno
      unique := fun a m hm n hn => hreg.eq_of_mem hm.1 hn.1 hm.2 hn.2
      found := fun maps' hperm m hm a ha => hreg.find hperm hm ha }

def wideRequest : MapRequest D := ⟨"wide", 0x70000000, 0, 0x20000000, none⟩

theorem maps_sound_refuted : ∃ s : Setup Unit, wideRequest.Fits (D := Unit) ∧
    addMmioMaps [wideRequest] initMap = some s ∧ ¬MapsSound s.maps := by
  refine ⟨_, by simp [MapRequest.Fits, wideRequest], rfl, fun hsound => ?_⟩
  have hdis := hsound.offPmem _ (List.mem_singleton_self _)
  have hin : configMbase ∈ pmemAddresses := by
    change decide _ = true
    decide
  have hnot := fun hmap => Set.disjoint_left.mp hdis hmap hin
  apply hnot
  change decide _ = true
  decide

def serialRequest : MapRequest D := ⟨"serial", configSerialMmio, 0, 0x1000, none⟩

theorem maps_sound_iff_serial : ∃ s : Setup Unit,
    addMmioMaps [serialRequest, wideRequest] initMap = some s ∧
      (MapsSound s.maps ↔ ∀ r ∈ [serialRequest (D := Unit), wideRequest], ¬r.Encloses) := by
  have hfits : ∀ r ∈ [serialRequest (D := Unit), wideRequest], r.Fits := by
    simp [MapRequest.Fits, serialRequest, wideRequest, configSerialMmio]
  exact ⟨_, rfl, maps_sound_iff hfits rfl⟩

end GsEmu.Riscv32
