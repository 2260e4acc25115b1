import GsEmu.Device.Bus
import GsEmu.Lib.Patch
import Mathlib.Data.Nat.Digits.Lemmas

/-! RAM as the guest sees it: bytes at guest addresses, under any history of stores. -/

namespace GsEmu.Riscv32
open Bytes

variable {D : Type} {P : Platform D} {st st' : State D} {a b : Word} {len : Nat}

def ramByte (st : State D) (c : Word) : Byte := st.pmem (guestToHost c)

/-- An access of one, two or four bytes that are all in RAM. -/
def InRam (a : Word) (len : Nat) : Prop :=
  (len = 1 ∨ len = 2 ∨ len = 4) ∧ ∀ k < len, inPmem (a + BitVec.ofNat 32 k) = true

instance : Decidable (InRam a len) := inferInstanceAs (Decidable (_ ∧ ∀ k < len, _))

structure Store where
  addr : Word
  len : Nat
  data : Word

def Store.write (w : Store) (m : Memory) : Memory := writeLE m (guestToHost w.addr) w.len w.data

def Store.patch (w : Store) : Patch Word Byte where
  covers c := decide ((c - w.addr).toNat < w.len)
  value c := (w.data >>> (8 * (c - w.addr).toNat)).setWidth 8

def runStores (P : Platform D) (ws : List Store) (st : State D) : Option (State D) :=
  ws.foldlM (fun st w => vaddrWrite P w.addr w.len w.data st) st

def leNat (bytes : List Byte) : Nat := Nat.ofDigits 256 (bytes.map BitVec.toNat)

/-! ## Guest addresses and host addresses -/

theorem inPmem_toNat (hp : inPmem a = true) : guestToHost a < 0x8000000 := by
  have hlt : a - configMbase < configMsize := of_decide_eq_true hp
  exact hlt

theorem guestToHost_add {k : Nat} (hp : inPmem a = true) (hk : k < 2 ^ 31) :
    guestToHost (a + BitVec.ofNat 32 k) = guestToHost a + k := by
  have hlow : (a - configMbase).toNat < 0x8000000 := inPmem_toNat hp
  have hsub : a + BitVec.ofNat 32 k - configMbase = (a - configMbase) + BitVec.ofNat 32 k :=
    add_sub_right_comm _ _ _
  have hnat : (BitVec.ofNat 32 k).toNat = k := by
    rw [BitVec.toNat_ofNat, Nat.mod_eq_of_lt (by omega)]
  rw [guestToHost, hsub, BitVec.toNat_add, hnat, Nat.mod_eq_of_lt (by omega)]
  rfl

theorem InRam.inPmem (h : InRam a len) : inPmem a = true := by
  have hlen : 0 < len := by
    rcases h.1 with h | h | h <;> omega
  simpa using h.2 0 hlen

theorem InRam.host (h : InRam a len) : len ≤ 4 ∧ guestToHost a + len ≤ 0x8000000 := by
  have hlen : 1 ≤ len ∧ len ≤ 4 := by
    rcases h.1 with h | h | h <;> omega
  have hlast := inPmem_toNat (h.2 (len - 1) (by omega))
  rw [guestToHost_add h.inPmem (by omega)] at hlast
  omega

theorem covers_iff (h : InRam a len) (c : Word) :
    (guestToHost a ≤ guestToHost c ∧ guestToHost c < guestToHost a + len) ↔
      (c - a).toNat < len := by
  obtain ⟨hlen, hfit⟩ := h.host
  have hsub : c - a = (c - configMbase) - (a - configMbase) := (sub_sub_sub_cancel_right _ _ _).symm
  have hc : (c - configMbase).toNat < 2 ^ 32 := BitVec.isLt _
  rw [hsub, BitVec.toNat_sub]
  unfold guestToHost at *
  omega

theorem offset_eq (h : InRam a len) {c : Word} (hc : (c - a).toNat < len) :
    guestToHost c - guestToHost a = (c - a).toNat := by
  obtain ⟨hlen, hfit⟩ := h.host
  have hsub : c - a = (c - configMbase) - (a - configMbase) := (sub_sub_sub_cancel_right _ _ _).symm
  have hlt : (c - configMbase).toNat < 2 ^ 32 := BitVec.isLt _
  rw [hsub, BitVec.toNat_sub] at hc ⊢
  unfold guestToHost at *
  omega

theorem guestToHost_inj {c d : Word} (h : guestToHost c = guestToHost d) : c = d :=
  sub_left_injective (BitVec.eq_of_toNat_eq h)

/-! ## Loads -/

theorem leNat_lt (bytes : List Byte) : leNat bytes < 256 ^ bytes.length := by
  have hdigit : ∀ d ∈ bytes.map BitVec.toNat, d < 256 := by
    intro d hd
    obtain ⟨v, -, rfl⟩ := List.mem_map.mp hd
    exact v.isLt
  have hlt := Nat.ofDigits_lt_base_pow_length (by decide) hdigit
  rwa [List.length_map] at hlt

theorem readLE_toNat (m : Memory) (x : Nat) {n : Nat} (hn : n ≤ 4) :
    (readLE m x n).toNat = leNat ((List.range n).map fun k => m (x + k)) := by
  induction n generalizing x with
  | zero => rfl
  | succ n ih =>
    have hlt := leNat_lt ((List.range n).map fun k => m (x + 1 + k))
    rw [← ih (x + 1) (by omega), List.length_map, List.length_range] at hlt
    have hpow : 256 ^ n ≤ 256 ^ 3 := Nat.pow_le_pow_right (by decide) (by omega)
    have hlow : ((m x).setWidth 32).toNat = (m x).toNat := by
      rw [BitVec.toNat_setWidth, Nat.mod_eq_of_lt ((m x).isLt.trans (by decide))]
    have hshift : (readLE m (x + 1) n <<< 8).toNat = 2 ^ 8 * (readLE m (x + 1) n).toNat := by
      rw [BitVec.toNat_shiftLeft, Nat.shiftLeft_eq, Nat.mul_comm, Nat.mod_eq_of_lt (by omega)]
    have htail : (List.range n).map (fun k => m (x + 1 + k)) =
        ((List.range n).map Nat.succ).map fun k => m (x + k) := by
      rw [List.map_map]
      exact List.map_congr_left fun k _ => congrArg m (by simp only [Nat.succ_eq_add_one]; omega)
    rw [readLE, BitVec.toNat_or, hlow, hshift, ← Nat.two_pow_add_eq_or_of_lt (m x).isLt,
      ih (x + 1) (by omega), htail, List.range_succ_eq_map, List.map_cons, leNat, leNat,
      List.map_cons, Nat.ofDigits_cons, Nat.add_zero, Nat.add_comm]

theorem vaddrRead_ram (h : InRam a len) : ∃ v, vaddrRead P a len st = some (v, st) ∧
    v.toNat = leNat ((List.range len).map fun k => ramByte st (a + BitVec.ofNat 32 k)) := by
  have hread : hostRead st.pmem (guestToHost a) len = some (readLE st.pmem (guestToHost a) len) := by
    rcases h.1 with rfl | rfl | rfl <;> rfl
  refine ⟨readLE st.pmem (guestToHost a) len, ?_, ?_⟩
  · rw [vaddrRead, paddrRead_pmem h.inPmem, hread]
    rfl
  · rw [readLE_toNat _ _ h.host.1]
    refine congrArg leNat (List.map_congr_left fun k hk => ?_)
    have hklt : k < 2 ^ 31 := (List.mem_range.mp hk).trans_le (h.host.1.trans (by decide))
    rw [ramByte, guestToHost_add h.inPmem hklt]

/-! ## Stores -/

theorem vaddrWrite_eq (w : Store) (h : InRam w.addr w.len) :
    vaddrWrite P w.addr w.len w.data st =
      some { st with pmem := w.write st.pmem } := by
  have hwrite : hostWrite st.pmem (guestToHost w.addr) w.len w.data =
      some (w.write st.pmem) := by
    unfold Store.write
    rcases h.1 with hlen | hlen | hlen <;> rw [hlen] <;> rfl
  rw [vaddrWrite, paddrWrite_pmem h.inPmem, hwrite]
  rfl

theorem ramByte_store (w : Store) (h : InRam w.addr w.len) :
    ramByte { st with pmem := w.write st.pmem } =
      w.patch.apply (ramByte st) := by
  funext c
  simp only [ramByte, Store.write, writeLE, covers_iff h]
  by_cases hc : (c - w.addr).toNat < w.len
  · have hcov : w.patch.covers c = true := decide_eq_true hc
    rw [if_pos hc, Patch.apply_of_covers hcov, offset_eq h hc]
    rfl
  · have hcov : w.patch.covers c = false := decide_eq_false hc
    rw [if_neg hc, Patch.apply_of_not_covers hcov]
    rfl

theorem runStores_snoc {ws : List Store} (hrun : runStores P ws st = some st') (w : Store)
    (h : InRam w.addr w.len) :
    runStores P (ws ++ [w]) st = some { st' with pmem := w.write st'.pmem } := by
  unfold runStores at hrun ⊢
  rw [List.foldlM_append, hrun]
  change (vaddrWrite P w.addr w.len w.data st').bind some = _
  rw [vaddrWrite_eq w h]
  rfl

theorem runStores_spec (ws : List Store) (h : ∀ w ∈ ws, InRam w.addr w.len) :
    ∃ pmem, runStores P ws st = some { st with pmem := pmem } ∧
      ramByte { st with pmem := pmem } = Patch.lastValue (ws.map Store.patch) (ramByte st) := by
  induction ws using List.reverseRecOn with
  | nil => exact ⟨st.pmem, rfl, rfl⟩
  | append_singleton ws w ih =>
    obtain ⟨pmem, hrun, hbytes⟩ := ih fun w hw => h w (List.mem_append_left _ hw)
    have hw : InRam w.addr w.len := h w (List.mem_append_right _ (List.mem_singleton_self _))
    refine ⟨w.write pmem, runStores_snoc hrun w hw, ?_⟩
    · rw [List.map_append, List.map_singleton, Patch.lastValue_append, ← hbytes]
      exact @ramByte_store D { st with pmem := pmem } w hw

def hostPatch (x n : Nat) (v : Word) : Patch Nat Byte where
  covers y := decide (x ≤ y ∧ y < x + n)
  value y := (v >>> (8 * (y - x))).setWidth 8

theorem Store.write_eq_apply (w : Store) (m : Memory) :
    w.write m = (hostPatch (guestToHost w.addr) w.len w.data).apply m := by
  funext y
  simp only [Store.write, writeLE, Patch.apply, hostPatch, decide_eq_true_eq]

theorem stores_comm (w u : Store) (hw : InRam w.addr w.len) (hu : InRam u.addr u.len)
    (hdisj : ∀ i < w.len, ∀ j < u.len,
      w.addr + BitVec.ofNat 32 i ≠ u.addr + BitVec.ofNat 32 j) :
    runStores P [w, u] st = runStores P [u, w] st := by
  have hhost : ∀ y, (hostPatch (guestToHost u.addr) u.len u.data).covers y = true →
      (hostPatch (guestToHost w.addr) w.len w.data).covers y = false := by
    intro y hy
    obtain ⟨hlo, hhi⟩ := of_decide_eq_true hy
    apply decide_eq_false
    rintro ⟨hlo', hhi'⟩
    have hi : y - guestToHost w.addr < w.len := by omega
    have hj : y - guestToHost u.addr < u.len := by omega
    refine hdisj _ hi _ hj (guestToHost_inj ?_)
    have hwlen := hw.host.1
    have hulen := hu.host.1
    rw [guestToHost_add hw.inPmem (by omega), guestToHost_add hu.inPmem (by omega)]
    omega
  have hboth : ∀ {x y : Store}, InRam x.addr x.len → InRam y.addr y.len →
      runStores P [x, y] st = some { st with pmem := y.write (x.write st.pmem) } := by
    intro x y hx hy
    have hfirst : runStores P [x] st = some { st with pmem := x.write st.pmem } :=
      @runStores_snoc D P st st [] rfl x hx
    exact runStores_snoc hfirst y hy
  rw [hboth hw hu, hboth hu hw, u.write_eq_apply, w.write_eq_apply, w.write_eq_apply,
    u.write_eq_apply, Patch.apply_comm hhost]

/-- RAM is a byte-addressed little-endian store: after any history of stores a load spells the bytes
that the last stores around them left, a store leaves the bytes it does not cover, and disjoint stores
commute. -/
theorem ram_history (P : Platform D) (st : State D) :
    (∀ ws : List Store, (∀ w ∈ ws, InRam w.addr w.len) → ∃ st', runStores P ws st = some st' ∧
      ∀ b l, InRam b l → ∃ v, vaddrRead P b l st' = some (v, st') ∧
        v.toNat = leNat ((List.range l).map fun k =>
          Patch.lastValue (ws.map Store.patch) (ramByte st) (b + BitVec.ofNat 32 k))) ∧
    (∀ w : Store, InRam w.addr w.len → ∃ st', vaddrWrite P w.addr w.len w.data st = some st' ∧
      ∀ c, (∀ k < w.len, c ≠ w.addr + BitVec.ofNat 32 k) → ramByte st' c = ramByte st c) ∧
    ∀ w u : Store, InRam w.addr w.len → InRam u.addr u.len →
      (∀ i < w.len, ∀ j < u.len, w.addr + BitVec.ofNat 32 i ≠ u.addr + BitVec.ofNat 32 j) →
      runStores P [w, u] st = runStores P [u, w] st := by
  refine ⟨?_, ?_, fun w u hw hu hdisj => stores_comm w u hw hu hdisj⟩
  · intro ws hws
    obtain ⟨pmem, hrun, hbytes⟩ := @runStores_spec D P st ws hws
    refine ⟨_, hrun, fun b l hb => ?_⟩
    obtain ⟨v, hread, hv⟩ := @vaddrRead_ram D P { st with pmem := pmem } b l hb
    exact ⟨v, hread, by rw [hv, hbytes]⟩
  · intro w hw
    refine ⟨_, vaddrWrite_eq w hw, fun c hc => ?_⟩
    have hcov : w.patch.covers c = false := by
      apply decide_eq_false
      intro hlt
      refine hc _ hlt ?_
      rw [BitVec.ofNat_toNat, BitVec.setWidth_eq, add_sub_cancel]
    rw [ramByte_store w hw, Patch.apply_of_not_covers hcov]

def bareBoard : Platform Unit := { Config.default with maps := [] }

def blank : State Unit where
  gpr _ := 0
  csr _ := 0
  amw := []
  pc := 0
  curPri := 0
  haveRISCVException := 0
  riscvExceptionTval := 0
  pmem _ := 0
  io := ⟨fun _ => 0, ()⟩
  nemuState := ⟨.nemuStop, 0, 0⟩
  skip := ⟨false, 0, false⟩
  s := ⟨0, 0, 0, 0⟩

def twoStores : List Store := [⟨0x80000000, 4, 0x11223344⟩, ⟨0x80000001, 2, 0xaabb⟩]

theorem ram_history_twoStores : ∃ st' v, runStores bareBoard twoStores blank = some st' ∧
    vaddrRead bareBoard 0x80000000 4 st' = some (v, st') ∧ v.toNat = 0x11aabb44 := by
  obtain ⟨hhist, -, -⟩ := ram_history bareBoard blank
  obtain ⟨st', hrun, hread⟩ := hhist twoStores (by decide)
  obtain ⟨v, hv, hnat⟩ := hread 0x80000000 4 (by decide)
  have hbytes : ((List.range 4).map fun k => Patch.lastValue (twoStores.map Store.patch)
      (ramByte blank) (0x80000000 + BitVec.ofNat 32 k)) = [0x44, 0xbb, 0xaa, 0x11] := rfl
  have hspell : leNat [0x44, 0xbb, 0xaa, 0x11] = 0x11aabb44 := by decide
  exact ⟨st', v, hrun, hv, by rw [hnat, hbytes, hspell]⟩

end GsEmu.Riscv32
