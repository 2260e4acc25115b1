import GsEmu.Device.Board
import GsEmu.Lib.Outcome
import GsEmu.Lib.Run
import GsEmu.Riscv32.IoFrame
import GsEmu.Riscv32.TimerPending

/-! `mtime` over runs of the default build. `device_update` counts in 64 bits, `wfi` adds to the low word
alone. -/

namespace GsEmu.Riscv32
open Bytes

variable {st st' g : State Devices} {a v : Word} {len : Nat} {map : IOMap Devices}
  {io io' : Io Devices}

/-! ## The bytes of `mtime` -/

def mtimeStart : Nat := clintPortBase + mtimelo.toNat

def SameClock (io io' : Io Devices) : Prop :=
  ∀ x, mtimeStart ≤ x → x < mtimeStart + 8 → io'.space x = io.space x

def TouchesMtime (a : Word) (len : Nat) : Prop :=
  ∃ k < len, ∃ j < 8, a + BitVec.ofNat 32 k = configClintMmio + mtimelo + BitVec.ofNat 32 j

theorem SameClock.trans {io'' : Io Devices} (h : SameClock io io') (h' : SameClock io' io'') :
    SameClock io io'' := fun x hx hx' => (h' x hx hx').trans (h x hx hx')

theorem SameClock.word (h : SameClock io io') {off : Word} (hoff : mtimelo.toNat ≤ off.toNat)
    (hend : off.toNat + 4 ≤ mtimelo.toNat + 8) :
    clintWord clintPortBase off io' = clintWord clintPortBase off io := by
  apply readLE_congr
  intro x hx hx'
  exact h x (by unfold mtimeStart; omega) (by unfold mtimeStart; omega)

theorem SameClock.mtime (h : SameClock io io') :
    mtime clintPortBase io' = mtime clintPortBase io := by
  unfold Riscv32.mtime
  rw [h.word (by decide) (by decide), h.word (by decide) (by decide)]

/-! ## The handlers -/

theorem serialSwitch_far (base : Nat) (off : Word) (w : Bool) (u : Io Uart) {x : Nat}
    (hoff : off < 0x1000) (hx : base + 0x1000 ≤ x) : (serialSwitch base off w u).space x = u.space x := by
  have hlt : off.toNat < 0x1000 := hoff
  have hset : ∀ (r : Word) (b : Byte) (i : Io Uart), r.toNat < 0x1000 →
      (setSerialReg base r b i).space x = i.space x := by
    intro r b i hr
    exact Function.update_of_ne (by omega) ..
  have hhit : ∀ i : Io Uart, (isKBHit i).2.space = i.space := by
    intro i
    obtain ⟨e, n, h⟩ := isKBHit_cases i
    rw [h]
  rcases serialSwitch_cases base off w u with ⟨-, -, h⟩ | ⟨-, -, h⟩ | ⟨u₁, rfl, -, h⟩
  · rw [h]
    rfl
  · obtain ⟨e, n, hget | ⟨b, bs, hget⟩⟩ := serialGetc_cases base u
    · rw [h, hget]
    · rw [h, hget]
      exact hset uartRx _ _ (by decide)
  · rcases h with ⟨-, -, h⟩ | h | ⟨-, h⟩
    · rw [h]
      exact (hset _ _ _ hlt).trans (congrFun (hhit _) x)
    · rw [h]
      rfl
    · rw [h]
      exact hset _ _ _ hlt

theorem rtcIoHandler_far (len : Nat) {off : Word} {w : Bool} (h : rtcIoHandler off len w io = some io') {x : Nat}
    (hx : rtcPortBase + 8 ≤ x) : io'.space x = io.space x := by
  unfold rtcIoHandler at h
  split at h
  · split at h
    · obtain rfl := Option.some.inj h
      exact (writeLE_outside _ _ (by omega)).trans (writeLE_outside _ _ (by omega))
    · obtain rfl := Option.some.inj h
      rfl
  · simp at h

theorem i8042DataIoHandler_far (len : Nat) {off : Word} {w : Bool}
    (h : i8042DataIoHandler off len w io = some io') {x : Nat} (hx : i8042DataPortBase + 4 ≤ x) :
    io'.space x = io.space x := by
  unfold i8042DataIoHandler at h
  split at h
  · obtain rfl := Option.some.inj h
    exact writeLE_outside _ _ (by omega)
  · simp at h

theorem sysconIoHandler_space (len : Nat) {off : Word} {w : Bool}
    (h : sysconIoHandler off len w io = some io') : io'.space = io.space := by
  unfold sysconIoHandler at h
  split at h
  · split at h
    · split at h
      · obtain rfl := Option.some.inj h
        rfl
      · split at h
        · obtain rfl := Option.some.inj h
          rfl
        · obtain rfl := Option.some.inj h
          rfl
    · obtain rfl := Option.some.inj h
      rfl
  · simp at h

theorem offset_le (hin : mapInside map a = true) :
    (a - map.low).toNat ≤ (map.high - map.low).toNat := by
  obtain ⟨hlow, hhigh⟩ := of_decide_eq_true hin
  rw [BitVec.le_def] at hlow hhigh
  have hlt := map.high.isLt
  rw [BitVec.toNat_sub, BitVec.toNat_sub]
  omega

theorem defaultMaps_below (hmap : map ∈ defaultMaps) : map = clintMapAt clintPortBase ∨
    map.space + (map.high - map.low).toNat + 8 ≤ mtimeStart := by
  simp only [defaultMaps, List.mem_cons, List.not_mem_nil, or_false] at hmap
  rcases hmap with rfl | rfl | rfl | rfl | rfl | rfl | rfl | rfl | rfl
  case inr.inr.inr.inr.inr.inr.inr.inl => exact .inl rfl
  all_goals exact .inr (by decide)

theorem invokeCallback_clock (hmap : map ∈ defaultMaps) (hin : mapInside map a = true) {w : Bool}
    (h : invokeCallback map (a - map.low) len w io = some io') : SameClock io io' := by
  intro x hx _
  have hoff := offset_le hin
  have hserial : serialBase + 0x1000 ≤ x := (show _ ≤ mtimeStart by decide).trans hx
  have hrtc : rtcPortBase + 8 ≤ x := (show _ ≤ mtimeStart by decide).trans hx
  have hkeys : i8042DataPortBase + 4 ≤ x := (show _ ≤ mtimeStart by decide).trans hx
  simp only [defaultMaps, List.mem_cons, List.not_mem_nil, or_false] at hmap
  rcases hmap with rfl | rfl | rfl | rfl | rfl | rfl | rfl | rfl | rfl
  case inl =>
    have hlt : a - configSerialMmio < 0x1000 := Nat.lt_succ_of_le hoff
    obtain rfl := Option.some.inj h
    exact serialSwitch_far serialBase _ w _ hlt hserial
  case inr.inl => exact rtcIoHandler_far len h hrtc
  case inr.inr.inr.inr.inl => exact i8042DataIoHandler_far len h hkeys
  case inr.inr.inr.inr.inr.inr.inr.inr => exact congrFun (sysconIoHandler_space len h) x
  all_goals
    obtain rfl := Option.some.inj h
    rfl

theorem touches_of_reaches (hmap : map ∈ defaultMaps) (hin : mapInside map a = true) {x : Nat}
    (hlen : len ≤ 8)
    (hx : map.space + (a - map.low).toNat ≤ x ∧ x < map.space + (a - map.low).toNat + len)
    (hmt : mtimeStart ≤ x ∧ x < mtimeStart + 8) : TouchesMtime a len := by
  have hoff := offset_le hin
  rcases defaultMaps_below hmap with rfl | hbelow
  · obtain ⟨k, hk⟩ := Nat.exists_eq_add_of_le hx.1
    obtain ⟨j, hj⟩ := Nat.exists_eq_add_of_le hmt.1
    have hspace : (clintMapAt clintPortBase : IOMap Devices).space = clintPortBase := rfl
    have hlow : (clintMapAt clintPortBase : IOMap Devices).low = configClintMmio := rfl
    have hmtime : mtimelo.toNat = 0xbff8 := rfl
    rw [hspace, hlow] at hx hk
    unfold mtimeStart at hmt hj
    refine ⟨k, by omega, j, by omega, ?_⟩
    have hclint : configClintMmio.toNat = 0x11000000 := rfl
    have hsub : (a - configClintMmio).toNat + k = mtimelo.toNat + j := by omega
    have ha := a.isLt
    apply BitVec.eq_of_toNat_eq
    rw [BitVec.toNat_sub, hclint] at hsub
    rw [BitVec.toNat_add, BitVec.toNat_add, BitVec.toNat_add, BitVec.toNat_ofNat, BitVec.toNat_ofNat,
      hclint]
    omega
  · exact absurd hmt.1 (by omega)

/-! ## Accesses -/

theorem mem_of_fetch {map : IOMap Devices}
    (hf : defaultBoard.maps.find? (mapInside · a) = some map) :
    map ∈ defaultMaps ∧ mapInside map a = true :=
  ⟨List.mem_of_find?_eq_some hf, mapInside_of_find hf⟩

theorem paddrRead_clock (h : paddrRead defaultBoard a len st = some (v, st')) :
    SameClock st.io st'.io := by
  cases hp : inPmem a with
  | true =>
    rw [paddrRead_pmem hp] at h
    obtain ⟨w, -, hw⟩ := Option.map_eq_some_iff.mp h
    rw [← (Prod.mk.inj hw).2]
    exact fun _ _ _ => rfl
  | false =>
    rw [paddrRead_mmio hp] at h
    cases hf : defaultBoard.maps.find? (mapInside · a) with
    | none =>
      simp only [mmioRead, fetchMmioMap, hf] at h
      simp at h
    | some map =>
      obtain ⟨hmap, hin⟩ := mem_of_fetch hf
      simp only [mmioRead, fetchMmioMap, hf, Option.bind_eq_bind, Option.bind_some, Option.pure_def,
        Option.bind_eq_some_iff] at h
      obtain ⟨⟨ret, io⟩, hread, h⟩ := h
      obtain ⟨rfl, rfl⟩ := Prod.mk.inj (Option.some.inj h)
      unfold mapRead at hread
      split at hread
      · simp only [Option.bind_eq_bind, Option.pure_def, Option.bind_eq_some_iff] at hread
        obtain ⟨io', hcall, w, -, hret⟩ := hread
        obtain ⟨-, rfl⟩ := Prod.mk.inj (Option.some.inj hret)
        exact invokeCallback_clock hmap hin hcall
      · simp at hread

theorem paddrWrite_clock (h : paddrWrite defaultBoard a len v st = some st')
    (hno : ¬TouchesMtime a len) : SameClock st.io st'.io := by
  cases hp : inPmem a with
  | true =>
    rw [paddrWrite_pmem hp] at h
    obtain ⟨w, -, rfl⟩ := Option.map_eq_some_iff.mp h
    exact fun _ _ _ => rfl
  | false =>
    rw [paddrWrite_mmio hp] at h
    cases hf : defaultBoard.maps.find? (mapInside · a) with
    | none =>
      simp only [mmioWrite, fetchMmioMap, hf] at h
      simp at h
    | some map =>
      obtain ⟨hmap, hin⟩ := mem_of_fetch hf
      simp only [mmioWrite, fetchMmioMap, hf, Option.bind_eq_bind, Option.bind_some, Option.pure_def,
        Option.bind_eq_some_iff] at h
      obtain ⟨io, hwrite, h⟩ := h
      obtain rfl := Option.some.inj h
      unfold mapWrite at hwrite
      split at hwrite
      · rename_i hguard
        simp only [Option.bind_eq_bind, Option.bind_eq_some_iff] at hwrite
        obtain ⟨space, hstore, hcall⟩ := hwrite
        have hspace : SameClock st.io { st.io with space := space } := by
          intro x hx hx'
          exact hostWrite_outside hstore fun hreach =>
            hno (touches_of_reaches hmap hin hguard.2.1 hreach ⟨hx, hx'⟩)
        exact hspace.trans (invokeCallback_clock hmap hin hcall)
      · simp at hwrite

/-! ## What advances it -/

theorem execOnce_clock (hg : sampled defaultBoard st.enter = some g)
    (hwfi : ¬ExecutesWfi defaultBoard g)
    (hstore : ∀ x ∈ storeAt defaultBoard g, ¬TouchesMtime x.1 x.2)
    (h : execOnce defaultBoard st = some st') : SameClock st.io st'.io := by
  apply execOnce_io (Q := SameClock st.io) (W := fun a len => ¬TouchesMtime a len) ?_ ?_ hg hwfi hstore h
  · exact fun _ _ _ => rfl
  · intro a len v t t' hread hQ
    exact hQ.trans (paddrRead_clock hread)
  · intro a len v t t' hwrite hno hQ
    exact hQ.trans (paddrWrite_clock hwrite hno)

theorem sampled_clock (hg : sampled defaultBoard st.enter = some g) : SameClock st.io g.io := by
  apply sampled_io (Q := SameClock st.io) ?_ hg
  · exact fun _ _ _ => rfl
  · intro a len v t t' hread hQ
    exact hQ.trans (paddrRead_clock hread)

theorem execWfi_eq : execWfi defaultBoard st = some (st.setBus st.pmem (setClintWord clintPortBase mtimelo
    (clintWord clintPortBase mtimelo st.io + 2000) st.io) st.skip) := by
  have haccess : memAccess defaultBoard (configClintMmio + mtimelo) 4 := .inl rfl
  have hoff : mtimelo < 0x10000 := by decide
  have hread : mr defaultBoard (configClintMmio + mtimelo) 4 st = some
      (clintWord clintPortBase mtimelo st.io, st.setBus st.pmem st.io st.skip) := by
    rw [mr, if_pos haccess]
    exact paddrRead_clintWord defaultBoard_clint hoff
  rw [execWfi, if_pos haccess, hread]
  exact paddrWrite_clintWord defaultBoard_clint hoff

theorem mtime_toNat (io : Io Devices) : (mtime clintPortBase io).toNat =
    (clintWord clintPortBase mtimehi io).toNat * 2 ^ 32 + (clintWord clintPortBase mtimelo io).toNat :=
  toNat_words _ _

/-- The sum of a `wfi` is the larger number exactly when it fits the low word. -/
theorem wfi_le_iff (hg : sampled defaultBoard st.enter = some g) (hwfi : ExecutesWfi defaultBoard g)
    (h : execOnce defaultBoard st = some st') :
    mtime clintPortBase st.io ≤ mtime clintPortBase st'.io ↔
      (clintWord clintPortBase mtimelo st.io).toNat + 2000 < 2 ^ 32 := by
  obtain ⟨u, hu, hio⟩ := execOnce_wfi hg hwfi h
  rw [execWfi_eq] at hu
  obtain rfl := Option.some.inj hu
  have hsame : SameClock st.io (bodyStart g).io := by
    rw [dnpcAndCheck_io]
    exact sampled_clock hg
  have hlo : clintWord clintPortBase mtimelo st'.io = clintWord clintPortBase mtimelo st.io + 2000 := by
    rw [hio, ← hsame.word (by decide) (by decide)]
    exact clintWord_setClintWord _ _
  have hhi : clintWord clintPortBase mtimehi st'.io = clintWord clintPortBase mtimehi st.io := by
    rw [hio, ← hsame.word (by decide) (by decide)]
    exact clintWord_setClintWord_of_apart _ _ (by decide)
  have hlt := (clintWord clintPortBase mtimelo st.io).isLt
  have h2000 : (2000 : Word).toNat = 2000 := rfl
  rw [BitVec.le_def, mtime_toNat, mtime_toNat, hlo, hhi, BitVec.toNat_add, h2000]
  omega

theorem mtime_clintUpdate (io : Io Devices) :
    mtime clintPortBase (clintUpdate clintPortBase io) = mtime clintPortBase io + 1 := by
  obtain ⟨t, ht⟩ : ∃ t, mtime clintPortBase io + 1 = t := ⟨_, rfl⟩
  have hlo : clintWord clintPortBase mtimelo (clintUpdate clintPortBase io) = t.setWidth 32 := by
    rw [clintUpdate, ht, clintWord_setClintWord_of_apart _ _ (by decide)]
    exact clintWord_setClintWord _ _
  have hhi : clintWord clintPortBase mtimehi (clintUpdate clintPortBase io) = (t >>> 32).setWidth 32 := by
    rw [clintUpdate, ht]
    exact clintWord_setClintWord _ _
  have hlt := t.isLt
  apply BitVec.eq_of_toNat_eq
  rw [mtime_toNat, hlo, hhi, ht, BitVec.toNat_setWidth, BitVec.toNat_setWidth, BitVec.toNat_ushiftRight,
    Nat.shiftRight_eq_div_pow]
  omega

theorem tick_le_iff (io : Io Devices) :
    mtime clintPortBase io ≤ mtime clintPortBase (clintUpdate clintPortBase io) ↔
      mtime clintPortBase io ≠ BitVec.allOnes 64 := by
  have hlt := (mtime clintPortBase io).isLt
  have hones : (BitVec.allOnes 64).toNat = 2 ^ 64 - 1 := rfl
  rw [mtime_clintUpdate, BitVec.le_def, BitVec.toNat_add, Ne, ← BitVec.toNat_inj, hones,
    show (1 : BitVec 64).toNat = 1 from rfl]
  omega

theorem handleEvent_io {e : SdlEvent} (h : handleEvent st e = some st') :
    st'.io.space = st.io.space := by
  cases e with
  | quit =>
    obtain rfl := Option.some.inj h
    rfl
  | key amKey isKeydown =>
    change sendKey _ _ _ = _ at h
    unfold sendKey at h
    split at h
    · obtain ⟨d, -, rfl⟩ := Option.map_eq_some_iff.mp h
      rfl
    · obtain rfl := Option.some.inj h
      rfl
  | other =>
    obtain rfl := Option.some.inj h
    rfl

theorem deviceUpdate_mtime {events : List SdlEvent} (h : deviceUpdate events st = some st') :
    mtime clintPortBase st'.io = mtime clintPortBase (clintUpdate clintPortBase st.io) := by
  have hspace : st'.io.space = (clintUpdate clintPortBase st.io).space :=
    Outcome.foldlM_keeps (I := fun t : State Devices =>
      t.io.space = (clintUpdate clintPortBase st.io).space)
      (fun t e t' he ht => (handleEvent_io he).trans ht) h rfl
  unfold Riscv32.mtime clintWord
  rw [hspace]

/-! ## Runs of the board -/

/-- What happens to the emulator: an instruction, a `device_update` with the events of the window, a byte
read from the debugger, a new call of `cpu_exec`, or a change of the devices, the run state or the skip
requests from outside. -/
inductive BoardEvent
  | inst
  | deviceUpdate (events : List SdlEvent)
  | read (a : Word)
  | call (s : Decode)
  | outside (dev : Devices) (nemuState : NemuState) (skip : DifftestSkip)

def BoardStep (st : State Devices) : BoardEvent → State Devices → Prop
  | .inst, st' => execOnce defaultBoard st = some st'
  | .deviceUpdate events, st' => Riscv32.deviceUpdate events st = some st'
  | .read a, st' => ∃ v, vaddrRead defaultBoard a 1 st = some (v, st')
  | .call s, st' => st' = { st with s := s }
  | .outside dev nemuState skip, st' =>
    st' = { st with io := { st.io with dev := dev }, nemuState := nemuState, skip := skip }

abbrev BoardRun := Run BoardStep

/-- The guest stores to `MTIMELO` or `MTIMEHI`. -/
def StoresMtime (st : State Devices) : BoardEvent → Prop
  | .inst => ∃ g, sampled defaultBoard st.enter = some g ∧
      ∃ x ∈ storeAt defaultBoard g, TouchesMtime x.1 x.2
  | _ => False

/-- No `wfi` overflows the low word, and no tick the two words. -/
def Advances (st : State Devices) : BoardEvent → Prop
  | .inst => ∀ g, sampled defaultBoard st.enter = some g → ExecutesWfi defaultBoard g →
      (clintWord clintPortBase mtimelo st.io).toNat + 2000 < 2 ^ 32
  | .deviceUpdate _ => mtime clintPortBase st.io ≠ BitVec.allOnes 64
  | _ => True

theorem boardStep_mtime_iff {e : BoardEvent} (hno : ¬StoresMtime st e) (h : BoardStep st e st') :
    mtime clintPortBase st.io ≤ mtime clintPortBase st'.io ↔ Advances st e := by
  cases e with
  | inst =>
    obtain ⟨g, hg, -⟩ := execOnce_cases h
    have hone : Advances st .inst ↔ (ExecutesWfi defaultBoard g →
        (clintWord clintPortBase mtimelo st.io).toNat + 2000 < 2 ^ 32) := by
      simp only [Advances, hg, Option.some.injEq, forall_eq']
    rw [hone]
    by_cases hwfi : ExecutesWfi defaultBoard g
    · rw [wfi_le_iff hg hwfi h]
      exact ⟨fun h _ => h, fun h => h hwfi⟩
    · have hstore : ∀ x ∈ storeAt defaultBoard g, ¬TouchesMtime x.1 x.2 :=
        fun x hx htouch => hno ⟨g, hg, x, hx, htouch⟩
      rw [(execOnce_clock hg hwfi hstore h).mtime]
      exact iff_of_true (BitVec.le_refl _) fun hwfi' => absurd hwfi' hwfi
  | deviceUpdate events =>
    rw [deviceUpdate_mtime h]
    exact tick_le_iff _
  | read a =>
    obtain ⟨v, hread⟩ := h
    rw [(paddrRead_clock hread).mtime]
    exact iff_of_true (BitVec.le_refl _) trivial
  | call s =>
    obtain rfl : st' = { st with s := s } := h
    exact iff_of_true (BitVec.le_refl _) trivial
  | outside dev nemuState skip =>
    obtain rfl : st' = { st with io := { st.io with dev := dev }, nemuState := nemuState, skip := skip } := h
    exact iff_of_true (BitVec.le_refl _) trivial

/-- In no later state is `mtime` smaller than in an earlier one. -/
def NeverBack (tr : List (State Devices × BoardEvent)) (st : State Devices) : Prop :=
  (tr.map Prod.fst ++ [st]).Pairwise fun s s' =>
    mtime clintPortBase s.io ≤ mtime clintPortBase s'.io

/-- Where the guest does not store to it, `mtime` never runs backwards exactly as long as no `wfi` carries
out of the low word and no tick out of both. -/
theorem mtime_neverBack_iff {st₀ : State Devices} {tr : List (State Devices × BoardEvent)}
    (h : BoardRun st₀ tr st) (hguest : ∀ p ∈ tr, ¬StoresMtime p.1 p.2) :
    NeverBack tr st ↔ ∀ p ∈ tr, Advances p.1 p.2 :=
  h.pairwise_iff (G := fun s e => ¬StoresMtime s e) (fun _ _ _ => BitVec.le_trans)
    (fun _ _ _ hno hs => boardStep_mtime_iff hno hs) hguest

/-! ## A program of `wfi` alone -/

def wfiWord : Word := 0x10500073

def wfiImage : Memory := fun a => (wfiWord >>> (8 * (a % 4))).setWidth 8

def idleDevices : Devices where
  uart := ⟨false, [], false, fun _ => id, fun _ => none, 0, [], []⟩
  getTime _ := 0
  readings := 0
  keyQueue _ := 0
  keyF := ⟨0, by decide⟩
  keyR := ⟨0, by decide⟩

def bootedIo : Io Devices :=
  setClintWord clintPortBase mtimecmphi (~~~0) (setClintWord clintPortBase mtimecmplo (~~~0)
    ⟨writeLE (fun _ => 0) vgactlPortBase 4 ((400 <<< 16) ||| 300), idleDevices⟩)

def wfiMachine : State Devices :=
  restart defaultBoard
    { gpr := fun _ => 0
      csr := fun _ => 0
      amw := []
      pc := 0
      curPri := 0
      haveRISCVException := 0
      riscvExceptionTval := 0
      pmem := wfiImage
      io := bootedIo
      nemuState := ⟨.nemuRunning, 0, 0⟩
      skip := ⟨false, 0, false⟩
      s := ⟨0, 0, 0, 0⟩ }

structure AfterWfis (k : Nat) (st : State Devices) : Prop where
  pc : st.pc = resetVector + BitVec.ofNat 32 (4 * k)
  pmem : st.pmem = wfiImage
  mie : csr defaultBoard st csrMstatus &&& 0x8 = 0
  clear : st.haveRISCVException = riscvExcpNone
  low : clintWord clintPortBase mtimelo st.io = BitVec.ofNat 32 (2000 * k)

theorem wfiImage_word (k : Nat) : readLE wfiImage (4 * k) 4 = wfiWord := by
  have hbyte : ∀ j < 4, wfiImage (4 * k + j) = wfiImage j := by
    intro j hj
    have hmod : (4 * k + j) % 4 = j % 4 := by omega
    rw [wfiImage, wfiImage, hmod]
  have hshift : readLE wfiImage (4 * k) 4 = readLE wfiImage 0 4 := by
    simp only [readLE, Nat.add_assoc, Nat.reduceAdd, Nat.zero_add, hbyte 1 (by decide),
      hbyte 2 (by decide), hbyte 3 (by decide)]
    rw [← hbyte 0 (by decide), Nat.add_zero]
  rw [hshift]
  decide +kernel

theorem AfterWfis.fetch {k : Nat} (h : AfterWfis k st) (hk : 4 * k < 0x8000000) :
    instFetch defaultBoard st.enter =
      some { st.enter with s := { st.enter.s with inst := wfiWord, snpc := st.pc + 4 } } := by
  have hhost : guestToHost st.pc = 4 * k := by
    have hcancel : resetVector + BitVec.ofNat 32 (4 * k) - configMbase = BitVec.ofNat 32 (4 * k) :=
      add_sub_cancel_left _ _
    rw [guestToHost, h.pc, hcancel, BitVec.toNat_ofNat, Nat.mod_eq_of_lt (by omega)]
  have hin : inPmem st.pc = true := by
    have hlt : (st.pc - configMbase).toNat < 0x8000000 := by
      rw [← guestToHost, hhost]
      exact hk
    exact decide_eq_true hlt
  have hread : paddrRead defaultBoard st.pc 4 st.enter = some (wfiWord, st.enter) := by
    rw [paddrRead_ram hin (.inr (.inr rfl)), hhost]
    change some (readLE st.pmem _ _, _) = _
    rw [h.pmem, wfiImage_word]
  change (paddrRead defaultBoard st.pc 4 st.enter).bind _ = _
  rw [hread]
  rfl

theorem selectInst_wfi : ∃ p, selectInst defaultBoard.toConfig wfiWord = some p ∧ p.body = .wfi := by
  have hbody : (selectInst defaultBoard.toConfig wfiWord).map (·.body.isWfi) = some true := by
    decide +kernel
  obtain ⟨p, hp, hwfi⟩ := Option.map_eq_some_iff.mp hbody
  exact ⟨p, hp, Body.eq_wfi hwfi⟩

theorem AfterWfis.samples {k : Nat} (h : AfterWfis k st) (hk : 4 * k < 0x8000000) :
    ∃ skip late, sampled defaultBoard st.enter =
      some (afterFetch defaultBoard st.enter wfiWord st.io skip late) := by
  obtain ⟨u, hu⟩ : ∃ u : State Devices,
      { st.enter with s := { st.enter.s with inst := wfiWord, snpc := st.pc + 4 } } = u := ⟨_, rfl⟩
  obtain ⟨skip, late, htimer⟩ : ∃ skip late,
      timerLate defaultBoard u = some (late, u.setBus u.pmem u.io skip) :=
    (timerLate_clint u defaultBoard_clint).imp fun _ h => ⟨_, h⟩
  refine ⟨skip, late, ?_⟩
  unfold sampled
  rw [h.fetch hk, hu]
  change (timerLate defaultBoard u).bind _ = _
  rw [htimer, ← hu]
  rfl

theorem AfterWfis.reaches {k : Nat} (h : AfterWfis k st) (hk : 4 * k < 0x8000000)
    (hg : sampled defaultBoard st.enter = some g) :
    g.s.inst = wfiWord ∧ ¬Stubs defaultBoard g ∧ ¬Interrupts defaultBoard g := by
  have hmie : csr defaultBoard g csrMstatus &&& 0x8 = 0 := by
    rw [csr_sampled hg (by decide), h.mie]
  obtain ⟨skip, late, hs⟩ := h.samples hk
  obtain rfl := Option.some.inj (hs.symm.trans hg)
  exact ⟨rfl, fun hstub => hstub.1 hmie, fun hirq => hirq.1 hmie⟩

theorem AfterWfis.executesWfi {k : Nat} (h : AfterWfis k st) (hk : 4 * k < 0x8000000)
    (hg : sampled defaultBoard st.enter = some g) : ExecutesWfi defaultBoard g := by
  obtain ⟨hinst, hs, hi⟩ := h.reaches hk hg
  obtain ⟨p, hp, hbody⟩ := selectInst_wfi
  refine ⟨hs, hi, p, ?_, ?_⟩
  · rw [hinst]
    exact hp
  · rw [hbody]
    rfl

theorem AfterWfis.not_storesMtime {k : Nat} (h : AfterWfis k st) (hk : 4 * k < 0x8000000) :
    ¬StoresMtime st .inst := by
  rintro ⟨g, hg, x, hx, -⟩
  obtain ⟨hinst, hs, hi⟩ := h.reaches hk hg
  obtain ⟨p, hp, hbody⟩ := selectInst_wfi
  rw [storeAt, if_neg (not_or.mpr ⟨hs, hi⟩), hinst, hp, Option.bind_some, hbody] at hx
  simp [Body.storeAt] at hx

theorem AfterWfis.step {k : Nat} (h : AfterWfis k st) (hk : 4 * k < 0x8000000) :
    ∃ st', execOnce defaultBoard st = some st' ∧ AfterWfis (k + 1) st' := by
  obtain ⟨skip, late, hg⟩ := h.samples hk
  obtain ⟨g, hgdef⟩ : ∃ g, afterFetch defaultBoard st.enter wfiWord st.io skip late = g := ⟨_, rfl⟩
  rw [hgdef] at hg
  obtain ⟨hinst, hs, hi⟩ := h.reaches hk hg
  obtain ⟨p, hp, hbody⟩ := selectInst_wfi
  have hnext : g.s.snpc = resetVector + BitVec.ofNat 32 (4 * (k + 1)) := by
    rw [← hgdef, afterFetch_s]
    change st.pc + 4 = _
    rw [h.pc, Nat.mul_add, BitVec.ofNat_add, add_assoc]
    rfl
  have haligned : instAligned g.s.snpc := by
    have hreset : resetVector.toNat = 0x80000000 := rfl
    rw [hnext, instAligned, BitVec.toNat_add, BitVec.toNat_ofNat, hreset]
    omega
  have hclear : (bodyStart g).haveRISCVException = riscvExcpNone := by
    rw [dnpcAndCheck_haveRISCVException, if_pos haligned, ← hgdef, afterFetch_haveRISCVException]
    exact h.clear
  obtain ⟨t, ht⟩ : ∃ t, (bodyStart g).setBus (bodyStart g).pmem (setClintWord clintPortBase mtimelo
      (clintWord clintPortBase mtimelo (bodyStart g).io + 2000) (bodyStart g).io) (bodyStart g).skip = t :=
    ⟨_, rfl⟩
  have hdecode : decodeBody defaultBoard g = some (resetFixed defaultBoard t) := by
    have hexec : execBody defaultBoard p.body (operands g p) (bodyStart g) = some t := by
      rw [hbody, ← ht]
      exact execWfi_eq
    rw [← hinst] at hp
    rw [decodeBody_eq hp, hexec]
    rfl
  have htail : trapTail defaultBoard (resetFixed defaultBoard t) = resetFixed defaultBoard t := by
    refine if_neg (not_not.mpr ?_)
    rw [← ht]
    exact hclear
  refine ⟨moveOn (resetFixed defaultBoard t), ?_, ?_, ?_, ?_, ?_, ?_⟩
  · rw [execOnce_eq, hg, Option.bind_some, afterCheck_decode hs hi, hdecode, Option.map_some, htail]
    rfl
  · change t.s.dnpc = _
    rw [← ht, State.setBus_s, dnpcAndCheck_s, if_pos haligned, hnext]
  · change t.pmem = _
    rw [← ht, State.setBus_pmem, dnpcAndCheck_pmem, ← hgdef, afterFetch_pmem]
    exact h.pmem
  · change csr defaultBoard (resetFixed defaultBoard t) csrMstatus &&& 0x8 = 0
    rw [csr_resetFixed_of_ne _ _ (by decide), ← ht]
    change csr defaultBoard (bodyStart g) csrMstatus &&& 0x8 = 0
    rw [csr_bodyStart, csr_sampled hg (by decide), h.mie]
  · change t.haveRISCVException = _
    rw [← ht]
    exact hclear
  · change clintWord clintPortBase mtimelo t.io = _
    have hsame : SameClock st.io g.io := sampled_clock hg
    rw [← ht, State.setBus_io, clintWord_setClintWord, dnpcAndCheck_io,
      hsame.word (by decide) (by decide), h.low, Nat.mul_add, BitVec.ofNat_add]
    rfl

theorem wfiMachine_start : AfterWfis 0 wfiMachine where
  pc := rfl
  pmem := rfl
  mie := by decide +kernel
  clear := rfl
  low := by
    have hzero : clintWord clintPortBase mtimelo bootedIo = 0 := by
      unfold bootedIo
      rw [clintWord_setClintWord_of_apart _ _ (by decide), clintWord_setClintWord_of_apart _ _ (by decide)]
      have hfar : readLE (writeLE (fun _ => 0) vgactlPortBase 4 ((400 <<< 16) ||| 300))
          (clintPortBase + mtimelo.toNat) 4 = readLE (fun _ => 0) (clintPortBase + mtimelo.toNat) 4 :=
        readLE_writeLE_outside _ (by decide)
      exact hfar.trans (by decide +kernel)
    exact hzero

theorem wfiMachine_run (n : Nat) (hn : 4 * n ≤ 0x8000000) : ∃ tr st, BoardRun wfiMachine tr st ∧
    AfterWfis n st ∧ ∀ p ∈ tr, p.2 = .inst ∧ ∃ k < n, AfterWfis k p.1 := by
  induction n with
  | zero => exact ⟨[], wfiMachine, .nil, wfiMachine_start, fun _ hp => absurd hp List.not_mem_nil⟩
  | succ n ih =>
    obtain ⟨tr, st, hrun, hst, hall⟩ := ih (by omega)
    obtain ⟨st', hstep, hst'⟩ := hst.step (by omega)
    have hlast : BoardStep st .inst st' := hstep
    refine ⟨tr ++ [(st, .inst)], st', hrun.snoc hlast, hst', ?_⟩
    intro p hp
    rcases List.mem_append.mp hp with hp | hp
    · obtain ⟨hinst, k, hk, hafter⟩ := hall p hp
      exact ⟨hinst, k, by omega, hafter⟩
    · obtain rfl := List.mem_singleton.mp hp
      exact ⟨rfl, n, by omega, hst⟩

theorem wfiMachine_quiet {n : Nat} (hn : 4 * n ≤ 0x8000000) {tr : List (State Devices × BoardEvent)}
    (hall : ∀ p ∈ tr, p.2 = .inst ∧ ∃ k < n, AfterWfis k p.1) :
    ∀ p ∈ tr, ¬StoresMtime p.1 p.2 := by
  intro p hp
  obtain ⟨hinst, k, hk, hafter⟩ := hall p hp
  rw [hinst]
  exact hafter.not_storesMtime (by omega)

theorem wfiMachine_reset : Reset defaultBoard wfiMachine := ⟨_, rfl, rfl, rfl, rfl⟩

/-- Three of them stay far below. -/
theorem mtime_neverBack_iff_threeWfis :
    ∃ tr st, BoardRun wfiMachine tr st ∧ AfterWfis 3 st ∧ NeverBack tr st := by
  obtain ⟨tr, st, hrun, hst, hall⟩ := wfiMachine_run 3 (by decide)
  refine ⟨tr, st, hrun, hst, ?_⟩
  rw [mtime_neverBack_iff hrun (wfiMachine_quiet (by decide) hall)]
  intro p hp
  obtain ⟨hinst, k, hk, hafter⟩ := hall p hp
  rw [hinst]
  intro g _ _
  rw [hafter.low, BitVec.toNat_ofNat, Nat.mod_eq_of_lt (by omega)]
  omega

/-- The 2147484th `wfi` after reset carries out of the low word. -/
theorem mtime_neverBack_refuted : Reset defaultBoard wfiMachine ∧ ∃ tr st, BoardRun wfiMachine tr st ∧
    (∀ p ∈ tr, ¬StoresMtime p.1 p.2) ∧ ¬NeverBack tr st := by
  refine ⟨wfiMachine_reset, ?_⟩
  obtain ⟨tr, st, hrun, hst, hall⟩ := wfiMachine_run 2147483 (by decide)
  obtain ⟨st', hexec, -⟩ := hst.step (by decide)
  have hstep : BoardStep st .inst st' := hexec
  have hquiet : ∀ p ∈ tr, ¬StoresMtime p.1 p.2 := wfiMachine_quiet (by decide) hall
  refine ⟨tr ++ [(st, .inst)], st', hrun.snoc hstep, ?_, fun hall => ?_⟩
  · simp only [List.forall_mem_append, List.forall_mem_singleton]
    exact ⟨hquiet, hst.not_storesMtime (by decide)⟩
  · rw [NeverBack, List.map_append, List.map_singleton] at hall
    have hlast := (List.pairwise_append.mp hall).2.2 st
      (List.mem_append_right _ (List.mem_singleton_self _)) st' (List.mem_singleton_self _)
    obtain ⟨g, hg, -⟩ := execOnce_cases hexec
    rw [wfi_le_iff hg (hst.executesWfi (by decide) hg) hexec, hst.low] at hlast
    exact absurd hlast (by decide)

end GsEmu.Riscv32
