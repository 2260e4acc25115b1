import GsEmu.Device.Clint
import GsEmu.Difftest.Step

/-! The timer that `difftest_step` takes over from `rv32ima-diff`: `regcpy` delivers its 64 bits, `paddr_write`
takes a word of them, and `host_write` stores that word for the length 8. -/

namespace GsEmu.Difftest
open Bytes Riscv32 MiniRv32ima

variable {D : Type} {P : Platform D} {base : Nat} {st st' : State D}

/-! ## The write of eight bytes -/

theorem paddrWrite_clint_eight (hclint : ClintAt P.maps base) {offset : Word} (hoffset : offset < 0x10000)
    (v : Word) : paddrWrite P (configClintMmio + offset) 8 v st =
      paddrWrite P (configClintMmio + offset) 4 v st := by
  have hin : mapInside (clintMapAt base : IOMap D) (configClintMmio + offset) = true :=
    mapInside_clint hoffset
  have hwrite : mapWrite (configClintMmio + offset) 8 v (clintMapAt base) st.io =
      mapWrite (configClintMmio + offset) 4 v (clintMapAt base) st.io := by
    rw [mapWrite, mapWrite, if_pos ⟨by decide, by decide, hin⟩, if_pos ⟨by decide, by decide, hin⟩]
    rfl
  rw [paddrWrite_mmio (inPmem_clint hoffset), paddrWrite_mmio (inPmem_clint hoffset)]
  unfold mmioWrite fetchMmioMap
  rw [hclint _ hin]
  change (mapWrite _ 8 v (clintMapAt base) st.io).bind _ = (mapWrite _ 4 v (clintMapAt base) st.io).bind _
  rw [hwrite]

/-! ## The step -/

section
variable {rva : Bool} {priv : PrivModes} {exec : MiniRV32IMAState → MiniRV32IMAState} {env : CallEnv}
  {pc npc : Word} {r r' q : MiniRV32IMAState}

theorem checkregs_io {R : Type} (P : Platform D) (A : Adapter R) (answer : Option Int) (refR : Memory)
    (pc : Word) (st : State D) (r : R) : (checkregs P A answer refR pc st r).1.io = st.io := by
  have hcheck : (isaDifftestCheckregs P A answer refR st r).2.1.io = st.io := by
    unfold isaDifftestCheckregs
    split
    · split <;> rfl
    · rfl
  unfold checkregs
  dsimp only
  split <;> exact hcheck

theorem regcpy_low (buf : Memory) (r : MiniRV32IMAState) :
    readLE ((minirv32Adapter rva priv exec).toRef buf r).1 0 4 = r.timerl := by
  change readLE (writeLE (writeLE buf 0 4 r.timerl) 4 4 r.timerh) 0 4 = r.timerl
  rw [readLE_writeLE_outside _ (.inl (by decide)), readLE_writeLE]

theorem compared_clint (hclint : ClintAt P.maps base)
    (h : difftestStep P (minirv32Adapter rva priv exec) env pc npc st r = some (.compared q, st', r')) :
    q = exec r ∧ st'.io = setClintWord base mtimelo (exec r).timerl st.io := by
  obtain ⟨hone, hnr, href⟩ := difftestStep_compared h
  unfold difftestStep at h
  rw [if_neg (by simp [hone]), if_neg (by omega), if_neg (by simp [href])] at h
  change (paddrWrite P (configClintMmio + mtimelo) 8 (readLE
    ((minirv32Adapter rva priv exec).toRef env.heap (exec r)).1 0 4) st).bind _ = _ at h
  rw [regcpy_low, paddrWrite_clint_eight hclint (by decide), paddrWrite_clintWord hclint (by decide)] at h
  obtain ⟨hq, hcheck⟩ := Prod.mk.inj (Option.some.inj h)
  refine ⟨(Exit.compared.inj hq).symm, ?_⟩
  have hio := congrArg (·.1.io) hcheck
  exact hio.symm.trans (checkregs_io ..)

/-! ## Main result -/

def readTimer (P : Platform D) (st : State D) : Option (BitVec 64) := do
  let (hi, st) ← paddrRead P (configClintMmio + mtimehi) 4 st
  let (lo, _) ← paddrRead P (configClintMmio + mtimelo) 4 st
  return hi ++ lo

def timer (r : MiniRV32IMAState) : BitVec 64 := r.timerh ++ r.timerl

theorem readTimer_eq (hclint : ClintAt P.maps base) (st : State D) :
    readTimer P st = some (mtime base st.io) := by
  unfold readTimer
  rw [paddrRead_clintWord hclint (by decide)]
  change (paddrRead P (configClintMmio + mtimelo) 4 (st.setBus st.pmem st.io _)).bind _ = _
  rw [paddrRead_clintWord hclint (by decide)]
  rfl

/-- The lower word is taken over and the upper one stays as it was. -/
theorem timerSync_iff (hclint : ClintAt P.maps base)
    (h : difftestStep P (minirv32Adapter rva priv exec) env pc npc st r = some (.compared q, st', r')) :
    readTimer P st' = some (timer q) ↔ clintWord base mtimehi st.io = q.timerh := by
  obtain ⟨rfl, hio⟩ := compared_clint hclint h
  have hlo : clintWord base mtimelo st'.io = (exec r).timerl := by
    rw [hio]
    exact clintWord_setClintWord _ _
  have hhi : clintWord base mtimehi st'.io = clintWord base mtimehi st.io := by
    rw [hio]
    exact clintWord_setClintWord_of_apart _ _ (by decide)
  rw [readTimer_eq hclint, Option.some.injEq, mtime, timer, hhi, hlo, BitVec.append_left_inj]

end

/-! ## A run across the word boundary -/

def miniBoard : Platform Unit := { clintBoard with difftest := .minirv32i }

theorem miniBoard_clint : ClintAt miniBoard.maps 0 := by
  intro a ha
  exact List.find?_cons_of_pos (p := (mapInside · a)) (a := clintMap) ha

def idleMini : Adapter MiniRV32IMAState := minirv32Adapter false .M id

def timedMini (timerh timerl : Word) : MiniRV32IMAState :=
  ⟨fun _ => 0, resetVector, 0, 0, 0, timerl, timerh, 0, 0, 0, 0, 0, 0, 0, 0, 0, 0⟩

theorem timerSync_iff_low : ∃ q st' r', difftestStep miniBoard idleMini freshEnv resetVector resetVector
      (booted miniBoard []) (timedMini 0 5) = some (.compared q, st', r') ∧
    readTimer miniBoard st' = some (timer q) := by
  have hsome : (difftestStep miniBoard idleMini freshEnv resetVector resetVector
      (booted miniBoard []) (timedMini 0 5)).isSome = true := by decide +kernel
  obtain ⟨⟨exit, st', r'⟩, h⟩ := Option.isSome_iff_exists.mp hsome
  obtain ⟨io, skip, rfl, -⟩ := difftestStep_noSkip ⟨rfl, le_rfl, rfl⟩ h
  exact ⟨_, st', r', h, (timerSync_iff miniBoard_clint h).mpr (by decide +kernel)⟩

/-- The reference has counted past `2 ^ 32`; the emulator reads `5`. -/
theorem timerSync_refuted : ∃ q st' r', difftestStep miniBoard idleMini freshEnv resetVector resetVector
      (booted miniBoard []) (timedMini 1 5) = some (.compared q, st', r') ∧
    timer q = 0x100000005 ∧ readTimer miniBoard st' = some 5 := by
  have hrun : (difftestStep miniBoard idleMini freshEnv resetVector resetVector
      (booted miniBoard []) (timedMini 1 5)).map (fun x => readTimer miniBoard x.2.1) = some (some 5) := by
    decide +kernel
  obtain ⟨⟨exit, st', r'⟩, h, hread⟩ := Option.map_eq_some_iff.mp hrun
  obtain ⟨io, skip, rfl, -⟩ := difftestStep_noSkip ⟨rfl, le_rfl, rfl⟩ h
  exact ⟨_, st', r', h, by decide +kernel, hread⟩

end GsEmu.Difftest
