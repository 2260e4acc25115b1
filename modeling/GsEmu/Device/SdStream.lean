import GsEmu.Device.Sdcard

/-! The words that pass through `SDDATA` after a transfer command. `prepare_rw` resets the address and the file
position, but not `read_ext_csd`, which the data port looks at first. -/

namespace GsEmu.Riscv32
open Bytes

variable {base idx : Nat} {io io' : Io SdCard} {v b : Word} {f : ByteFile} {w : Bool}

/-! ## Sequences of accesses -/

inductive SdAccess
  | read (idx : Nat)
  | write (idx : Nat) (v : Word)
  deriving DecidableEq

def sdAccess (base : Nat) (a : SdAccess) (io : Io SdCard) : Option (List Word × Io SdCard) :=
  match a with
  | .read idx => (sdRead base idx io).map fun x => (if idx = sddata then [x.1] else [], x.2)
  | .write idx v => (sdWrite base idx v io).map fun io => ([], io)

def sdRun (base : Nat) : List SdAccess → Io SdCard → Option (List Word × Io SdCard)
  | [], io => some ([], io)
  | a :: as, io => do
    let (ws, io) ← sdAccess base a io
    let (vs, io) ← sdRun base as io
    return (ws ++ vs, io)

def sdCommand (cmd b : Word) : List SdAccess := [.write sdarg b, .write sdcmd cmd]

/-- The registers that the handler passes over, and the commands that start no transfer. -/
def sdQuietRegs : List Nat := [sdarg, sdrsp0, sdrsp1, sdrsp2, sdrsp3]

def sdQuietCommands : List Word :=
  [mmcGoIdleState, mmcSendOpCond, mmcAllSendCid, 52, mmcSendCsd, mmcSleepAwake, mmcAppCmd,
    mmcSetRelativeAddr, mmcSelectCard, mmcSetBlockCount, mmcSendStatus, mmcStopTransmission]

def SdAccess.Quiet : SdAccess → Prop
  | .read idx => idx ∈ sdQuietRegs
  | .write idx v => idx ∈ sdQuietRegs ∨ idx = sdcmd ∧ v &&& 0x3f ∈ sdQuietCommands

def Reading (as : List SdAccess) : Prop := ∀ a ∈ as, a.Quiet ∨ a = .read sddata

def Writing (as : List SdAccess) : Prop := ∀ a ∈ as, a.Quiet ∨ ∃ v, a = .write sddata v

def wordsRead (as : List SdAccess) : Nat := as.count (.read sddata)

def SdAccess.dataWord : SdAccess → Option Word
  | .read _ => none
  | .write idx v => if idx = sddata then some v else none

def wordsWritten (as : List SdAccess) : List Word := as.filterMap SdAccess.dataWord

def imageWords (image : ByteFile) (p n : Nat) : List Word :=
  (List.range n).map fun k => readLE image.data (p + 4 * k) 4

def Io.withImage (io : Io SdCard) (image : ByteFile) : Io SdCard :=
  { io with dev := { io.dev with fp := some image } }

/-- What the controller does with any card image from the state `io` on: a read command is followed by the
words of its blocks, a write command stores the words that follow it and changes no other byte, and what has
been written is read back. -/
structure Streams (base : Nat) (io : Io SdCard) : Prop where
  reads : ∀ image b as, Reading as → 512 * b.toNat + 4 * wordsRead as ≤ image.size →
    ∃ io', sdRun base (sdCommand mmcReadMultipleBlock b ++ as) (io.withImage image) =
      some (imageWords image (512 * b.toNat) (wordsRead as), io')
  writes : ∀ image b as, Writing as → 512 * b.toNat + 4 * (wordsWritten as).length ≤ image.size →
    ∃ io' image', sdRun base (sdCommand mmcWriteMultipleBlock b ++ as) (io.withImage image) =
        some ([], io') ∧ io'.dev.fp = some image' ∧ image'.size = image.size ∧
      imageWords image' (512 * b.toNat) (wordsWritten as).length = wordsWritten as ∧
      ∀ x, ¬(512 * b.toNat ≤ x ∧ x < 512 * b.toNat + 4 * (wordsWritten as).length) →
        image'.data x = image.data x
  readsBack : ∀ image b as as', Writing as → Reading as' →
    512 * b.toNat + 4 * (wordsWritten as).length ≤ image.size →
    wordsRead as' = (wordsWritten as).length →
    ∃ io', sdRun base (sdCommand mmcWriteMultipleBlock b ++ as ++
      (sdCommand mmcReadMultipleBlock b ++ as')) (io.withImage image) = some (wordsWritten as, io')

/-! ## One access -/

theorem sdReg_setSdReg {i j : Nat} :
    sdReg base i (setSdReg base j v io) = if i = j then v else sdReg base i io := by
  unfold sdReg setSdReg
  by_cases h : i = j
  · rw [if_pos h, h]
    exact readLE_writeLE _ _ _
  · rw [if_neg h]
    exact readLE_writeLE_outside _ (by omega)

structure Transfer (io : Io SdCard) (f : ByteFile) (w : Bool) : Prop where
  fp : io.dev.fp = some f
  writeCmd : io.dev.writeCmd = w
  readExtCsd : io.dev.readExtCsd = false

theorem Transfer.store (h : Transfer io f w) (base idx : Nat) (v : Word) :
    Transfer (setSdReg base idx v io) f w := ⟨h.fp, h.writeCmd, h.readExtCsd⟩

theorem Transfer.quietCommand (h : Transfer io f w) (base : Nat) {cmd : Word} (hcmd : cmd ∈ sdQuietCommands) :
    ∃ io', sdcardHandleCmd base cmd io = some io' ∧ Transfer io' f w := by
  simp only [sdQuietCommands, List.mem_cons, List.not_mem_nil, or_false] at hcmd
  rcases hcmd with rfl | rfl | rfl | rfl | rfl | rfl | rfl | rfl | rfl | rfl | rfl | rfl <;>
    exact ⟨_, rfl, h.fp, h.writeCmd, h.readExtCsd⟩

theorem sdQuietRegs_lt (hidx : idx ∈ sdQuietRegs) : idx < 32 ∧ idx ≠ sddata := by
  simp only [sdQuietRegs, List.mem_cons, List.not_mem_nil, or_false] at hidx
  rcases hidx with rfl | rfl | rfl | rfl | rfl <;> decide

theorem sdSwitch_quietReg (hidx : idx ∈ sdQuietRegs) : sdSwitch base idx io = some io := by
  simp only [sdQuietRegs, List.mem_cons, List.not_mem_nil, or_false] at hidx
  rcases hidx with rfl | rfl | rfl | rfl | rfl <;> rfl

theorem Transfer.quiet (h : Transfer io f w) (base : Nat) {a : SdAccess} (ha : a.Quiet) :
    ∃ io', sdAccess base a io = some ([], io') ∧ Transfer io' f w := by
  cases a with
  | read idx =>
    obtain ⟨hlt, hdata⟩ := sdQuietRegs_lt ha
    refine ⟨io, ?_, h⟩
    rw [sdAccess, sdRead_eq hlt, sdSwitch_quietReg ha]
    simp only [Option.map_some, if_neg hdata]
  | write idx v =>
    rcases ha with ha | ⟨rfl, ha⟩
    · refine ⟨setSdReg base idx v io, ?_, h.store base idx v⟩
      rw [sdAccess, sdWrite_eq (sdQuietRegs_lt ha).1, sdSwitch_quietReg ha]
      rfl
    · obtain ⟨io', hcmd, h'⟩ := (h.store base sdcmd v).quietCommand base ha
      refine ⟨io', ?_, h'⟩
      rw [sdAccess, sdWrite_eq (by decide), sdSwitch, if_pos rfl, sdReg_setSdReg, if_pos rfl, hcmd]
      rfl

theorem Transfer.read (h : Transfer io f false) (base : Nat) (hpos : f.pos + 4 ≤ f.size) :
    ∃ io', sdAccess base (.read sddata) io = some ([readLE f.data f.pos 4], io') ∧
      Transfer io' (f.seek (f.pos + 4)) false := by
  obtain ⟨hfile, hword⟩ := f.readTo_inside (m := io.space) (a := base + 4 * sddata) hpos
  have hport : sdDataPort base io =
      { io with
        space := (f.readTo 4 io.space (base + 4 * sddata)).2
        dev := { io.dev with
          fp := some (f.seek (f.pos + 4)), addr := io.dev.addr + 4 } } := by
    simp only [sdDataPort, h.readExtCsd, h.fp, h.writeCmd, Bool.false_eq_true, if_false, Bool.not_false,
      if_true, hfile]
  refine ⟨sdDataPort base io, ?_, ?_⟩
  · have hswitch : sdSwitch base sddata io = some (sdDataPort base io) := rfl
    rw [sdAccess, sdRead_eq (by decide), hswitch]
    change some ([sdReg base sddata (sdDataPort base io)], _) = _
    rw [← hword, hport]
    rfl
  · rw [hport]
    exact ⟨rfl, h.writeCmd, h.readExtCsd⟩

theorem Transfer.write (h : Transfer io f true) (base : Nat) (hpos : f.pos + 4 ≤ f.size) (v : Word) :
    ∃ io' f', sdAccess base (.write sddata v) io = some ([], io') ∧ Transfer io' f' true ∧
      f'.pos = f.pos + 4 ∧ f'.size = f.size ∧ readLE f'.data f.pos 4 = v ∧
      ∀ x, ¬(f.pos ≤ x ∧ x < f.pos + 4) → f'.data x = f.data x := by
  obtain ⟨io₁, hio₁⟩ : ∃ io₁, setSdReg base sddata v io = io₁ := ⟨_, rfl⟩
  have h₁ : Transfer io₁ f true := hio₁ ▸ h.store base sddata v
  obtain ⟨hsize, hword, hother⟩ := f.writeFrom_inside (m := io₁.space) (a := base + 4 * sddata) hpos
  have hport : sdDataPort base io₁ = { io₁ with dev := { io₁.dev with
      fp := some (f.writeFrom 4 io₁.space (base + 4 * sddata)), addr := io₁.dev.addr + 4 } } := by
    simp only [sdDataPort, h₁.readExtCsd, h₁.fp, h₁.writeCmd, Bool.false_eq_true, if_false, Bool.not_true]
  have hreg : readLE io₁.space (base + 4 * sddata) 4 = v := by
    rw [← hio₁]
    exact readLE_writeLE _ _ _
  refine ⟨sdDataPort base io₁, f.writeFrom 4 io₁.space (base + 4 * sddata), ?_, ?_, rfl, hsize,
    hword.trans hreg, hother⟩
  · have hswitch : sdSwitch base sddata io₁ = some (sdDataPort base io₁) := rfl
    rw [sdAccess, sdWrite_eq (by decide), hio₁, hswitch]
    rfl
  · rw [hport]
    exact ⟨rfl, h₁.writeCmd, h₁.readExtCsd⟩

/-! ## Runs -/

section Runs
variable {a : SdAccess} {as bs : List SdAccess} {ws vs : List Word} {io₁ io₂ : Io SdCard}

theorem sdRun_cons (h : sdAccess base a io = some (ws, io₁)) (h' : sdRun base as io₁ = some (vs, io₂)) :
    sdRun base (a :: as) io = some (ws ++ vs, io₂) := by
  rw [sdRun, h]
  change (sdRun base as io₁ >>= _) = _
  rw [h']
  rfl

theorem sdRun_append (h : sdRun base as io = some (ws, io₁)) (h' : sdRun base bs io₁ = some (vs, io₂)) :
    sdRun base (as ++ bs) io = some (ws ++ vs, io₂) := by
  induction as generalizing io ws with
  | nil =>
    obtain ⟨rfl, rfl⟩ := Prod.mk.inj (Option.some.inj h)
    exact h'
  | cons a as ih =>
    obtain ⟨⟨us, io₃⟩, ha, hrest⟩ := Option.bind_eq_some_iff.mp h
    obtain ⟨⟨us', io₄⟩, has, heq⟩ := Option.bind_eq_some_iff.mp hrest
    obtain ⟨rfl, rfl⟩ := Prod.mk.inj (Option.some.inj heq)
    rw [List.cons_append, List.append_assoc]
    exact sdRun_cons ha (ih has)

end Runs

theorem SdAccess.Quiet.ne_read {a : SdAccess} (ha : a.Quiet) : a ≠ .read sddata := by
  rintro rfl
  exact (sdQuietRegs_lt ha).2 rfl

theorem SdAccess.Quiet.dataWord {a : SdAccess} (ha : a.Quiet) : a.dataWord = none := by
  cases a with
  | read idx => rfl
  | write idx v =>
    refine if_neg ?_
    rcases ha with ha | ⟨rfl, -⟩
    · exact (sdQuietRegs_lt ha).2
    · decide

theorem imageWords_succ (image : ByteFile) (p n : Nat) :
    imageWords image p (n + 1) = readLE image.data p 4 :: imageWords image (p + 4) n := by
  rw [imageWords, List.range_succ_eq_map, List.map_cons, List.map_map, imageWords]
  refine congrArg _ (List.map_congr_left fun k _ => ?_)
  change readLE image.data (p + 4 * (k + 1)) 4 = _
  rw [show p + 4 * (k + 1) = p + 4 + 4 * k by omega]

theorem Transfer.reads {as : List SdAccess} (h : Transfer io f false) (base : Nat) (has : Reading as)
    (hin : f.pos + 4 * wordsRead as ≤ f.size) : ∃ io',
      sdRun base as io = some (imageWords f f.pos (wordsRead as), io') ∧
      Transfer io' (f.seek (f.pos + 4 * wordsRead as)) false := by
  induction as generalizing io f with
  | nil => exact ⟨io, rfl, h⟩
  | cons a as ih =>
    obtain ⟨ha, hrest⟩ := List.forall_mem_cons.mp has
    rcases ha with ha | rfl
    · have hcount : wordsRead (a :: as) = wordsRead as := List.count_cons_of_ne ha.ne_read
      rw [hcount] at hin ⊢
      obtain ⟨io₁, hquiet, h₁⟩ := h.quiet base ha
      obtain ⟨io₂, hrun, h₂⟩ := ih h₁ hrest hin
      exact ⟨io₂, sdRun_cons hquiet hrun, h₂⟩
    · have hcount : wordsRead (.read sddata :: as) = wordsRead as + 1 := List.count_cons_self
      rw [hcount] at hin ⊢
      obtain ⟨io₁, hread, h₁⟩ := h.read base (by omega)
      have hin₁ : (f.seek (f.pos + 4)).pos + 4 * wordsRead as ≤ (f.seek (f.pos + 4)).size := by
        rw [ByteFile.seek_pos, ByteFile.seek_size]
        omega
      obtain ⟨io₂, hrun, h₂⟩ := ih h₁ hrest hin₁
      refine ⟨io₂, ?_, ?_⟩
      · rw [imageWords_succ]
        exact sdRun_cons hread hrun
      · rw [show f.pos + 4 * (wordsRead as + 1) = f.pos + 4 + 4 * wordsRead as by omega]
        exact h₂

structure Stored (f : ByteFile) (ws : List Word) (f' : ByteFile) : Prop where
  size : f'.size = f.size
  words : imageWords f' f.pos ws.length = ws
  other : ∀ x, ¬(f.pos ≤ x ∧ x < f.pos + 4 * ws.length) → f'.data x = f.data x

theorem Stored.cons {f₁ f₂ : ByteFile} {ws : List Word} (hpos : f₁.pos = f.pos + 4) (hsize : f₁.size = f.size)
    (hword : readLE f₁.data f.pos 4 = v)
    (hother : ∀ x, ¬(f.pos ≤ x ∧ x < f.pos + 4) → f₁.data x = f.data x) (h : Stored f₁ ws f₂) :
    Stored f (v :: ws) f₂ where
  size := h.size.trans hsize
  words := by
    have hfirst : readLE f₂.data f.pos 4 = readLE f₁.data f.pos 4 :=
      readLE_shift fun i hi => h.other _ (by omega)
    rw [List.length_cons, imageWords_succ, ← hpos, h.words, hfirst, hword]
  other := fun x hx => by
    rw [List.length_cons] at hx
    exact (h.other x (by omega)).trans (hother x (by omega))

theorem Transfer.writes {as : List SdAccess} (h : Transfer io f true) (base : Nat) (has : Writing as)
    (hin : f.pos + 4 * (wordsWritten as).length ≤ f.size) : ∃ io' f',
      sdRun base as io = some ([], io') ∧ Transfer io' f' true ∧ Stored f (wordsWritten as) f' := by
  induction as generalizing io f with
  | nil => exact ⟨io, f, rfl, h, rfl, rfl, fun _ _ => rfl⟩
  | cons a as ih =>
    obtain ⟨ha, hrest⟩ := List.forall_mem_cons.mp has
    rcases ha with ha | ⟨v, rfl⟩
    · have hwords : wordsWritten (a :: as) = wordsWritten as := List.filterMap_cons_none ha.dataWord
      rw [hwords] at hin ⊢
      obtain ⟨io₁, hquiet, h₁⟩ := h.quiet base ha
      obtain ⟨io₂, f₂, hrun, h₂⟩ := ih h₁ hrest hin
      exact ⟨io₂, f₂, sdRun_cons hquiet hrun, h₂⟩
    · have hwords : wordsWritten (.write sddata v :: as) = v :: wordsWritten as :=
        List.filterMap_cons_some rfl
      rw [hwords, List.length_cons] at hin
      obtain ⟨io₁, f₁, hwrite, h₁, hpos, hsize, hword, hother⟩ := h.write base (by omega) v
      obtain ⟨io₂, f₂, hrun, h₂, hstored⟩ := ih h₁ hrest (by omega)
      rw [hwords]
      exact ⟨io₂, f₂, sdRun_cons hwrite hrun, h₂, hstored.cons hpos hsize hword hother⟩

/-! ## The transfer commands -/

def transferCommand (w : Bool) : Word := if w then mmcWriteMultipleBlock else mmcReadMultipleBlock

theorem sdcardHandleCmd_transfer (w : Bool) (base : Nat) (io : Io SdCard) :
    sdcardHandleCmd base (transferCommand w &&& 0x3f) io = some (prepareRw base w io) := by
  cases w <;> rfl

theorem sdRun_transferCommand (w : Bool) (base : Nat) (b : Word) (hfp : io.dev.fp = some f) : ∃ io',
    sdRun base (sdCommand (transferCommand w) b) io = some ([], io') ∧
      io'.dev.fp = some (f.seek (512 * b.toNat)) ∧ io'.dev.writeCmd = w ∧ io'.dev.addr = 0 ∧
      io'.dev.readExtCsd = io.dev.readExtCsd := by
  obtain ⟨io₁, hio₁⟩ : ∃ io₁, setSdReg base sdcmd (transferCommand w) (setSdReg base sdarg b io) = io₁ :=
    ⟨_, rfl⟩
  have harg : sdReg base sdarg io₁ = b := by
    rw [← hio₁, sdReg_setSdReg, if_neg (by decide), sdReg_setSdReg, if_pos rfl]
  have hcmd : sdReg base sdcmd io₁ = transferCommand w := by
    rw [← hio₁, sdReg_setSdReg, if_pos rfl]
  have hfp₁ : io₁.dev.fp = some f := hio₁ ▸ hfp
  have hcsd : io₁.dev.readExtCsd = io.dev.readExtCsd := by
    rw [← hio₁]
    rfl
  have hfirst : sdAccess base (.write sdarg b) io = some ([], setSdReg base sdarg b io) := by
    rw [sdAccess, sdWrite_eq (by decide)]
    rfl
  have hsecond : sdAccess base (.write sdcmd (transferCommand w)) (setSdReg base sdarg b io) =
      some ([], prepareRw base w io₁) := by
    rw [sdAccess, sdWrite_eq (by decide), hio₁, sdSwitch, if_pos rfl, hcmd, sdcardHandleCmd_transfer]
    rfl
  refine ⟨prepareRw base w io₁, ?_, ?_, rfl, rfl, hcsd⟩
  · exact sdRun_cons hfirst (sdRun_cons hsecond rfl)
  · rw [prepareRw]
    change io₁.dev.fp.map _ = _
    rw [hfp₁, harg, Nat.shiftLeft_eq, Nat.mul_comm]
    rfl

theorem Transfer.start (w : Bool) (base : Nat) (b : Word) (hfp : io.dev.fp = some f)
    (hcsd : io.dev.readExtCsd = false) : ∃ io',
      sdRun base (sdCommand (transferCommand w) b) io = some ([], io') ∧
      Transfer io' (f.seek (512 * b.toNat)) w := by
  obtain ⟨io', hrun, hfp', hwrite, -, hcsd'⟩ := sdRun_transferCommand w base b hfp
  exact ⟨io', hrun, hfp', hwrite, hcsd'.trans hcsd⟩

theorem sdRun_readCommand {as : List SdAccess} (b : Word) (hfp : io.dev.fp = some f)
    (hcsd : io.dev.readExtCsd = false) (has : Reading as)
    (hin : 512 * b.toNat + 4 * wordsRead as ≤ f.size) : ∃ io',
      sdRun base (sdCommand mmcReadMultipleBlock b ++ as) io =
        some (imageWords f (512 * b.toNat) (wordsRead as), io') := by
  obtain ⟨io₁, hcmd, h₁⟩ := Transfer.start false base b hfp hcsd
  obtain ⟨io₂, hrun, -⟩ := h₁.reads base has hin
  exact ⟨io₂, sdRun_append hcmd hrun⟩

theorem sdRun_writeCommand {as : List SdAccess} (b : Word) (hfp : io.dev.fp = some f)
    (hcsd : io.dev.readExtCsd = false) (has : Writing as)
    (hin : 512 * b.toNat + 4 * (wordsWritten as).length ≤ f.size) : ∃ io' f',
      sdRun base (sdCommand mmcWriteMultipleBlock b ++ as) io = some ([], io') ∧ Transfer io' f' true ∧
      Stored (f.seek (512 * b.toNat)) (wordsWritten as) f' := by
  obtain ⟨io₁, hcmd, h₁⟩ := Transfer.start true base b hfp hcsd
  obtain ⟨io₂, f₂, hrun, h₂, hstored⟩ := h₁.writes base has hin
  exact ⟨io₂, f₂, sdRun_append hcmd hrun, h₂, hstored⟩

theorem streams_of_not_readExtCsd (hcsd : io.dev.readExtCsd = false) : Streams base io where
  reads := fun image b as has hin => sdRun_readCommand b rfl hcsd has hin
  writes := fun image b as has hin => by
    have hfp : (io.withImage image).dev.fp = some image := rfl
    obtain ⟨io', image', hrun, h', hstored⟩ := sdRun_writeCommand b hfp hcsd has hin
    exact ⟨io', image', hrun, h'.fp, hstored.size, hstored.words, hstored.other⟩
  readsBack := fun image b as as' has has' hin hcount => by
    have hfp : (io.withImage image).dev.fp = some image := rfl
    obtain ⟨io₁, image₁, hwrite, h₁, hstored⟩ := sdRun_writeCommand b hfp hcsd has hin
    have hin' : 512 * b.toNat + 4 * wordsRead as' ≤ image₁.size := by
      rw [hcount, hstored.size]
      exact hin
    obtain ⟨io₂, hread⟩ := sdRun_readCommand b h₁.fp h₁.readExtCsd has' hin'
    have hback : imageWords image₁ (512 * b.toNat) (wordsRead as') = wordsWritten as := by
      rw [hcount]
      exact hstored.words
    refine ⟨io₂, ?_⟩
    rw [← hback]
    exact sdRun_append hwrite hread

/-! ## The extended CSD in the way -/

def erasedImage : ByteFile := ⟨fun _ => 0xff, 512, 0⟩

theorem sdRun_sendExtCsd (base : Nat) (io : Io SdCard) : ∃ io',
    sdRun base [.write sdcmd mmcSendExtCsd] io = some ([], io') ∧
      io'.dev = { io.dev with readExtCsd := true, addr := 0 } := by
  obtain ⟨io₁, hio₁⟩ : ∃ io₁, setSdReg base sdcmd mmcSendExtCsd io = io₁ := ⟨_, rfl⟩
  have hcmd : sdReg base sdcmd io₁ = mmcSendExtCsd := by
    rw [← hio₁, sdReg_setSdReg, if_pos rfl]
  refine ⟨{ io₁ with dev := { io₁.dev with readExtCsd := true, addr := 0 } }, ?_, ?_⟩
  · rw [sdRun, sdAccess, sdWrite_eq (by decide), hio₁, sdSwitch, if_pos rfl, hcmd]
    rfl
  · rw [← hio₁]
    rfl

theorem sdRun_read_extCsd (base : Nat) (b : Word) (hfp : io.dev.fp = some f) (hcsd : io.dev.readExtCsd = true) :
    ∃ io', sdRun base (sdCommand mmcReadMultipleBlock b ++ [.read sddata]) io = some ([0], io') := by
  obtain ⟨io₁, hcmd, -, -, haddr, hcsd₁⟩ := sdRun_transferCommand false base b hfp
  have hword : sdReg base sddata (sdDataPort base io₁) = 0 := by
    have hport : (sdDataPort base io₁).space = (setSdReg base sddata 0 io₁).space := by
      simp only [sdDataPort, hcsd₁, hcsd, if_true, haddr]
      split_ifs <;> rfl
    rw [sdReg, hport]
    exact readLE_writeLE _ _ _
  have hread : sdAccess base (.read sddata) io₁ = some ([0], sdDataPort base io₁) := by
    rw [sdAccess, sdRead_eq (by decide)]
    change some ([sdReg base sddata (sdDataPort base io₁)], _) = _
    rw [hword]
  exact ⟨_, sdRun_append hcmd (sdRun_cons hread rfl)⟩

theorem not_streams_of_readExtCsd (hcsd : io.dev.readExtCsd = true) : ¬Streams base io := by
  intro h
  have has : Reading [.read sddata] := fun a ha => .inr (List.mem_singleton.mp ha)
  obtain ⟨io₁, hrun⟩ := h.reads erasedImage 0 [.read sddata] has (by decide)
  have hfp : (io.withImage erasedImage).dev.fp = some erasedImage := rfl
  obtain ⟨io₂, hrun'⟩ := sdRun_read_extCsd base 0 hfp hcsd
  have hwords : imageWords erasedImage 0 1 = [0] :=
    congrArg Prod.fst (Option.some.inj (hrun.symm.trans hrun'))
  exact absurd hwords (by decide)

/-- The card streams what the image holds exactly when no extended CSD is still being read out. -/
theorem sd_streams_iff (base : Nat) (io : Io SdCard) : Streams base io ↔ io.dev.readExtCsd = false := by
  refine ⟨fun h => ?_, streams_of_not_readExtCsd⟩
  cases hcsd : io.dev.readExtCsd with
  | false => rfl
  | true => exact absurd h (not_streams_of_readExtCsd hcsd)

/-- `SEND_EXT_CSD` not read out before the read command: the port gives `0`, the image holds `0xffffffff`. -/
theorem sd_streams_refuted : ∃ io io₁ io₂ : Io SdCard,
    io.dev = initialCard erasedImage ∧ sdRun 0 [.write sdcmd mmcSendExtCsd] io = some ([], io₁) ∧
      sdRun 0 (sdCommand mmcReadMultipleBlock 0 ++ [.read sddata]) io₁ = some ([0], io₂) ∧
      imageWords erasedImage 0 1 = [0xffffffff] ∧ ¬Streams 0 io₁ := by
  obtain ⟨io₁, hsend, hdev⟩ := sdRun_sendExtCsd 0 ⟨fun _ => 0, initialCard erasedImage⟩
  have hcsd : io₁.dev.readExtCsd = true := by rw [hdev]
  have hfp : io₁.dev.fp = some (erasedImage.seek 0) := by
    rw [hdev]
    rfl
  obtain ⟨io₂, hread⟩ := sdRun_read_extCsd 0 0 hfp hcsd
  exact ⟨_, io₁, io₂, rfl, hsend, hread, by decide, not_streams_of_readExtCsd hcsd⟩

end GsEmu.Riscv32
