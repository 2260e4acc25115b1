import GsEmu.Device.SdStream

/-! What a guest read of the SD controller leaves of the transfer and of the card image. The handler does not
look at `is_write`, so a read repeats the stored command, and in the middle of a write transfer a read of the
data port stores the register. -/

namespace GsEmu.Riscv32
open Bytes

variable {base len : Nat} {addr v cmd : Word} {io io' : Io SdCard} {f : ByteFile}

/-! ## The law -/

def SameImage (s t : SdCard) : Prop := Option.Rel ByteFile.SameContents s.fp t.fp

structure SameTransfer (s t : SdCard) : Prop where
  blkAddr : t.blkAddr = s.blkAddr
  addr : t.addr = s.addr
  writeCmd : t.writeCmd = s.writeCmd
  readExtCsd : t.readExtCsd = s.readExtCsd
  pos : t.fp.map (·.pos) = s.fp.map (·.pos)

def sdIndex (addr : Word) : Nat := (addr - configSdcardCtlMmio).toNat / 4

structure HarmlessRead (addr : Word) (s t : SdCard) : Prop where
  image : SameImage s t
  transfer : sdIndex addr ≠ sddata → SameTransfer s t

/-- The stored command is none of the three that set up a transfer, or what it sets up is there already. -/
structure CommandDone (base : Nat) (io : Io SdCard) : Prop where
  extCsd : sdReg base sdcmd io &&& 0x3f = mmcSendExtCsd → io.dev.readExtCsd = true ∧ io.dev.addr = 0
  transfer : ∀ w, sdReg base sdcmd io &&& 0x3f = transferCommand w →
    io.dev.blkAddr = (sdReg base sdarg io).toNat ∧ io.dev.addr = 0 ∧ io.dev.writeCmd = w ∧
      ∀ f ∈ io.dev.fp, f.pos = (sdReg base sdarg io).toNat <<< 9

/-- No write transfer is under way, or the image already holds the data register at its position. -/
def DataStored (base : Nat) (io : Io SdCard) : Prop :=
  io.dev.readExtCsd = true ∨ io.dev.writeCmd = false ∨
    ∀ f ∈ io.dev.fp, f.pos + 4 ≤ f.size ∧
      ∀ i < 4, io.space (base + 4 * sddata + i) = f.data (f.pos + i)

/-! ## The handler on a read -/

theorem sdSwitch_of_mapRead (h : mapRead addr len (sdhciMapAt base) io = some (v, io')) :
    sdSwitch base (sdIndex addr) io = some io' := by
  unfold mapRead at h
  split at h
  · obtain ⟨io₁, hcall, h⟩ := Option.bind_eq_some_iff.mp h
    obtain ⟨ret, hret, h⟩ := Option.bind_eq_some_iff.mp h
    obtain ⟨-, rfl⟩ := Prod.mk.inj (Option.some.inj h)
    exact hcall
  · exact absurd h (by simp)

theorem sdcardHandleCmd_quiet (base : Nat) (io : Io SdCard) (hcmd : cmd ∈ sdQuietCommands) :
    ∃ io' n, sdcardHandleCmd base cmd io = some io' ∧ io'.dev = { io.dev with blkcnt := n } := by
  simp only [sdQuietCommands, List.mem_cons, List.not_mem_nil, or_false] at hcmd
  rcases hcmd with rfl | rfl | rfl | rfl | rfl | rfl | rfl | rfl | rfl | rfl | rfl | rfl <;>
    exact ⟨_, _, rfl, rfl⟩

theorem sdcardHandleCmd_unhandled (hquiet : cmd ∉ sdQuietCommands) (hext : cmd ≠ mmcSendExtCsd)
    (hread : cmd ≠ mmcReadMultipleBlock) (hwrite : cmd ≠ mmcWriteMultipleBlock) :
    sdcardHandleCmd base cmd io = none := by
  simp only [sdQuietCommands, List.mem_cons, List.not_mem_nil, or_false, not_or] at hquiet
  obtain ⟨h0, h1, h2, h52, h9, h5, h55, h3, h7, h23, h13, h12⟩ := hquiet
  rw [sdcardHandleCmd, if_neg h0, if_neg h1, if_neg h2, if_neg h52, if_neg h9, if_neg hext, if_neg h5,
    if_neg h55, if_neg h3, if_neg h7, if_neg h23, if_neg hread, if_neg hwrite, if_neg h13, if_neg h12]

theorem sdcardHandleCmd_dev (h : sdcardHandleCmd base cmd io = some io') :
    (cmd = mmcSendExtCsd ∧ io'.dev = { io.dev with readExtCsd := true, addr := 0 }) ∨
    (∃ w, cmd = transferCommand w ∧ io'.dev = (prepareRw base w io).dev) ∨
    cmd ≠ mmcSendExtCsd ∧ (∀ w, cmd ≠ transferCommand w) ∧ ∃ n, io'.dev = { io.dev with blkcnt := n } := by
  by_cases hext : cmd = mmcSendExtCsd
  · subst hext
    obtain rfl := Option.some.inj h
    exact .inl ⟨rfl, rfl⟩
  by_cases htransfer : ∃ w, cmd = transferCommand w
  · obtain ⟨w, rfl⟩ := htransfer
    refine .inr (.inl ⟨w, rfl, ?_⟩)
    cases w <;> exact congrArg Io.dev (Option.some.inj h).symm
  refine .inr (.inr ⟨hext, not_exists.mp htransfer, ?_⟩)
  by_cases hquiet : cmd ∈ sdQuietCommands
  · obtain ⟨io₁, n, h₁, hdev⟩ := sdcardHandleCmd_quiet base io hquiet
    obtain rfl := Option.some.inj (h₁.symm.trans h)
    exact ⟨n, hdev⟩
  · have hnone : sdcardHandleCmd base cmd io = none := sdcardHandleCmd_unhandled hquiet hext
      (not_exists.mp htransfer false) (not_exists.mp htransfer true)
    exact absurd (h.symm.trans hnone) (by simp)

/-! ## Each register -/

theorem SameTransfer.refl (s : SdCard) : SameTransfer s s := ⟨rfl, rfl, rfl, rfl, rfl⟩

theorem sameImage_map {s t : SdCard} {k : ByteFile → ByteFile} (ht : t.fp = s.fp.map k) :
    SameImage s t ↔ ∀ f ∈ s.fp, f.SameContents (k f) := by
  rw [SameImage, ht]
  cases s.fp with
  | none => exact ⟨fun _ f hf => absurd hf (by simp), fun _ => .none⟩
  | some f =>
    refine ⟨fun h g hg => ?_, fun h => .some (h f rfl)⟩
    obtain rfl := Option.some.inj hg
    cases h with
    | some h => exact h

theorem sameImage_of_eq {s t : SdCard} (h : t.fp = s.fp) : SameImage s t := by
  refine (sameImage_map (k := id) ?_).mpr fun f _ => ⟨rfl, fun _ _ => rfl⟩
  rw [h, Option.map_id, id]

theorem sdcmd_read (h : sdcardHandleCmd base (sdReg base sdcmd io &&& 0x3f) io = some io') :
    SameImage io.dev io'.dev ∧ (SameTransfer io.dev io'.dev ↔ CommandDone base io) := by
  rcases sdcardHandleCmd_dev h with ⟨hcmd, hdev⟩ | ⟨w, hcmd, hdev⟩ | ⟨hext, hnot, n, hdev⟩
  · rw [hdev]
    refine ⟨sameImage_of_eq rfl, ⟨fun hsame => ⟨fun _ => ?_, fun w hw => ?_⟩, fun hdone => ?_⟩⟩
    · exact ⟨hsame.readExtCsd.symm, hsame.addr.symm⟩
    · rw [hcmd] at hw
      cases w <;> exact absurd hw (by decide)
    · obtain ⟨hcsd, haddr⟩ := hdone.extCsd hcmd
      exact ⟨rfl, haddr.symm, rfl, hcsd.symm, rfl⟩
  · have hfp : io'.dev.fp = io.dev.fp.map (·.seek ((sdReg base sdarg io).toNat <<< 9)) := by
      rw [hdev]
      rfl
    refine ⟨(sameImage_map hfp).mpr fun f _ => ByteFile.sameContents_seek f _, ?_⟩
    constructor
    · intro hsame
      rw [hdev] at hsame
      refine ⟨fun hext => ?_, fun w' hw' => ?_⟩
      · rw [hcmd] at hext
        cases w <;> exact absurd hext (by decide)
      · have hw : w = w' := by
          rw [hcmd] at hw'
          revert hw'
          cases w <;> cases w' <;> decide
        subst hw
        refine ⟨hsame.blkAddr.symm, hsame.addr.symm, hsame.writeCmd.symm, fun f hf => ?_⟩
        have hpos := hsame.pos
        rw [← hdev, hfp, hf] at hpos
        exact (Option.some.inj hpos).symm
    · intro hdone
      obtain ⟨hblk, haddr, hwrite, hpos⟩ := hdone.transfer w hcmd
      refine ⟨?_, ?_, ?_, ?_, ?_⟩
      · rw [hdev, hblk]
        rfl
      · rw [hdev, haddr]
        rfl
      · rw [hdev, hwrite]
        rfl
      · rw [hdev]
        rfl
      · rw [hfp]
        cases hf : io.dev.fp with
        | none => rfl
        | some f => exact congrArg some (hpos f hf).symm
  · rw [hdev]
    exact ⟨sameImage_of_eq rfl, ⟨fun _ => ⟨fun h => absurd h hext, fun w h => absurd h (hnot w)⟩,
      fun _ => ⟨rfl, rfl, rfl, rfl, rfl⟩⟩⟩

theorem sddata_read (base : Nat) (io : Io SdCard) :
    SameImage io.dev (sdDataPort base io).dev ↔ DataStored base io := by
  by_cases hcsd : io.dev.readExtCsd = true
  · have hfp : (sdDataPort base io).dev.fp = io.dev.fp := by
      simp only [sdDataPort, hcsd, if_true]
      split_ifs <;> rfl
    exact ⟨fun _ => .inl hcsd, fun _ => sameImage_of_eq hfp⟩
  by_cases hwrite : io.dev.writeCmd = true
  · have hfp : (sdDataPort base io).dev.fp =
        io.dev.fp.map (·.writeFrom 4 io.space (base + 4 * sddata)) := by
      simp only [sdDataPort, if_neg hcsd, hwrite]
      cases hfile : io.dev.fp with
      | none => exact hfile
      | some f => rfl
    rw [sameImage_map hfp]
    have hstored : DataStored base io ↔ ∀ f ∈ io.dev.fp, f.pos + 4 ≤ f.size ∧
        ∀ i < 4, io.space (base + 4 * sddata + i) = f.data (f.pos + i) := by
      unfold DataStored
      simp only [hcsd, hwrite, false_or, Bool.false_eq_true, reduceCtorEq]
    rw [hstored]
    exact forall₂_congr fun f _ => ByteFile.sameContents_writeFrom_iff
  · have hfp : (sdDataPort base io).dev.fp =
        io.dev.fp.map fun f => (f.readTo 4 io.space (base + 4 * sddata)).1 := by
      simp only [sdDataPort, if_neg hcsd, hwrite]
      cases hfile : io.dev.fp with
      | none => exact hfile
      | some f => rfl
    refine ⟨fun _ => .inr (.inl (Bool.eq_false_iff.mpr hwrite)), fun _ => (sameImage_map hfp).mpr ?_⟩
    exact fun f _ => ByteFile.sameContents_seek f _

/-! ## Main result -/

/-- A read is harmless unless it repeats a command that changes something, or stores the data register
in a write transfer. -/
theorem harmlessRead_iff (h : mapRead addr len (sdhciMapAt base) io = some (v, io')) :
    HarmlessRead addr io.dev io'.dev ↔ (sdIndex addr = sdcmd → CommandDone base io) ∧
      (sdIndex addr = sddata → DataStored base io) := by
  have hswitch := sdSwitch_of_mapRead h
  unfold sdSwitch at hswitch
  by_cases hcmd : sdIndex addr = sdcmd
  · rw [if_pos hcmd] at hswitch
    obtain ⟨himage, htransfer⟩ := sdcmd_read hswitch
    have hdata : sdIndex addr ≠ sddata := fun h => absurd (hcmd.symm.trans h) (by decide)
    constructor
    · exact fun hread => ⟨fun _ => htransfer.mp (hread.transfer hdata), fun h => absurd h hdata⟩
    · exact fun hcond => ⟨himage, fun _ => htransfer.mpr (hcond.1 hcmd)⟩
  rw [if_neg hcmd] at hswitch
  by_cases hdata : sdIndex addr = sddata
  · have hquiet : ¬(sdIndex addr = sdarg ∨ sdIndex addr = sdrsp0 ∨ sdIndex addr = sdrsp1 ∨
        sdIndex addr = sdrsp2 ∨ sdIndex addr = sdrsp3) := by
      rw [hdata]
      decide
    rw [if_neg hquiet, if_pos hdata] at hswitch
    obtain rfl := Option.some.inj hswitch
    constructor
    · exact fun hread => ⟨fun h => absurd h hcmd, fun _ => (sddata_read base io).mp hread.image⟩
    · exact fun hcond => ⟨(sddata_read base io).mpr (hcond.2 hdata), fun h => absurd hdata h⟩
  · rw [if_neg hdata] at hswitch
    split at hswitch
    · obtain rfl := Option.some.inj hswitch
      constructor
      · exact fun _ => ⟨fun h => absurd h hcmd, fun h => absurd h hdata⟩
      · exact fun _ => ⟨sameImage_of_eq rfl, fun _ => .refl _⟩
    · exact absurd hswitch (by simp)

def erasedCard : Io SdCard := ⟨fun _ => 0, initialCard erasedImage⟩

/-- `SDCMD` is read just after a write command, and `SDDATA` where the image holds the register already. -/
theorem harmlessRead_iff_repeated :
    (∃ io v io', (sdRun 0 (sdCommand mmcWriteMultipleBlock 0) erasedCard).map (·.2) = some io ∧
      mapRead configSdcardCtlMmio 4 (sdhciMapAt 0) io = some (v, io') ∧
        HarmlessRead configSdcardCtlMmio io.dev io'.dev) ∧
    ∃ io v io', (sdRun 0 (sdCommand mmcWriteMultipleBlock 0 ++ [.write sddata 0xffffffff]) erasedCard).map (·.2) =
        some io ∧ mapRead (configSdcardCtlMmio + 64) 4 (sdhciMapAt 0) io = some (v, io') ∧
      HarmlessRead (configSdcardCtlMmio + 64) io.dev io'.dev := by
  constructor
  · have hstate : (((sdRun 0 (sdCommand mmcWriteMultipleBlock 0) erasedCard).map (·.2)).bind fun io =>
        (mapRead configSdcardCtlMmio 4 (sdhciMapAt 0) io).map fun _ =>
          decide (sdReg 0 sdcmd io &&& 0x3f = mmcWriteMultipleBlock ∧ (sdReg 0 sdarg io).toNat = 0 ∧
            io.dev.blkAddr = 0 ∧ io.dev.addr = 0 ∧ io.dev.writeCmd = true ∧ io.dev.fp.map (·.pos) = some 0)) =
        some true := by
      decide +kernel
    obtain ⟨io, hrun, hnext⟩ := Option.bind_eq_some_iff.mp hstate
    obtain ⟨⟨v, io'⟩, hread, hfields⟩ := Option.map_eq_some_iff.mp hnext
    obtain ⟨hcmd, harg, hblk, haddr, hwrite, hpos⟩ := of_decide_eq_true hfields
    have hdone : CommandDone 0 io := by
      refine ⟨fun hext => absurd (hcmd.symm.trans hext) (by decide), fun w hw => ?_⟩
      have hw : w = true := by
        rw [hcmd] at hw
        revert hw
        cases w <;> decide
      rw [harg, hw]
      refine ⟨hblk, haddr, hwrite, fun f hf => ?_⟩
      rw [hf] at hpos
      exact Option.some.inj hpos
    exact ⟨io, v, io', hrun, hread, (harmlessRead_iff hread).mpr
      ⟨fun _ => hdone, fun hdata => absurd hdata (by decide)⟩⟩
  · have hstate : (((sdRun 0 (sdCommand mmcWriteMultipleBlock 0 ++ [.write sddata 0xffffffff])
        erasedCard).map (·.2)).bind fun io => (mapRead (configSdcardCtlMmio + 64) 4 (sdhciMapAt 0) io).map fun _ =>
          io.dev.fp.map fun f => decide (f.pos + 4 ≤ f.size ∧
            ∀ i < 4, io.space (0 + 4 * sddata + i) = f.data (f.pos + i))) = some (some true) := by
      decide +kernel
    obtain ⟨io, hrun, hnext⟩ := Option.bind_eq_some_iff.mp hstate
    obtain ⟨⟨v, io'⟩, hread, hheld⟩ := Option.map_eq_some_iff.mp hnext
    have hstored : DataStored 0 io := by
      refine .inr (.inr fun f hf => ?_)
      rw [hf] at hheld
      exact of_decide_eq_true (Option.some.inj hheld)
    exact ⟨io, v, io', hrun, hread, (harmlessRead_iff hread).mpr
      ⟨fun hcmd => absurd hcmd (by decide), fun _ => hstored⟩⟩

/-- Reading `SDCMD` in the middle of a read transfer starts it again; reading `SDDATA` after a write
command stores the register in the image. -/
theorem harmlessRead_refuted :
    (∃ io v io', (sdRun 0 (sdCommand mmcReadMultipleBlock 0 ++ [.read sddata]) erasedCard).map (·.2) =
        some io ∧ mapRead configSdcardCtlMmio 4 (sdhciMapAt 0) io = some (v, io') ∧
      ¬HarmlessRead configSdcardCtlMmio io.dev io'.dev) ∧
    ∃ io v io', (sdRun 0 (sdCommand mmcWriteMultipleBlock 0) erasedCard).map (·.2) = some io ∧
        mapRead (configSdcardCtlMmio + 64) 4 (sdhciMapAt 0) io = some (v, io') ∧
      ¬HarmlessRead (configSdcardCtlMmio + 64) io.dev io'.dev := by
  constructor
  · have haddr : (((sdRun 0 (sdCommand mmcReadMultipleBlock 0 ++ [.read sddata]) erasedCard).map
        (·.2)).bind fun io => (mapRead configSdcardCtlMmio 4 (sdhciMapAt 0) io).map fun x =>
          (io.dev.addr, x.2.dev.addr)) = some (4, 0) := by
      decide +kernel
    obtain ⟨io, hrun, hnext⟩ := Option.bind_eq_some_iff.mp haddr
    obtain ⟨⟨v, io'⟩, hread, hpair⟩ := Option.map_eq_some_iff.mp hnext
    obtain ⟨hbefore, hafter⟩ := Prod.mk.inj hpair
    refine ⟨io, v, io', hrun, hread, fun h => ?_⟩
    have hsame := (h.transfer (by decide)).addr
    rw [hbefore, hafter] at hsame
    exact absurd hsame (by decide)
  · have hfirst : (((sdRun 0 (sdCommand mmcWriteMultipleBlock 0) erasedCard).map (·.2)).bind fun io =>
        (mapRead (configSdcardCtlMmio + 64) 4 (sdhciMapAt 0) io).map fun x =>
          (io.dev.fp.map fun f => (f.size, f.data 0), x.2.dev.fp.map (·.data 0))) =
        some (some (512, 0xff), some 0) := by
      decide +kernel
    obtain ⟨io, hrun, hnext⟩ := Option.bind_eq_some_iff.mp hfirst
    obtain ⟨⟨v, io'⟩, hread, hpair⟩ := Option.map_eq_some_iff.mp hnext
    obtain ⟨hbefore, hafter⟩ := Prod.mk.inj hpair
    obtain ⟨f, hf, hf0⟩ := Option.map_eq_some_iff.mp hbefore
    obtain ⟨g, hg, hg0⟩ := Option.map_eq_some_iff.mp hafter
    obtain ⟨hsize, hf0⟩ := Prod.mk.inj hf0
    refine ⟨io, v, io', hrun, hread, fun h => ?_⟩
    have himage := h.image
    rw [SameImage, hf, hg] at himage
    cases himage with
    | some hsame =>
      have h0 := hsame.2 0 (by omega)
      rw [hf0, hg0] at h0
      exact absurd h0 (by decide)

end GsEmu.Riscv32
