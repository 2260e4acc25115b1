import GsEmu.Device.SdPio
import GsEmu.Device.SdRead

/-! Requests to the driver. They find the card ready and leave it so, and together they are the requests to a
disk: reads deliver what it holds, writes store it. -/

namespace GsEmu.SdHost
open Bytes Riscv32

variable {K : Kernel} {base n : Nat} {io io' : Io SdCard} {f f' : ByteFile} {h : NemuHost K} {c : MmcCommand}
  {w : Which} {d : MmcData} {ws : List Word} {Q : ByteFile → Prop}

/-! ## Commands -/

/-- No transfer of the extended CSD is under way. -/
structure Ready (io : Io SdCard) (f : ByteFile) : Prop where
  fp : io.dev.fp = some f
  readExtCsd : io.dev.readExtCsd = false

def Quiet (c : MmcCommand) : Prop := c.opcode &&& 0x3f ∈ sdQuietCommands

theorem mask_or (x k : Word) (hk : k &&& 0x3f = 0) : (x ||| k) &&& 0x3f = x &&& 0x3f := by
  rw [BitVec.and_comm, BitVec.and_or_distrib_left, BitVec.and_comm _ k, hk, BitVec.and_comm]
  exact BitVec.or_zero

theorem sdcmdWord_mask (c : MmcCommand) (data : Option MmcData) :
    sdcmdWord c data &&& 0x3f = c.opcode &&& 0x3f := by
  have hself : c.opcode &&& 0x3f &&& 0x3f = c.opcode &&& 0x3f := by
    rw [BitVec.and_assoc]
    rfl
  unfold sdcmdWord
  dsimp only
  split_ifs <;> simp only [mask_or _ 0x8000 rfl, mask_or _ 0x40 rfl, mask_or _ 0x80 rfl, mask_or _ 0x800 rfl,
    mask_or _ 0x200 rfl, mask_or _ 0x400 rfl, hself]

def commandRegs (base : Nat) (arg word : Word) (io : Io SdCard) : Io SdCard :=
  setSdReg base Riscv32.sdcmd word (setSdReg base sdarg arg io)

theorem commandRegs_sdarg (base : Nat) (arg word : Word) (io : Io SdCard) :
    sdReg base sdarg (commandRegs base arg word io) = arg := by
  rw [commandRegs, sdReg_setSdReg, if_neg (by decide), sdReg_setSdReg, if_pos rfl]

theorem prepareData_io (w : Which) (h : NemuHost K) : (nemuPrepareData w h).io = h.io := by
  unfold nemuPrepareData
  split <;> rfl

theorem nemuSendCommand_eq (base : Nat) (w : Which) (c : MmcCommand) (h : NemuHost K) : ∃ word,
    nemuSendCommand base w c h =
      (sdcardHandleCmd base (c.opcode &&& 0x3f) (commandRegs base c.arg word h.io)).map fun io =>
        { nemuPrepareData w { h with cmd := some w } with io := io } := by
  refine ⟨sdcmdWord c (if w = .cmd then (nemuPrepareData w { h with cmd := some w }).mrq.data else none), ?_⟩
  unfold nemuSendCommand
  dsimp only
  rw [prepareData_io, sdWrite_eq (by decide), sdSwitch_quietReg (by decide), Option.bind_eq_bind,
    Option.bind_some, sdWrite_eq (by decide), sdSwitch, if_pos rfl, sdReg_setSdReg, if_pos rfl, sdcmdWord_mask]
  exact Option.map_eq_bind.symm

theorem Ready.quiet (hr : Ready io f) (base : Nat) (hc : Quiet c) (word : Word) : ∃ io',
    sdcardHandleCmd base (c.opcode &&& 0x3f) (commandRegs base c.arg word io) = some io' ∧ Ready io' f := by
  obtain ⟨io', k, hcmd, hdev⟩ := sdcardHandleCmd_quiet base (commandRegs base c.arg word io) hc
  refine ⟨io', hcmd, ?_, ?_⟩
  · rw [hdev]
    exact hr.fp
  · rw [hdev]
    exact hr.readExtCsd

theorem Ready.send (hr : Ready h.io f) (base : Nat) (w : Which) (hc : Quiet c) : ∃ io',
    nemuSendCommand base w c h = some { nemuPrepareData w { h with cmd := some w } with io := io' } ∧
      Ready io' f := by
  obtain ⟨word, heq⟩ := nemuSendCommand_eq base w c h
  obtain ⟨io', hcmd, hr'⟩ := hr.quiet base hc word
  exact ⟨io', by rw [heq, hcmd]; rfl, hr'⟩

theorem readResponse_eq (base : Nat) (c : MmcCommand) (io : Io SdCard) : ∃ resp,
    readResponse base c io = some ({ c with resp := resp }, io) := by
  have hreg : ∀ idx ∈ sdQuietRegs, sdRead base idx io = some (sdReg base idx io, io) := by
    intro idx hidx
    rw [sdRead_eq (sdQuietRegs_lt hidx).1, sdSwitch_quietReg hidx]
    rfl
  unfold readResponse
  split_ifs
  · simp only [hreg sdrsp0 (by decide), Option.bind_eq_bind, Option.bind_some, hreg sdrsp1 (by decide),
      hreg sdrsp2 (by decide), hreg sdrsp3 (by decide)]
    exact ⟨_, rfl⟩
  · rw [hreg sdrsp0 (by decide)]
    exact ⟨_, rfl⟩
  · exact ⟨c.resp, rfl⟩

/-! ## The end of a request -/

structure Finished (h : NemuHost K) (data : Option MmcData) (f : ByteFile) : Prop where
  idle : h.busy = false
  data : h.mrq.data = data
  ready : Ready h.io f

theorem finishStop_eq (base : Nat) (c : MmcCommand) (hr : Ready h.io f) : ∃ h',
    finishStop base c h = some h' ∧ Finished h' h.mrq.data f := by
  obtain ⟨resp, hresp⟩ := readResponse_eq base c h.io
  refine ⟨nemuFinishRequest { h with mrq := { h.mrq with stop := some { c with resp := resp } } }, ?_, rfl, rfl,
    hr⟩
  unfold finishStop
  rw [hresp]
  rfl

theorem nemuTransferComplete_eq (base : Nat) (hr : Ready h.io f) (hstop : ∀ c ∈ h.mrq.stop, Quiet c) : ∃ h',
    nemuTransferComplete base h = some h' ∧ Finished h' h.mrq.data f := by
  have hdone : Finished (nemuFinishRequest { h with data := false }) h.mrq.data f := ⟨rfl, rfl, hr⟩
  unfold nemuTransferComplete
  cases hs : h.mrq.stop with
  | none => exact ⟨_, by simp only [hs], hdone⟩
  | some stop =>
    simp only [hs]
    split_ifs
    · have hr' : Ready ({ h with data := false } : NemuHost K).io f := hr
      obtain ⟨io', hsend, hready⟩ := hr'.send base .stop (hstop stop hs)
      rw [hsend, Option.bind_some]
      exact finishStop_eq base stop hready
    · exact ⟨_, rfl, hdone⟩

theorem finishCmd_eq (base : Nat) (hr : Ready h.io f) (hstop : ∀ c ∈ h.mrq.stop, Quiet c)
    (hdone : h.data = true → h.dataComplete = true) : ∃ h',
    finishCmd base h = some h' ∧ Finished h' h.mrq.data f := by
  obtain ⟨resp, hresp⟩ := readResponse_eq base h.mrq.cmd h.io
  unfold finishCmd
  rw [hresp]
  simp only [Option.bind_eq_bind, Option.bind_some]
  cases hdata : h.data with
  | false =>
    refine ⟨_, if_pos (by simp), rfl, rfl, hr⟩
  | true =>
    simp only [hdone hdata, if_true]
    rw [if_neg (by decide)]
    exact nemuTransferComplete_eq base
      (h := ⟨h.io, { h.mrq with cmd := { h.mrq.cmd with resp := resp } }, h.busy, none, true, true, h.useSbc,
        h.sgMiter⟩) hr hstop

/-! ## A command and its data -/

theorem Ready.commandRegs (hr : Ready io f) (base : Nat) (arg word : Word) :
    Ready (commandRegs base arg word io) f := ⟨hr.fp, hr.readExtCsd⟩

theorem sendCmd_quiet (hr : Ready h.io f) (hdata : h.mrq.data = none) (hc : Quiet h.mrq.cmd)
    (hstop : ∀ c ∈ h.mrq.stop, Quiet c) : ∃ h', sendCmd base h = some h' ∧ Finished h' none f := by
  obtain ⟨io', hsend, hready⟩ := hr.send base .cmd hc
  have hprepare : nemuPrepareData .cmd { h with cmd := some .cmd } =
      { h with cmd := some .cmd, data := false } := by
    simp only [nemuPrepareData, hdata]
  rw [hprepare] at hsend
  obtain ⟨h', hfinish, hdone⟩ := finishCmd_eq
    (h := { h with cmd := some .cmd, data := false, io := io' }) base hready hstop nofun
  refine ⟨h', ?_, hdata ▸ hdone⟩
  rw [sendCmd, hsend]
  exact hfinish

structure Fits (d : MmcData) (k : Nat) : Prop where
  block : d.blksz.toNat = 4 * k
  aligned : Aligned d.sg
  room : 4 * (d.blocks.toNat * k) ≤ d.sg.sum

def MmcData.received (d : MmcData) (ws : List Word) : MmcData :=
  { d with error := 0, buf := storeWords d.buf 0 ws, bytesXfered := d.blksz * d.blocks }

/-- From any ready state the command `c` makes the card deliver the words `ws`, and leaves an image `Q` holds
of. -/
def Phase (base : Nat) (c : MmcCommand) (d : MmcData) (n : Nat) (f : ByteFile) (ws : List Word)
    (Q : ByteFile → Prop) : Prop :=
  ∀ io, Ready io f → sdReg base sdarg io = c.arg → ∃ io₁ io₂ f',
    sdcardHandleCmd base (c.opcode &&& 0x3f) io = some io₁ ∧
      sdRun base (dataAccesses d.dataRead d.buf 0 n) io₁ = some (ws, io₂) ∧ Ready io₂ f' ∧ Q f'

theorem sendCmd_data {k : Nat} (hr : Ready h.io f) (hdata : h.mrq.data = some d) (herror : d.error = 0)
    (hfits : Fits d k) (hphase : Phase base h.mrq.cmd d (d.blocks.toNat * k) f ws Q)
    (hstop : ∀ c ∈ h.mrq.stop, Quiet c) :
    ∃ h', sendCmd base h = some h' ∧ ∃ f', Finished h' (some (d.received ws)) f' ∧ Q f' := by
  obtain ⟨word, hsend⟩ := nemuSendCommand_eq base .cmd h.mrq.cmd h
  obtain ⟨io₁, io₂, f', hcmd, hdeliver, hready, hQ⟩ := hphase _ (hr.commandRegs base h.mrq.cmd.arg word)
    (commandRegs_sdarg ..)
  have hprepare : nemuPrepareData .cmd { h with cmd := some .cmd } =
      { h with
        cmd := some .cmd
        data := true
        dataComplete := false
        mrq := { h.mrq with data := some { d with bytesXfered := 0 } }
        sgMiter := K.sgMiterStart d.sg } := by
    simp only [nemuPrepareData, hdata]
  rw [hcmd, hprepare] at hsend
  obtain ⟨m, addr, hblocks⟩ := pioBlocks_eq
    (s := ⟨io₁, { d with bytesXfered := 0 }, K.sgMiterStart d.sg, 0⟩) rfl hfits.block
    (by rw [K.left_start]; exact hfits.aligned) (by rw [K.left_start]; exact hfits.room)
    (by unfold Delivers Pio.accesses Pio.mapped; rw [K.offset_start]; exact hdeliver)
  obtain ⟨h', hfinish, hdone⟩ := finishCmd_eq
    (h := ⟨io₂, { h.mrq with data := some (d.received ws) }, h.busy, some .cmd, true, true, h.useSbc, m⟩)
    base hready hstop fun _ => rfl
  refine ⟨h', ?_, f', hdone, hQ⟩
  rw [sendCmd, hsend]
  change (transferData base _).bind (finishCmd base) = some h'
  have hafter : transferData base ⟨io₁, { h.mrq with data := some { d with bytesXfered := 0 } }, h.busy,
      some .cmd, true, false, h.useSbc, K.sgMiterStart d.sg⟩ = some ⟨io₂,
        { h.mrq with data := some (d.received ws) }, h.busy, some .cmd, true, true, h.useSbc, m⟩ := by
    rw [transferData]
    dsimp only
    rw [hblocks]
    simp only [Option.bind_eq_bind, Option.bind_some, nemuFinishData, Option.map_some, Option.isSome_some, if_true,
      Pio.done, K.offset_start, herror, MmcData.received, ne_eq, not_true_eq_false, if_false]
  rw [hafter]
  exact hfinish

/-! ## Requests -/

variable {mrq : MmcRequest} {S : NemuHost K → Prop}

structure Framed (mrq : MmcRequest) : Prop where
  sbc : ∀ c ∈ mrq.sbc, Quiet c
  stop : ∀ c ∈ mrq.stop, Quiet c

theorem Framed.reset (h : Framed mrq) : Framed mrq.reset where
  sbc c hc := by
    obtain ⟨c', hc', rfl⟩ := Option.map_eq_some_iff.mp hc
    exact h.sbc c' hc'
  stop c hc := by
    obtain ⟨c', hc', rfl⟩ := Option.map_eq_some_iff.mp hc
    exact h.stop c' hc'

theorem nemuRequest_eq (hr : Ready h.io f) (hframed : Framed mrq)
    (hpow : ∀ d ∈ mrq.data, K.isPowerOf2 d.blksz = true)
    (hsend : ∀ h₁ : NemuHost K, Ready h₁.io f → h₁.mrq.cmd = mrq.reset.cmd → h₁.mrq.data = mrq.reset.data →
      h₁.mrq.stop = mrq.reset.stop → ∃ h', sendCmd base h₁ = some h' ∧ S h') :
    ∃ h', nemuRequest base mrq h = some h' ∧ S h' := by
  have hany : mrq.reset.data.any (!K.isPowerOf2 ·.blksz) = false := by
    cases hdata : mrq.data with
    | none => simp [MmcRequest.reset, hdata]
    | some d => simpa [MmcRequest.reset, hdata] using hpow d hdata
  unfold nemuRequest
  dsimp only
  rw [hany, if_neg (by decide)]
  cases hsbc : mrq.reset.sbc with
  | none => exact hsend _ hr rfl rfl rfl
  | some sbc =>
    dsimp only
    split_ifs with huse
    · obtain ⟨io', hcmd, hready⟩ := Ready.send (c := sbc)
        (h := { h with mrq := mrq.reset, busy := true, useSbc := true && mrq.reset.data.any (·.dataRead) })
        hr base .sbc (hframed.reset.sbc sbc hsbc)
      obtain ⟨resp, hresp⟩ := readResponse_eq base sbc io'
      simp only [Option.isSome_some]
      rw [hcmd, Option.bind_some, finishSbc, hresp]
      exact hsend _ hready rfl rfl rfl
    · exact hsend _ hr rfl rfl rfl

theorem nemuRequest_quiet (base : Nat) (hr : Ready h.io f) (hframed : Framed mrq) (hdata : mrq.data = none)
    (hc : Quiet mrq.cmd) : ∃ h', nemuRequest base mrq h = some h' ∧ Finished h' none f := by
  refine nemuRequest_eq hr hframed (by simp [hdata]) fun h₁ hr₁ hcmd hdata₁ hstop => ?_
  refine sendCmd_quiet hr₁ (hdata₁.trans (by simp [MmcRequest.reset, hdata])) (hcmd ▸ hc) ?_
  rw [hstop]
  exact hframed.reset.stop

theorem nemuRequest_data {k : Nat} (base : Nat) (hr : Ready h.io f) (hframed : Framed mrq) (hdata : mrq.data = some d)
    (hpow : K.isPowerOf2 d.blksz = true) (hfits : Fits d k)
    (hphase : Phase base mrq.cmd d (d.blocks.toNat * k) f ws Q) :
    ∃ h', nemuRequest base mrq h = some h' ∧ ∃ f', Finished h' (some (d.received ws)) f' ∧ Q f' := by
  refine nemuRequest_eq hr hframed (by simpa [hdata] using hpow) fun h₁ hr₁ hcmd hdata₁ hstop => ?_
  have hreset : h₁.mrq.data = some { d with error := 0 } := hdata₁.trans (by simp [MmcRequest.reset, hdata])
  refine sendCmd_data (d := { d with error := 0 }) hr₁ hreset rfl ⟨hfits.block, hfits.aligned, hfits.room⟩ ?_ ?_
  · rw [hcmd]
    exact hphase
  · rw [hstop]
    exact hframed.reset.stop

/-! ## Transfers -/

theorem Ready.prepareRw (hr : Ready io f) (base : Nat) (w : Bool) :
    Transfer (prepareRw base w io) (f.seek (512 * (sdReg base sdarg io).toNat)) w := by
  refine ⟨?_, rfl, hr.readExtCsd⟩
  rw [Riscv32.prepareRw]
  change io.dev.fp.map _ = _
  rw [hr.fp, Nat.shiftLeft_eq, Nat.mul_comm]
  rfl

theorem phase_read (hc : c.opcode &&& 0x3f = mmcReadMultipleBlock) (hread : d.dataRead = true)
    (hin : 512 * c.arg.toNat + 4 * n ≤ f.size) :
    Phase base c d n f (wordsAt f.data (512 * c.arg.toNat) n) (ByteFile.SameContents f) := by
  intro io hr harg
  have hstart := hr.prepareRw base false
  rw [harg] at hstart
  have hcount : wordsRead (List.replicate n (.read sddata)) = n := List.count_replicate_self
  have hreads : Reading (List.replicate n (.read sddata)) := fun a ha => .inr (List.eq_of_mem_replicate ha)
  obtain ⟨io₂, hrun, hend⟩ := hstart.reads base hreads (by rw [hcount]; exact hin)
  rw [hcount] at hrun hend
  refine ⟨prepareRw base false io, io₂, _, ?_, ?_, ⟨hend.fp, hend.readExtCsd⟩, rfl, fun _ _ => rfl⟩
  · rw [hc]
    exact sdcardHandleCmd_transfer false base io
  · rw [hread]
    exact hrun

theorem wordsWritten_map (ws : List Word) : wordsWritten (ws.map (.write sddata)) = ws := by
  induction ws with
  | nil => rfl
  | cons w ws ih =>
    rw [List.map_cons]
    exact (List.filterMap_cons_some (f := SdAccess.dataWord) rfl).trans (congrArg (w :: ·) ih)

structure Written (f : ByteFile) (p n : Nat) (buf : Memory) (f' : ByteFile) : Prop where
  size : f'.size = f.size
  inside : ∀ i < n, f'.data (p + i) = buf i
  outside : ∀ x, ¬(p ≤ x ∧ x < p + n) → f'.data x = f.data x

theorem phase_write (hc : c.opcode &&& 0x3f = mmcWriteMultipleBlock) (hwrite : d.dataRead = false)
    (hin : 512 * c.arg.toNat + 4 * n ≤ f.size) :
    Phase base c d n f [] (Written f (512 * c.arg.toNat) (4 * n) d.buf) := by
  intro io hr harg
  have hstart := hr.prepareRw base true
  rw [harg] at hstart
  have hlen : (wordsAt d.buf 0 n).length = n := by rw [wordsAt, List.length_map, List.length_range]
  have hwrites : Writing ((wordsAt d.buf 0 n).map (.write sddata)) := by
    intro a ha
    obtain ⟨v, -, rfl⟩ := List.mem_map.mp ha
    exact .inr ⟨v, rfl⟩
  obtain ⟨io₂, f', hrun, hend, hstored⟩ := hstart.writes base hwrites
    (by rw [wordsWritten_map, hlen]; exact hin)
  rw [wordsWritten_map] at hstored
  refine ⟨prepareRw base true io, io₂, f', ?_, ?_, ⟨hend.fp, hend.readExtCsd⟩, hstored.size, fun i hi => ?_,
    fun x hx => hstored.other x ?_⟩
  · rw [hc]
    exact sdcardHandleCmd_transfer true base io
  · rw [hwrite]
    exact hrun
  · have hwords := hstored.words
    rw [hlen] at hwords
    exact (wordsAt_bytes (a := 512 * c.arg.toNat) (b := 0) hwords hi).trans (by rw [Nat.zero_add])
  · rw [hlen]
    exact hx

/-! ## The extended CSD -/

theorem sdRead_extCsd (base : Nat) (hcsd : io.dev.readExtCsd = true) : ∃ io',
    sdAccess base (.read sddata) io = some ([extCsdData io.dev.addr], io') ∧ io'.dev = { io.dev with
      addr := io.dev.addr + 4
      readExtCsd := decide (io.dev.addr ≠ 512 - 4) } := by
  obtain ⟨io₁, hio₁⟩ : ∃ io₁, setSdReg base sddata (extCsdData io.dev.addr) io = io₁ := ⟨_, rfl⟩
  have hreg : sdReg base sddata io₁ = extCsdData io.dev.addr := by
    rw [← hio₁, sdReg_setSdReg, if_pos rfl]
  have hdev : io₁.dev = io.dev := by
    rw [← hio₁]
    rfl
  have hport : sdDataPort base io = ⟨io₁.space, { io.dev with
      addr := io.dev.addr + 4
      readExtCsd := decide (io.dev.addr ≠ 512 - 4) }⟩ := by
    simp only [sdDataPort, hcsd, if_true, hio₁, hdev]
    split_ifs with hlast
    · simp only [hlast, ne_eq, not_true_eq_false, decide_false]
    · simp only [ne_eq, hlast, not_false_eq_true, decide_true, ← hcsd, hdev]
  refine ⟨sdDataPort base io, ?_, by rw [hport]⟩
  rw [sdAccess, sdRead_eq (by decide)]
  change some ([sdReg base sddata (sdDataPort base io)], _) = _
  have hsame : sdReg base sddata (sdDataPort base io) = sdReg base sddata io₁ := by
    rw [hport]
    rfl
  rw [hsame, hreg]

def extCsdWords : List Word := (List.range 128).map fun i => extCsdData (BitVec.ofNat 32 (4 * i))

theorem sdRun_extCsd (base : Nat) {j k : Nat} (hjk : j + (k + 1) = 128) (hcsd : io.dev.readExtCsd = true)
    (haddr : io.dev.addr = BitVec.ofNat 32 (4 * j)) (hfp : io.dev.fp = some f) : ∃ io',
      sdRun base (List.replicate (k + 1) (.read sddata)) io =
        some ((List.range' j (k + 1)).map fun i => extCsdData (BitVec.ofNat 32 (4 * i)), io') ∧ Ready io' f := by
  induction k generalizing io j with
  | zero =>
    obtain ⟨io₁, hread, hdev⟩ := sdRead_extCsd base hcsd
    obtain rfl : j = 127 := by omega
    rw [haddr] at hread hdev
    refine ⟨io₁, sdRun_cons hread rfl, ?_, ?_⟩
    · rw [hdev]
      exact hfp
    · rw [hdev]
      rfl
  | succ k ih =>
    obtain ⟨io₁, hread, hdev⟩ := sdRead_extCsd base hcsd
    have hmore : decide (io.dev.addr ≠ 512 - 4) = true := by
      rw [haddr]
      refine decide_eq_true fun heq => ?_
      have hnat := congrArg BitVec.toNat heq
      rw [BitVec.toNat_ofNat, Nat.mod_eq_of_lt (by omega)] at hnat
      change 4 * j = 508 at hnat
      omega
    have hnext : io₁.dev.addr = BitVec.ofNat 32 (4 * (j + 1)) := by
      rw [hdev]
      change io.dev.addr + 4 = _
      rw [haddr, Nat.mul_add, BitVec.ofNat_add]
      rfl
    obtain ⟨io₂, hrun, hready⟩ := ih (j := j + 1) (by omega) (by rw [hdev]; exact hmore) hnext
      (by rw [hdev]; exact hfp)
    rw [haddr] at hread
    exact ⟨io₂, sdRun_cons hread hrun, hready⟩

theorem phase_extCsd (hc : c.opcode &&& 0x3f = mmcSendExtCsd) (hread : d.dataRead = true) :
    Phase base c d 128 f extCsdWords (· = f) := by
  intro io hr _
  have hcsd : ({ io with dev := { io.dev with readExtCsd := true, addr := 0 } } : Io SdCard).dev.readExtCsd =
    true := rfl
  obtain ⟨io₂, hrun, hready⟩ := sdRun_extCsd base (j := 0) (k := 127) rfl hcsd rfl hr.fp
  refine ⟨{ io with dev := { io.dev with readExtCsd := true, addr := 0 } }, io₂, f, ?_, ?_, hready, rfl⟩
  · rw [hc]
    rfl
  · rw [hread]
    have hrange : extCsdWords = (List.range' 0 128).map fun i => extCsdData (BitVec.ofNat 32 (4 * i)) := by
      rw [extCsdWords, List.range_eq_range']
    rw [hrange]
    exact hrun

/-! ## The disk -/

structure Disk where
  bytes : Memory
  size : Nat

def Disk.serve (disk : Disk) (mrq : MmcRequest) : Option MmcData × Disk :=
  match mrq.data with
  | none => (none, disk)
  | some d =>
    let place := 512 * mrq.cmd.arg.toNat
    let len := d.blksz.toNat * d.blocks.toNat
    if mrq.cmd.opcode &&& 0x3f = mmcSendExtCsd then (some (d.received extCsdWords), disk)
    else if d.dataRead then
      (some { d.received [] with buf := fun x => if x < len then disk.bytes (place + x) else d.buf x }, disk)
    else
      (some (d.received []),
        { disk with bytes := fun x => if place ≤ x ∧ x < place + len then d.buf (x - place) else disk.bytes x })

/-- A transfer by whole words, inside the disk, with a buffer as long as the transfer. -/
structure Sound (disk : Disk) (mrq : MmcRequest) (d : MmcData) : Prop where
  power : ∃ k, d.blksz.toNat = 2 ^ k
  words : 4 ∣ d.blksz.toNat
  aligned : Aligned d.sg
  room : d.blksz.toNat * d.blocks.toNat ≤ d.sg.sum
  inside : 512 * mrq.cmd.arg.toNat + d.blksz.toNat * d.blocks.toNat ≤ disk.size

/-- Requests without data, for the extended CSD, for blocks to read and for blocks to write. -/
inductive Serviceable (disk : Disk) (mrq : MmcRequest) : Prop
  | quiet : Framed mrq → mrq.data = none → Quiet mrq.cmd → Serviceable disk mrq
  | extCsd {d : MmcData} : Framed mrq → mrq.data = some d → mrq.cmd.opcode &&& 0x3f = mmcSendExtCsd →
    d.dataRead = true → d.blksz = 512 → d.blocks = 1 → Aligned d.sg → 512 ≤ d.sg.sum → Serviceable disk mrq
  | transfer {d : MmcData} (w : Bool) : Framed mrq → mrq.data = some d →
    mrq.cmd.opcode &&& 0x3f = transferCommand w → d.dataRead = !w → Sound disk mrq d → Serviceable disk mrq

/-- The card is ready with the bytes of the disk in its image. -/
def Holds (h : NemuHost K) (disk : Disk) : Prop :=
  ∃ f, Ready h.io f ∧ f.size = disk.size ∧ ∀ x < disk.size, f.data x = disk.bytes x

variable {disk : Disk}

theorem Sound.fits {d : MmcData} (hs : Sound disk mrq d) : ∃ k, Fits d k ∧
    4 * (d.blocks.toNat * k) = d.blksz.toNat * d.blocks.toNat := by
  obtain ⟨k, hk⟩ := hs.words
  have hlen : 4 * (d.blocks.toNat * k) = d.blksz.toNat * d.blocks.toNat := by
    rw [hk, Nat.mul_assoc, Nat.mul_comm k]
  exact ⟨k, ⟨hk, hs.aligned, by rw [hlen]; exact hs.room⟩, hlen⟩

theorem Holds.read (base : Nat) (hh : Holds h disk) (hframed : Framed mrq) {d : MmcData} (hdata : mrq.data = some d)
    (hc : mrq.cmd.opcode &&& 0x3f = transferCommand false) (hdir : d.dataRead = true) (hs : Sound disk mrq d) :
    ∃ h', nemuRequest base mrq h = some h' ∧ h'.busy = false ∧ h'.mrq.data = (disk.serve mrq).1 ∧
      Holds h' (disk.serve mrq).2 := by
  obtain ⟨f, hr, hsize, hbytes⟩ := hh
  obtain ⟨k, hfits, hlen⟩ := hs.fits
  have hin : 512 * mrq.cmd.arg.toNat + 4 * (d.blocks.toNat * k) ≤ f.size := by
    rw [hlen, hsize]
    exact hs.inside
  have hpow : K.isPowerOf2 d.blksz = true := hs.power.elim (K.isPowerOf2_pow d.blksz)
  have hnext : transferCommand false ≠ mmcSendExtCsd := by decide
  obtain ⟨h', hreq, f', hdone, hsame⟩ := nemuRequest_data base hr hframed hdata hpow hfits (phase_read hc hdir hin)
  have hbuf : storeWords d.buf 0 (wordsAt f.data (512 * mrq.cmd.arg.toNat) (d.blocks.toNat * k)) =
      fun x => if x < d.blksz.toNat * d.blocks.toNat then disk.bytes (512 * mrq.cmd.arg.toNat + x)
        else d.buf x := by
    rw [storeWords_wordsAt, ← hlen]
    funext x
    simp only [Nat.zero_le, true_and, Nat.zero_add, Nat.sub_zero]
    split_ifs with hx
    · exact hbytes _ (by omega)
    · rfl
  simp only [Disk.serve, hdata, hc, hnext, if_false, hdir, if_true]
  refine ⟨h', hreq, hdone.idle, hdone.data.trans ?_, f', hdone.ready, hsame.1.trans hsize, fun x hx => ?_⟩
  · rw [MmcData.received, hbuf]
    rfl
  · exact (hsame.2 x (hsize ▸ hx)).trans (hbytes x hx)

theorem Holds.write (base : Nat) (hh : Holds h disk) (hframed : Framed mrq) {d : MmcData} (hdata : mrq.data = some d)
    (hc : mrq.cmd.opcode &&& 0x3f = transferCommand true) (hdir : d.dataRead = false) (hs : Sound disk mrq d) :
    ∃ h', nemuRequest base mrq h = some h' ∧ h'.busy = false ∧ h'.mrq.data = (disk.serve mrq).1 ∧
      Holds h' (disk.serve mrq).2 := by
  obtain ⟨f, hr, hsize, hbytes⟩ := hh
  obtain ⟨k, hfits, hlen⟩ := hs.fits
  have hin : 512 * mrq.cmd.arg.toNat + 4 * (d.blocks.toNat * k) ≤ f.size := by
    rw [hlen, hsize]
    exact hs.inside
  have hpow : K.isPowerOf2 d.blksz = true := hs.power.elim (K.isPowerOf2_pow d.blksz)
  have hnext : transferCommand true ≠ mmcSendExtCsd := by decide
  obtain ⟨h', hreq, f', hdone, hwritten⟩ := nemuRequest_data base hr hframed hdata hpow hfits
    (phase_write hc hdir hin)
  simp only [Disk.serve, hdata, hc, hnext, if_false, hdir, Bool.false_eq_true]
  refine ⟨h', hreq, hdone.idle, hdone.data, f', hdone.ready, hwritten.size.trans hsize, fun x hx => ?_⟩
  dsimp only
  rw [← hlen]
  split_ifs with hplace
  · obtain ⟨i, rfl⟩ := Nat.exists_eq_add_of_le hplace.1
    rw [hwritten.inside i (by omega), Nat.add_sub_cancel_left]
  · rw [hwritten.outside x hplace]
    exact hbytes x hx

/-- One request: the driver returns what the disk does, and the card goes on holding the disk. -/
theorem Holds.request (base : Nat) (hh : Holds h disk) (hs : Serviceable disk mrq) : ∃ h',
    nemuRequest base mrq h = some h' ∧ h'.busy = false ∧ h'.mrq.data = (disk.serve mrq).1 ∧
      Holds h' (disk.serve mrq).2 := by
  cases hs with
  | quiet hframed hdata hc =>
    obtain ⟨f, hr, hsize, hbytes⟩ := hh
    obtain ⟨h', hreq, hdone⟩ := nemuRequest_quiet base hr hframed hdata hc
    simp only [Disk.serve, hdata]
    exact ⟨h', hreq, hdone.idle, hdone.data, f, hdone.ready, hsize, hbytes⟩
  | @extCsd d hframed hdata hc hread hblksz hblocks haligned hroom =>
    obtain ⟨f, hr, hsize, hbytes⟩ := hh
    have hfits : Fits d 128 := ⟨by rw [hblksz]; rfl, haligned, by rw [hblocks]; exact hroom⟩
    have hphase : Phase base mrq.cmd d (d.blocks.toNat * 128) f extCsdWords (· = f) := by
      rw [hblocks]
      exact phase_extCsd hc hread
    have hpow : K.isPowerOf2 d.blksz = true := by
      rw [hblksz]
      exact K.isPowerOf2_pow 512 9 rfl
    obtain ⟨h', hreq, f', hdone, rfl⟩ := nemuRequest_data base hr hframed hdata hpow hfits hphase
    simp only [Disk.serve, hdata, hc, if_true]
    exact ⟨h', hreq, hdone.idle, hdone.data, f', hdone.ready, hsize, hbytes⟩
  | transfer w hframed hdata hc hdir hsound =>
    cases w with
    | false => exact hh.read base hframed hdata hc hdir hsound
    | true => exact hh.write base hframed hdata hc hdir hsound

/-! ## Main result -/

def nemuRequests (base : Nat) : List MmcRequest → NemuHost K → Option (List (Option MmcData) × NemuHost K)
  | [], h => some ([], h)
  | mrq :: mrqs, h => do
    let h ← nemuRequest base mrq h
    let (rest, h') ← nemuRequests base mrqs h
    return (h.mrq.data :: rest, h')

def Disk.serveAll (disk : Disk) : List MmcRequest → List (Option MmcData) × Disk
  | [] => ([], disk)
  | mrq :: mrqs =>
    let rest := (disk.serve mrq).2.serveAll mrqs
    ((disk.serve mrq).1 :: rest.1, rest.2)

theorem Disk.serve_size (disk : Disk) (mrq : MmcRequest) : (disk.serve mrq).2.size = disk.size := by
  unfold Disk.serve
  split
  · rfl
  · dsimp only
    split_ifs <;> rfl

theorem Serviceable.resize {disk' : Disk} (hs : Serviceable disk mrq) (hsize : disk'.size = disk.size) :
    Serviceable disk' mrq := by
  cases hs with
  | quiet hframed hdata hc => exact .quiet hframed hdata hc
  | extCsd hframed hdata hc hread hblksz hblocks haligned hroom =>
    exact .extCsd hframed hdata hc hread hblksz hblocks haligned hroom
  | transfer w hframed hdata hc hdir hsound =>
    exact .transfer w hframed hdata hc hdir
      ⟨hsound.power, hsound.words, hsound.aligned, hsound.room, by rw [hsize]; exact hsound.inside⟩

/-- However many requests come in whatever order, and however their buffers are cut into pieces, the driver and
the card together are a disk: what it returns is what the bytes written so far and the first image say. -/
theorem nemuRequests_disk {mrqs : List MmcRequest} (hh : Holds h disk)
    (hs : ∀ mrq ∈ mrqs, Serviceable disk mrq) : ∃ h',
      nemuRequests base mrqs h = some ((disk.serveAll mrqs).1, h') ∧ Holds h' (disk.serveAll mrqs).2 := by
  induction mrqs generalizing h disk with
  | nil => exact ⟨h, rfl, hh⟩
  | cons mrq mrqs ih =>
    obtain ⟨hfirst, hrest⟩ := List.forall_mem_cons.mp hs
    obtain ⟨h₁, hreq, -, hdata, hh₁⟩ := hh.request base hfirst
    obtain ⟨h', hreqs, hh'⟩ := ih hh₁ fun mrq hmrq => (hrest mrq hmrq).resize (disk.serve_size _)
    refine ⟨h', ?_, hh'⟩
    rw [nemuRequests, hreq, Option.bind_eq_bind, Option.bind_some, hreqs, hdata]
    rfl

/-! ## A block written and read back -/

def blockCommand (opcode : Word) : MmcCommand := ⟨opcode, 0, true, false, false, fun _ => 0, 0⟩

def blockRequest (w : Bool) (sg : List Nat) (buf : Memory) : MmcRequest :=
  ⟨some (blockCommand mmcSetBlockCount), blockCommand (transferCommand w), some ⟨512, 1, !w, w, sg, buf, 0, 0⟩,
    some (blockCommand mmcStopTransmission)⟩

def listKernel : Kernel where
  isPowerOf2 n := decide (n ≠ 0 ∧ n &&& (n - 1) = 0)
  SgMiter := List Nat × Nat
  sgMiterStart sg := (sg, 0)
  sgMiterNext m := m.1.head?.map fun p => (m.2, p, m)
  sgMiterStop len m := (if len < m.1.headI then (m.1.headI - len) :: m.1.tail else m.1.tail, m.2 + len)
  left := Prod.fst
  offset := Prod.snd
  isPowerOf2_pow := by
    intro n k hn
    have hk : k < 32 := (Nat.pow_lt_pow_iff_right (by decide : 1 < 2)).mp (hn ▸ n.isLt)
    have hpowers : ∀ k < 32, BitVec.ofNat 32 (2 ^ k) ≠ 0 ∧
        BitVec.ofNat 32 (2 ^ k) &&& (BitVec.ofNat 32 (2 ^ k) - 1) = 0 := by decide
    obtain rfl : BitVec.ofNat 32 (2 ^ k) = n := by rw [← hn, BitVec.ofNat_toNat, BitVec.setWidth_eq]
    exact decide_eq_true (hpowers k hk)
  left_start sg := rfl
  offset_start sg := rfl
  next_none m hm := by rw [hm]; rfl
  next_some m p rest hm := ⟨m, by rw [hm]; rfl, fun len hlen => ⟨by rw [hm]; rfl, rfl⟩⟩

def idleHost : NemuHost listKernel :=
  ⟨⟨fun _ => 0, initialCard erasedImage⟩, blockRequest false [] fun _ => 0, false, none, false, false, false, ([], 0)⟩

theorem nemuRequests_disk_block : ∃ h', nemuRequests 0 [blockRequest true [512] (BitVec.ofNat 8),
      blockRequest false [20, 492] fun _ => 0] idleHost =
        some ((Disk.serveAll ⟨erasedImage.data, 512⟩ [blockRequest true [512] (BitVec.ofNat 8),
          blockRequest false [20, 492] fun _ => 0]).1, h') ∧
    Holds h' (Disk.serveAll ⟨erasedImage.data, 512⟩ [blockRequest true [512] (BitVec.ofNat 8),
      blockRequest false [20, 492] fun _ => 0]).2 := by
  have hquiet : Quiet (blockCommand mmcSetBlockCount) ∧ Quiet (blockCommand mmcStopTransmission) := by
    unfold Quiet
    decide
  have hservice : ∀ w sg buf, Aligned sg → 512 ≤ sg.sum →
      Serviceable ⟨erasedImage.data, 512⟩ (blockRequest w sg buf) := by
    intro w sg buf haligned hroom
    have hopcode : transferCommand w &&& 0x3f = transferCommand w := by cases w <;> decide
    have hsize : (512 : Word).toNat = 2 ^ 9 ∧ 4 ∣ (512 : Word).toNat := by decide
    have hinside : 512 * (0 : Word).toNat + (512 : Word).toNat * (1 : Word).toNat ≤ 512 := by decide
    refine .transfer w ⟨?_, ?_⟩ rfl hopcode rfl ⟨⟨9, hsize.1⟩, hsize.2, haligned, hroom, hinside⟩
    · rintro c ⟨⟩
      exact hquiet.1
    · rintro c ⟨⟩
      exact hquiet.2
  refine nemuRequests_disk ⟨erasedImage.seek 0, ⟨rfl, rfl⟩, rfl, fun _ _ => rfl⟩ fun mrq hmrq => ?_
  rcases List.mem_pair.mp hmrq with rfl | rfl
  · exact hservice true _ _ (by unfold Aligned; decide) (by decide)
  · exact hservice false _ _ (by unfold Aligned; decide) (by decide)

end GsEmu.SdHost
