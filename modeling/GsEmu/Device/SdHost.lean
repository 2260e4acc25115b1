import GsEmu.Device.SdStream

/-! `resource/sdcard/nemu.c`, the driver that the guest's kernel uses for the card of `sdcard.c`. -/

namespace GsEmu.SdHost
open Bytes Riscv32

/-! ## Requests -/

/-- `flags` is given by its bits `MMC_RSP_PRESENT`, `MMC_RSP_136` and `MMC_RSP_BUSY`. -/
structure MmcCommand where
  opcode : Word
  arg : Word
  rspPresent : Bool
  rsp136 : Bool
  rspBusy : Bool
  resp : Nat → Word
  error : Int

/-- `flags` is given by its bits `MMC_DATA_READ` and `MMC_DATA_WRITE`, the scatter list by the lengths of its
pieces and their memory, end to end. -/
structure MmcData where
  blksz : Word
  blocks : Word
  dataRead : Bool
  dataWrite : Bool
  sg : List Nat
  buf : Memory
  error : Int
  bytesXfered : Word

structure MmcRequest where
  sbc : Option MmcCommand
  cmd : MmcCommand
  data : Option MmcData
  stop : Option MmcCommand

inductive Which
  | sbc
  | cmd
  | stop
  deriving DecidableEq

/-- What the driver calls of the kernel, whose code is not in the repository: `is_power_of_2`, and the iterator
over the pieces of a scatter list. `next` also returns the address and the length of the piece it maps, `stop`
gets `consumed`. Of an iterator that is stopped, `left` are the pieces still to come and `offset` the bytes
before them. -/
structure Kernel where
  isPowerOf2 : Word → Bool
  SgMiter : Type
  sgMiterStart : List Nat → SgMiter
  sgMiterNext : SgMiter → Option (Nat × Nat × SgMiter)
  sgMiterStop : Nat → SgMiter → SgMiter
  left : SgMiter → List Nat
  offset : SgMiter → Nat
  isPowerOf2_pow : ∀ n k, n.toNat = 2 ^ k → isPowerOf2 n = true
  left_start : ∀ sg, left (sgMiterStart sg) = sg
  offset_start : ∀ sg, offset (sgMiterStart sg) = 0
  next_none : ∀ m, left m = [] → sgMiterNext m = none
  next_some : ∀ m p rest, left m = p :: rest → ∃ m', sgMiterNext m = some (offset m, p, m') ∧
    ∀ len ≤ p, left (sgMiterStop len m') = (if len < p then (p - len) :: rest else rest) ∧
      offset (sgMiterStop len m') = offset m + len

variable {K : Kernel}

/-- `busy` and `data` are the tests of the pointers `mrq` and `data`; `mrq` also keeps the last request. -/
structure NemuHost (K : Kernel) where
  io : Io SdCard
  mrq : MmcRequest
  busy : Bool
  cmd : Option Which
  data : Bool
  dataComplete : Bool
  useSbc : Bool
  sgMiter : K.SgMiter

def einval : Int := -22

/-! ## Programmed I/O -/

def sddataFifoWords : Nat := 16

def sddataFifoPioBurst : Nat := 8

structure Pio (K : Kernel) where
  io : Io SdCard
  data : MmcData
  miter : K.SgMiter
  addr : Nat

def transferWord (base : Nat) (isRead : Bool) (s : Pio K) : Option (Pio K) :=
  if isRead then
    (sdRead base sddata s.io).map fun (v, io) =>
      ⟨io, { s.data with buf := writeLE s.data.buf s.addr 4 v }, s.miter, s.addr + 4⟩
  else
    (sdWrite base sddata (readLE s.data.buf s.addr 4) s.io).map fun io => ⟨io, s.data, s.miter, s.addr + 4⟩

def transferWords (base : Nat) (isRead : Bool) : Nat → Pio K → Option (Pio K)
  | 0, s => some s
  | words + 1, s => (transferWord base isRead s).bind (transferWords base isRead words)

def fifoWords (isRead : Bool) : Nat :=
  let edm : Word := 8 <<< 4
  if isRead then ((edm >>> 4) &&& 0x1f).toNat else sddataFifoWords - ((edm >>> 4) &&& 0x1f).toNat

theorem fifoWords_eq (isRead : Bool) : fifoWords isRead = sddataFifoPioBurst := by cases isRead <;> rfl

/-- `while (copy_words)`; `none` where it spins on a FIFO with too few words. -/
def copyLoop (base : Nat) (isRead : Bool) (copyWords : Nat) (s : Pio K) : Option (Pio K) :=
  if copyWords = 0 then some s
  else
    let words := fifoWords isRead
    if words < min sddataFifoPioBurst copyWords then none
    else
      let words := if copyWords < words then copyWords else words
      (transferWords base isRead words s).bind (copyLoop base isRead (copyWords - words))
termination_by copyWords
decreasing_by
  simp only [fifoWords_eq, sddataFifoPioBurst]
  split_ifs <;> omega

theorem Kernel.stop_measure {m m' : K.SgMiter} {addr length blksize : Nat}
    (h : K.sgMiterNext m = some (addr, length, m')) (hpos : blksize ≠ 0) :
    blksize - min length blksize + (K.left (K.sgMiterStop (min length blksize) m')).length <
      blksize + (K.left m).length := by
  cases hleft : K.left m with
  | nil =>
    rw [K.next_none m hleft] at h
    cases h
  | cons p rest =>
    obtain ⟨m₁, hnext, hstop⟩ := K.next_some m p rest hleft
    obtain ⟨rfl, rfl, rfl⟩ : K.offset m = addr ∧ p = length ∧ m₁ = m' := by simpa [hnext] using h
    rw [(hstop _ (Nat.min_le_left ..)).1]
    split_ifs <;> simp only [List.length_cons] <;> omega

/-- `while (blksize)`. A piece is stopped with `consumed`, at the next one or at the end; one of a length that is no
multiple of 4 is left behind whole. -/
def blockLoop (base : Nat) (isRead : Bool) (blksize : Nat) (s : Pio K) : Option (Pio K) :=
  if hpos : blksize = 0 then some s
  else
    match hnext : K.sgMiterNext s.miter with
    | none => some { s with data := { s.data with error := einval } }
    | some (addr, length, m) =>
      let len := min length blksize
      if len % 4 ≠ 0 then
        some { s with data := { s.data with error := einval }, miter := K.sgMiterStop length m }
      else
        (copyLoop base isRead (len / 4) { s with addr := addr }).bind fun s =>
          blockLoop base isRead (blksize - len) { s with miter := K.sgMiterStop len m }
termination_by blksize + (K.left s.miter).length
decreasing_by exact Kernel.stop_measure hnext hpos

def nemuTransferBlockPio (base : Nat) (isRead : Bool) (s : Pio K) : Option (Pio K) :=
  blockLoop base isRead s.data.blksz.toNat s

def nemuTransferPio (base : Nat) (s : Pio K) : Option (Pio K) := nemuTransferBlockPio base s.data.dataRead s

def pioBlocks (base : Nat) : Nat → Pio K → Option (Pio K)
  | 0, s => some s
  | blocks + 1, s => (nemuTransferPio base s).bind (pioBlocks base blocks)

/-! ## Commands -/

def nemuPrepareData (w : Which) (h : NemuHost K) : NemuHost K :=
  match w, h.mrq.data with
  | .cmd, some d =>
    { h with
      data := true
      dataComplete := false
      mrq := { h.mrq with data := some { d with bytesXfered := 0 } }
      sgMiter := K.sgMiterStart d.sg }
  | _, _ => { h with data := false }

def sdcmdWord (cmd : MmcCommand) (data : Option MmcData) : Word :=
  let sdcmd := cmd.opcode &&& 0x3f
  let sdcmd :=
    if !cmd.rspPresent then sdcmd ||| 0x400
    else
      let sdcmd := if cmd.rsp136 then sdcmd ||| 0x200 else sdcmd
      if cmd.rspBusy then sdcmd ||| 0x800 else sdcmd
  let sdcmd := if data.any (·.dataWrite) then sdcmd ||| 0x80 else sdcmd
  let sdcmd := if data.any (·.dataRead) then sdcmd ||| 0x40 else sdcmd
  sdcmd ||| 0x8000

def nemuSendCommand (base : Nat) (w : Which) (cmd : MmcCommand) (h : NemuHost K) : Option (NemuHost K) := do
  let h := nemuPrepareData w { h with cmd := some w }
  let io ← sdWrite base sdarg cmd.arg h.io
  let io ← sdWrite base Riscv32.sdcmd (sdcmdWord cmd (if w = .cmd then h.mrq.data else none)) io
  return { h with io := io }

def readResponse (base : Nat) (cmd : MmcCommand) (io : Io SdCard) : Option (MmcCommand × Io SdCard) :=
  if cmd.rspPresent then
    if cmd.rsp136 then do
      let (r0, io) ← sdRead base sdrsp0 io
      let (r1, io) ← sdRead base sdrsp1 io
      let (r2, io) ← sdRead base sdrsp2 io
      let (r3, io) ← sdRead base sdrsp3 io
      return ({ cmd with resp := fun i => match i with | 3 => r0 | 2 => r1 | 1 => r2 | 0 => r3 | i => cmd.resp i },
        io)
    else do
      let (r, io) ← sdRead base sdrsp0 io
      return ({ cmd with resp := Function.update cmd.resp 0 r }, io)
  else some (cmd, io)

def nemuFinishRequest (h : NemuHost K) : NemuHost K := { h with busy := false, cmd := none, data := false }

def finishStop (base : Nat) (cmd : MmcCommand) (h : NemuHost K) : Option (NemuHost K) := do
  let (cmd, io) ← readResponse base cmd h.io
  return nemuFinishRequest { h with io := io, mrq := { h.mrq with stop := some cmd } }

def failed (data : Option MmcData) : Bool := data.any (·.error ≠ 0)

def nemuTransferComplete (base : Nat) (h : NemuHost K) : Option (NemuHost K) :=
  let h := { h with data := false }
  match h.mrq.stop with
  | some stop =>
    if failed h.mrq.data || !h.useSbc then
      (nemuSendCommand base .stop stop h).bind (finishStop base stop)
    else some (nemuFinishRequest h)
  | none => some (nemuFinishRequest h)

def nemuFinishData (base : Nat) (h : NemuHost K) : Option (NemuHost K) :=
  let h :=
    { h with
      mrq := { h.mrq with
        data := h.mrq.data.map fun d =>
          { d with bytesXfered := if d.error ≠ 0 then 0 else d.blksz * d.blocks } }
      dataComplete := true }
  if h.cmd.isSome then some h else nemuTransferComplete base h

def finishCmd (base : Nat) (h : NemuHost K) : Option (NemuHost K) := do
  let (cmd, io) ← readResponse base h.mrq.cmd h.io
  let h := { h with io := io, mrq := { h.mrq with cmd := cmd }, cmd := none }
  if !h.data then return nemuFinishRequest h
  else if h.dataComplete then nemuTransferComplete base h
  else return h

def transferData (base : Nat) (h : NemuHost K) : Option (NemuHost K) :=
  match h.data, h.mrq.data with
  | true, some d => do
    let s ← pioBlocks base d.blocks.toNat ⟨h.io, d, h.sgMiter, 0⟩
    nemuFinishData base { h with io := s.io, mrq := { h.mrq with data := some s.data }, sgMiter := s.miter }
  | _, _ => some h

def sendCmd (base : Nat) (h : NemuHost K) : Option (NemuHost K) := do
  let h ← nemuSendCommand base .cmd h.mrq.cmd h
  let h ← transferData base h
  finishCmd base h

def finishSbc (base : Nat) (cmd : MmcCommand) (h : NemuHost K) : Option (NemuHost K) := do
  let (cmd, io) ← readResponse base cmd h.io
  sendCmd base { h with io := io, mrq := { h.mrq with sbc := some cmd }, cmd := none }

def MmcRequest.reset (mrq : MmcRequest) : MmcRequest where
  sbc := mrq.sbc.map fun c => { c with error := 0 }
  cmd := { mrq.cmd with error := 0 }
  data := mrq.data.map fun d => { d with error := 0 }
  stop := mrq.stop.map fun c => { c with error := 0 }

/-- Panics of the controller are `none`. -/
def nemuRequest (base : Nat) (mrq : MmcRequest) (h : NemuHost K) : Option (NemuHost K) :=
  let mrq := mrq.reset
  if mrq.data.any (!K.isPowerOf2 ·.blksz) then
    some { h with mrq := { mrq with cmd := { mrq.cmd with error := einval } } }
  else
    let h := { h with mrq := mrq, busy := true, useSbc := mrq.sbc.isSome && mrq.data.any (·.dataRead) }
    match mrq.sbc with
    | some sbc =>
      if h.useSbc then (nemuSendCommand base .sbc sbc h).bind (finishSbc base sbc) else sendCmd base h
    | none => sendCmd base h

end GsEmu.SdHost
