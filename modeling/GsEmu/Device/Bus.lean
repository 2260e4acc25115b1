import GsEmu.Riscv32.State

/-! Guest accesses: `host.h`, `paddr.c`, `vaddr.c` and the MMIO maps of `map.h`, `map.c`, `mmio.c`.
`none` is a failed assertion or a panic, after which the process is gone. -/

namespace GsEmu.Riscv32
open Bytes

/-- An `IOMap`: a window of guest addresses over the store from `space` upwards. The callback gets
the offset, the length and the direction. -/
structure IOMap (D : Type) where
  name : String
  low : Word
  high : Word
  space : Nat
  callback : Option (Word → Nat → Bool → Io D → Option (Io D))

/-- A build together with the maps that `init_device` registered. -/
structure Platform (D : Type) extends Config where
  maps : List (IOMap D)

variable {D : Type}

def hostRead (m : Memory) (addr len : Nat) : Option Word :=
  match len with
  | 1 => some (readLE m addr 1)
  | 2 => some (readLE m addr 2)
  | 4 => some (readLE m addr 4)
  | 8 => some (readLE m addr 4)
  | _ => none

def hostWrite (m : Memory) (addr len : Nat) (data : Word) : Option Memory :=
  match len with
  | 1 => some (writeLE m addr 1 data)
  | 2 => some (writeLE m addr 2 data)
  | 4 => some (writeLE m addr 4 data)
  | 8 => some (writeLE m addr 4 data)
  | _ => none

def inPmem (addr : Word) : Bool := decide (addr - configMbase < configMsize)

def guestToHost (addr : Word) : Nat := (addr - configMbase).toNat

def mapInside (map : IOMap D) (addr : Word) : Bool := decide (map.low ≤ addr ∧ addr ≤ map.high)

/-- `difftest_skip_ref`, which the mini-rv32ima build turns into a reset of the flag. -/
def difftestSkipRef (ref : DifftestRef) (skip : DifftestSkip) : DifftestSkip :=
  match ref with
  | .none => skip
  | .minirv32i => { skip with isSkipRef := false }
  | _ => { skip with isSkipRef := true, skipDutNrInst := 0 }

def State.setBus (st : State D) (pmem : Memory) (io : Io D) (skip : DifftestSkip) : State D :=
  { st with pmem := pmem, io := io, skip := skip }

attribute [simps -fullyApplied gpr csr amw pc curPri haveRISCVException riscvExceptionTval pmem io
  nemuState skip s] State.setBus

def fetchMmioMap (P : Platform D) (addr : Word) (st : State D) : Option (IOMap D) × State D :=
  match P.maps.find? (mapInside · addr) with
  | some map => (some map, st.setBus st.pmem st.io (difftestSkipRef P.difftest st.skip))
  | none => (none, st)

def invokeCallback (map : IOMap D) (offset : Word) (len : Nat) (isWrite : Bool) (io : Io D) :
    Option (Io D) :=
  match map.callback with
  | some c => c offset len isWrite io
  | none => some io

def mapRead (addr : Word) (len : Nat) (map : IOMap D) (io : Io D) : Option (Word × Io D) :=
  if 1 ≤ len ∧ len ≤ 8 ∧ mapInside map addr then do
    let offset := addr - map.low
    let io ← invokeCallback map offset len false io
    let ret ← hostRead io.space (map.space + offset.toNat) len
    return (ret, io)
  else none

def mapWrite (addr : Word) (len : Nat) (data : Word) (map : IOMap D) (io : Io D) :
    Option (Io D) :=
  if 1 ≤ len ∧ len ≤ 8 ∧ mapInside map addr then do
    let offset := addr - map.low
    let space ← hostWrite io.space (map.space + offset.toNat) len data
    invokeCallback map offset len true { io with space := space }
  else none

def mmioRead (P : Platform D) (addr : Word) (len : Nat) (st : State D) :
    Option (Word × State D) := do
  let (map, st) := fetchMmioMap P addr st
  let map ← map
  let (ret, io) ← mapRead addr len map st.io
  return (ret, st.setBus st.pmem io st.skip)

def mmioWrite (P : Platform D) (addr : Word) (len : Nat) (data : Word) (st : State D) :
    Option (State D) := do
  let (map, st) := fetchMmioMap P addr st
  let map ← map
  let io ← mapWrite addr len data map st.io
  return st.setBus st.pmem io st.skip

def paddrRead (P : Platform D) (addr : Word) (len : Nat) (st : State D) :
    Option (Word × State D) :=
  if inPmem addr then do
    let ret ← hostRead st.pmem (guestToHost addr) len
    return (ret, st)
  else mmioRead P addr len st

def paddrWrite (P : Platform D) (addr : Word) (len : Nat) (data : Word) (st : State D) :
    Option (State D) :=
  if inPmem addr then do
    let pmem ← hostWrite st.pmem (guestToHost addr) len data
    return st.setBus pmem st.io st.skip
  else mmioWrite P addr len data st

/-- `vaddr_ifetch` and `vaddr_read` are both `paddr_read`. -/
abbrev vaddrIfetch := @paddrRead
abbrev vaddrRead := @paddrRead
abbrev vaddrWrite := @paddrWrite

/-! ## What an access leaves alone -/

variable {P : Platform D} {st st' : State D} {a : Word} {len : Nat} {v : Word}

theorem hostRead_eq (m : Memory) (x : Nat) (hlen : len = 1 ∨ len = 2 ∨ len = 4) :
    hostRead m x len = some (readLE m x len) := by
  rcases hlen with rfl | rfl | rfl <;> rfl

theorem hostWrite_eq (m : Memory) (x : Nat) (v : Word) (hlen : len = 1 ∨ len = 2 ∨ len = 4) :
    hostWrite m x len v = some (writeLE m x len v) := by
  rcases hlen with rfl | rfl | rfl <;> rfl

theorem hostWrite_outside {m m' : Memory} {x y : Nat} (h : hostWrite m x len v = some m')
    (hy : ¬(x ≤ y ∧ y < x + len)) : m' y = m y := by
  unfold hostWrite at h
  split at h <;> simp only [Option.some.injEq, reduceCtorEq] at h <;> subst h <;>
    exact writeLE_outside _ _ (by omega)

theorem mmioRead_bus (h : mmioRead P a len st = some (v, st')) :
    ∃ io, st' = st.setBus st.pmem io (difftestSkipRef P.difftest st.skip) := by
  simp only [mmioRead, fetchMmioMap] at h
  split at h
  · simp only [Option.bind_eq_bind, Option.bind_some, Option.pure_def,
      Option.bind_eq_some_iff] at h
    obtain ⟨⟨ret, io⟩, _, h⟩ := h
    simp only [Option.some.injEq, Prod.mk.injEq] at h
    exact ⟨io, h.2.symm⟩
  · simp at h

theorem mmioWrite_bus (h : mmioWrite P a len v st = some st') :
    ∃ io, st' = st.setBus st.pmem io (difftestSkipRef P.difftest st.skip) := by
  simp only [mmioWrite, fetchMmioMap] at h
  split at h
  · simp only [Option.bind_eq_bind, Option.bind_some, Option.pure_def,
      Option.bind_eq_some_iff] at h
    obtain ⟨io, _, h⟩ := h
    exact ⟨io, (Option.some.inj h).symm⟩
  · simp at h

theorem paddrRead_pmem (hp : inPmem a = true) :
    paddrRead P a len st = (hostRead st.pmem (guestToHost a) len).map fun v => (v, st) := by
  unfold paddrRead
  rw [if_pos hp]
  cases hostRead st.pmem (guestToHost a) len <;> rfl

theorem paddrRead_mmio (hp : inPmem a = false) :
    paddrRead P a len st = mmioRead P a len st := by
  unfold paddrRead
  rw [if_neg (by simp [hp])]

theorem paddrWrite_pmem (hp : inPmem a = true) :
    paddrWrite P a len v st =
      (hostWrite st.pmem (guestToHost a) len v).map fun pmem => st.setBus pmem st.io st.skip := by
  unfold paddrWrite
  rw [if_pos hp]
  cases hostWrite st.pmem (guestToHost a) len v <;> rfl

theorem paddrWrite_mmio (hp : inPmem a = false) :
    paddrWrite P a len v st = mmioWrite P a len v st := by
  unfold paddrWrite
  rw [if_neg (by simp [hp])]

theorem paddrRead_bus (h : paddrRead P a len st = some (v, st')) :
    ∃ io skip, st' = st.setBus st.pmem io skip := by
  cases hp : inPmem a with
  | true =>
    rw [paddrRead_pmem hp] at h
    obtain ⟨w, _, hw⟩ := Option.map_eq_some_iff.mp h
    exact ⟨st.io, st.skip, (Prod.mk.inj hw).2.symm⟩
  | false =>
    rw [paddrRead_mmio hp] at h
    obtain ⟨io, h⟩ := mmioRead_bus h
    exact ⟨io, _, h⟩

theorem paddrWrite_bus (h : paddrWrite P a len v st = some st') :
    ∃ pmem io skip, st' = st.setBus pmem io skip ∧ (inPmem a = false → pmem = st.pmem) := by
  cases hp : inPmem a with
  | true =>
    rw [paddrWrite_pmem hp] at h
    obtain ⟨pmem, _, hw⟩ := Option.map_eq_some_iff.mp h
    exact ⟨pmem, st.io, st.skip, hw.symm, by simp⟩
  | false =>
    rw [paddrWrite_mmio hp] at h
    obtain ⟨io, h⟩ := mmioWrite_bus h
    exact ⟨st.pmem, io, _, h, fun _ => rfl⟩

end GsEmu.Riscv32
