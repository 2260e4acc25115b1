import GsEmu.Device.Ram
import GsEmu.Difftest.Transfer
import GsEmu.Gdb.Link
import GsEmu.Lib.Words

/-! `gdb_getregs`, `gdb_setregs` and `gdb_si` of `gdb-host.c`: the registers as text in the payload of packets. -/

namespace GsEmu.Gdb
open Bytes Layout Riscv32
open Difftest (RegFile regFileAt putRegs isaGdbRegs difftestRegSize gprWords hexEncode isxdigit gdbDecodeHex
  decodePayload bufferAt isOk)

/-! ## The code -/

def decodeHexLoop : List Byte → BitVec 64 → BitVec 64 → BitVec 64
  | msb :: lsb :: bytes, value, weight =>
    if isxdigit msb && isxdigit lsb then
      decodeHexLoop bytes (value + weight * (gdbDecodeHex msb lsb).setWidth 64) (weight * (16 * 16))
    else value
  | _, value, _ => value

def gdbDecodeHexStr (bytes : List Byte) : BitVec 64 := decodeHexLoop bytes 0 1

def nrArray : Nat := 77

/-- What `gdb_recv` returns: the reply, a zero behind it, and what `malloc` left in the rest of the buffer. -/
def replyBuffer (reply : List Byte) (junk : Memory) : Memory := fun x =>
  if x < reply.length then reply.getD x 0 else if x = reply.length then 0 else junk x

/-- The loop of `gdb_getregs`: a string of eight bytes for each member of the array. -/
def regArray (p : Memory) : Memory :=
  storeWords (fun _ => 0) 0 ((List.range nrArray).map fun i =>
    (gdbDecodeHexStr ((List.range 8).map fun k => p (8 * i + k))).setWidth 32)

def gdbGetregs (junk : Memory) (conn : GdbConn) : ExceptT RecvStop Option (Memory × GdbConn) := do
  let (reply, conn) ← ExceptT.mk (request (text "g") conn)
  return (regArray (replyBuffer reply junk), conn)

def setCommand (r : Memory) : List Byte :=
  0x47 :: (List.range (4 * nrArray)).flatMap fun i => [hexEncode (r i >>> 4), hexEncode (r i &&& 0xf)]

def gdbSetregs (r : Memory) (conn : GdbConn) : ExceptT RecvStop Option (Bool × GdbConn) := do
  let (reply, conn) ← ExceptT.mk (request (setCommand r) conn)
  return (isOk reply, conn)

def gdbSi (conn : GdbConn) : ExceptT RecvStop Option GdbConn := do
  let (_, conn) ← ExceptT.mk (request (text "vCont;s:1") conn)
  return conn

/-! ## Digits -/

structure Spells (msb lsb b : Byte) : Prop where
  high : isxdigit msb = true
  low : isxdigit lsb = true
  value : gdbDecodeHex msb lsb = b.setWidth 16

theorem hexNibble_lt : ∀ c : Byte, isxdigit c = true → Difftest.hexNibble c < 16 := by decide +kernel

theorem spells_of_decode {msb lsb : Byte} (h : gdbDecodeHex msb lsb ≠ 0xffff) :
    Spells msb lsb ((gdbDecodeHex msb lsb).setWidth 8) := by
  unfold gdbDecodeHex at h
  split at h
  · exact absurd rfl h
  · rename_i hdigits
    simp only [Bool.or_eq_true, Bool.not_eq_true', not_or, Bool.not_eq_false] at hdigits
    refine ⟨hdigits.1, hdigits.2, ?_⟩
    have hm := hexNibble_lt msb hdigits.1
    have hl := hexNibble_lt lsb hdigits.2
    rw [gdbDecodeHex, hdigits.1, hdigits.2, Bool.not_true, Bool.or_false, if_neg (by decide)]
    apply BitVec.eq_of_toNat_eq
    have hsixteen : (16 : BitVec 16).toNat = 16 := rfl
    simp only [BitVec.toNat_setWidth, BitVec.toNat_add, BitVec.toNat_mul, hsixteen]
    rw [BitVec.lt_def] at hm hl
    change _ < 16 at hm
    change _ < 16 at hl
    omega

theorem decodePayload_spells {digits bytes : List Byte} (h : decodePayload digits = some bytes) {i : Nat}
    (hi : i < bytes.length) : Spells (digits.getD (2 * i) 0) (digits.getD (2 * i + 1) 0) (bytes.getD i 0) := by
  induction bytes generalizing digits i with
  | nil => exact absurd hi (Nat.not_lt_zero i)
  | cons b bytes ih =>
    rcases digits with - | ⟨msb, - | ⟨lsb, digits⟩⟩
    · cases h
    · cases h
    · rw [decodePayload] at h
      split at h
      · cases h
      · rename_i hvalid
        obtain ⟨bytes', hrest, hcons⟩ := Option.map_eq_some_iff.mp h
        obtain ⟨rfl, rfl⟩ := List.cons.inj hcons
        cases i with
        | zero => exact spells_of_decode hvalid
        | succ i => exact ih hrest (Nat.lt_of_succ_lt_succ hi)

/-- Eight digits are the four bytes of a word, the lowest first. -/
theorem gdbDecodeHexStr_word {p m : Memory} {a b : Nat}
    (h : ∀ j < 4, Spells (p (a + 2 * j)) (p (a + (2 * j + 1))) (m (b + j))) :
    (gdbDecodeHexStr ((List.range 8).map fun k => p (a + k))).setWidth 32 = readLE m b 4 := by
  have hstr : gdbDecodeHexStr ((List.range 8).map fun k => p (a + k)) =
      gdbDecodeHexStr [p a, p (a + 1), p (a + 2), p (a + 3), p (a + 4), p (a + 5), p (a + 6), p (a + 7)] :=
    rfl
  obtain ⟨h0m, h0l, h0⟩ : Spells (p a) (p (a + 1)) (m b) := h 0 (by decide)
  obtain ⟨h1m, h1l, h1⟩ := h 1 (by decide)
  obtain ⟨h2m, h2l, h2⟩ := h 2 (by decide)
  obtain ⟨h3m, h3l, h3⟩ := h 3 (by decide)
  rw [hstr]
  apply BitVec.eq_of_toNat_eq
  have hword : leNat ((List.range 4).map fun k => m (b + k)) =
      (m b).toNat + 256 * ((m (b + 1)).toNat + 256 * ((m (b + 2)).toNat + 256 * (m (b + 3)).toNat)) := by
    simp [leNat, List.range_succ, Nat.ofDigits_cons]
  rw [readLE_toNat _ _ le_rfl, hword]
  have hb0 := (m b).isLt
  have hb1 := (m (b + 1)).isLt
  have hb2 := (m (b + 2)).isLt
  have hb3 := (m (b + 3)).isLt
  have hweight : (1 : BitVec 64) * (16 * 16) = 256 ∧ (256 : BitVec 64) * (16 * 16) = 65536 ∧
    (65536 : BitVec 64) * (16 * 16) = 16777216 := by decide
  have hnat : (0 : BitVec 64).toNat = 0 ∧ (1 : BitVec 64).toNat = 1 ∧ (256 : BitVec 64).toNat = 256 ∧
    (65536 : BitVec 64).toNat = 65536 ∧ (16777216 : BitVec 64).toNat = 16777216 := by decide
  obtain ⟨hn0, hn1, hn2, hn3, hn4⟩ := hnat
  simp only [gdbDecodeHexStr, decodeHexLoop, h0m, h0l, h1m, h1l, h2m, h2l, h3m, h3l, h0, h1, h2, h3, Bool.and_self,
    if_true, hweight.1, hweight.2.1, hweight.2.2, BitVec.toNat_setWidth, BitVec.toNat_add,
    BitVec.toNat_mul, hn0, hn1, hn2, hn3, hn4]
  omega

theorem regArray_spells {p m : Memory} {n : Nat} (hn : n ≤ nrArray)
    (h : ∀ i < 4 * n, Spells (p (2 * i)) (p (2 * i + 1)) (m i)) {x : Nat} (hx : x < 4 * n) :
    regArray p x = m x := by
  have hwords : wordsAt (regArray p) 0 n = wordsAt m 0 n := by
    refine List.map_congr_left fun k hk => ?_
    have hkn : k < n := List.mem_range.mp hk
    have hlen : k < ((List.range nrArray).map fun i =>
        (gdbDecodeHexStr ((List.range 8).map fun k => p (8 * i + k))).setWidth 32).length := by
      rw [List.length_map, List.length_range]
      exact hkn.trans_le hn
    rw [regArray, readLE_storeWords _ hlen, List.getElem_map, List.getElem_range]
    refine gdbDecodeHexStr_word fun j hj => ?_
    have hbyte := h (0 + 4 * k + j) (by omega)
    rwa [show 2 * (0 + 4 * k + j) = 8 * k + 2 * j by omega, Nat.add_assoc (8 * k)] at hbyte
  have hbyte := wordsAt_bytes hwords hx
  rwa [Nat.zero_add] at hbyte

theorem decodePayload_setCommand (r : Memory) :
    decodePayload (setCommand r).tail = some (bufferAt r 0 (4 * nrArray)) := by
  have hflat := Difftest.decodePayload_flatMap r (List.range (4 * nrArray))
  refine hflat.trans (congrArg some (List.map_congr_left fun i _ => ?_))
  rw [Nat.zero_add]

end GsEmu.Gdb
