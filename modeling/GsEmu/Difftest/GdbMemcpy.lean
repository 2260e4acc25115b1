import GsEmu.Lib.Blocks
import GsEmu.Device.Serial

/-! `gdb_memcpy_to_qemu` of `gdb-host.c`: a copy into QEMU's memory in packets of at most 1500 bytes. -/

namespace GsEmu.Difftest
open Bytes Riscv32

/-! ## The protocol -/

/-- The link: the packets sent so far and what the stub answers to these. It delivers them unchanged. -/
structure GdbConn where
  sent : List (List Byte)
  answer : List (List Byte) → List Byte

def gdbSend (packet : List Byte) (conn : GdbConn) : GdbConn := { conn with sent := conn.sent ++ [packet] }

def gdbRecv (conn : GdbConn) : List Byte := conn.answer conn.sent

def hexEncode (digit : Byte) : Byte := if 9 < digit then 0x61 + digit - 10 else 0x30 + digit

def isdigit (c : Byte) : Bool := decide (0x30 ≤ c ∧ c ≤ 0x39)

def tolower (c : Byte) : Byte := if 0x41 ≤ c ∧ c ≤ 0x5a then c + 0x20 else c

def isxdigit (c : Byte) : Bool := isdigit c || decide (0x61 ≤ tolower c ∧ tolower c ≤ 0x66)

def hexNibble (hex : Byte) : Byte := if isdigit hex then hex - 0x30 else tolower hex - 0x61 + 10

def gdbDecodeHex (msb lsb : Byte) : BitVec 16 :=
  if !isxdigit msb || !isxdigit lsb then 0xffff
  else 16 * (hexNibble msb).setWidth 16 + (hexNibble lsb).setWidth 16

/-! ## The copy -/

def hexNumber (n : Nat) : List Byte := (Nat.toDigits 16 n).map fun c => BitVec.ofNat 8 c.toNat

def memoryPacket (mem : Memory) (dest : Word) (src len : Nat) : List Byte :=
  text "M0x" ++ hexNumber dest.toNat ++ text "," ++ hexNumber len ++ text ":" ++
    (List.range len).flatMap fun i => [hexEncode (mem (src + i) >>> 4), hexEncode (mem (src + i) &&& 0xf)]

def isOk (reply : List Byte) : Bool := decide (reply.takeWhile (· ≠ 0) = text "OK")

def gdbMemcpyToQemuSmall (mem : Memory) (dest : Word) (src len : Nat) (conn : GdbConn) : Bool × GdbConn :=
  let conn := gdbSend (memoryPacket mem dest src len) conn
  (isOk (gdbRecv conn), conn)

def mtu : Nat := 1500

def gdbMemcpyLoop (mem : Memory) (dest : Word) (src len : Nat) (ok : Bool) (conn : GdbConn) :
    Bool × GdbConn :=
  if mtu < len then
    let (small, conn) := gdbMemcpyToQemuSmall mem dest src mtu conn
    gdbMemcpyLoop mem (dest + BitVec.ofNat 32 mtu) (src + mtu) (len - mtu) (ok && small) conn
  else
    let (small, conn) := gdbMemcpyToQemuSmall mem dest src len conn
    (ok && small, conn)
termination_by len
decreasing_by
  unfold mtu at *
  omega

def gdbMemcpyToQemu (mem : Memory) (dest : Word) (src len : Nat) (conn : GdbConn) : Bool × GdbConn :=
  gdbMemcpyLoop mem dest src len true conn

/-! ## Reading a packet -/

def decodeNumber (digits : List Byte) : Nat := digits.foldl (fun v c => 16 * v + (hexNibble c).toNat) 0

def decodePayload : List Byte → Option (List Byte)
  | [] => some []
  | [_] => none
  | msb :: lsb :: rest =>
    if gdbDecodeHex msb lsb = 0xffff then none
    else (decodePayload rest).map ((gdbDecodeHex msb lsb).setWidth 8 :: ·)

/-- Where a packet writes, and what; its length has to be that of its payload. -/
def decodePacket (packet : List Byte) : Option (Block Byte) :=
  let addr := (packet.drop 3).takeWhile (· ≠ 0x2c)
  let rest := ((packet.drop 3).dropWhile (· ≠ 0x2c)).drop 1
  let len := rest.takeWhile (· ≠ 0x3a)
  if packet.take 3 = text "M0x" then
    match decodePayload ((rest.dropWhile (· ≠ 0x3a)).drop 1) with
    | some data => if data.length = decodeNumber len then some ⟨decodeNumber addr, data⟩ else none
    | none => none
  else none

variable {mem : Memory} {dest : Word} {src len n : Nat} {conn : GdbConn} {ok : Bool}

theorem digit_byte : ∀ d < 16, (hexNibble (BitVec.ofNat 8 (Nat.digitChar d).toNat)).toNat = d ∧
    BitVec.ofNat 8 (Nat.digitChar d).toNat ≠ 0x2c ∧ BitVec.ofNat 8 (Nat.digitChar d).toNat ≠ 0x3a := by
  decide

theorem hexNumber_lt (hn : n < 16) : hexNumber n = [BitVec.ofNat 8 (Nat.digitChar n).toNat] := by
  rw [hexNumber, Nat.toDigits_of_lt_base hn, List.map_singleton]

theorem hexNumber_le (hn : 16 ≤ n) :
    hexNumber n = hexNumber (n / 16) ++ [BitVec.ofNat 8 (Nat.digitChar (n % 16)).toNat] := by
  rw [hexNumber, Nat.toDigits_of_base_le (by decide) hn, List.map_append, List.map_singleton]
  rfl

theorem decodeNumber_hexNumber (n : Nat) : decodeNumber (hexNumber n) = n := by
  induction n using Nat.strongRecOn with
  | ind n ih =>
    rcases Nat.lt_or_ge n 16 with hn | hn
    · rw [hexNumber_lt hn, decodeNumber, List.foldl_cons, List.foldl_nil, (digit_byte n hn).1]
      omega
    · have hquot := ih (n / 16) (by omega)
      rw [hexNumber_le hn, decodeNumber, List.foldl_append]
      change 16 * decodeNumber (hexNumber (n / 16)) + _ = n
      rw [hquot, (digit_byte _ (Nat.mod_lt n (by decide))).1]
      omega

theorem ne_of_mem_hexNumber {c : Byte} (n : Nat) (hc : c ∈ hexNumber n) : c ≠ 0x2c ∧ c ≠ 0x3a := by
  induction n using Nat.strongRecOn with
  | ind n ih =>
    rcases Nat.lt_or_ge n 16 with hn | hn
    · rw [hexNumber_lt hn, List.mem_singleton] at hc
      rw [hc]
      exact (digit_byte n hn).2
    · rw [hexNumber_le hn] at hc
      rcases List.mem_append.mp hc with hc | hc
      · exact ih (n / 16) (by omega) hc
      · rw [List.mem_singleton.mp hc]
        exact (digit_byte _ (Nat.mod_lt n (by decide))).2

theorem gdbDecodeHex_hexEncode : ∀ b : Byte,
    gdbDecodeHex (hexEncode (b >>> 4)) (hexEncode (b &&& 0xf)) = b.setWidth 16 := by
  decide +kernel

theorem decodePayload_flatMap (f : Nat → Byte) (l : List Nat) :
    decodePayload (l.flatMap fun i => [hexEncode (f i >>> 4), hexEncode (f i &&& 0xf)]) = some (l.map f) := by
  induction l with
  | nil => rfl
  | cons i l ih =>
    have hbyte : (f i).setWidth 16 ≠ 0xffff := by
      intro heq
      have hvalue := congrArg BitVec.toNat heq
      have hlt := (f i).isLt
      simp only [BitVec.toNat_setWidth] at hvalue
      change _ = 0xffff at hvalue
      omega
    rw [List.flatMap_cons, List.cons_append, List.cons_append, List.nil_append, decodePayload,
      gdbDecodeHex_hexEncode, if_neg hbyte, ih, Option.map_some, List.map_cons]
    congr 2
    simp

theorem split_at_separator (sep : Byte) {l : List Byte} (rest : List Byte) (hl : ∀ c ∈ l, c ≠ sep) :
    (l ++ sep :: rest).takeWhile (· ≠ sep) = l ∧ ((l ++ sep :: rest).dropWhile (· ≠ sep)).drop 1 = rest := by
  have hall : ∀ c ∈ l, decide (c ≠ sep) = true := fun c hc => decide_eq_true (hl c hc)
  rw [List.takeWhile_append_of_pos hall, List.dropWhile_append_of_pos hall]
  simp

def bufferAt (mem : Memory) (src len : Nat) : List Byte := (List.range len).map fun i => mem (src + i)

def chunk (mem : Memory) (dest : Word) (src len : Nat) : Block Byte := ⟨dest.toNat, bufferAt mem src len⟩

theorem length_bufferAt : (bufferAt mem src len).length = len := by
  rw [bufferAt, List.length_map, List.length_range]

theorem chunk_bytes : (chunk mem dest src len).bytes = bufferAt mem src len := rfl

theorem chunk_stop : (chunk mem dest src len).stop = dest.toNat + len := by
  change (dest.toNat : Int) + (bufferAt mem src len).length = _
  rw [length_bufferAt]

theorem bufferAt_add (n k : Nat) :
    bufferAt mem src (n + k) = bufferAt mem src n ++ bufferAt mem (src + n) k := by
  rw [bufferAt, List.range_add, List.map_append, List.map_map]
  simp only [bufferAt, Function.comp_def, Nat.add_assoc]

theorem decodePacket_memoryPacket (mem : Memory) (dest : Word) (src len : Nat) :
    decodePacket (memoryPacket mem dest src len) = some (chunk mem dest src len) := by
  obtain ⟨payload, hpayload⟩ : ∃ payload, ((List.range len).flatMap fun i =>
      [hexEncode (mem (src + i) >>> 4), hexEncode (mem (src + i) &&& 0xf)]) = payload := ⟨_, rfl⟩
  have hdata : decodePayload payload = some (bufferAt mem src len) :=
    hpayload ▸ decodePayload_flatMap (fun i => mem (src + i)) _
  have hpacket : memoryPacket mem dest src len = 0x4d :: 0x30 :: 0x78 ::
      (hexNumber dest.toNat ++ 0x2c :: (hexNumber len ++ 0x3a :: payload)) := by
    rw [memoryPacket, hpayload]
    simp only [List.append_assoc]
    rfl
  obtain ⟨haddr, hrest⟩ := split_at_separator 0x2c (hexNumber len ++ 0x3a :: payload)
    fun c hc => (ne_of_mem_hexNumber dest.toNat hc).1
  obtain ⟨hlen, hpay⟩ := split_at_separator 0x3a payload
    fun c hc => (ne_of_mem_hexNumber len hc).2
  have hhead : text "M0x" = [0x4d, 0x30, 0x78] := by decide
  rw [hpacket, decodePacket]
  simp only [List.drop_succ_cons, List.drop_zero, haddr, hrest, hlen, hpay, hdata, decodeNumber_hexNumber,
    length_bufferAt, if_true, hhead, List.take_succ_cons, List.take_zero]
  rfl

/-! ## The whole copy -/

/-- What the packets say they write: the buffer, in blocks end to end from `dest`. -/
structure Copies (mem : Memory) (dest : Word) (src len : Nat) (packets : List (List Byte))
    (writes : List (Block Byte)) : Prop where
  decoded : packets.map decodePacket = writes.map some
  tiles : Block.Tiles dest.toNat writes (dest.toNat + len)
  increasing : writes.Pairwise (·.addr < ·.addr)
  small : ∀ w ∈ writes, w.bytes.length ≤ mtu
  buffer : writes.flatMap (·.bytes) = bufferAt mem src len

def AllOk (conn : GdbConn) (packets : List (List Byte)) : Prop :=
  ∀ i < packets.length, isOk (conn.answer (conn.sent ++ packets.take (i + 1))) = true

theorem allOk_cons (packet : List Byte) (packets : List (List Byte)) : AllOk conn (packet :: packets) ↔
    isOk (gdbRecv (gdbSend packet conn)) = true ∧ AllOk (gdbSend packet conn) packets := by
  have htake : ∀ i, conn.answer (conn.sent ++ (packet :: packets).take (i + 1)) =
      (gdbSend packet conn).answer ((gdbSend packet conn).sent ++ packets.take i) := by
    intro i
    change _ = conn.answer (conn.sent ++ [packet] ++ packets.take i)
    rw [List.take_succ_cons, List.append_assoc, List.singleton_append]
  constructor
  · intro h
    refine ⟨?_, fun i hi => ?_⟩
    · have hfirst := h 0 (Nat.succ_pos _)
      rw [htake, List.take_zero, List.append_nil] at hfirst
      exact hfirst
    · rw [← htake]
      exact h (i + 1) (Nat.succ_lt_succ hi)
  · rintro ⟨hfirst, hrest⟩ i hi
    rw [htake]
    cases i with
    | zero =>
      rw [List.take_zero, List.append_nil]
      exact hfirst
    | succ i => exact hrest i (Nat.lt_of_succ_lt_succ hi)

theorem copies_one (hlen : len ≤ mtu) :
    Copies mem dest src len [memoryPacket mem dest src len] [chunk mem dest src len] where
  decoded := by rw [List.map_singleton, List.map_singleton, decodePacket_memoryPacket]
  tiles := ⟨rfl, chunk_stop⟩
  increasing := List.pairwise_singleton _ _
  small := by
    intro w hw
    rw [List.mem_singleton.mp hw]
    exact length_bufferAt.trans_le hlen
  buffer := by
    rw [List.flatMap_singleton]
    rfl

theorem Copies.cons {packets : List (List Byte)} {writes : List (Block Byte)} (hlen : mtu < len)
    (hfit : dest.toNat + len ≤ 2 ^ 32)
    (h : Copies mem (dest + BitVec.ofNat 32 mtu) (src + mtu) (len - mtu) packets writes) :
    Copies mem dest src len (memoryPacket mem dest src mtu :: packets)
      (chunk mem dest src mtu :: writes) := by
  have hmtu : mtu = 1500 := rfl
  have hnext : (dest + BitVec.ofNat 32 mtu).toNat = dest.toNat + mtu := by
    rw [BitVec.toNat_add, BitVec.toNat_ofNat, hmtu]
    omega
  have htiles := h.tiles
  have hstart : ((dest + BitVec.ofNat 32 mtu).toNat : Int) = (chunk mem dest src mtu).stop := by
    rw [hnext, chunk_stop, Nat.cast_add]
  have hend : (chunk mem dest src mtu).stop + ((len - mtu : Nat) : Int) = dest.toNat + len := by
    rw [chunk_stop]
    omega
  rw [hstart, hend] at htiles
  refine ⟨?_, ⟨rfl, htiles⟩, List.pairwise_cons.mpr ⟨fun w hw => ?_, h.increasing⟩, ?_, ?_⟩
  · rw [List.map_cons, List.map_cons, decodePacket_memoryPacket, h.decoded]
  · have hle := htiles.le_addr hw
    rw [chunk_stop, hmtu] at hle
    change (dest.toNat : Int) < w.addr
    omega
  · intro w hw
    rcases List.mem_cons.mp hw with rfl | hw
    · rw [chunk_bytes, length_bufferAt]
    · exact h.small w hw
  · have hsplit : bufferAt mem src (mtu + (len - mtu)) = _ := bufferAt_add mtu (len - mtu)
    rw [Nat.add_sub_of_le hlen.le] at hsplit
    rw [List.flatMap_cons, h.buffer, chunk_bytes, hsplit]

theorem gdbMemcpyLoop_more (hlen : mtu < len) : gdbMemcpyLoop mem dest src len ok conn =
    gdbMemcpyLoop mem (dest + BitVec.ofNat 32 mtu) (src + mtu) (len - mtu)
      (ok && isOk (gdbRecv (gdbSend (memoryPacket mem dest src mtu) conn)))
      (gdbSend (memoryPacket mem dest src mtu) conn) := by
  rw [gdbMemcpyLoop, if_pos hlen]
  rfl

theorem gdbMemcpyLoop_last (hlen : ¬mtu < len) : gdbMemcpyLoop mem dest src len ok conn =
    (ok && isOk (gdbRecv (gdbSend (memoryPacket mem dest src len) conn)),
      gdbSend (memoryPacket mem dest src len) conn) := by
  rw [gdbMemcpyLoop, if_neg hlen]
  rfl

theorem gdbMemcpyLoop_copies (mem : Memory) (dest : Word) (src len : Nat) (ok : Bool) (conn : GdbConn)
    (hfit : dest.toNat + len ≤ 2 ^ 32) : ∃ packets writes, Copies mem dest src len packets writes ∧
      (gdbMemcpyLoop mem dest src len ok conn).2 = { conn with sent := conn.sent ++ packets } ∧
      ((gdbMemcpyLoop mem dest src len ok conn).1 = true ↔ ok = true ∧ AllOk conn packets) := by
  induction len using Nat.strongRecOn generalizing dest src ok conn with
  | ind len ih =>
    have hmtu : mtu = 1500 := rfl
    by_cases hlen : mtu < len
    · have hnext : (dest + BitVec.ofNat 32 mtu).toNat + (len - mtu) ≤ 2 ^ 32 := by
        rw [BitVec.toNat_add, BitVec.toNat_ofNat, hmtu]
        omega
      obtain ⟨first, hfirst⟩ : ∃ first, memoryPacket mem dest src mtu = first := ⟨_, rfl⟩
      obtain ⟨packets, writes, hcopies, hsent, hok⟩ := ih (len - mtu) (by omega)
        (dest + BitVec.ofNat 32 mtu) (src + mtu) (ok && isOk (gdbRecv (gdbSend first conn)))
        (gdbSend first conn) hnext
      refine ⟨first :: packets, _, hfirst ▸ hcopies.cons hlen hfit, ?_, ?_⟩
      · rw [gdbMemcpyLoop_more hlen, hfirst, hsent, gdbSend, List.append_assoc, List.singleton_append]
      · rw [gdbMemcpyLoop_more hlen, hfirst, hok, allOk_cons, Bool.and_eq_true, and_assoc]
    · refine ⟨_, _, copies_one (Nat.le_of_not_lt hlen), ?_, ?_⟩
      · rw [gdbMemcpyLoop_last hlen, gdbSend]
      · have hnil : ∀ conn, AllOk conn [] := fun _ i hi => absurd hi (Nat.not_lt_zero i)
        rw [gdbMemcpyLoop_last hlen, allOk_cons, Bool.and_eq_true]
        exact and_congr_right fun _ => (and_iff_left (hnil _)).symm

/-! ## Main result -/

/-- The copy in packets is the copy of the buffer: what the packets write lies end to end and covers the
destination, and the result says whether each of them was answered with `OK`. -/
theorem gdbMemcpyToQemu_copies (mem : Memory) (src : Nat) (conn : GdbConn)
    (hfit : dest.toNat + len ≤ 2 ^ 32) : ∃ packets writes, Copies mem dest src len packets writes ∧
      (∀ x : Int, (∃ w ∈ writes, w.Covers x) ↔ dest.toNat ≤ x ∧ x < dest.toNat + len) ∧
      (gdbMemcpyToQemu mem dest src len conn).2 = { conn with sent := conn.sent ++ packets } ∧
      ((gdbMemcpyToQemu mem dest src len conn).1 = true ↔ AllOk conn packets) := by
  obtain ⟨packets, writes, hcopies, hsent, hok⟩ := gdbMemcpyLoop_copies mem dest src len true conn hfit
  refine ⟨packets, writes, hcopies, hcopies.tiles.covers_iff, hsent, ?_⟩
  rw [gdbMemcpyToQemu, hok]
  exact and_iff_right rfl

/-- Up to the end of the address space. -/
theorem gdbMemcpyToQemu_copies_top : ∃ packets writes,
    Copies (fun _ => 0) 0xfffff448 0 3000 packets writes ∧
      (gdbMemcpyToQemu (fun _ => 0) 0xfffff448 0 3000 ⟨[], fun _ => text "OK"⟩).1 = true := by
  obtain ⟨packets, writes, hcopies, -, -, hok⟩ := gdbMemcpyToQemu_copies (fun _ => 0) 0
    ⟨[], fun _ => text "OK"⟩ (show (0xfffff448 : Word).toNat + 3000 ≤ 2 ^ 32 by decide)
  have hanswer : isOk (text "OK") = true := by decide
  exact ⟨packets, writes, hcopies, hok.mpr fun _ _ => hanswer⟩

end GsEmu.Difftest
