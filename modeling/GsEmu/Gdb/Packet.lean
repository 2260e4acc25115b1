import GsEmu.Difftest.GdbMemcpy
import GsEmu.Lib.Outcome

/-! Packets on the wire: `send_packet` and `recv_packet` of `protocol.c`. -/

namespace GsEmu.Gdb
open Bytes Outcome
open Difftest (gdbDecodeHex isxdigit)

/-! ## Sending -/

def checksum (command : List Byte) : Byte := command.foldl (· + ·) 0

def hexUpper (digit : Byte) : Byte := if 9 < digit then 0x41 + digit - 10 else 0x30 + digit

def sumText (sum : Byte) : List Byte := [hexUpper (sum >>> 4), hexUpper (sum &&& 0xf)]

def sendPacket (command : List Byte) : List Byte := 0x24 :: command ++ 0x23 :: sumText (checksum command)

/-! ## Receiving -/

/-- How a call ends that returns no packet: the connection is closed, or the buffer is overrun. -/
inductive RecvStop
  | closed
  | overrun
  deriving DecidableEq

structure Reply where
  bytes : List Byte
  size : Nat

def Reply.fill (r : Reply) (count : Nat) (c : Byte) : Except RecvStop Reply :=
  let size := if r.size < r.bytes.length + count then r.size * 2 else r.size
  if r.bytes.length + count ≤ size then .ok ⟨r.bytes ++ List.replicate count c, size⟩
  else .error .overrun

def Reply.push (r : Reply) (c : Byte) : Except RecvStop Reply :=
  let size := if r.bytes.length = r.size then r.size * 2 else r.size
  if r.bytes.length < size then .ok ⟨r.bytes ++ [c], size⟩ else .error .overrun

/-- `reply[i] = '\0'`, at the end of the buffer after another byte has been added to it. -/
def Reply.terminate (r : Reply) : Except RecvStop (List Byte) :=
  if r.bytes.length < (if r.bytes.length = r.size then r.size + 1 else r.size) then .ok r.bytes
  else .error .overrun

def isCount (c : Byte) : Bool := decide (29 ≤ c ∧ c ≤ 126 ∧ c ≠ 0x24 ∧ c ≠ 0x23)

/-- The two digits behind `#`; at the end of the stream `fgetc` gives 0xff. -/
def sumDigits : List Byte → Byte × Byte × List Byte
  | [] => (0xff, 0xff, [])
  | [msb] => (msb, 0xff, [])
  | msb :: lsb :: rest => (msb, lsb, rest)

structure Received where
  reply : List Byte
  sumOk : Bool
  rest : List Byte
  deriving DecidableEq

def finishPacket (input : List Byte) (sum : Byte) (reply : Reply) : Except RecvStop Received := do
  let (msb, lsb, rest) := sumDigits input
  let bytes ← reply.terminate
  return ⟨bytes, decide (sum.setWidth 16 = gdbDecodeHex msb lsb), rest⟩

/-- The loop behind the first `$`. A `*` repeats the last byte if there is one and a count follows, and
stands for itself otherwise. -/
def recvLoop : List Byte → Byte → Bool → Reply → Except RecvStop Received
  | [], _, _, _ => .error .closed
  | c :: rest, sum, escape, reply =>
    let sum := sum + c
    let add := do
      let reply ← reply.push (if escape then c ^^^ 0x20 else c)
      recvLoop rest sum false reply
    if c = 0x24 then recvLoop rest 0 false ⟨[], reply.size⟩
    else if c = 0x23 then finishPacket rest (sum - c) reply
    else if c = 0x7d then recvLoop rest sum true reply
    else if c = 0x2a then
      match rest, reply.bytes.getLast? with
      | c2 :: rest, some last =>
        if isCount c2 then do
          let reply ← reply.fill (c2.toNat - 29) last
          recvLoop rest (sum + c2) escape reply
        else add
      | _, _ => add
    else add

def recvPacket (input : List Byte) : Except RecvStop Received :=
  match input.dropWhile (· ≠ 0x24) with
  | [] => .error .closed
  | _ :: rest => recvLoop rest 0 false ⟨[], 4096⟩

end GsEmu.Gdb
