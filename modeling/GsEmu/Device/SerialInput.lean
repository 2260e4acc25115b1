import GsEmu.Device.SerialOutput
import GsEmu.Lib.Run

/-! What the guest receives. A read of the receive register takes the first byte that waits on stdin. Once
`is_eofd` is set, or where `ioctl` fails and `byteswaiting` holds what it will, the line status can report a
byte that does not exist, and the read leaves in place what the register held. -/

namespace GsEmu.Riscv32
open Bytes

variable {base : Nat} {io : Io Uart} {off : Word} {v : Byte} {w : Bool}

/-! ## The guest and the host at the two ends of the line -/

/-- The UART with the bytes that have arrived on stdin, those that the guest has read from the receive
register, and whether its last access read the line status and found data ready. -/
structure SerialLine where
  io : Io Uart
  arrived : List Byte
  received : List Byte
  ready : Bool

inductive LineEvent
  | arrive (b : Byte)
  | close
  | access (a : UartAccess)

def SerialLine.arrive (s : SerialLine) (b : Byte) : SerialLine :=
  { s with
    io := { s.io with dev := { s.io.dev with waiting := s.io.dev.waiting ++ [b] } }
    arrived := s.arrived ++ [b] }

def SerialLine.close (s : SerialLine) : SerialLine :=
  { s with io := { s.io with dev := { s.io.dev with ended := true } } }

/-- The `ioctl` of the poll before, or that of the next access, fails. -/
def Uart.queryFails (u : Uart) : Prop := u.stale (u.queries - 1) ≠ none ∨ u.stale u.queries ≠ none

/-- The condition on a step: the receive register is not read once `is_eofd` is set, and where a query fails
only with a byte waiting and no 0 in `byteswaiting`. -/
def Delivers (s : SerialLine) (e : LineEvent) : Prop :=
  e = .access (.read uartRx) → s.io.dev.isEofd = false ∧
    (s.io.dev.queryFails → s.io.dev.waiting ≠ [] ∧ s.io.dev.stale s.io.dev.queries ≠ some 0)

/-! ## What an access does to the input -/

/-- A terminal on which an empty write fails only after the end, and no failing query leaves a 0. -/
structure Uart.Steady (u : Uart) : Prop where
  write : ∀ n, u.emptyWriteFails n false = false
  query : ∀ n, u.stale n ≠ some 0

/-- The bytes not yet delivered are those that wait; the line status speaks of them, of the end or of a query
that failed; and on a steady terminal the end is an end. -/
structure LineSound (s : SerialLine) : Prop where
  conserved : s.received ++ s.io.dev.waiting = s.arrived
  ready : s.ready = true → s.io.dev.isEofd = true ∨ s.io.dev.waiting ≠ [] ∨
    s.io.dev.stale (s.io.dev.queries - 1) ≠ none
  atEnd : s.io.dev.Steady → s.io.dev.isEofd = true → s.io.dev.ended = true ∧ s.io.dev.waiting = []

def Uart.sameHost (u u' : Uart) : Prop := u'.emptyWriteFails = u.emptyWriteFails ∧ u'.stale = u.stale

def Uart.sameInput (u u' : Uart) : Prop :=
  u'.isEofd = u.isEofd ∧ u'.waiting = u.waiting ∧ u'.ended = u.ended ∧ u.sameHost u'

theorem Uart.sameHost.steady_iff {u u' : Uart} (h : u.sameHost u') : u'.Steady ↔ u.Steady := by
  constructor
  · rintro ⟨hwrite, hquery⟩
    exact ⟨h.1 ▸ hwrite, h.2 ▸ hquery⟩
  · rintro ⟨hwrite, hquery⟩
    exact ⟨h.1.symm ▸ hwrite, h.2.symm ▸ hquery⟩

theorem LineSound.congr {s s' : SerialLine} (h : LineSound s) (hin : s.io.dev.sameInput s'.io.dev)
    (harrived : s'.arrived = s.arrived) (hreceived : s'.received = s.received)
    (hready : s'.ready = false) : LineSound s' := by
  obtain ⟨heof, hwait, hended, hhost⟩ := hin
  refine ⟨?_, fun hr => absurd hr (by simp [hready]), ?_⟩
  · rw [harrived, hreceived, hwait]
    exact h.conserved
  · rw [hhost.steady_iff, heof, hended, hwait]
    exact h.atEnd

theorem LineSound.delivered {s : SerialLine} (h : LineSound s) : s.received <+: s.arrived :=
  ⟨_, h.conserved⟩

end GsEmu.Riscv32
