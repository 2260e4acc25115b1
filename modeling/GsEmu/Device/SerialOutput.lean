import GsEmu.Device.Serial

/-! What the UART prints. Offset 0 is the transmit register only while `DLAB` is clear, and the handler does
not look at `DLAB`. -/

namespace GsEmu.Riscv32
open Bytes

variable {base : Nat} {io io' : Io Uart} {off : Word} {v : Byte} {w : Bool}

/-! ## Sequences of accesses -/

inductive UartAccess
  | read (off : Word)
  | write (off : Word) (v : Byte)

def UartAccess.offset : UartAccess → Word
  | .read off => off
  | .write off _ => off

def serialAccess (base : Nat) (a : UartAccess) (io : Io Uart) : Option (Io Uart) :=
  match a with
  | .read off => (serialRead base off io).map Prod.snd
  | .write off v => serialWrite base off v io

def serialAccesses (base : Nat) (as : List UartAccess) (io : Io Uart) : Option (Io Uart) :=
  as.foldlM (fun io a => serialAccess base a io) io

def dlab (base : Nat) (io : Io Uart) : Bool := (serialReg base uartLcr io).getLsbD 7

def UartAccess.dlabAfter (dlab : Bool) : UartAccess → Bool
  | .write off v => if off = uartLcr then v.getLsbD 7 else dlab
  | .read _ => dlab

def UartAccess.chBytes : UartAccess → List Byte
  | .write off v => if off = chOffset then [v] else []
  | .read _ => []

/-- The bytes written at offset 0, each with the `DLAB` of that time. -/
def chWrites : Bool → List UartAccess → List (Bool × Byte)
  | _, [] => []
  | dlab, a :: as => a.chBytes.map (fun v => (dlab, v)) ++ chWrites (a.dlabAfter dlab) as

/-- The bytes that go to the transmit register. -/
def transmitted (dlab : Bool) (as : List UartAccess) : List Byte :=
  ((chWrites dlab as).filter fun x => !x.1).map Prod.snd

/-- No byte goes to the divisor latch through offset 0. -/
def NoDivisorWrite (dlab : Bool) (as : List UartAccess) : Prop := ∀ x ∈ chWrites dlab as, x.1 = false

/-- The accesses that the handler reports on stderr. -/
def UartAccess.Reported : UartAccess → Prop
  | .read off => off ≠ chOffset ∧ off ≠ uartFcr ∧ off ≠ uartMcr ∧ off ≠ uartMsr
  | .write off v => off ≠ chOffset ∧ off ≠ uartMsr ∧ (off = uartFcr →
      v &&& (uartFcrEnableFifo ||| uartFcrClearRcvr ||| uartFcrClearXmit ||| uartFcrTrigger4) ≠ 0)

/-! ## One access -/

theorem serialSwitch_prints (base : Nat) (off : Word) (w : Bool) (io : Io Uart) :
    (serialSwitch base off w io).dev.stdout =
        io.dev.stdout ++ (if off = chOffset ∧ w = true then [serialReg base 0 io] else []) ∧
      (serialSwitch base off w io).dev.terminal =
        io.dev.terminal ++ (if off = chOffset ∧ w = true then [serialReg base 0 io] else []) ++
          serialMessage off w (serialReg base off io) := by
  have hget : (serialGetc base io).dev.stdout = io.dev.stdout ∧
      (serialGetc base io).dev.terminal = io.dev.terminal := by
    obtain ⟨e, n, h | ⟨b, bs, h⟩⟩ := serialGetc_cases base io <;> rw [h] <;> exact ⟨rfl, rfl⟩
  rcases serialSwitch_cases base off w io with ⟨rfl, rfl, h⟩ | ⟨rfl, rfl, h⟩ | ⟨io₁, rfl, hch, h⟩
  · rw [h]
    simp [serialPutc, serialMessage]
  · rw [h, hget.1, hget.2]
    simp [serialMessage]
  · rw [if_neg fun h => hch h.1, List.append_nil, List.append_nil]
    rcases h with ⟨-, -, h⟩ | h | ⟨-, h⟩
    · obtain ⟨e, n, hhit⟩ := isKBHit_cases (printErr (serialMessage off w (serialReg base off io)) io)
      rw [h, hhit]
      exact ⟨rfl, rfl⟩
    · rw [h]
      exact ⟨rfl, rfl⟩
    · rw [h]
      exact ⟨rfl, rfl⟩

theorem text_eq_nil {s : String} : text s = [] ↔ s = "" := by
  rw [text, List.map_eq_nil_iff, String.toList_eq_nil_iff]

theorem fcrMessage_eq_nil : fcrMessage w v = [] ↔ ¬(w = true ∧
    v &&& (uartFcrEnableFifo ||| uartFcrClearRcvr ||| uartFcrClearXmit ||| uartFcrTrigger4) ≠ 0) := by
  unfold fcrMessage
  by_cases hany : w = true ∧
    v &&& (uartFcrEnableFifo ||| uartFcrClearRcvr ||| uartFcrClearXmit ||| uartFcrTrigger4) ≠ 0
  · rw [if_pos hany, text_eq_nil]
    exact iff_of_false (by decide) (not_not.mpr hany)
  · rw [if_neg hany]
    refine iff_of_true ?_ hany
    cases w with
    | false => simp
    | true =>
      have hzero : v &&& (uartFcrEnableFifo ||| uartFcrClearRcvr ||| uartFcrClearXmit |||
          uartFcrTrigger4) = 0 := by simpa using hany
      have hpart : ∀ m, (uartFcrEnableFifo ||| uartFcrClearRcvr ||| uartFcrClearXmit |||
          uartFcrTrigger4) &&& m = m → v &&& m = 0 := by
        intro m hm
        rw [← hm, ← BitVec.and_assoc, hzero]
        exact BitVec.zero_and
      rw [hpart uartFcrEnableFifo rfl, hpart uartFcrClearRcvr rfl, hpart uartFcrClearXmit rfl,
        hpart uartFcrTrigger4 rfl]
      simp

theorem ierMessage_ne_nil : ierMessage w v ≠ [] := by
  unfold ierMessage
  rw [ne_eq, List.append_eq_nil_iff, text_eq_nil]
  exact fun h => absurd h.2 (by decide)

theorem otherMessage_ne_nil : otherMessage off w v ≠ [] := by
  unfold otherMessage
  rw [ne_eq, List.append_eq_nil_iff, text_eq_nil]
  exact fun h => absurd h.2 (by decide)

theorem serialMessage_eq_nil : serialMessage off w v = [] ↔
    off = chOffset ∨ (off = uartFcr ∧ fcrMessage w v = []) ∨ (off = uartMcr ∧ w = false) ∨
      off = uartMsr := by
  unfold serialMessage
  by_cases hch : off = chOffset
  · simp [hch]
  by_cases hfcr : off = uartFcr
  · simp [hfcr, uartFcr, uartMcr, uartMsr, chOffset]
  by_cases hlcr : off = uartLcr
  · have hnl : text "\n" ≠ [] := by
      rw [ne_eq, text_eq_nil]
      decide
    simp [hlcr, uartLcr, uartFcr, uartMcr, uartMsr, chOffset, hnl]
  by_cases hlsr : off = uartLsr
  · have hnl : text "\n" ≠ [] := by
      rw [ne_eq, text_eq_nil]
      decide
    simp [hlsr, uartLsr, uartLcr, uartFcr, uartMcr, uartMsr, chOffset, hnl]
  by_cases hier : off = uartIer
  · simp [hier, uartIer, uartLsr, uartLcr, uartFcr, uartMcr, uartMsr, chOffset, ierMessage_ne_nil]
  by_cases hmcr : off = uartMcr
  · have hnull : text " !! null \n" ≠ [] := by
      rw [ne_eq, text_eq_nil]
      decide
    cases w <;> simp [hmcr, uartIer, uartLsr, uartLcr, uartFcr, uartMcr, uartMsr, chOffset, hnull]
  by_cases hmsr : off = uartMsr
  · simp [hmsr, uartIer, uartLsr, uartLcr, uartFcr, uartMcr, uartMsr, chOffset]
  · simp [hch, hfcr, hlcr, hlsr, hier, hmcr, hmsr, otherMessage_ne_nil]

theorem serialMessage_read_eq_nil :
    serialMessage off false v = [] ↔ ¬(UartAccess.read off).Reported := by
  have hfcr : fcrMessage false v = [] := fcrMessage_eq_nil.mpr (by simp)
  simp only [serialMessage_eq_nil, hfcr, UartAccess.Reported, and_true]
  tauto

theorem serialMessage_write_eq_nil :
    serialMessage off true v = [] ↔ ¬(UartAccess.write off v).Reported := by
  rw [serialMessage_eq_nil, fcrMessage_eq_nil, UartAccess.Reported]
  have hne : uartFcr ≠ chOffset ∧ uartFcr ≠ uartMsr := by decide
  by_cases hfcr : off = uartFcr
  · simp [hfcr, hne]
  · simp [hfcr]
    tauto

theorem serialAccess_prints (base : Nat) (io : Io Uart) {a : UartAccess} (hoff : a.offset < 0x1000) : ∃ io' msg,
    serialAccess base a io = some io' ∧ io'.dev.stdout = io.dev.stdout ++ a.chBytes ∧
      io'.dev.terminal = io.dev.terminal ++ a.chBytes ++ msg ∧ (msg = [] ↔ ¬a.Reported) := by
  cases a with
  | read off =>
    have hoff : off < 0x1000 := hoff
    obtain ⟨hout, hterm⟩ := serialSwitch_prints base off false io
    refine ⟨serialSwitch base off false io, serialMessage off false (serialReg base off io), ?_, ?_, ?_,
      serialMessage_read_eq_nil⟩
    · rw [serialAccess, serialRead_eq hoff]
      rfl
    · simpa [UartAccess.chBytes] using hout
    · simpa [UartAccess.chBytes] using hterm
  | write off v =>
    obtain ⟨hout, hterm⟩ := serialSwitch_prints base off true
      (setSerialReg base off v io)
    have hreg : serialReg base off (setSerialReg base off v io) = v := by
      rw [serialReg_setSerialReg, if_pos rfl]
    have hch : (if off = chOffset ∧ true = true then [serialReg base 0 (setSerialReg base off v io)]
        else []) = (UartAccess.write off v).chBytes := by
      rw [UartAccess.chBytes, serialReg_setSerialReg]
      by_cases h0 : off = chOffset
      · simp [h0, chOffset]
      · simp [h0]
    rw [hch] at hout hterm
    rw [hreg] at hterm
    exact ⟨_, _, serialWrite_eq hoff, hout, hterm, serialMessage_write_eq_nil⟩

/-! ## `DLAB` in the register -/

theorem dlab_serialSwitch : dlab base (serialSwitch base off w io) = dlab base io := by
  have hset : ∀ {o : Word} {x : Byte} {io : Io Uart}, o ≠ uartLcr →
      dlab base (setSerialReg base o x io) = dlab base io := by
    intro o x io ho
    rw [dlab, serialReg_setSerialReg, if_neg ho.symm, dlab]
  rcases serialSwitch_cases base off w io with ⟨-, -, h⟩ | ⟨-, -, h⟩ | ⟨io₁, rfl, -, h⟩
  · rw [h]
    rfl
  · obtain ⟨e, n, hget | ⟨b, bs, hget⟩⟩ := serialGetc_cases base io
    · rw [h, hget]
      rfl
    · rw [h, hget, hset (by decide)]
      rfl
  · rcases h with ⟨rfl, -, h⟩ | h | ⟨hval, h⟩
    · obtain ⟨e, n, hhit⟩ := isKBHit_cases (printErr (serialMessage uartLsr w (serialReg base uartLsr io)) io)
      rw [h, hset (by decide), hhit]
      rfl
    · rw [h]
      rfl
    · rw [h]
      by_cases hlcr : off = uartLcr
      · subst hlcr
        rw [dlab, serialReg_setSerialReg, if_pos rfl, dlab, hval rfl]
        rfl
      · rw [hset hlcr]
        rfl

theorem dlab_serialAccess {a : UartAccess} (hoff : a.offset < 0x1000)
    (h : serialAccess base a io = some io') : dlab base io' = a.dlabAfter (dlab base io) := by
  cases a with
  | read off =>
    have hoff : off < 0x1000 := hoff
    rw [serialAccess, serialRead_eq hoff] at h
    obtain rfl := Option.some.inj h
    exact dlab_serialSwitch
  | write off v =>
    have hoff : off < 0x1000 := hoff
    rw [serialAccess, serialWrite_eq hoff] at h
    obtain rfl := Option.some.inj h
    rw [dlab_serialSwitch, dlab, serialReg_setSerialReg, UartAccess.dlabAfter, apply_ite (BitVec.getLsbD · 7)]
    simp only [eq_comm, dlab]

/-! ## Runs -/

theorem serialAccesses_prints (base : Nat) (io : Io Uart) {as : List UartAccess} (hoff : ∀ a ∈ as, a.offset < 0x1000) :
    ∃ io' ts, serialAccesses base as io = some io' ∧
      io'.dev.stdout = io.dev.stdout ++ (chWrites (dlab base io) as).map Prod.snd ∧
      io'.dev.terminal = io.dev.terminal ++ ts ∧ (chWrites (dlab base io) as).length ≤ ts.length ∧
      ((∀ a ∈ as, ¬a.Reported) → ts = (chWrites (dlab base io) as).map Prod.snd) ∧
      (ts.length = (chWrites (dlab base io) as).length → ∀ a ∈ as, ¬a.Reported) := by
  induction as generalizing io with
  | nil => exact ⟨io, [], rfl, (List.append_nil _).symm, (List.append_nil _).symm, by simp [chWrites]⟩
  | cons a as ih =>
    have ha := hoff a (List.mem_cons_self ..)
    obtain ⟨io₁, msg, hstep, hout₁, hterm₁, hmsg⟩ := serialAccess_prints base io ha
    obtain ⟨io', ts, hrun, hout, hterm, hlen, hquiet, hloud⟩ :=
      ih io₁ fun b hb => hoff b (List.mem_cons_of_mem _ hb)
    rw [dlab_serialAccess ha hstep] at hout hlen hquiet hloud
    have hmap : (chWrites (dlab base io) (a :: as)).map Prod.snd =
        a.chBytes ++ (chWrites (a.dlabAfter (dlab base io)) as).map Prod.snd := by
      rw [chWrites, List.map_append, List.map_map]
      congr 1
      exact List.map_id _
    have hcount : (chWrites (dlab base io) (a :: as)).length =
        a.chBytes.length + (chWrites (a.dlabAfter (dlab base io)) as).length := by
      rw [chWrites, List.length_append, List.length_map]
    refine ⟨io', a.chBytes ++ msg ++ ts, ?_, ?_, ?_, ?_, ?_, ?_⟩
    · rw [serialAccesses, List.foldlM_cons, hstep]
      exact hrun
    · rw [hout, hout₁, hmap, List.append_assoc]
    · rw [hterm, hterm₁]
      simp only [List.append_assoc]
    · rw [hcount, List.length_append, List.length_append]
      omega
    · intro hno
      have hnil : msg = [] := hmsg.mpr (hno a (List.mem_cons_self ..))
      rw [hmap, hnil, List.append_nil, hquiet fun b hb => hno b (List.mem_cons_of_mem _ hb)]
    · intro heq
      rw [hcount, List.length_append, List.length_append] at heq
      have hnil : msg = [] := List.length_eq_zero_iff.mp (by omega)
      rw [List.forall_mem_cons]
      exact ⟨hmsg.mp hnil, hloud (by omega)⟩

theorem transmitted_eq_iff {d : Bool} {as : List UartAccess} :
    (chWrites d as).map Prod.snd = transmitted d as ↔ NoDivisorWrite d as := by
  constructor
  · intro h
    have hlen := congrArg List.length h
    rw [transmitted, List.length_map, List.length_map, eq_comm, List.length_filter_eq_length_iff] at hlen
    intro x hx
    simpa using hlen x hx
  · intro h
    have hall : (chWrites d as).filter (fun x => !x.1) = chWrites d as :=
      List.filter_eq_self.mpr fun x hx => by rw [h x hx]; rfl
    rw [transmitted, hall]

/-- After any byte accesses, stdout has received exactly what was transmitted if and only if no byte was
written to the divisor latch; and so has the terminal if and only if, besides, nothing was reported on
stderr. -/
theorem serial_output_iff {as : List UartAccess} (hoff : ∀ a ∈ as, a.offset < 0x1000) :
    ∃ io', serialAccesses base as io = some io' ∧
      (io'.dev.stdout = io.dev.stdout ++ transmitted (dlab base io) as ↔
        NoDivisorWrite (dlab base io) as) ∧
      (io'.dev.terminal = io.dev.terminal ++ transmitted (dlab base io) as ↔
        NoDivisorWrite (dlab base io) as ∧ ∀ a ∈ as, ¬a.Reported) := by
  obtain ⟨io', ts, hrun, hout, hterm, hlen, hquiet, hloud⟩ :=
    serialAccesses_prints base io hoff
  refine ⟨io', hrun, ?_, ?_⟩
  · rw [hout, List.append_cancel_left_eq, transmitted_eq_iff]
  · rw [hterm, List.append_cancel_left_eq]
    constructor
    · intro hts
      have hshort : ts.length ≤ (chWrites (dlab base io) as).length := by
        rw [hts, transmitted, List.length_map]
        exact List.length_filter_le _ _
      have hno := hloud (le_antisymm hshort hlen)
      rw [hquiet hno, transmitted_eq_iff] at hts
      exact ⟨hts, hno⟩
    · rintro ⟨hdiv, hno⟩
      rw [hquiet hno]
      exact transmitted_eq_iff.mpr hdiv

def freshUart : Io Uart := ⟨fun _ => 0, ⟨false, [], false, fun _ => id, fun _ => none, 0, [], []⟩⟩

def setDivisor : List UartAccess := [.write uartLcr 0x80, .write chOffset 1, .write uartIer 0]

theorem serial_output_refuted : ∃ io', serialAccesses 0 setDivisor freshUart = some io' ∧
    transmitted (dlab 0 freshUart) setDivisor = [] ∧ io'.dev.stdout = [1] := by
  have hrun : (serialAccesses 0 setDivisor freshUart).map (·.dev.stdout) = some [1] := by decide +kernel
  obtain ⟨io', hio, hout⟩ := Option.map_eq_some_iff.mp hrun
  exact ⟨io', hio, by decide +kernel, hout⟩

theorem serial_output_iff_setDivisor : ∃ io', serialAccesses 0 setDivisor freshUart = some io' ∧
    (io'.dev.stdout = freshUart.dev.stdout ++ transmitted (dlab 0 freshUart) setDivisor ↔
      NoDivisorWrite (dlab 0 freshUart) setDivisor) ∧
    (io'.dev.terminal = freshUart.dev.terminal ++ transmitted (dlab 0 freshUart) setDivisor ↔
      NoDivisorWrite (dlab 0 freshUart) setDivisor ∧ ∀ a ∈ setDivisor, ¬a.Reported) :=
  serial_output_iff (by simp [setDivisor, UartAccess.offset, uartLcr, chOffset, uartIer])

end GsEmu.Riscv32
