import GsEmu.Device.Board
import GsEmu.Difftest.Debugger
import GsEmu.Sdb.Spelling

/-! `sdb_mainloop` from the lines typed at the prompt: `strtok`, the table of the commands, and their arguments. -/

namespace GsEmu.Difftest
open Riscv32 Sdb Bytes

variable {D R : Type}

/-! ## Words of a line -/

def part (s : CString) (bytes : List Byte) (h : List.Sublist bytes s.bytes) : CString :=
  ⟨bytes, fun h0 => s.noNul (h.mem h0)⟩

/-- `strtok` from where the last call stopped: the word, and the place behind the delimiter that ends it. -/
def strtok (delim : Char) (s : CString) : Option (CString × CString) :=
  let t := s.bytes.dropWhile (· = ch delim)
  if t = [] then none
  else some (part s (t.takeWhile (· ≠ ch delim)) ((List.takeWhile_sublist _).trans (List.dropWhile_sublist _)),
    part s (t.dropWhile (· ≠ ch delim)).tail
      ((List.tail_sublist _).trans ((List.dropWhile_sublist _).trans (List.dropWhile_sublist _))))

def isSpace (b : Byte) : Bool := b = ch ' ' || decide (9 ≤ b ∧ b ≤ 13)

/-- `atol`: blanks, a sign and digits, kept within a `long`. -/
def atol (s : CString) : Int :=
  let t := s.bytes.dropWhile isSpace
  let digits := if t.head? = some (ch '-') ∨ t.head? = some (ch '+') then t.tail else t
  let n := litNat ((digits.takeWhile isDigit).map decDigit)
  if t.head? = some (ch '-') then -min n (2 ^ 63) else min n (2 ^ 63 - 1)

/-! ## Commands -/

inductive Handler
  | help
  | c
  | q
  | si
  | clear
  | info
  | x
  | exp
  deriving DecidableEq

def cmdTable : List (String × Handler) :=
  [("help", .help), ("c", .c), ("q", .q), ("si", .si), ("clear", .clear), ("info", .info), ("x", .x), ("p", .exp)]

def findCmd (cmd : CString) : Option Handler :=
  (cmdTable.find? fun entry => decide (text entry.1 = cmd.bytes)).map Prod.snd

/-- What a line comes to before its command runs: the command, and the tokens and the machine that the evaluation
of its expression leaves. -/
structure Line (D : Type) where
  command : Command
  tokens : Tokens
  dut : State D

/-- The rest of the line as an expression, for a command that prints an error where there is none or it fails. -/
def exprLine (P : Platform D) (rest : CString) (empty : Command) (given : Word → Command) (tokens : Tokens)
    (dut : State D) : Except Crash (Line D) :=
  match strtok '\n' rest with
  | none => .ok ⟨empty, tokens, dut⟩
  | some (arg, _) => (expr P arg tokens dut).map fun r => ⟨r.value.elim .other given, r.tokens, r.dut⟩

/-- The handlers up to the call of `cpu_exec` or of `vaddr_read`. A `word_t` of 32 bits is never negative, so
of the counts only 0 is refused. -/
def handle (P : Platform D) (h : Handler) (rest : CString) (tokens : Tokens) (dut : State D) :
    Except Crash (Line D) :=
  match h with
  | .help | .clear | .info => .ok ⟨.other, tokens, dut⟩
  | .q => .ok ⟨.q, tokens, dut⟩
  | .c => exprLine P rest (.c none) (fun v => .c (some v)) tokens dut
  | .exp => exprLine P rest .other (fun _ => .other) tokens dut
  | .si =>
    match strtok ' ' rest with
    | none => .ok ⟨.si 1, tokens, dut⟩
    | some (arg, _) => .ok ⟨.si (BitVec.ofInt 32 (atol arg)), tokens, dut⟩
  | .x =>
    match strtok ' ' rest with
    | none => .ok ⟨.x 1 0, tokens, dut⟩
    | some (arg, rest) =>
      let n : Word := BitVec.ofInt 32 (atol arg)
      if n = 0 then .ok ⟨.other, tokens, dut⟩ else exprLine P rest .other (.x n) tokens dut

def sdbLine (P : Platform D) (line : CString) (tokens : Tokens) (dut : State D) : Except Crash (Line D) :=
  match strtok ' ' line with
  | none => .ok ⟨.other, tokens, dut⟩
  | some (cmd, rest) =>
    match findCmd cmd with
    | none => .ok ⟨.other, tokens, dut⟩
    | some h => handle P h rest tokens dut

/-! ## The loop -/

/-- The window and the clock beside a run: the events that come while an instruction is executed, whether
`device_update` is due after it, and what it does with the events that it polls. -/
structure Window (D : Type) where
  arrive : Nat → List SdlEvent
  due : Nat → Bool
  poll : List SdlEvent → Tick D
  env : Nat → CallEnv

def Window.tick (W : Window D) (n : Nat) (events : List SdlEvent) : Tick D :=
  if W.due n then W.poll events else .still false

def Window.queue (W : Window D) (n : Nat) (events : List SdlEvent) : Point → List SdlEvent
  | .ready _ (_ + 1) => events ++ W.arrive (n + 1)
  | .updating _ _ => if W.due n then [] else events
  | _ => events

/-- The debugger with the arrays of `expr` and the queue of the window. -/
structure Shell (D R : Type) where
  session : Session D R
  tokens : Tokens
  events : List SdlEvent

/-- A line with the record that the next call of `execute` finds, an event while the debugger waits, the end of
the input, or what follows of itself. -/
inductive ShellEvent
  | line (line : CString) (s : Decode)
  | arrive (e : SdlEvent)
  | eof
  | proceed (s : Decode)

/-- `sdl_clear_event_queue`, which a line without a word does not get to. -/
def sdlClearEventQueue (line : CString) (events : List SdlEvent) : List SdlEvent :=
  if (strtok ' ' line).isSome then [] else events

def shellStep (P : Platform D) (A : Adapter R) (W : Window D) (z : Shell D R) (e : ShellEvent) :
    Option (Shell D R) :=
  match e with
  | .line line s =>
    if z.session.point = .prompt then
      match sdbLine P line z.tokens z.session.emu.dut with
      | .ok l => (command P l.command s { z.session.emu with dut := l.dut }).map fun q =>
        ⟨q, l.tokens, sdlClearEventQueue line z.events⟩
      | .error _ => none
    else none
  | .arrive e => if z.session.point = .prompt then some { z with events := z.events ++ [e] } else none
  | .eof => if z.session.point = .prompt then some { z with session := ⟨z.session.emu, .exited⟩ } else none
  | .proceed s =>
    (proceed P A ⟨fun n => W.tick n z.events, W.env⟩ s z.session).map fun q =>
      ⟨q, z.tokens, W.queue z.session.emu.nrGuestInst z.events z.session.point⟩

abbrev ShellRun (P : Platform D) (A : Adapter R) (W : Window D) :=
  Run fun (z : Shell D R) e z' => shellStep P A W z e = some z'

example : (sdbLine bareBoard ⟨text "  si  -1 2", by decide⟩ .initial blank).toOption.map Line.command =
    some (.si 0xffffffff) := by
  decide +kernel

example : (sdbLine bareBoard ⟨text "c 0x80000000 + 8", by decide⟩ .initial blank).toOption.map Line.command =
    some (.c (some 0x80000008)) := by
  decide +kernel

end GsEmu.Difftest
