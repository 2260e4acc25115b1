import GsEmu.Device.Bus

/-! The expression evaluator of the debugger, `expr.c` from the tokens on. -/

namespace GsEmu.Sdb
open Riscv32

variable {D : Type}

/-- A token with the part of its text that the evaluator reads: the digits of a number, the name
after the `$`. `TK_NOTYPE` is never stored. -/
inductive Token
  | decimal (digits : List (Fin 10))
  | hex (digits : List (Fin 16))
  | reg (name : String)
  | word
  | eq
  | plus
  | minus
  | star
  | slash
  | lparen
  | rparen
  deriving DecidableEq

/-- The characters of `op_stack`; `hash` is a dereference. -/
inductive Op
  | plus
  | minus
  | star
  | slash
  | lparen
  | hash
  deriving DecidableEq

/-- Why `tokens_calculation` does not get to its end. -/
inductive Stop
  /-- An index into a stack outside its 32 slots, or of a slot never written. -/
  | fault
  /-- An `Assert` or a `panic`. -/
  | abort
  /-- The return of -1 with `*success` false. -/
  | failed
  deriving DecidableEq

def litNat {b : Nat} (digits : List (Fin b)) : Nat := digits.foldl (fun n d => n * b + d) 0

/-- `atol` and `strtol`: a `long` that stays at `LONG_MAX`, cut to a `word_t`. -/
def strtol {b : Nat} (digits : List (Fin b)) : Word :=
  BitVec.ofNat 32 (min (litNat digits) (2 ^ 63 - 1))

def regs : List String :=
  ["$0", "ra", "sp", "gp", "tp", "t0", "t1", "t2", "s0", "s1", "a0", "a1", "a2", "a3", "a4", "a5",
    "a6", "a7", "s2", "s3", "s4", "s5", "s6", "s7", "s8", "s9", "s10", "s11", "t3", "t4", "t5",
    "t6"]

def isaRegStr2val (s : String) (st : State D) : Word × Bool :=
  if s = "pc" then (st.pc, true)
  else
    -- `i++` stands in the condition, so a match in the last place leaves `i` at `len` too
    let i := min (regs.idxOf s + 1) regs.length
    if regs.length ≤ i then (-1, false) else (st.gpr (BitVec.ofNat 5 (i - 1)), true)

def calculate (c : Op) (a b : Word) : Except Stop Word :=
  match c with
  | .plus => .ok (a + b)
  | .minus => .ok (a - b)
  | .star => .ok (a * b)
  | .slash => if b = 0 then .error .abort else .ok (a / b)
  | _ => .ok 0

def isNotNum : Token → Bool
  | .plus | .minus | .star | .slash => true
  | _ => false

/-- The locals of `tokens_calculation`, with `tokens[i - 1]` and the machine it reads. Both stacks
are listed from the top. -/
structure Calc (D : Type) where
  prev : Option Token
  ops : List Op
  nums : List Word
  result : Word
  dut : State D

def Calc.start (dut : State D) : Calc D := ⟨none, [], [], -1, dut⟩

def Calc.unary (c : Calc D) : Bool :=
  match c.prev with
  | none => true
  | some t => isNotNum t

def Calc.pushNum (v : Word) (c : Calc D) : Except Stop (Calc D) :=
  if c.nums.length < 32 then .ok { c with nums := v :: c.nums } else .error .fault

def Calc.pushOp (o : Op) (c : Calc D) : Except Stop (Calc D) :=
  if c.ops.length < 32 then .ok { c with ops := o :: c.ops } else .error .fault

def Calc.readTop (P : Platform D) (c : Calc D) : Except Stop (Calc D) :=
  match c.nums with
  | [] => .error .fault
  | a :: _ =>
    match vaddrRead P a 4 c.dut with
    | some (v, dut) => .ok { c with result := v, dut := dut }
    | none => .error .abort

def Calc.reduce (c : Calc D) (o : Op) : Except Stop (Calc D) :=
  match c.nums with
  | a :: b :: nums => do
    let r ← calculate o b a
    return { c with nums := r :: nums, result := r }
  | _ => .error .fault

/-- A round of the loop of `)`, with `o` popped and `below` the operator under it. -/
def Calc.closeRound (P : Platform D) (o below : Op) (c : Calc D) : Except Stop (Calc D) :=
  if below = .hash then c.readTop P >>= fun c => c.pushNum c.result else c.reduce o

def closeParen (P : Platform D) : List Op → Calc D → Except Stop (Calc D)
  | [], c => .ok { c with ops := [] }
  | .lparen :: ops, c => .ok { c with ops := ops }
  -- the test for a `#` reads `op_stack[-1]`
  | [_], _ => .error .fault
  | o :: below :: ops, c => do
    let c ← c.closeRound P o below
    closeParen P (below :: ops) c

/-- The loop of `*` and `/` under a `#`: nothing is popped, so with `free` slots left it pushes until
the stack is full, unless a read panics. -/
def hashLoop (P : Platform D) : Nat → Calc D → Stop
  | 0, c =>
    match c.readTop P with
    | .ok _ => .fault
    | .error e => e
  | free + 1, c =>
    match c.readTop P with
    | .ok c => hashLoop P free { c with nums := c.result :: c.nums }
    | .error e => e

def Op.isMul (o : Op) : Bool := o = .star || o = .slash

def mulLoop (P : Platform D) : List Op → Calc D → Except Stop (Calc D)
  -- `op_stack[-1]`
  | [], _ => .error .fault
  | o :: ops, c =>
    if o = .hash then .error (hashLoop P (32 - c.nums.length) c)
    else if o.isMul then do
      let c ← c.reduce o
      mulLoop P ops c
    else .ok { c with ops := o :: ops }

/-- The loop of `+` and `-`; its branch for `#` is never taken. -/
def addLoop : List Op → Calc D → Except Stop (Calc D)
  | [], _ => .error .fault
  | o :: ops, c =>
    if o.isMul then do
      let c ← c.reduce o
      addLoop ops c
    else .ok { c with ops := o :: ops }

def mulDiv (P : Platform D) (o : Op) (c : Calc D) : Except Stop (Calc D) :=
  (if c.ops = [] then .ok c else mulLoop P c.ops c) >>= Calc.pushOp o

def Op.isLow (o : Op) : Bool := o = .lparen || o = .plus || o = .minus

/-- Only the first branch pushes the operator. -/
def addSub (o : Op) (c : Calc D) : Except Stop (Calc D) :=
  if c.ops.head?.all Op.isLow then c.pushOp o else addLoop c.ops c

def token (P : Platform D) (t : Token) (c : Calc D) : Except Stop (Calc D) :=
  match t with
  | .decimal digits => c.pushNum (strtol digits)
  | .hex digits => c.pushNum (strtol digits)
  | .reg name =>
    c.pushNum (isaRegStr2val name c.dut).1 >>= fun c' =>
      if (isaRegStr2val name c.dut).2 then .ok c' else .error .failed
  | .word => c.pushNum 0
  | .eq => .ok c
  | .lparen => c.pushOp .lparen
  | .rparen => closeParen P c.ops c
  | .star => if c.unary then c.pushOp .hash else mulDiv P .star c
  | .slash => mulDiv P .slash c
  | .plus => addSub .plus c
  | .minus => addSub .minus c

def step (P : Platform D) (c : Calc D) (t : Token) : Except Stop (Calc D) := do
  let c ← token P t c
  return { c with prev := some t }

/-- With a single number left a round of the last loop only pushes `result` again. -/
def Calc.pushResult (c : Calc D) : Except Stop (Calc D) :=
  if c.nums.length = 1 then c.pushNum c.result else .ok c

def endLoop (P : Platform D) : List Op → Calc D → Except Stop (Calc D)
  | [], c => .ok { c with ops := [] }
  | o :: ops, c =>
    match c.nums with
    | [] => .ok { c with ops := o :: ops }
    | a :: nums =>
      if o = .hash then
        -- "Attempted to dereference a null pointer."
        if a = 0 then .error .abort
        else do
          let c ← c.readTop P
          endLoop P ops { c with nums := c.result :: nums }
      else do
        let c ← c.pushResult
        let c ← c.reduce o
        endLoop P ops c

/-- `tokens_calculation`: what it returns when it sets `*success`, and the machine after its reads. -/
def tokensCalculation (P : Platform D) (tokens : List Token) (dut : State D) :
    Except Stop (Word × State D) := do
  let c ← tokens.foldlM (step P) (Calc.start dut)
  let c ← endLoop P c.ops c
  match c.nums.getLast? with
  | some v => .ok (v, c.dut)
  | none => .error .fault

end GsEmu.Sdb
