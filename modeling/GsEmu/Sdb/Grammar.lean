import GsEmu.Sdb.Expr

/-! Infix expressions, their tokens and their usual value. -/

namespace GsEmu.Sdb
open Riscv32

variable {D : Type}

inductive AddOp
  | plus
  | minus
  deriving DecidableEq

inductive MulOp
  | star
  | slash
  deriving DecidableEq

def AddOp.op : AddOp → Op
  | .plus => .plus
  | .minus => .minus

def MulOp.op : MulOp → Op
  | .star => .star
  | .slash => .slash

def AddOp.token : AddOp → Token
  | .plus => .plus
  | .minus => .minus

def MulOp.token : MulOp → Token
  | .star => .star
  | .slash => .slash

def AddOp.apply (o : AddOp) (a b : Word) : Word :=
  match o with
  | .plus => a + b
  | .minus => a - b

/-- Division by zero has no value. -/
def MulOp.apply (o : MulOp) (a b : Word) : Option Word :=
  match o with
  | .star => some (a * b)
  | .slash => if b = 0 then none else some (a / b)

mutual

inductive Expr
  | term (t : Term)
  | add (e : Expr) (o : AddOp) (t : Term)

inductive Term
  | factor (f : Factor)
  | mul (t : Term) (o : MulOp) (f : Factor)

inductive Factor
  | decimal (digits : List (Fin 10))
  | hex (digits : List (Fin 16))
  | reg (name : String)
  | word
  | paren (e : Expr)
  | deref (f : Factor)

end

mutual

def Expr.tokens : Expr → List Token
  | .term t => t.tokens
  | .add e o t => e.tokens ++ o.token :: t.tokens

def Term.tokens : Term → List Token
  | .factor f => f.tokens
  | .mul t o f => t.tokens ++ o.token :: f.tokens

def Factor.tokens : Factor → List Token
  | .decimal digits => [.decimal digits]
  | .hex digits => [.hex digits]
  | .reg name => [.reg name]
  | .word => [.word]
  | .paren e => .lparen :: (e.tokens ++ [.rparen])
  | .deref f => .star :: f.tokens

end

def WellFormed (ts : List Token) : Prop := ∃ e : Expr, e.tokens = ts

def regValue (name : String) (st : State D) : Option Word :=
  if name = "pc" then some st.pc
  else if name ∈ regs then some (st.gpr (BitVec.ofNat 5 (regs.idxOf name)))
  else none

def load (P : Platform D) (a : Word) (st : State D) : Option (Word × State D) :=
  if a = 0 then none else vaddrRead P a 4 st

mutual

/-- The value in 32-bit arithmetic, from left to right, with what the reads leave of the machine; there
is none for an unknown name, a division by zero or a read that fails. -/
def Expr.value (P : Platform D) : Expr → State D → Option (Word × State D)
  | .term t, st => t.value P st
  | .add e o t, st => do
    let (a, st) ← e.value P st
    let (b, st) ← t.value P st
    return (o.apply a b, st)

def Term.value (P : Platform D) : Term → State D → Option (Word × State D)
  | .factor f, st => f.value P st
  | .mul t o f, st => do
    let (a, st) ← t.value P st
    let (b, st) ← f.value P st
    let v ← o.apply a b
    return (v, st)

def Factor.value (P : Platform D) : Factor → State D → Option (Word × State D)
  | .decimal digits, st => some (BitVec.ofNat 32 (litNat digits), st)
  | .hex digits, st => some (BitVec.ofNat 32 (litNat digits), st)
  | .reg name, st => (regValue name st).map (·, st)
  | .word, _ => none
  | .paren e, st => e.value P st
  | .deref f, st => do
    let (a, st) ← f.value P st
    load P a st

end

section value
variable {P : Platform D} {st st' : State D} {v : Word}

theorem Expr.value_add {e : Expr} {o : AddOp} {t : Term}
    (h : (Expr.add e o t).value P st = some (v, st')) :
    ∃ a st₁ b, e.value P st = some (a, st₁) ∧ t.value P st₁ = some (b, st') ∧ v = o.apply a b := by
  simp only [Expr.value, Option.bind_eq_bind, Option.bind_eq_some_iff, Option.pure_def,
    Option.some.injEq, Prod.mk.injEq, Prod.exists] at h
  obtain ⟨a, st₁, he, b, st₂, ht, rfl, rfl⟩ := h
  exact ⟨a, st₁, b, he, ht, rfl⟩

theorem Term.value_mul {t : Term} {o : MulOp} {f : Factor}
    (h : (Term.mul t o f).value P st = some (v, st')) :
    ∃ a st₁ b, t.value P st = some (a, st₁) ∧ f.value P st₁ = some (b, st') ∧
      o.apply a b = some v := by
  simp only [Term.value, Option.bind_eq_bind, Option.bind_eq_some_iff, Option.pure_def,
    Option.some.injEq, Prod.mk.injEq, Prod.exists] at h
  obtain ⟨a, st₁, ht, b, st₂, hf, w, hw, rfl, rfl⟩ := h
  exact ⟨a, st₁, b, ht, hf, hw⟩

theorem Factor.value_deref {f : Factor} (h : (Factor.deref f).value P st = some (v, st')) :
    ∃ a st₁, f.value P st = some (a, st₁) ∧ a ≠ 0 ∧ vaddrRead P a 4 st₁ = some (v, st') := by
  simp only [Factor.value, load, Option.bind_eq_bind, Option.bind_eq_some_iff, Prod.exists] at h
  obtain ⟨a, st₁, hf, hload⟩ := h
  split at hload
  · cases hload
  · exact ⟨a, st₁, hf, ‹_›, hload⟩

theorem Factor.value_reg {name : String} (h : (Factor.reg name).value P st = some (v, st')) :
    regValue name st = some v ∧ st' = st := by
  obtain ⟨w, hw, heq⟩ := Option.map_eq_some_iff.mp h
  obtain ⟨rfl, rfl⟩ := Prod.mk.inj heq
  exact ⟨hw, rfl⟩

end value

/-! ## The operators as the evaluator sees them -/

def Op.isBinary (o : Op) : Bool := o.isMul || o = .plus || o = .minus

theorem Op.isBinary_of_isMul {o : Op} (h : o.isMul = true) : o.isBinary = true := by
  rw [Op.isBinary, h]
  rfl

theorem Op.isLow_of_isBinary {o : Op} (h : o.isBinary = true) (hmul : o.isMul = false) :
    o.isLow = true := by
  revert h hmul
  cases o <;> decide

@[simp] theorem AddOp.isLow_op (o : AddOp) : o.op.isLow = true := by cases o <;> rfl

@[simp] theorem AddOp.isBinary_op (o : AddOp) : o.op.isBinary = true := by cases o <;> rfl

@[simp] theorem MulOp.isMul_op (o : MulOp) : o.op.isMul = true := by cases o <;> rfl

theorem AddOp.isNotNum_token (o : AddOp) : isNotNum o.token = true := by cases o <;> rfl

theorem MulOp.isNotNum_token (o : MulOp) : isNotNum o.token = true := by cases o <;> rfl

theorem AddOp.calculate_op (o : AddOp) (a b : Word) : calculate o.op a b = .ok (o.apply a b) := by
  cases o <;> rfl

theorem MulOp.calculate_op {o : MulOp} {a b v : Word} (h : o.apply a b = some v) :
    calculate o.op a b = .ok v := by
  cases o with
  | star => exact congrArg Except.ok (Option.some.inj h)
  | slash =>
    change (if b = 0 then none else some (a / b)) = some v at h
    change (if b = 0 then Except.error Stop.abort else .ok (a / b)) = .ok v
    split at h
    · cases h
    · rw [if_neg ‹_›, Option.some.inj h]

theorem token_addOp (P : Platform D) (o : AddOp) (c : Calc D) :
    token P o.token c = addSub o.op c := by
  cases o <;> rfl

theorem token_mulOp (P : Platform D) (o : MulOp) {c : Calc D} (h : c.unary = false) :
    token P o.token c = mulDiv P o.op c := by
  cases o with
  | star => exact if_neg (by rw [h]; decide)
  | slash => rfl

/-! ## Inputs -/

def pointed : Expr :=
  .add (.term (.factor (.decimal [1]))) .minus
    (.mul (.factor (.decimal [2])) .star
      (.deref (.paren (.add (.term (.factor (.hex [8, 0, 0, 0, 0, 0, 0, 0]))) .plus
        (.factor (.decimal [4]))))))

def innerPointed : Expr :=
  .add (.term (.factor (.decimal [1]))) .plus (.factor (.paren
    (.add (.term (.factor (.decimal [2]))) .plus
      (.factor (.deref (.hex [8, 0, 0, 0, 0, 0, 0, 0]))))))

def brokenOff : List Token := [.decimal [1], .slash, .decimal [0], .plus]

def difference : Expr :=
  .add (.add (.term (.factor (.decimal [1]))) .minus (.factor (.decimal [2]))) .minus
    (.factor (.decimal [3]))

def product : List Token := [.decimal [2], .star, .decimal [3], .star, .decimal [4]]

end GsEmu.Sdb
