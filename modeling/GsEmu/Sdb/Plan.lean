import GsEmu.Sdb.Stacks

/-! The evaluator with its values left out. The tokens alone decide what is pushed, popped and read, and
where an index first leaves a stack; the values decide only which of the code's own checks fails. -/

namespace GsEmu.Sdb
open Riscv32 Outcome

variable {D : Type} {P : Platform D}

/-! ## What the tokens ask for -/

/-- An operation on the numbers. `load` keeps the address below the word, `deref` replaces it, and `again`
pushes the last result once more. -/
inductive Act
  | push (v : Word)
  | reg (name : String)
  | load
  | deref
  | again
  | reduce (o : Op)

structure Shape where
  prev : Option Token
  ops : List Op
  height : Nat

def Shape.unary (s : Shape) : Bool :=
  match s.prev with
  | none => true
  | some t => isNotNum t

/-- The operations up to a bad index (`none`) or up to the shape they lead to. -/
structure Plan where
  acts : List Act
  next : Option Shape

namespace Plan

def pure (s : Shape) : Plan := ⟨[], some s⟩

def fault : Plan := ⟨[], none⟩

def bind (p : Plan) (k : Shape → Plan) : Plan :=
  match p.next with
  | none => p
  | some s => ⟨p.acts ++ (k s).acts, (k s).next⟩

end Plan

namespace Shape

def pushNum (a : Act) (s : Shape) : Plan := ⟨[a], some { s with height := s.height + 1 }⟩

def pushOp (o : Op) (s : Shape) : Plan := .pure { s with ops := o :: s.ops }

def reduce (o : Op) (s : Shape) : Plan :=
  if 2 ≤ s.height then ⟨[.reduce o], some { s with height := s.height - 1 }⟩ else .fault

def closeRound (o below : Op) (s : Shape) : Plan :=
  if below = .hash then if s.height = 0 then .fault else s.pushNum .load else s.reduce o

def closeParen : List Op → Shape → Plan
  | [], s => .pure { s with ops := [] }
  | .lparen :: ops, s => .pure { s with ops := ops }
  | [_], _ => .fault
  | o :: below :: ops, s => (s.closeRound o below).bind (closeParen (below :: ops))

def hashLoop (s : Shape) : Plan := ⟨if s.height = 0 then [] else List.replicate (33 - s.height) .load, none⟩

def mulLoop : List Op → Shape → Plan
  | [], _ => .fault
  | o :: ops, s =>
    if o = .hash then s.hashLoop
    else if o.isMul then (s.reduce o).bind (mulLoop ops)
    else .pure { s with ops := o :: ops }

def addLoop : List Op → Shape → Plan
  | [], _ => .fault
  | o :: ops, s =>
    if o.isMul then (s.reduce o).bind (addLoop ops) else .pure { s with ops := o :: ops }

def mulDiv (o : Op) (s : Shape) : Plan :=
  (if s.ops = [] then .pure s else mulLoop s.ops s).bind (pushOp o)

def addSub (o : Op) (s : Shape) : Plan :=
  if s.ops.head?.all Op.isLow then s.pushOp o else addLoop s.ops s

def token (t : Token) (s : Shape) : Plan :=
  match t with
  | .decimal digits => s.pushNum (.push (strtol digits))
  | .hex digits => s.pushNum (.push (strtol digits))
  | .reg name => s.pushNum (.reg name)
  | .word => s.pushNum (.push 0)
  | .eq => .pure s
  | .lparen => s.pushOp .lparen
  | .rparen => closeParen s.ops s
  | .star => if s.unary then s.pushOp .hash else s.mulDiv .star
  | .slash => s.mulDiv .slash
  | .plus => s.addSub .plus
  | .minus => s.addSub .minus

def run : List Token → Shape → Plan
  | [], s => .pure s
  | t :: ts, s => (s.token t).bind fun s => run ts { s with prev := some t }

def pushResult (s : Shape) : Plan := if s.height = 1 then s.pushNum .again else .pure s

def endLoop : List Op → Shape → Plan
  | [], s => .pure { s with ops := [] }
  | o :: ops, s =>
    if s.height = 0 then .pure { s with ops := o :: ops }
    else if o = .hash then Plan.bind ⟨[.deref], some s⟩ (endLoop ops)
    else (s.pushResult.bind (reduce o)).bind (endLoop ops)

end Shape

/-- All that `tokens_calculation` does with the tokens; at the end it reads `num_stack[0]`. -/
def plan (ts : List Token) : Plan :=
  ((Shape.run ts ⟨none, [], 0⟩).bind fun s => Shape.endLoop s.ops s).bind fun s =>
    if s.height = 0 then .fault else .pure s

/-! ## The values -/

/-- The numbers, the last result and the machine that is read. -/
structure Vals (D : Type) where
  nums : List Word
  result : Word
  dut : State D

/-- `none` is a check of the code that fails: an unknown register, a division by zero, an address that
cannot be read, and for `deref` the null pointer. -/
def Act.run (P : Platform D) (v : Vals D) : Act → Option (Vals D)
  | .push x => some { v with nums := x :: v.nums }
  | .reg name =>
    if (isaRegStr2val name v.dut).2 then
      some { v with nums := (isaRegStr2val name v.dut).1 :: v.nums }
    else none
  | .load =>
    match v.nums with
    | [] => none
    | a :: _ => (vaddrRead P a 4 v.dut).map fun x => ⟨x.1 :: v.nums, x.1, x.2⟩
  | .deref =>
    match v.nums with
    | [] => none
    | a :: nums => (Sdb.load P a v.dut).map fun x => ⟨x.1 :: nums, x.1, x.2⟩
  | .again => some { v with nums := v.result :: v.nums }
  | .reduce o =>
    match v.nums with
    | a :: b :: nums => (calculate o b a).toOption.map fun r => ⟨r :: nums, r, v.dut⟩
    | _ => none

def Act.runAll (P : Platform D) (acts : List Act) (v : Vals D) : Option (Vals D) :=
  acts.foldlM (Act.run P) v

/-! ## The evaluator follows its plan -/

def Calc.shape (c : Calc D) : Shape := ⟨c.prev, c.ops, c.nums.length⟩

def Calc.vals (c : Calc D) : Vals D := ⟨c.nums, c.result, c.dut⟩

/-- `r` is what the plan leads to from the values `v`. -/
def Follows (P : Platform D) (p : Plan) (v : Vals D) (r : Except Stop (Calc D)) : Prop :=
  match r with
  | .ok c => Act.runAll P p.acts v = some c.vals ∧ p.next = some c.shape
  | .error .fault => (Act.runAll P p.acts v).isSome ∧ p.next = none
  | .error _ => Act.runAll P p.acts v = none

theorem runAll_append (as bs : List Act) (v : Vals D) :
    Act.runAll P (as ++ bs) v = (Act.runAll P as v).bind (Act.runAll P bs) := List.foldlM_append

theorem Follows.bind {p : Plan} {v : Vals D} {r : Except Stop (Calc D)} {k : Shape → Plan}
    {f : Calc D → Except Stop (Calc D)} (h : Follows P p v r)
    (hk : ∀ c, r = .ok c → Follows P (k c.shape) c.vals (f c)) : Follows P (p.bind k) v (r >>= f) := by
  unfold Plan.bind
  cases r with
  | ok c =>
    obtain ⟨hacts, hnext⟩ := h
    have hc := hk c rfl
    rw [hnext]
    change Follows P _ v (f c)
    unfold Follows at hc ⊢
    dsimp only
    rw [runAll_append, hacts]
    exact hc
  | error e =>
    cases e with
    | fault =>
      obtain ⟨hacts, hnext⟩ := h
      rw [hnext]
      exact ⟨hacts, hnext⟩
    | abort | failed =>
      cases hnext : p.next with
      | none => exact h
      | some s =>
        change Act.runAll P (p.acts ++ (k s).acts) v = none
        rw [runAll_append, show Act.runAll P p.acts v = none from h]
        rfl

theorem follows_pure (c : Calc D) : Follows P (.pure c.shape) c.vals (.ok c) := ⟨rfl, rfl⟩

theorem follows_fault (v : Vals D) : Follows P .fault v (.error .fault) := ⟨rfl, rfl⟩

section operations
variable {c : Calc D} {o : Op}

theorem runAll_singleton (a : Act) (v : Vals D) : Act.runAll P [a] v = a.run P v := by
  rw [Act.runAll, List.foldlM_cons]
  cases a.run P v <;> rfl

theorem pushNum_follows {a : Act} {x : Word} (hsize : c.nums.length < 32)
    (ha : a.run P c.vals = some { c.vals with nums := x :: c.nums }) :
    Follows P (c.shape.pushNum a) c.vals (c.pushNum x) := by
  rw [Calc.pushNum, if_pos hsize]
  exact ⟨(runAll_singleton a c.vals).trans ha, rfl⟩

theorem pushOp_follows (hsize : c.ops.length < 32) (o : Op) :
    Follows P (c.shape.pushOp o) c.vals (c.pushOp o) := by
  rw [Calc.pushOp, if_pos hsize]
  exact ⟨rfl, rfl⟩

theorem calculate_cases (o : Op) (a b : Word) :
    (∃ r, calculate o a b = .ok r) ∨ calculate o a b = .error .abort := by
  cases o with
  | slash =>
    change (∃ r, (if b = 0 then Except.error Stop.abort else .ok (a / b)) = .ok r) ∨ _ = _
    by_cases hb : b = 0
    · exact .inr (if_pos hb)
    · exact .inl ⟨a / b, if_neg hb⟩
  | _ => exact .inl ⟨_, rfl⟩

theorem reduce_follows (o : Op) : Follows P (c.shape.reduce o) c.vals (c.reduce o) := by
  unfold Calc.reduce
  split
  · rename_i a b nums hnums
    have hlen : c.nums.length = nums.length + 2 := by
      rw [hnums]
      rfl
    have hrun : Act.runAll P [.reduce o] c.vals =
        (calculate o b a).toOption.map fun r => ⟨r :: nums, r, c.dut⟩ := by
      rw [runAll_singleton, Act.run, Calc.vals, hnums]
    have hplan : c.shape.reduce o =
        ⟨[.reduce o], some { c.shape with height := c.nums.length - 1 }⟩ :=
      if_pos (by change 2 ≤ c.nums.length; omega)
    rw [hplan]
    rcases calculate_cases o b a with ⟨r, hr⟩ | hr
    · rw [hr] at hrun ⊢
      refine ⟨hrun, ?_⟩
      rw [hlen]
      rfl
    · rw [hr] at hrun ⊢
      exact hrun
  · rename_i hnums
    have hlow : ¬2 ≤ c.shape.height := by
      intro hlen
      change 2 ≤ c.nums.length at hlen
      match hc : c.nums with
      | [] | [_] => rw [hc] at hlen; simp at hlen
      | a :: b :: nums => exact hnums a b nums hc
    rw [Shape.reduce, if_neg hlow]
    exact follows_fault c.vals

theorem readTop_nil (hnums : c.nums = []) : c.readTop P = .error .fault := by
  rw [Calc.readTop, hnums]

theorem readTop_none {a : Word} {nums : List Word} (hnums : c.nums = a :: nums)
    (hread : vaddrRead P a 4 c.dut = none) : c.readTop P = .error .abort := by
  rw [Calc.readTop, hnums]
  simp only [hread]

theorem readTop_some {a : Word} {nums : List Word} {x : Word × State D} (hnums : c.nums = a :: nums)
    (hread : vaddrRead P a 4 c.dut = some x) :
    c.readTop P = .ok { c with result := x.1, dut := x.2 } := by
  rw [Calc.readTop, hnums]
  simp only [hread]

theorem runAll_load {a : Word} {nums : List Word} (hnums : c.nums = a :: nums) :
    Act.runAll P [.load] c.vals =
      (vaddrRead P a 4 c.dut).map fun x => ⟨x.1 :: c.nums, x.1, x.2⟩ := by
  rw [runAll_singleton, Act.run, Calc.vals, hnums]

theorem height_eq_zero (hnums : c.nums = []) : c.shape.height = 0 := congrArg List.length hnums

theorem height_ne_zero {a : Word} {nums : List Word} (hnums : c.nums = a :: nums) :
    c.shape.height ≠ 0 := by
  rw [Calc.shape, hnums]
  exact Nat.succ_ne_zero _

theorem load_follows (hsize : c.nums.length < 32) :
    Follows P (if c.shape.height = 0 then .fault else c.shape.pushNum .load) c.vals
      (c.readTop P >>= fun c => c.pushNum c.result) := by
  cases hnums : c.nums with
  | nil =>
    rw [if_pos (height_eq_zero hnums), readTop_nil hnums]
    exact follows_fault c.vals
  | cons a nums =>
    have hrun := runAll_load (P := P) hnums
    rw [if_neg (height_ne_zero hnums)]
    cases hread : vaddrRead P a 4 c.dut with
    | none =>
      rw [hread] at hrun
      rw [readTop_none hnums hread]
      exact hrun
    | some x =>
      rw [hread] at hrun
      rw [readTop_some hnums hread]
      change Follows P _ _ (Calc.pushNum x.1 { c with result := x.1, dut := x.2 })
      rw [Calc.pushNum, if_pos hsize]
      exact ⟨hrun, rfl⟩

theorem closeRound_follows (hsize : c.nums.length < 32) (o below : Op) :
    Follows P (c.shape.closeRound o below) c.vals (c.closeRound P o below) := by
  unfold Shape.closeRound Calc.closeRound
  split
  · exact load_follows hsize
  · exact reduce_follows o

theorem closeParen_follows (ops : List Op) (hsize : ops.length + c.nums.length ≤ 32) :
    Follows P (c.shape.closeParen ops) c.vals (closeParen P ops c) := by
  fun_induction closeParen P ops c with
  | case1 c => exact ⟨rfl, rfl⟩
  | case2 ops c => exact ⟨rfl, rfl⟩
  | case3 o c ho =>
    rw [Shape.closeParen]
    · exact follows_fault c.vals
    · exact ho
  | case4 o below ops c ho ih =>
    simp only [List.length_cons] at hsize
    rw [Shape.closeParen]
    · refine (closeRound_follows (by omega) o below).bind fun c₁ hc₁ => ih c₁ ?_
      have hround := closeRound_size (P := P) (c := c) o below
      rw [hc₁] at hround
      have hle : c₁.nums.length ≤ c.nums.length + 1 := hround
      simp only [List.length_cons]
      omega
    · exact ho

theorem runAll_cons (a : Act) (as : List Act) (v : Vals D) :
    Act.runAll P (a :: as) v = (a.run P v).bind (Act.runAll P as) := List.foldlM_cons

/-- The loads end at the first address that cannot be read, or with the stack full. -/
theorem hashLoop_loads {n : Nat} {a : Word} {nums : List Word} (hnums : c.nums = a :: nums) :
    (hashLoop P n c = .fault ∧ (Act.runAll P (List.replicate (n + 1) .load) c.vals).isSome) ∨
    (hashLoop P n c = .abort ∧ Act.runAll P (List.replicate (n + 1) .load) c.vals = none) := by
  induction n generalizing c a nums with
  | zero =>
    have hrun := runAll_load (P := P) hnums
    cases hread : vaddrRead P a 4 c.dut with
    | none =>
      rw [hread] at hrun
      rw [hashLoop, readTop_none hnums hread]
      exact .inr ⟨rfl, hrun⟩
    | some x =>
      rw [hread] at hrun
      rw [hashLoop, readTop_some hnums hread]
      exact .inl ⟨rfl, Option.isSome_of_eq_some hrun⟩
  | succ n ih =>
    have hrun := runAll_load (P := P) hnums
    rw [List.replicate_succ, runAll_cons, ← runAll_singleton, hrun, hashLoop]
    cases hread : vaddrRead P a 4 c.dut with
    | none =>
      rw [readTop_none hnums hread]
      exact .inr ⟨rfl, rfl⟩
    | some x =>
      rw [readTop_some hnums hread]
      exact ih (c := { c with nums := x.1 :: c.nums, result := x.1, dut := x.2 }) rfl

theorem hashLoop_follows (hsize : c.nums.length ≤ 32) :
    Follows P c.shape.hashLoop c.vals (.error (hashLoop P (32 - c.nums.length) c)) := by
  cases hnums : c.nums with
  | nil =>
    have hfault : hashLoop P (32 - 0) c = .fault := by
      rw [hashLoop, readTop_nil hnums]
    rw [List.length_nil, hfault, Shape.hashLoop, if_pos (height_eq_zero hnums)]
    exact ⟨rfl, rfl⟩
  | cons a nums =>
    have hloads : 33 - c.shape.height = 32 - c.nums.length + 1 := by
      change 33 - c.nums.length = _
      omega
    rw [Shape.hashLoop, if_neg (height_ne_zero hnums), hloads, ← hnums]
    rcases hashLoop_loads (P := P) (n := 32 - c.nums.length) hnums with ⟨hstop, hrun⟩ | ⟨hstop, hrun⟩
    · rw [hstop]
      exact ⟨hrun, rfl⟩
    · rw [hstop]
      exact hrun

theorem mulLoop_follows (ops : List Op) (hsize : c.nums.length ≤ 32) :
    Follows P (c.shape.mulLoop ops) c.vals (mulLoop P ops c) := by
  induction ops generalizing c with
  | nil => exact follows_fault c.vals
  | cons o ops ih =>
    unfold mulLoop Shape.mulLoop
    split
    · exact hashLoop_follows hsize
    · split
      · refine (reduce_follows o).bind fun c₁ hc₁ => ih ?_
        have hround := reduce_size (c := c) o
        rw [hc₁] at hround
        have hlen : c₁.nums.length + 1 = c.nums.length := hround.2
        omega
      · exact ⟨rfl, rfl⟩

theorem addLoop_follows (ops : List Op) : Follows P (c.shape.addLoop ops) c.vals (addLoop ops c) := by
  induction ops generalizing c with
  | nil => exact follows_fault c.vals
  | cons o ops ih =>
    unfold addLoop Shape.addLoop
    split
    · exact (reduce_follows o).bind fun c₁ _ => ih
    · exact ⟨rfl, rfl⟩

theorem mulDiv_follows (o : Op) (hsize : c.size < 32) :
    Follows P (c.shape.mulDiv o) c.vals (mulDiv P o c) := by
  have hnums : c.nums.length ≤ 32 := (Nat.le_add_left _ _).trans hsize.le
  have hloop : Follows P (if c.shape.ops = [] then .pure c.shape else c.shape.mulLoop c.shape.ops) c.vals
      (if c.ops = [] then .ok c else mulLoop P c.ops c) := by
    by_cases hops : c.ops = []
    · have hshape : c.shape.ops = [] := hops
      rw [if_pos hops, if_pos hshape]
      exact follows_pure c
    · have hshape : c.shape.ops ≠ [] := hops
      rw [if_neg hops, if_neg hshape]
      exact mulLoop_follows c.ops hnums
  refine hloop.bind fun c₁ hc₁ => pushOp_follows ?_ o
  have hround : Ensures (fun _ => True) (if c.ops = [] then .ok c else mulLoop P c.ops c)
      fun c' => c'.size ≤ c.size := by
    split
    · exact Nat.le_refl _
    · exact mulLoop_size c.ops c
  rw [hc₁] at hround
  have hle : c₁.size ≤ c.size := hround
  exact lt_of_le_of_lt (Nat.le_add_right _ _) (lt_of_le_of_lt hle hsize)

theorem addSub_follows (o : Op) (hsize : c.size < 32) :
    Follows P (c.shape.addSub o) c.vals (addSub o c) := by
  unfold addSub Shape.addSub
  change Follows P (if c.ops.head?.all Op.isLow then _ else _) _ _
  split
  · exact pushOp_follows (lt_of_le_of_lt (Nat.le_add_right _ _) hsize) o
  · exact addLoop_follows c.ops

theorem token_follows (t : Token) (hsize : c.size < 32) :
    Follows P (c.shape.token t) c.vals (token P t c) := by
  have hops : c.ops.length < 32 := lt_of_le_of_lt (Nat.le_add_right _ _) hsize
  have hnums : c.nums.length < 32 := lt_of_le_of_lt (Nat.le_add_left _ _) hsize
  cases t with
  | decimal digits => exact pushNum_follows hnums rfl
  | hex digits => exact pushNum_follows hnums rfl
  | reg name =>
    change Follows P _ _ (c.pushNum (isaRegStr2val name c.dut).1 >>= _)
    rw [Calc.pushNum, if_pos hnums]
    have hrun : Act.runAll P [.reg name] c.vals = if (isaRegStr2val name c.dut).2 then
        some { c.vals with nums := (isaRegStr2val name c.dut).1 :: c.nums } else none :=
      runAll_singleton _ _
    by_cases hknown : (isaRegStr2val name c.dut).2 = true
    · rw [if_pos hknown] at hrun
      change Follows P _ _ (if (isaRegStr2val name c.dut).2 = true then _ else _)
      rw [if_pos hknown]
      exact ⟨hrun, rfl⟩
    · rw [if_neg hknown] at hrun
      change Follows P _ _ (if (isaRegStr2val name c.dut).2 = true then _ else _)
      rw [if_neg hknown]
      exact hrun
  | word => exact pushNum_follows hnums rfl
  | eq => exact follows_pure c
  | lparen => exact pushOp_follows hops _
  | rparen => exact closeParen_follows c.ops hsize.le
  | star =>
    change Follows P (if c.unary then _ else _) _ (if c.unary then _ else _)
    split
    · exact pushOp_follows hops _
    · exact mulDiv_follows _ hsize
  | slash => exact mulDiv_follows _ hsize
  | plus => exact addSub_follows _ hsize
  | minus => exact addSub_follows _ hsize

theorem run_follows {ts : List Token} (hsize : c.size + ts.length ≤ 32) :
    Follows P (Shape.run ts c.shape) c.vals (ts.foldlM (step P) c) := by
  induction ts generalizing c with
  | nil => exact follows_pure c
  | cons t ts ih =>
    rw [List.length_cons] at hsize
    rw [List.foldlM_cons, step, bind_assoc]
    refine (token_follows t (by omega)).bind fun c₁ hc₁ => ?_
    have hround := token_size (P := P) (c := c) t
    rw [hc₁] at hround
    have hle : c₁.size ≤ c.size + 1 := hround
    have hroom : Calc.size { c₁ with prev := some t } + ts.length ≤ 32 := by
      change c₁.size + ts.length ≤ 32
      omega
    exact ih hroom

/-! ## The end -/

theorem pushResult_follows : Follows P c.shape.pushResult c.vals c.pushResult := by
  unfold Calc.pushResult Shape.pushResult
  change Follows P (if c.nums.length = 1 then _ else _) _ _
  split
  · exact pushNum_follows (by omega) rfl
  · exact follows_pure c

def derefTop (P : Platform D) (a : Word) (nums : List Word) (c : Calc D) : Except Stop (Calc D) :=
  if a = 0 then .error .abort
  else c.readTop P >>= fun c => .ok { c with nums := c.result :: nums }

theorem derefTop_follows {a : Word} {nums : List Word} (hnums : c.nums = a :: nums) :
    Follows P ⟨[.deref], some c.shape⟩ c.vals (derefTop P a nums c) := by
  have hrun : Act.runAll P [.deref] c.vals =
      (load P a c.dut).map fun x => ⟨x.1 :: nums, x.1, x.2⟩ := by
    rw [runAll_singleton, Act.run, Calc.vals, hnums]
  unfold derefTop
  by_cases ha : a = 0
  · rw [load, if_pos ha] at hrun
    rw [if_pos ha]
    exact hrun
  · rw [load, if_neg ha] at hrun
    rw [if_neg ha]
    cases hread : vaddrRead P a 4 c.dut with
    | none =>
      rw [hread] at hrun
      rw [readTop_none hnums hread]
      exact hrun
    | some x =>
      rw [hread] at hrun
      rw [readTop_some hnums hread]
      refine ⟨hrun, ?_⟩
      change some c.shape = some ⟨c.prev, c.ops, nums.length + 1⟩
      rw [Calc.shape, hnums]
      rfl

theorem endLoop_follows (ops : List Op) :
    Follows P (c.shape.endLoop ops) c.vals (endLoop P ops c) := by
  induction ops generalizing c with
  | nil => exact ⟨rfl, rfl⟩
  | cons o ops ih =>
    unfold Shape.endLoop
    cases hnums : c.nums with
    | nil =>
      have hend : endLoop P (o :: ops) c = .ok { c with ops := o :: ops } := by
        rw [endLoop]
        simp only [hnums]
      rw [if_pos (height_eq_zero hnums), hend]
      exact ⟨rfl, rfl⟩
    | cons a nums =>
      rw [if_neg (height_ne_zero hnums)]
      by_cases ho : o = .hash
      · have hend : endLoop P (o :: ops) c = derefTop P a nums c >>= endLoop P ops := by
          rw [endLoop, derefTop]
          simp only [hnums, ho, if_true]
          split
          · rfl
          · cases c.readTop P <;> rfl
        rw [if_pos ho, hend]
        exact (derefTop_follows hnums).bind fun c₁ _ => ih
      · have hend : endLoop P (o :: ops) c =
            (c.pushResult >>= fun c => c.reduce o) >>= endLoop P ops := by
          rw [endLoop, bind_assoc]
          simp only [hnums, ho, if_false]
        rw [if_neg ho, hend]
        exact (pushResult_follows.bind fun c₁ _ => reduce_follows o).bind fun c₁ _ => ih

end operations

def Vals.start (dut : State D) : Vals D := ⟨[], -1, dut⟩

def evaluated (P : Platform D) (ts : List Token) (dut : State D) : Except Stop (Calc D) :=
  (ts.foldlM (step P) (Calc.start dut) >>= fun c => endLoop P c.ops c) >>= fun c =>
    if c.nums.length = 0 then .error .fault else .ok c

theorem evaluated_follows {ts : List Token} (hlen : ts.length ≤ 32) (dut : State D) :
    Follows P (plan ts) (.start dut) (evaluated P ts dut) := by
  have hroom : (Calc.start dut).size + ts.length ≤ 32 := (Nat.zero_add _).trans_le hlen
  refine ((run_follows hroom).bind fun c _ => endLoop_follows c.ops).bind fun c _ => ?_
  change Follows P (if c.nums.length = 0 then _ else _) _ _
  split
  · exact follows_fault c.vals
  · exact follows_pure c

theorem tokensCalculation_eq (P : Platform D) (ts : List Token) (dut : State D) :
    tokensCalculation P ts dut = evaluated P ts dut >>= fun c =>
      match c.nums.getLast? with
      | some v => .ok (v, c.dut)
      | none => .error .fault := by
  rw [tokensCalculation, evaluated, bind_assoc, bind_assoc]
  refine bind_congr fun c => bind_congr fun c' => ?_
  by_cases hnil : c'.nums = []
  · rw [hnil]
    rfl
  · rw [if_neg (mt List.length_eq_zero_iff.mp hnil)]
    rfl

theorem evaluated_nums {ts : List Token} {dut : State D} {c : Calc D} (h : evaluated P ts dut = .ok c) :
    c.nums ≠ [] := by
  have hends : Ensures (fun _ => True) (evaluated P ts dut) fun c => c.nums ≠ [] := by
    refine Ensures.bind (Q := fun _ => True) (ensures_iff.mpr ⟨fun _ _ => trivial, fun _ _ => trivial⟩)
      fun c _ => ?_
    split
    · trivial
    · rename_i hsome
      exact fun hnil => hsome (congrArg List.length hnil)
  rw [h] at hends
  exact hends

/-- The tokens alone say where an index goes astray, and the values whether a check comes first. -/
theorem tokensCalculation_cases (P : Platform D) {ts : List Token} (hlen : ts.length ≤ 32)
    (dut : State D) :
    (tokensCalculation P ts dut = .error .fault ↔
      (Act.runAll P (plan ts).acts (.start dut)).isSome ∧ (plan ts).next = none) ∧
    ((∃ r, tokensCalculation P ts dut = .ok r) ↔
      (Act.runAll P (plan ts).acts (.start dut)).isSome ∧ (plan ts).next.isSome) := by
  have hfollows := evaluated_follows (P := P) hlen dut
  rw [tokensCalculation_eq]
  cases hr : evaluated P ts dut with
  | ok c =>
    rw [hr] at hfollows
    obtain ⟨hacts, hnext⟩ := hfollows
    obtain ⟨v, hv⟩ := Option.isSome_iff_exists.mp (List.getLast?_isSome.mpr (evaluated_nums hr))
    change (Except.bind (.ok c) _ = _ ↔ _) ∧ _
    simp [Except.bind, bind, hv, hacts, hnext]
  | error e =>
    rw [hr] at hfollows
    cases e with
    | fault =>
      obtain ⟨hacts, hnext⟩ := hfollows
      simp [bind, Except.bind, hacts, hnext]
    | abort | failed =>
      have hacts : Act.runAll P (plan ts).acts (.start dut) = none := hfollows
      simp [bind, Except.bind, hacts]

end GsEmu.Sdb
