import GsEmu.Device.Ram
import GsEmu.Sdb.Stacks

/-! Where the evaluator computes the usual value. Only the first of several `+` and `-` on the operator
stack is reduced last, and a `+` or `-` that reduces a product is itself dropped. -/

namespace GsEmu.Sdb
open Riscv32 Outcome

variable {D : Type} {P : Platform D}

mutual

def Factor.plain : Factor → Bool
  | .decimal digits => litNat digits < 2 ^ 63
  | .hex digits => litNat digits < 2 ^ 63
  | .reg name => name ≠ "t6"
  | .word => true
  | .paren e => e.grouped
  | .deref _ => false

def Term.plain : Term → Bool
  | .factor f => f.plain
  | .mul t _ f => t.plain && f.plain

def Expr.chain : Expr → Bool
  | .term (.factor f) => f.plain
  | .add e .plus (.factor f) => e.chain && f.plain
  | _ => false

/-- A product, or a chain with one more operator and a product behind it. -/
def Expr.grouped : Expr → Bool
  | .term t => t.plain
  | .add e _ t => e.chain && t.plain

end

def Factor.pointer : Factor → Bool
  | .deref f => f.pointer
  | f => f.plain

def Term.last : Term → Bool
  | .factor f => f.pointer
  | .mul t _ f => t.plain && f.pointer

/-- Outside parentheses a product that opens the expression has two operands, and nothing follows. -/
def Expr.orderly : Expr → Bool
  | .term (.factor f) => f.pointer
  | .term (.mul (.factor g) _ f) => g.plain && f.pointer
  | .term (.mul (.mul _ _ _) _ _) => false
  | .add e _ t => e.chain && t.last

/-! ## Plain values leave the machine alone -/

mutual

theorem Factor.plain_dut {st st' : State D} {v : Word} (f : Factor) (h : f.plain = true)
    (hv : f.value P st = some (v, st')) : st' = st := by
  cases f with
  | decimal digits => exact (Prod.mk.inj (Option.some.inj hv)).2.symm
  | hex digits => exact (Prod.mk.inj (Option.some.inj hv)).2.symm
  | reg name => exact (Factor.value_reg hv).2
  | word => cases hv
  | paren e => exact Expr.grouped_dut e h hv
  | deref f => cases h

theorem Term.plain_dut {st st' : State D} {v : Word} (t : Term) (h : t.plain = true)
    (hv : t.value P st = some (v, st')) : st' = st := by
  cases t with
  | factor f => exact Factor.plain_dut f h hv
  | mul t o f =>
    obtain ⟨ht, hf⟩ := Bool.and_eq_true_iff.mp h
    obtain ⟨a, st₁, b, hta, hfb, -⟩ := Term.value_mul hv
    exact (Factor.plain_dut f hf hfb).trans (Term.plain_dut t ht hta)

theorem Expr.chain_dut {st st' : State D} {v : Word} (e : Expr) (h : e.chain = true)
    (hv : e.value P st = some (v, st')) : st' = st := by
  match e, h with
  | .term (.factor f), h => exact Factor.plain_dut f h hv
  | .add e .plus (.factor f), h =>
    obtain ⟨he, hf⟩ := Bool.and_eq_true_iff.mp h
    obtain ⟨a, st₁, b, hea, hfb, -⟩ := Expr.value_add hv
    exact (Factor.plain_dut f hf hfb).trans (Expr.chain_dut e he hea)

theorem Expr.grouped_dut {st st' : State D} {v : Word} (e : Expr) (h : e.grouped = true)
    (hv : e.value P st = some (v, st')) : st' = st := by
  cases e with
  | term t => exact Term.plain_dut t h hv
  | add e o t =>
    obtain ⟨he, ht⟩ := Bool.and_eq_true_iff.mp h
    obtain ⟨a, st₁, b, hea, htb, -⟩ := Expr.value_add hv
    exact (Term.plain_dut t ht htb).trans (Expr.chain_dut e he hea)

end

/-! ## What is left on the stacks -/

/-- Reducing the operators `bs` turns the numbers `ns` on the top into `v`. -/
def Yields (D : Type) (bs : List Op) (ns : List Word) (v : Word) : Prop :=
  ∀ (c : Calc D) (base : List Word), c.nums = ns ++ base →
    ∃ r, collapse bs c = .ok { c with nums := v :: base, result := r }

theorem Yields.nil (v : Word) : Yields D [] [v] v := by
  rintro ⟨prev, ops, nums, result, dut⟩ base rfl
  exact ⟨result, rfl⟩

theorem Yields.single {o : Op} {a b v : Word} (h : calculate o b a = .ok v) :
    Yields D [o] [a, b] v := by
  rintro ⟨prev, ops, nums, result, dut⟩ base rfl
  refine ⟨v, ?_⟩
  change (calculate o b a >>= _) >>= _ = _
  rw [h]
  rfl

theorem Yields.append {bs bs' : List Op} {ns ns' : List Word} {v w : Word} (h : Yields D bs ns v)
    (h' : Yields D bs' (v :: ns') w) : Yields D (bs ++ bs') (ns ++ ns') w := by
  intro c base hnums
  obtain ⟨r, hr⟩ := h c (ns' ++ base) (by rw [hnums, List.append_assoc])
  obtain ⟨r', hr'⟩ := h' { c with nums := v :: (ns' ++ base), result := r } base rfl
  exact ⟨r', by rw [collapse_append, hr]; exact hr'⟩

/-- `v` lies on the number stack of `c` and nothing else has changed. -/
structure Lands (c : Calc D) (v : Word) (c' : Calc D) : Prop where
  ops : c'.ops = c.ops
  nums : c'.nums = v :: c.nums
  dut : c'.dut = c.dut
  unary : c'.unary = false

/-- `v` is left to be reduced, by operators of one kind. -/
def Pends (kind : Op → Bool) (c : Calc D) (v : Word) (c' : Calc D) : Prop :=
  ∃ bs ns, (∀ o ∈ bs, kind o = true) ∧ c'.ops = bs ++ c.ops ∧ c'.nums = ns ++ c.nums ∧
    Yields D bs ns v ∧ c'.dut = c.dut ∧ c'.unary = false

/-- A sum `v` is left to be reduced, together with anything added to its last operand `x`. -/
def Sums (c : Calc D) (v : Word) (c' : Calc D) : Prop :=
  ∃ bs x vs, (∀ o ∈ bs, o = .plus) ∧ c'.ops = bs ++ c.ops ∧ c'.nums = x :: vs ++ c.nums ∧
    (∀ d, Yields D bs ((x + d) :: vs) (v + d)) ∧ c'.dut = c.dut ∧ c'.unary = false

theorem Lands.pends {c c' : Calc D} {v : Word} (h : Lands c v c') (kind : Op → Bool) :
    Pends kind c v c' :=
  ⟨[], [v], by simp, h.ops, h.nums, Yields.nil v, h.dut, h.unary⟩

theorem Lands.sums {c c' : Calc D} {v : Word} (h : Lands c v c') : Sums c v c' :=
  ⟨[], v, [], by simp, h.ops, h.nums, fun d => Yields.nil (v + d), h.dut, h.unary⟩

theorem Pends.mono {kind kind' : Op → Bool} {c c' : Calc D} {v : Word} (h : Pends kind c v c')
    (hk : ∀ o, kind o = true → kind' o = true) : Pends kind' c v c' := by
  obtain ⟨bs, ns, hbs, hrest⟩ := h
  exact ⟨bs, ns, fun o ho => hk o (hbs o ho), hrest⟩

theorem AddOp.apply_eq_add (o : AddOp) : ∀ b, ∃ d, ∀ a, o.apply a b = a + d := by
  intro b
  cases o with
  | plus => exact ⟨b, fun a => rfl⟩
  | minus => exact ⟨-b, fun a => sub_eq_add_neg a b⟩

theorem yields_add {bs : List Op} {vs : List Word} {x v : Word}
    (h : ∀ d, Yields D bs ((x + d) :: vs) (v + d)) (w d : Word) :
    Yields D (.plus :: bs) ((w + d) :: x :: vs) (v + w + d) := by
  have hplus : Yields D [.plus] [w + d, x] (x + (w + d)) := Yields.single rfl
  rw [add_assoc v w d]
  exact hplus.append (h (w + d))

theorem yields_group {bs bs' : List Op} {vs ns : List Word} {x v b : Word} (o : AddOp)
    (h : ∀ d, Yields D bs ((x + d) :: vs) (v + d)) (hb : Yields D bs' ns b) :
    Yields D (bs' ++ o.op :: bs) (ns ++ x :: vs) (o.apply v b) := by
  -- the last operator counts as an addition to the sum below
  obtain ⟨d, hd⟩ := o.apply_eq_add b
  have hop : Yields D [o.op] [b, x] (x + d) := by
    apply Yields.single
    rw [o.calculate_op, hd]
  rw [hd]
  exact hb.append (hop.append (h d))

theorem isBinary_group {bs bs' : List Op} (o : AddOp) (hbs : ∀ q ∈ bs, q = .plus)
    (hbs' : ∀ q ∈ bs', q.isBinary = true) : ∀ q ∈ bs' ++ o.op :: bs, q.isBinary = true := by
  intro q hq
  rcases List.mem_append.mp hq with hq | hq
  · exact hbs' q hq
  · rcases List.mem_cons.mp hq with rfl | hq
    · exact o.isBinary_op
    · rw [hbs q hq]
      rfl

/-! ## Tokens -/

section tokens
variable {c c₁ : Calc D} {a v : Word} {st' : State D}

theorem number_lands {t : Token} (hroom : c.size + [t].length ≤ 32)
    (ht : token P t c = c.pushNum v) (hn : isNotNum t = false) :
    Ensures (fun _ => False) ([t].foldlM (step P) c) (Lands c v) :=
  run_cons_ok hroom (fun hsize => ht.trans (pushNum_eq hsize v)) fun _ => ⟨rfl, rfl, rfl, hn⟩

theorem isaRegStr2val_eq {name : String} {st : State D} (hname : name ≠ "t6")
    (h : regValue name st = some v) : isaRegStr2val name st = (v, true) := by
  unfold regValue at h
  unfold isaRegStr2val
  split at h
  · rw [if_pos ‹_›, Option.some.inj h]
  · rw [if_neg ‹_›]
    split at h
    · rename_i hmem
      have hlt : regs.idxOf name < regs.length := List.idxOf_lt_length_iff.mpr hmem
      -- at the last index the loop would leave `i` at `len`
      have hlast : regs.idxOf name ≠ 31 := by
        intro h31
        apply hname
        have hget := List.getElem_idxOf hlt
        simp only [h31] at hget
        exact hget.symm
      have hlen : regs.length = 32 := rfl
      have hmin : min (regs.idxOf name + 1) regs.length = regs.idxOf name + 1 := by omega
      rw [hmin]
      rw [if_neg (by omega), Nat.add_sub_cancel, Option.some.inj h]
    · cases h

theorem strtol_eq {b : Nat} {digits : List (Fin b)} (h : litNat digits < 2 ^ 63) :
    strtol digits = BitVec.ofNat 32 (litNat digits) := by
  rw [strtol, Nat.min_eq_left (by omega)]

theorem add_token (o : AddOp) (h : Sums c a c₁) (hlow : c.ops.head?.all Op.isLow = true)
    (hsize : c₁.size < 32) :
    token P o.token c₁ = .ok { c₁ with ops := o.op :: c₁.ops } := by
  obtain ⟨bs, x, vs, hbs, hops, -⟩ := h
  have hhead : c₁.ops.head?.all Op.isLow = true := by
    rw [hops]
    cases bs with
    | nil => exact hlow
    | cons b bs =>
      rw [List.cons_append, List.head?_cons, hbs b (List.mem_cons_self ..)]
      rfl
  rw [token_addOp, addSub, if_pos hhead, pushOp_eq hsize]

theorem mul_token (o : MulOp) {floor : Op} {rest : List Op} (h : Pends Op.isMul c a c₁)
    (hops : c.ops = floor :: rest) (hlow : floor.isLow = true) (hsize : c₁.size < 32) :
    ∃ r, token P o.token c₁ =
      .ok ⟨c₁.prev, o.op :: c.ops, a :: c.nums, r, c.dut⟩ := by
  obtain ⟨bs, ns, hbs, hops₁, hnums, hy, hdut, hunary⟩ := h
  obtain ⟨r, hr⟩ := hy c₁ c.nums hnums
  have hne : c₁.ops ≠ [] := by
    rw [hops₁, hops]
    simp
  have hlen : c.ops.length < 32 := by
    rw [Calc.size, hops₁, List.length_append] at hsize
    omega
  refine ⟨r, ?_⟩
  -- the loop reduces the product that waits and stops at `floor`
  rw [token_mulOp P o hunary, mulDiv, if_neg hne, hops₁, hops, mulLoop_collapse hbs hlow, hr,
    ← hdut]
  rw [hops] at hlen
  exact if_pos hlen

theorem mul_run {E : Stop → Prop} {Q : Calc D → Prop} {xs ys : List Token} (o : MulOp) {floor : Op}
    {rest : List Op} (hops : c.ops = floor :: rest) (hlow : floor.isLow = true)
    (hroom : c.size + (xs ++ o.token :: ys).length ≤ 32)
    (hxs : c.size + xs.length ≤ 32 → Ensures E (xs.foldlM (step P) c) (Pends Op.isMul c a))
    (hys : ∀ r, Calc.size ⟨some o.token, o.op :: c.ops, a :: c.nums, r, c.dut⟩ + ys.length ≤ 32 →
      Ensures E (ys.foldlM (step P) ⟨some o.token, o.op :: c.ops, a :: c.nums, r, c.dut⟩) Q) :
    Ensures E ((xs ++ o.token :: ys).foldlM (step P) c) Q := by
  refine run_append hroom hxs fun c₁ h₁ hroom₁ => ?_
  obtain ⟨r, hr⟩ := mul_token (P := P) o h₁ hops hlow (by simp at hroom₁; omega)
  exact run_cons_ok hroom₁ (fun _ => hr) (hys r)

theorem mul_token_empty (o : MulOp) (h : Lands c a c₁) (hops : c.ops = []) (hsize : c₁.size < 32) :
    token P o.token c₁ = .ok { c₁ with ops := o.op :: c.ops } := by
  rw [token_mulOp P o h.unary, mulDiv, if_pos (h.ops.trans hops)]
  exact (pushOp_eq hsize o.op).trans (by rw [h.ops])

theorem rparen_token {rest : List Op} (h : Pends Op.isBinary c v c₁)
    (hops : c.ops = .lparen :: rest) :
    ∃ r, token P .rparen c₁ = .ok ⟨c₁.prev, rest, v :: c.nums, r, c.dut⟩ := by
  obtain ⟨bs, ns, hbs, hops₁, hnums, hy, hdut, -⟩ := h
  obtain ⟨r, hr⟩ := hy c₁ c.nums hnums
  refine ⟨r, ?_⟩
  change closeParen P c₁.ops c₁ = _
  rw [hops₁, hops, closeParen_collapse hbs, hr, ← hdut]
  rfl

end tokens

/-! ## Runs -/

mutual

theorem Factor.plain_lands {c : Calc D} {v : Word} {st' : State D} (f : Factor)
    (h : f.plain = true) (hroom : c.size + f.tokens.length ≤ 32)
    (hv : f.value P c.dut = some (v, st')) :
    Ensures (fun _ => False) (f.tokens.foldlM (step P) c) (Lands c v) := by
  cases f with
  | decimal digits =>
    obtain ⟨rfl, -⟩ := Prod.mk.inj (Option.some.inj hv)
    exact number_lands hroom (congrArg c.pushNum (strtol_eq (of_decide_eq_true h))) rfl
  | hex digits =>
    obtain ⟨rfl, -⟩ := Prod.mk.inj (Option.some.inj hv)
    exact number_lands hroom (congrArg c.pushNum (strtol_eq (of_decide_eq_true h))) rfl
  | reg name =>
    have hreg := isaRegStr2val_eq (of_decide_eq_true h) (Factor.value_reg hv).1
    refine number_lands hroom ?_ rfl
    rw [token, hreg, pushNum_eq hroom]
    rfl
  | word => cases hv
  | deref f => cases h
  | paren e =>
    refine run_cons_ok hroom (fun hsize => pushOp_eq hsize .lparen) fun hroom₁ => ?_
    refine run_append hroom₁ (fun hroom₁ => Expr.grouped_pends e h rfl rfl hroom₁ hv)
      fun c₂ h₂ hroom₂ => ?_
    obtain ⟨r, hr⟩ := rparen_token (P := P) h₂ rfl
    exact run_cons_ok hroom₂ (fun _ => hr) fun _ => ⟨rfl, rfl, rfl, rfl⟩

theorem Term.plain_pends {c : Calc D} {v : Word} {st' : State D} {floor : Op} {rest : List Op}
    (t : Term) (h : t.plain = true) (hops : c.ops = floor :: rest) (hlow : floor.isLow = true)
    (hroom : c.size + t.tokens.length ≤ 32) (hv : t.value P c.dut = some (v, st')) :
    Ensures (fun _ => False) (t.tokens.foldlM (step P) c) (Pends Op.isMul c v) := by
  cases t with
  | factor f => exact (Factor.plain_lands f h hroom hv).mono fun c₁ h₁ => h₁.pends _
  | mul t o f =>
    obtain ⟨ht, hf⟩ := Bool.and_eq_true_iff.mp h
    obtain ⟨a, st₁, b, hta, hfb, happly⟩ := Term.value_mul hv
    obtain rfl := Term.plain_dut t ht hta
    refine mul_run o hops hlow hroom (fun hroom => Term.plain_pends t ht hops hlow hroom hta)
      fun r hroom₂ => ?_
    refine (Factor.plain_lands (c := ⟨some o.token, o.op :: c.ops, a :: c.nums, r, c.dut⟩)
      f hf hroom₂ hfb).mono fun c₃ h₃ => ?_
    exact ⟨[o.op], [b, a], by simp, h₃.ops, h₃.nums, Yields.single (MulOp.calculate_op happly),
      h₃.dut, h₃.unary⟩

theorem Expr.chain_sums {c : Calc D} {v : Word} {st' : State D} (e : Expr)
    (h : e.chain = true) (hlow : c.ops.head?.all Op.isLow = true)
    (hroom : c.size + e.tokens.length ≤ 32) (hv : e.value P c.dut = some (v, st')) :
    Ensures (fun _ => False) (e.tokens.foldlM (step P) c) (Sums c v) := by
  match e, h with
  | .term (.factor f), h => exact (Factor.plain_lands f h hroom hv).mono fun c₁ h₁ => h₁.sums
  | .add e .plus (.factor f), h =>
    obtain ⟨he, hf⟩ := Bool.and_eq_true_iff.mp h
    obtain ⟨a, st₁, b, hea, hfb, rfl⟩ := Expr.value_add hv
    obtain rfl := Expr.chain_dut e he hea
    refine run_append hroom (fun hroom => Expr.chain_sums e he hlow hroom hea)
      fun c₁ h₁ hroom₁ => ?_
    refine run_cons_ok hroom₁ (add_token .plus h₁ hlow) fun hroom₂ => ?_
    obtain ⟨bs, x, vs, hbs, hops, hnums, hy, hdut, -⟩ := h₁
    rw [← hdut] at hfb
    refine (Factor.plain_lands (c := ⟨some .plus, .plus :: c₁.ops, c₁.nums, c₁.result, c₁.dut⟩)
      f hf hroom₂ hfb).mono fun c₃ h₃ => ?_
    refine ⟨.plus :: bs, b, x :: vs, ?_, ?_, ?_, yields_add hy b, h₃.dut.trans hdut, h₃.unary⟩
    · rintro o (_ | ⟨_, ho⟩)
      · rfl
      · exact hbs o ho
    · rw [h₃.ops, hops]
      rfl
    · rw [h₃.nums, hnums]
      rfl

theorem Expr.grouped_pends {c : Calc D} {v : Word} {st' : State D} {floor : Op} {rest : List Op}
    (e : Expr) (h : e.grouped = true) (hops : c.ops = floor :: rest) (hlow : floor.isLow = true)
    (hroom : c.size + e.tokens.length ≤ 32) (hv : e.value P c.dut = some (v, st')) :
    Ensures (fun _ => False) (e.tokens.foldlM (step P) c) (Pends Op.isBinary c v) := by
  cases e with
  | term t =>
    exact (Term.plain_pends t h hops hlow hroom hv).mono fun c₁ h₁ =>
      h₁.mono fun o => Op.isBinary_of_isMul
  | add e o t =>
    obtain ⟨he, ht⟩ := Bool.and_eq_true_iff.mp h
    obtain ⟨a, st₁, b, hea, htb, rfl⟩ := Expr.value_add hv
    obtain rfl := Expr.chain_dut e he hea
    have hhead : c.ops.head?.all Op.isLow = true := by
      rw [hops]
      exact hlow
    refine run_append hroom (fun hroom => Expr.chain_sums e he hhead hroom hea)
      fun c₁ h₁ hroom₁ => ?_
    refine run_cons_ok hroom₁ (add_token o h₁ hhead) fun hroom₂ => ?_
    obtain ⟨bs, x, vs, hbs, hops₁, hnums, hy, hdut, -⟩ := h₁
    rw [← hdut] at htb
    refine (Term.plain_pends (c := ⟨some o.token, o.op :: c₁.ops, c₁.nums, c₁.result, c₁.dut⟩)
      t ht rfl o.isLow_op hroom₂ htb).mono fun c₃ h₃ => ?_
    obtain ⟨bs', ns, hbs', hops₃, hnums₃, hy₃, hdut₃, hunary⟩ := h₃
    refine ⟨bs' ++ o.op :: bs, ns ++ x :: vs, ?_, ?_, ?_, yields_group o hy hy₃,
      hdut₃.trans hdut, hunary⟩
    · exact isBinary_group o hbs fun q hq => Op.isBinary_of_isMul (hbs' q hq)
    · rw [hops₃, hops₁, List.append_assoc, List.cons_append]
    · rw [hnums₃, hnums, List.append_assoc]

end

/-! ## The last operand -/

/-- The dereferences `hs` over any operators make `v` out of the number `p` in the last loop. -/
def Chases (P : Platform D) (hs : List Op) (p : Word) (st : State D) (v : Word) (st' : State D) :
    Prop :=
  ∀ (c : Calc D) (bs : List Op) (ns : List Word), c.nums = p :: ns → c.dut = st →
    ∃ r, endLoop P (hs ++ bs) c = endLoop P bs ⟨c.prev, c.ops, v :: ns, r, st'⟩

theorem Chases.nil (p : Word) (st : State D) : Chases P [] p st p st := by
  rintro ⟨prev, ops, nums, result, dut⟩ bs ns rfl rfl
  exact ⟨result, rfl⟩

theorem endLoop_hash {prev : Option Token} {ops bs : List Op} {a v r : Word} {ns : List Word}
    {st st' : State D} (ha : a ≠ 0) (hv : vaddrRead P a 4 st = some (v, st')) :
    endLoop P (.hash :: bs) ⟨prev, ops, a :: ns, r, st⟩ = endLoop P bs ⟨prev, ops, v :: ns, v, st'⟩ := by
  have hread : Calc.readTop P ⟨prev, ops, a :: ns, r, st⟩ = .ok ⟨prev, ops, a :: ns, v, st'⟩ := by
    simp only [Calc.readTop, hv]
  simp only [endLoop, if_true, if_neg ha, hread]
  rfl

theorem Chases.snoc {hs : List Op} {p a v : Word} {st st₁ st' : State D} (h : Chases P hs p st a st₁)
    (ha : a ≠ 0) (hv : vaddrRead P a 4 st₁ = some (v, st')) :
    Chases P (hs ++ [.hash]) p st v st' := by
  intro c bs ns hnums hdut
  obtain ⟨r, hr⟩ := h c (.hash :: bs) ns hnums hdut
  refine ⟨v, ?_⟩
  rw [List.append_assoc, List.singleton_append, hr]
  exact endLoop_hash ha hv

/-- An operand with the value `v` is left to be dereferenced. -/
def Points (P : Platform D) (c : Calc D) (v : Word) (st' : State D) (c' : Calc D) : Prop :=
  ∃ hs p, c'.ops = hs ++ c.ops ∧ c'.nums = p :: c.nums ∧ Chases P hs p c.dut v st' ∧ c'.dut = c.dut

/-- A product or sum with the value `v` is left to be reduced, its last operand dereferenced before. -/
def Waits (P : Platform D) (c : Calc D) (v : Word) (st' : State D) (c' : Calc D) : Prop :=
  ∃ hs bs p w ns, (∀ o ∈ bs, o.isBinary = true) ∧ c'.ops = hs ++ (bs ++ c.ops) ∧
    c'.nums = p :: (ns ++ c.nums) ∧ Chases P hs p c.dut w st' ∧ Yields D bs (w :: ns) v ∧
    c'.dut = c.dut

theorem Points.waits {c c' : Calc D} {v : Word} {st' : State D} (h : Points P c v st' c') :
    Waits P c v st' c' := by
  obtain ⟨hs, p, hops, hnums, hchase, hdut⟩ := h
  exact ⟨hs, [], p, v, [], by simp, hops, hnums, hchase, Yields.nil v, hdut⟩

theorem Points.mul {c c₁ c' : Calc D} {o : MulOp} {a b v : Word} {st' : State D}
    (h : Points P c₁ b st' c') (hops : c₁.ops = o.op :: c.ops) (hnums : c₁.nums = a :: c.nums)
    (hdut : c₁.dut = c.dut) (hv : o.apply a b = some v) : Waits P c v st' c' := by
  obtain ⟨hs, p, hops', hnums', hchase, hdut'⟩ := h
  rw [hops] at hops'
  rw [hnums] at hnums'
  rw [hdut] at hchase
  exact ⟨hs, [o.op], p, b, [a], by simp [Op.isBinary], hops', hnums', hchase,
    Yields.single (MulOp.calculate_op hv), hdut'.trans hdut⟩

theorem Factor.pointer_points {c : Calc D} {v : Word} {st' : State D} (f : Factor)
    (h : f.pointer = true) (hunary : c.unary = true) (hroom : c.size + f.tokens.length ≤ 32)
    (hv : f.value P c.dut = some (v, st')) :
    Ensures (fun _ => False) (f.tokens.foldlM (step P) c) (Points P c v st') := by
  by_cases hplain : f.plain = true
  · obtain rfl := Factor.plain_dut f hplain hv
    refine (Factor.plain_lands f hplain hroom hv).mono fun c' h' => ?_
    exact ⟨[], v, h'.ops, h'.nums, Chases.nil v c.dut, h'.dut⟩
  · match f, h with
    | .deref f, h =>
      obtain ⟨a, st₁, hf, ha, hread⟩ := Factor.value_deref hv
      have hstar : c.size < 32 → token P .star c = .ok { c with ops := .hash :: c.ops } :=
        fun hsize => (if_pos hunary).trans (pushOp_eq hsize .hash)
      refine run_cons_ok hroom hstar fun hroom₁ => ?_
      refine (Factor.pointer_points (c := ⟨some .star, .hash :: c.ops, c.nums, c.result, c.dut⟩)
        f h rfl hroom₁ hf).mono fun c' h' => ?_
      obtain ⟨hs, p, hops, hnums, hchase, hdut⟩ := h'
      refine ⟨hs ++ [.hash], p, ?_, hnums, hchase.snoc ha hread, hdut⟩
      rw [hops, List.append_assoc, List.singleton_append]

theorem Term.last_waits {c : Calc D} {v : Word} {st' : State D} {floor : Op} {rest : List Op}
    (t : Term) (h : t.last = true) (hops : c.ops = floor :: rest) (hlow : floor.isLow = true)
    (hunary : c.unary = true) (hroom : c.size + t.tokens.length ≤ 32)
    (hv : t.value P c.dut = some (v, st')) :
    Ensures (fun _ => False) (t.tokens.foldlM (step P) c) (Waits P c v st') := by
  cases t with
  | factor f => exact (Factor.pointer_points f h hunary hroom hv).mono fun c' h' => h'.waits
  | mul t o f =>
    obtain ⟨ht, hf⟩ := Bool.and_eq_true_iff.mp h
    obtain ⟨a, st₁, b, hta, hfb, happly⟩ := Term.value_mul hv
    obtain rfl := Term.plain_dut t ht hta
    refine mul_run o hops hlow hroom (fun hroom => Term.plain_pends t ht hops hlow hroom hta)
      fun r hroom₂ => ?_
    exact (Factor.pointer_points (c := ⟨some o.token, o.op :: c.ops, a :: c.nums, r, c.dut⟩)
      f hf o.isNotNum_token hroom₂ hfb).mono fun c' h' => h'.mul rfl rfl rfl happly

theorem Expr.orderly_waits {c : Calc D} {v : Word} {st' : State D} (e : Expr)
    (h : e.orderly = true) (hops : c.ops = []) (hunary : c.unary = true)
    (hroom : c.size + e.tokens.length ≤ 32) (hv : e.value P c.dut = some (v, st')) :
    Ensures (fun _ => False) (e.tokens.foldlM (step P) c) (Waits P c v st') := by
  match e, h with
  | .term (.factor f), h =>
    exact (Factor.pointer_points f h hunary hroom hv).mono fun c' h' => h'.waits
  | .term (.mul (.factor g) o f), h =>
    obtain ⟨hg, hf⟩ := Bool.and_eq_true_iff.mp h
    obtain ⟨a, st₁, b, hga, hfb, happly⟩ := Term.value_mul hv
    obtain rfl := Factor.plain_dut g hg hga
    refine run_append hroom (fun hroom => Factor.plain_lands g hg hroom hga)
      fun c₁ h₁ hroom₁ => ?_
    refine run_cons_ok hroom₁ (mul_token_empty o h₁ hops) fun hroom₂ => ?_
    rw [← h₁.dut] at hfb
    exact (Factor.pointer_points (c := ⟨some o.token, o.op :: c.ops, c₁.nums, c₁.result, c₁.dut⟩)
      f hf o.isNotNum_token hroom₂ hfb).mono fun c' h' => h'.mul rfl h₁.nums h₁.dut happly
  | .add e o t, h =>
    obtain ⟨he, ht⟩ := Bool.and_eq_true_iff.mp h
    obtain ⟨a, st₁, b, hea, htb, rfl⟩ := Expr.value_add hv
    obtain rfl := Expr.chain_dut e he hea
    have hlow : c.ops.head?.all Op.isLow = true := by
      rw [hops]
      rfl
    refine run_append hroom (fun hroom => Expr.chain_sums e he hlow hroom hea)
      fun c₁ h₁ hroom₁ => ?_
    refine run_cons_ok hroom₁ (add_token o h₁ hlow) fun hroom₂ => ?_
    obtain ⟨bs, x, vs, hbs, hops₁, hnums, hy, hdut, -⟩ := h₁
    rw [← hdut] at htb
    refine (Term.last_waits (c := ⟨some o.token, o.op :: c₁.ops, c₁.nums, c₁.result, c₁.dut⟩)
      t ht rfl o.isLow_op o.isNotNum_token hroom₂ htb).mono fun c' h' => ?_
    obtain ⟨hs, bs', p, w, ns, hbs', hops', hnums', hchase, hy', hdut'⟩ := h'
    refine ⟨hs, bs' ++ o.op :: bs, p, w, ns ++ x :: vs, ?_, ?_, ?_, hdut ▸ hchase,
      yields_group o hy hy', hdut'.trans hdut⟩
    · exact isBinary_group o hbs hbs'
    · rw [hops', hops₁, List.append_assoc bs']
      rfl
    · rw [hnums', hnums, List.append_assoc ns]

theorem endLoop_waits {c : Calc D} {v : Word} {dut st' : State D}
    (h : Waits P (Calc.start dut) v st' c) :
    Ensures (fun _ => False) (endLoop P c.ops c) fun c' => c'.nums = [v] ∧ c'.dut = st' := by
  obtain ⟨hs, bs, p, w, ns, hbs, hops, hnums, hchase, hy, hdut⟩ := h
  obtain ⟨r, hr⟩ := hchase c bs ns (by rw [hnums]; exact congrArg _ (List.append_nil ns)) hdut
  obtain ⟨r', hr'⟩ := hy ⟨c.prev, c.ops, w :: ns, r, st'⟩ [] (List.append_nil _).symm
  -- the numbers outlast the operators, so no round pushes `result` again
  have hlen := collapse_size bs ⟨c.prev, c.ops, w :: ns, r, st'⟩
  rw [hr'] at hlen
  have hlt : bs.length < (w :: ns).length := by
    have : 1 + bs.length = (w :: ns).length := hlen
    omega
  have hend : bs ++ (Calc.start dut).ops = bs := List.append_nil bs
  rw [hops, hend, hr, endLoop_collapse hbs hlt, hr']
  exact ⟨rfl, rfl⟩

/-- An orderly expression has its usual value. -/
theorem tokensCalculation_value (P : Platform D) (e : Expr) (h : e.orderly = true)
    (hlen : e.tokens.length ≤ 32) {v : Word} {dut dut' : State D}
    (hv : e.value P dut = some (v, dut')) : tokensCalculation P e.tokens dut = .ok (v, dut') := by
  have hroom : (Calc.start dut).size + e.tokens.length ≤ 32 := (Nat.zero_add _).trans_le hlen
  have hrun := Expr.orderly_waits (c := Calc.start dut) e h rfl rfl hroom hv
  obtain ⟨c, hc, hwaits⟩ := hrun.exists_ok
  obtain ⟨c', hc', hnums, hdut⟩ := (endLoop_waits hwaits).exists_ok
  rw [tokensCalculation, hc]
  change (endLoop P c.ops c >>= _) = _
  obtain ⟨prev, ops, nums, result, st⟩ := c'
  obtain rfl : nums = [v] := hnums
  obtain rfl : st = dut' := hdut
  rw [hc']
  rfl

def sevens : State Unit := { blank with pmem := fun _ => 7 }

theorem tokensCalculation_value_pointed :
    (tokensCalculation bareBoard pointed.tokens sevens).map Prod.fst =
      .ok (1 - 2 * 0x07070707) := by
  have hval : (pointed.value bareBoard sevens).map Prod.fst = some (1 - 2 * 0x07070707) := by
    decide +kernel
  obtain ⟨⟨v, dut'⟩, hv, rfl⟩ := Option.map_eq_some_iff.mp hval
  rw [tokensCalculation_value bareBoard pointed (by decide) (by decide) hv]
  rfl

/-- The first of two subtractions is done last. -/
theorem tokensCalculation_value_refuted :
    ¬∀ (e : Expr) (v : Word) (dut' : State Unit), e.tokens.length ≤ 32 →
      e.value bareBoard blank = some (v, dut') →
        tokensCalculation bareBoard e.tokens blank = .ok (v, dut') := by
  intro h
  have hclaim := h difference (-4) blank (by decide) rfl
  have hrun : tokensCalculation bareBoard difference.tokens blank = .ok (2, blank) := rfl
  rw [hrun] at hclaim
  have hne : (2 : Word) ≠ -4 := by decide
  exact hne (Prod.mk.inj (Except.ok.inj hclaim)).1

end GsEmu.Sdb
