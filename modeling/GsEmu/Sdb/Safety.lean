import GsEmu.Device.Ram
import GsEmu.Sdb.Plan

/-! Where the evaluator stays on its stacks. Inside parentheses without a dereference it always does;
outside, a `#` or the bottom of the operator stack must not come under a `*` or `/`. -/

namespace GsEmu.Sdb
open Riscv32

variable {D : Type} {P : Platform D}

mutual

def Factor.bare : Factor → Bool
  | .paren e => e.bare
  | .deref _ => false
  | _ => true

def Term.bare : Term → Bool
  | .factor f => f.bare
  | .mul t _ f => t.bare && f.bare

def Expr.bare : Expr → Bool
  | .term t => t.bare
  | .add e _ t => e.bare && t.bare

end

def Factor.outer : Factor → Bool
  | .deref f => f.outer
  | f => f.bare

def Factor.pointed : Factor → Bool
  | .deref _ => true
  | _ => false

/-! ## An expression as operands in a row -/

inductive BinOp
  | add (o : AddOp)
  | mul (o : MulOp)

def BinOp.token : BinOp → Token
  | .add o => o.token
  | .mul o => o.token

def BinOp.isMul : BinOp → Bool
  | .add _ => false
  | .mul _ => true

def Term.head : Term → Factor
  | .factor f => f
  | .mul t _ _ => t.head

def Term.tail : Term → List (BinOp × Factor)
  | .factor _ => []
  | .mul t o f => t.tail ++ [(.mul o, f)]

def Expr.head : Expr → Factor
  | .term t => t.head
  | .add e _ _ => e.head

def Expr.tail : Expr → List (BinOp × Factor)
  | .term t => t.tail
  | .add e o t => e.tail ++ (.add o, t.head) :: t.tail

def spell (tail : List (BinOp × Factor)) : List Token :=
  tail.flatMap fun q => q.1.token :: q.2.tokens

theorem spell_append (xs ys : List (BinOp × Factor)) : spell (xs ++ ys) = spell xs ++ spell ys :=
  List.flatMap_append

theorem spell_cons (o : BinOp) (f : Factor) (tail : List (BinOp × Factor)) :
    spell ((o, f) :: tail) = o.token :: (f.tokens ++ spell tail) := rfl

theorem Term.tokens_eq : ∀ t : Term, t.tokens = t.head.tokens ++ spell t.tail
  | .factor f => (List.append_nil _).symm
  | .mul t o f => by
    rw [Term.tokens, Term.tokens_eq t, Term.tail, spell_append, List.append_assoc]
    exact congrArg (fun ts => t.head.tokens ++ (spell t.tail ++ o.token :: ts))
      (List.append_nil _).symm

theorem Expr.tokens_eq : ∀ e : Expr, e.tokens = e.head.tokens ++ spell e.tail
  | .term t => t.tokens_eq
  | .add e o t => by
    rw [Expr.tokens, Expr.tokens_eq e, t.tokens_eq, Expr.tail, spell_append, List.append_assoc]
    rfl

/-- No dereference inside the parentheses of the whole expression. -/
def Expr.outer (e : Expr) : Bool := e.head.outer && e.tail.all fun q => q.2.outer

/-- No `*` or `/` behind a dereferenced operand; `p` says whether one came before. -/
def quiet : Bool → List (BinOp × Factor) → Bool
  | _, [] => true
  | p, (o, f) :: rest => !(p && o.isMul) && quiet (p || f.pointed) rest

/-- Outside parentheses no `*` or `/` is behind a dereferenced operand, and when the first operator is a
`*` or `/` with an operand that is not dereferenced, it is the only one. -/
def Expr.steady (e : Expr) : Bool :=
  quiet e.head.pointed e.tail &&
    match e.tail with
    | (.mul _, f) :: rest => f.pointed || rest.isEmpty
    | _ => true

/-! ## What a plan leads to -/

namespace Plan

variable {p : Plan} {k : Shape → Plan} {Q R : Shape → Prop}

def Reaches (p : Plan) (Q : Shape → Prop) : Prop := ∃ s, p.next = some s ∧ Q s

/-- The plan ends with a number, or with a bad index, according to `good`. -/
def Settles (good : Bool) (p : Plan) : Prop :=
  match p.next with
  | some s => good = true ∧ 0 < s.height
  | none => good = false

theorem bind_next (p : Plan) (k : Shape → Plan) : (p.bind k).next = p.next.bind fun s => (k s).next := by
  unfold bind
  cases hp : p.next with
  | none => exact hp
  | some s => rfl

theorem Reaches.bind (h : p.Reaches Q) (hk : ∀ s, Q s → (k s).Reaches R) : (p.bind k).Reaches R := by
  obtain ⟨s, hs, hQ⟩ := h
  obtain ⟨s', hs', hR⟩ := hk s hQ
  exact ⟨s', by rw [bind_next, hs]; exact hs', hR⟩

theorem Reaches.settles {good : Bool} (h : p.Reaches Q) (hk : ∀ s, Q s → (k s).Settles good) :
    (p.bind k).Settles good := by
  obtain ⟨s, hs, hQ⟩ := h
  have hgood := hk s hQ
  unfold Settles at hgood ⊢
  rw [bind_next, hs]
  exact hgood

end Plan

namespace Shape

variable {s s' : Shape} {o : Op} {Q R : Shape → Prop} {xs ys : List Token} {good : Bool}

theorem run_append (xs ys : List Token) (s : Shape) :
    (run (xs ++ ys) s).next = (run xs s).next.bind fun s => (run ys s).next := by
  induction xs generalizing s with
  | nil => rfl
  | cons x xs ih =>
    rw [List.cons_append, run, run, Plan.bind_next, Plan.bind_next, Option.bind_assoc]
    exact congrArg _ (funext fun s => ih _)

theorem run_reaches (h : (run xs s).Reaches Q) (hk : ∀ s, Q s → (run ys s).Reaches R) :
    (run (xs ++ ys) s).Reaches R := by
  obtain ⟨s₁, hs₁, hQ⟩ := h
  obtain ⟨s₂, hs₂, hR⟩ := hk s₁ hQ
  exact ⟨s₂, by rw [run_append, hs₁]; exact hs₂, hR⟩

theorem run_settles (h : (run xs s).Reaches Q) (hk : ∀ s, Q s → (run ys s).Settles good) :
    (run (xs ++ ys) s).Settles good := by
  obtain ⟨s₁, hs₁, hQ⟩ := h
  have hgood := hk s₁ hQ
  unfold Plan.Settles at hgood ⊢
  rw [run_append, hs₁]
  exact hgood

/-! ## The loops on operators that take two numbers -/

theorem reduce_next (o : Op) (h : 2 ≤ s.height) :
    (s.reduce o).next = some { s with height := s.height - 1 } := by
  rw [reduce, if_pos h]

theorem closeParen_cons {below : Op} (ho : o ≠ .lparen) (hb : below ≠ .hash) (ops : List Op) :
    s.closeParen (o :: below :: ops) = (s.reduce o).bind (closeParen (below :: ops)) := by
  rw [closeParen, closeRound, if_neg hb]
  exact fun h => ho h

theorem closeParen_next {bs : List Op} (hbs : ∀ o ∈ bs, o.isBinary = true) (rest : List Op)
    (hlen : bs.length < s.height) : (s.closeParen (bs ++ .lparen :: rest)).next =
      some { s with ops := rest, height := s.height - bs.length } := by
  induction bs generalizing s with
  | nil => rfl
  | cons o bs ih =>
    have ho := Op.ne_lparen_of_isBinary (hbs o (List.mem_cons_self ..))
    have htail : ∀ o ∈ bs, o.isBinary = true := fun o' ho' => hbs o' (List.mem_cons_of_mem _ ho')
    rw [List.length_cons] at hlen ⊢
    have hround : s.closeParen (o :: (bs ++ .lparen :: rest)) =
        (s.reduce o).bind (closeParen (bs ++ .lparen :: rest)) := by
      cases bs with
      | nil => exact closeParen_cons ho (by decide) rest
      | cons below bs =>
        exact closeParen_cons ho (Op.ne_hash_of_isBinary (htail below (List.mem_cons_self ..))) _
    rw [List.cons_append, hround, Plan.bind_next, reduce_next o (by omega)]
    refine (ih htail (by change bs.length < s.height - 1; omega)).trans ?_
    rw [show s.height - 1 - bs.length = s.height - (bs.length + 1) by omega]

theorem mulLoop_next {ms : List Op} (hms : ∀ o ∈ ms, o.isMul = true) {floor : Op}
    (hfloor : floor.isLow = true) (rest : List Op) (hlen : ms.length < s.height) :
    (s.mulLoop (ms ++ floor :: rest)).next =
      some { s with ops := floor :: rest, height := s.height - ms.length } := by
  induction ms generalizing s with
  | nil =>
    rw [List.nil_append, mulLoop, if_neg (Op.ne_hash_of_isLow hfloor),
      if_neg (by rw [Op.not_isMul_of_isLow hfloor]; decide)]
    rfl
  | cons o ms ih =>
    have ho := hms o (List.mem_cons_self ..)
    rw [List.length_cons] at hlen ⊢
    rw [List.cons_append, mulLoop, if_neg (Op.ne_hash_of_isBinary (Op.isBinary_of_isMul ho)),
      if_pos ho, Plan.bind_next, reduce_next o (by omega)]
    refine (ih (fun o' ho' => hms o' (List.mem_cons_of_mem _ ho'))
      (by change ms.length < s.height - 1; omega)).trans ?_
    rw [show s.height - 1 - ms.length = s.height - (ms.length + 1) by omega]

theorem addLoop_next {ms : List Op} (hms : ∀ o ∈ ms, o.isMul = true) {floor : Op}
    (hfloor : floor.isLow = true) (rest : List Op) (hlen : ms.length < s.height) :
    (s.addLoop (ms ++ floor :: rest)).next =
      some { s with ops := floor :: rest, height := s.height - ms.length } := by
  induction ms generalizing s with
  | nil =>
    rw [List.nil_append, addLoop, if_neg (by rw [Op.not_isMul_of_isLow hfloor]; decide)]
    rfl
  | cons o ms ih =>
    rw [List.length_cons] at hlen ⊢
    rw [List.cons_append, addLoop, if_pos (hms o (List.mem_cons_self ..)), Plan.bind_next,
      reduce_next o (by omega)]
    refine (ih (fun o' ho' => hms o' (List.mem_cons_of_mem _ ho'))
      (by change ms.length < s.height - 1; omega)).trans ?_
    rw [show s.height - 1 - ms.length = s.height - (ms.length + 1) by omega]

end Shape

/-! ## Inside a floor -/

/-- The operators above the floor take two numbers each, and more than `b` of the numbers are left for them. -/
def Awaits (floor : List Op) (b : Nat) (s : Shape) : Prop :=
  ∃ bs, (∀ o ∈ bs, o.isBinary = true) ∧ s.ops = bs ++ floor ∧ b + bs.length ≤ s.height

def Within (floor : List Op) (b : Nat) (s : Shape) : Prop :=
  Awaits floor (b + 1) s ∧ s.unary = false

structure Lifts (s s' : Shape) : Prop where
  ops : s'.ops = s.ops
  height : s.height < s'.height
  unary : s'.unary = false

section floor
variable {s s' : Shape} {floor : Op} {rest : List Op} {b : Nat}

theorem Awaits.within {fl : List Op} (h : Awaits fl b s) (hs : Lifts s s') : Within fl b s' := by
  obtain ⟨bs, hbs, hops, hlen⟩ := h
  have hheight := hs.height
  exact ⟨⟨bs, hbs, hs.ops.trans hops, by omega⟩, hs.unary⟩

theorem exists_low (rest : List Op) {bs : List Op} (hbs : ∀ o ∈ bs, o.isBinary = true) (hlow : floor.isLow = true) :
    ∃ ms ls low rest', bs = ms ++ ls ∧ (∀ o ∈ ms, o.isMul = true) ∧
      (∀ o ∈ ls, o.isBinary = true) ∧ ls ++ floor :: rest = low :: rest' ∧ low.isLow = true := by
  induction bs with
  | nil => exact ⟨[], [], floor, rest, rfl, by simp, by simp, rfl, hlow⟩
  | cons o bs ih =>
    have ho := hbs o (List.mem_cons_self ..)
    cases hmul : o.isMul with
    | true =>
      obtain ⟨ms, ls, low, rest', rfl, hms, hls, heq, hlow'⟩ :=
        ih fun q hq => hbs q (List.mem_cons_of_mem _ hq)
      refine ⟨o :: ms, ls, low, rest', rfl, ?_, hls, heq, hlow'⟩
      rintro q (_ | ⟨_, hq⟩)
      · exact hmul
      · exact hms q hq
    | false =>
      exact ⟨[], o :: bs, o, bs ++ floor :: rest, rfl, by simp, hbs, rfl,
        Op.isLow_of_isBinary ho hmul⟩

theorem Shape.token_mulOp (o : MulOp) (h : s.unary = false) : s.token o.token = s.mulDiv o.op := by
  cases o with
  | star => exact if_neg (by rw [h]; decide)
  | slash => rfl

theorem Shape.token_addOp (o : AddOp) (s : Shape) : s.token o.token = s.addSub o.op := by
  cases o <;> rfl

theorem op_awaits (o : BinOp) (h : Within (floor :: rest) b s) (hlow : floor.isLow = true) :
    (s.token o.token).Reaches (Awaits (floor :: rest) b) := by
  obtain ⟨⟨bs, hbs, hops, hlen⟩, hunary⟩ := h
  obtain ⟨ms, ls, low, rest', rfl, hms, hls, heq, hlow'⟩ := exists_low rest hbs hlow
  rw [List.length_append] at hlen
  rw [List.append_assoc, heq] at hops
  cases o with
  | mul o =>
    have hne : s.ops ≠ [] := by
      rw [hops]
      simp
    rw [BinOp.token, Shape.token_mulOp o hunary, Shape.mulDiv, if_neg hne, hops]
    refine Plan.Reaches.bind ⟨_, Shape.mulLoop_next hms hlow' rest' (by omega), rfl⟩ fun s' hs' => ?_
    subst hs'
    refine ⟨_, rfl, o.op :: ls, ?_, congrArg _ heq.symm, ?_⟩
    · rintro q (_ | ⟨_, hq⟩)
      · exact Op.isBinary_of_isMul o.isMul_op
      · exact hls q hq
    · rw [List.length_cons]
      change _ ≤ s.height - ms.length
      omega
  | add o =>
    rw [BinOp.token, Shape.token_addOp, Shape.addSub]
    -- over a product the operator only reduces, otherwise it is pushed
    cases ms with
    | nil =>
      rw [if_pos (by rw [hops]; exact hlow')]
      refine ⟨_, rfl, o.op :: ls, ?_, congrArg _ (hops.trans heq.symm), ?_⟩
      · rintro q (_ | ⟨_, hq⟩)
        · exact o.isBinary_op
        · exact hls q hq
      · rw [List.length_cons]
        change _ ≤ s.height
        rw [List.length_nil] at hlen
        omega
    | cons m ms =>
      have hm : ¬s.ops.head?.all Op.isLow = true := by
        rw [hops]
        exact fun hm => by
          have := Op.not_isMul_of_isLow hm
          rw [hms m (List.mem_cons_self ..)] at this
          cases this
      rw [if_neg hm, hops]
      refine ⟨_, Shape.addLoop_next hms hlow' rest' (by omega), ls, hls, heq.symm, ?_⟩
      change _ ≤ s.height - _
      omega

theorem rparen_lifts (h : Within (.lparen :: rest) b s) :
    (s.token .rparen).Reaches fun s' => s'.ops = rest ∧ b < s'.height := by
  obtain ⟨⟨bs, hbs, hops, hlen⟩, -⟩ := h
  change (s.closeParen s.ops).Reaches _
  rw [hops]
  refine ⟨_, Shape.closeParen_next hbs rest (by omega), rfl, ?_⟩
  change b < s.height - bs.length
  omega

theorem number_lifts {t : Token} {a : Act} (ht : s.token t = s.pushNum a) (hn : isNotNum t = false) :
    (Shape.run [t] s).Reaches (Lifts s) := by
  refine ⟨⟨some t, s.ops, s.height + 1⟩, ?_, rfl, Nat.lt_succ_self _, hn⟩
  rw [Shape.run, Plan.bind_next, ht]
  rfl

end floor

mutual

theorem Factor.bare_lifts (s : Shape) (f : Factor) (h : f.bare = true) :
    (Shape.run f.tokens s).Reaches (Lifts s) := by
  cases f with
  | decimal digits => exact number_lifts rfl rfl
  | hex digits => exact number_lifts rfl rfl
  | reg name => exact number_lifts rfl rfl
  | word => exact number_lifts rfl rfl
  | deref f => cases h
  | paren e =>
    have hopen : (s.token .lparen).Reaches fun s' => s' = { s with ops := .lparen :: s.ops } := ⟨_, rfl, rfl⟩
    refine hopen.bind fun s₁ hs₁ => ?_
    subst hs₁
    have hawaits : Awaits (.lparen :: s.ops) s.height ⟨some .lparen, .lparen :: s.ops, s.height⟩ :=
      ⟨[], by simp, rfl, le_rfl⟩
    refine Shape.run_reaches (Expr.bare_within _ e h hawaits rfl) fun s₂ hs₂ => ?_
    exact (rparen_lifts hs₂).bind fun s₃ hs₃ => ⟨_, rfl, hs₃.1, hs₃.2, rfl⟩

theorem Term.bare_within {floor : Op} {rest : List Op} {b : Nat} (s : Shape) (t : Term)
    (h : t.bare = true) (hs : Awaits (floor :: rest) b s) (hlow : floor.isLow = true) :
    (Shape.run t.tokens s).Reaches (Within (floor :: rest) b) := by
  cases t with
  | factor f =>
    obtain ⟨s', hs', hlifts⟩ := Factor.bare_lifts s f h
    exact ⟨s', hs', hs.within hlifts⟩
  | mul t o f =>
    obtain ⟨ht, hf⟩ := Bool.and_eq_true_iff.mp h
    refine Shape.run_reaches (Term.bare_within s t ht hs hlow) fun s₁ hs₁ => ?_
    refine (op_awaits (.mul o) hs₁ hlow).bind fun s₂ hs₂ => ?_
    have hs₂' : Awaits (floor :: rest) b { s₂ with prev := some o.token } := hs₂
    obtain ⟨s₃, hs₃, hlifts⟩ := Factor.bare_lifts { s₂ with prev := some o.token } f hf
    exact ⟨s₃, hs₃, hs₂'.within hlifts⟩

theorem Expr.bare_within {floor : Op} {rest : List Op} {b : Nat} (s : Shape) (e : Expr)
    (h : e.bare = true) (hs : Awaits (floor :: rest) b s) (hlow : floor.isLow = true) :
    (Shape.run e.tokens s).Reaches (Within (floor :: rest) b) := by
  cases e with
  | term t => exact Term.bare_within s t h hs hlow
  | add e o t =>
    obtain ⟨he, ht⟩ := Bool.and_eq_true_iff.mp h
    refine Shape.run_reaches (Expr.bare_within s e he hs hlow) fun s₁ hs₁ => ?_
    refine (op_awaits (.add o) hs₁ hlow).bind fun s₂ hs₂ => ?_
    exact Term.bare_within _ t ht hs₂ hlow

end

/-! ## Outside parentheses -/

/-- An operand with its dereferences on the operator stack. -/
structure Reads (f : Factor) (s s' : Shape) : Prop where
  ops : if f.pointed then s'.ops.head? = some .hash else s'.ops = s.ops
  height : s.height < s'.height
  unary : s'.unary = false

theorem Factor.outer_reads {s : Shape} (f : Factor) (h : f.outer = true) (hunary : s.unary = true) :
    (Shape.run f.tokens s).Reaches (Reads f s) := by
  by_cases hp : f.pointed = true
  · match f, h with
    | .deref f, h =>
      have hstar : (s.token .star).Reaches fun s' => s' = { s with ops := .hash :: s.ops } := by
        refine ⟨{ s with ops := .hash :: s.ops }, ?_, rfl⟩
        change (if s.unary then s.pushOp .hash else s.mulDiv .star).next = _
        rw [if_pos hunary]
        rfl
      refine hstar.bind fun s₁ hs₁ => ?_
      subst hs₁
      obtain ⟨s', hs', hreads⟩ :=
        Factor.outer_reads (s := ⟨some .star, .hash :: s.ops, s.height⟩) f h rfl
      refine ⟨s', hs', ?_, hreads.height, hreads.unary⟩
      have hops := hreads.ops
      rw [if_pos hp]
      split at hops
      · exact hops
      · rw [hops]
        rfl
  · have hbare : f.bare = true := by
      cases f with
      | deref f => exact (hp rfl).elim
      | _ => exact h
    obtain ⟨s', hs', hlifts⟩ := Factor.bare_lifts s f hbare
    refine ⟨s', hs', ?_, hlifts.height, hlifts.unary⟩
    rw [if_neg hp]
    exact hlifts.ops

section settles
variable {s : Shape} {tail : List (BinOp × Factor)}

theorem hash_settles (houter : ∀ q ∈ tail, q.2.outer = true) (hhash : s.ops.head? = some .hash)
    (hheight : 0 < s.height) (hunary : s.unary = false) :
    (Shape.run (spell tail) s).Settles (quiet true tail) := by
  induction tail generalizing s with
  | nil => exact ⟨rfl, hheight⟩
  | cons q tail ih =>
    obtain ⟨o, f⟩ := q
    obtain ⟨ops, hops⟩ := List.head?_eq_some_iff.mp hhash
    rw [spell_cons]
    cases o with
    | mul o =>
      have htoken : (s.token o.token).next = none := by
        rw [Shape.token_mulOp o hunary, Shape.mulDiv, if_neg (by rw [hops]; simp), hops]
        rfl
      unfold Plan.Settles
      rw [Shape.run, Plan.bind_next, BinOp.token, htoken]
      exact rfl
    | add o =>
      have htoken : (s.token o.token).Reaches fun s' => s' = s := by
        refine ⟨s, ?_, rfl⟩
        rw [Shape.token_addOp, Shape.addSub, hops]
        exact congrArg (fun ops => some { s with ops := ops }) hops.symm
      refine htoken.settles fun s₁ hs₁ => ?_
      subst hs₁
      refine Shape.run_settles (Factor.outer_reads (s := { s₁ with prev := some o.token }) f
        (houter _ (List.mem_cons_self ..)) o.isNotNum_token) fun s₂ hs₂ => ?_
      refine ih (fun q hq => houter q (List.mem_cons_of_mem _ hq)) ?_ (Nat.zero_lt_of_lt hs₂.height) hs₂.unary
      have hops₂ := hs₂.ops
      split at hops₂
      · exact hops₂
      · rw [hops₂]
        exact hhash

theorem BinOp.isNotNum_token (o : BinOp) : isNotNum o.token = true := by
  cases o with
  | add o => exact o.isNotNum_token
  | mul o => exact o.isNotNum_token

theorem sum_settles {floor : Op} {f : Factor} (hs : Awaits [floor] 1 s) (hlow : floor.isLow = true)
    (hunary : s.unary = true) (hf : f.outer = true) (houter : ∀ q ∈ tail, q.2.outer = true) :
    (Shape.run (f.tokens ++ spell tail) s).Settles (quiet f.pointed tail) := by
  induction tail generalizing s f with
  | nil => exact Shape.run_settles (Factor.outer_reads f hf hunary) fun s₁ hs₁ =>
      ⟨rfl, Nat.zero_lt_of_lt hs₁.height⟩
  | cons q tail ih =>
    obtain ⟨o, g⟩ := q
    refine Shape.run_settles (Factor.outer_reads f hf hunary) fun s₁ hs₁ => ?_
    have hops := hs₁.ops
    split at hops
    · rename_i hp
      rw [hp]
      exact hash_settles houter hops (Nat.zero_lt_of_lt hs₁.height) hs₁.unary
    · rename_i hp
      have hwithin := hs.within ⟨hops, hs₁.height, hs₁.unary⟩
      have hquiet : quiet f.pointed ((o, g) :: tail) = quiet g.pointed tail := by
        rw [Bool.not_eq_true] at hp
        rw [hp]
        rfl
      rw [hquiet, spell_cons]
      refine (op_awaits o hwithin hlow).settles fun s₂ hs₂ => ?_
      exact ih (s := { s₂ with prev := some o.token }) hs₂ o.isNotNum_token
        (houter (o, g) (List.mem_cons_self ..)) fun q hq => houter q (List.mem_cons_of_mem _ hq)

theorem product_stuck {m : MulOp} (o : BinOp) (hops : s.ops = [m.op]) (hunary : s.unary = false) :
    (s.token o.token).next = none := by
  have hne : m.op ≠ .hash := Op.ne_hash_of_isBinary (Op.isBinary_of_isMul m.isMul_op)
  have hstuck : ∀ k : Shape → Plan, (∀ s, (k s).next = none) → ((s.reduce m.op).bind k).next = none := by
    intro k hk
    rw [Plan.bind_next]
    cases (s.reduce m.op).next with
    | none => rfl
    | some s' => exact hk s'
  cases o with
  | mul o =>
    -- below the product the loop reads `op_stack[-1]`
    rw [BinOp.token, Shape.token_mulOp o hunary, Shape.mulDiv, if_neg (by rw [hops]; simp), hops,
      Shape.mulLoop, if_neg hne, if_pos m.isMul_op, Plan.bind_next, hstuck _ fun _ => rfl]
    rfl
  | add o =>
    have hhead : ¬s.ops.head?.all Op.isLow = true := by
      rw [hops]
      cases m <;> decide
    rw [BinOp.token, Shape.token_addOp, Shape.addSub, if_neg hhead, hops, Shape.addLoop,
      if_pos m.isMul_op]
    exact hstuck _ fun _ => rfl

theorem product_settles {o : MulOp} {f : Factor} (hops : s.ops = []) (hunary : s.unary = false)
    (hf : f.outer = true) (houter : ∀ q ∈ tail, q.2.outer = true) :
    (Shape.run (spell ((.mul o, f) :: tail)) s).Settles
      (quiet f.pointed tail && (f.pointed || tail.isEmpty)) := by
  have htoken : (s.token o.token).Reaches fun s' => s' = { s with ops := o.op :: s.ops } := by
    refine ⟨{ s with ops := o.op :: s.ops }, ?_, rfl⟩
    rw [Shape.token_mulOp o hunary, Shape.mulDiv, if_pos hops]
    rfl
  rw [spell_cons]
  refine htoken.settles fun s₁ hs₁ => ?_
  subst hs₁
  refine Shape.run_settles (Factor.outer_reads (s := ⟨some o.token, o.op :: s.ops, s.height⟩) f hf
    o.isNotNum_token) fun s₂ hs₂ => ?_
  have hheight := Nat.zero_lt_of_lt hs₂.height
  have hops₂ := hs₂.ops
  split at hops₂
  · rename_i hp
    rw [hp, Bool.true_or, Bool.and_true]
    exact hash_settles houter hops₂ hheight hs₂.unary
  · rename_i hp
    rw [Bool.not_eq_true] at hp
    rw [hp, Bool.false_or]
    cases tail with
    | nil => exact ⟨rfl, hheight⟩
    | cons q tail =>
      obtain ⟨o', g⟩ := q
      have hbottom : s₂.ops = [o.op] := hops₂.trans (congrArg _ hops)
      have hgood : (quiet false ((o', g) :: tail) && ((o', g) :: tail).isEmpty) = false :=
        Bool.and_false _
      unfold Plan.Settles
      rw [hgood, spell_cons, Shape.run, Plan.bind_next, product_stuck o' hbottom hs₂.unary]
      exact rfl

end settles

theorem steady_of_pointed {e : Expr} (h : e.head.pointed = true) :
    e.steady = quiet true e.tail := by
  unfold Expr.steady
  rw [h]
  match e.tail with
  | [] => rfl
  | (.add _, _) :: rest => exact Bool.and_true _
  | (.mul _, _) :: rest => rfl

theorem Expr.run_settles (e : Expr) (h : e.outer = true) :
    (Shape.run e.tokens ⟨none, [], 0⟩).Settles e.steady := by
  obtain ⟨hhead, htail⟩ := Bool.and_eq_true_iff.mp h
  have houter : ∀ q ∈ e.tail, q.2.outer = true := List.all_eq_true.mp htail
  rw [e.tokens_eq]
  refine Shape.run_settles (Factor.outer_reads e.head hhead rfl) fun s₁ hs₁ => ?_
  have hheight := Nat.zero_lt_of_lt hs₁.height
  have hops₁ := hs₁.ops
  split at hops₁
  · rename_i hp
    rw [steady_of_pointed hp]
    exact hash_settles houter hops₁ hheight hs₁.unary
  · rename_i hp
    rw [Bool.not_eq_true] at hp
    unfold Expr.steady
    rw [hp]
    match htail : e.tail with
    | [] => exact ⟨rfl, hheight⟩
    | (.add o, f) :: rest =>
      rw [htail] at houter
      have htoken : (s₁.token o.token).Reaches fun s' => s' = { s₁ with ops := o.op :: s₁.ops } := by
        refine ⟨{ s₁ with ops := o.op :: s₁.ops }, ?_, rfl⟩
        rw [Shape.token_addOp, Shape.addSub, if_pos (by rw [hops₁]; rfl)]
        rfl
      rw [spell_cons]
      refine htoken.settles fun s₂ hs₂ => ?_
      subst hs₂
      have hawaits : Awaits [o.op] 1 ⟨some o.token, o.op :: s₁.ops, s₁.height⟩ :=
        ⟨[], by simp, congrArg _ hops₁, hheight⟩
      have hsum := sum_settles hawaits o.isLow_op o.isNotNum_token (houter _ (List.mem_cons_self ..))
        fun q hq => houter q (List.mem_cons_of_mem _ hq)
      exact (Bool.and_true _).symm ▸ hsum
    | (.mul o, f) :: rest =>
      rw [htail] at houter
      exact product_settles hops₁ hs₁.unary (houter _ (List.mem_cons_self ..))
        fun q hq => houter q (List.mem_cons_of_mem _ hq)

/-! ## The end -/

theorem endLoop_reaches {s : Shape} (ops : List Op) (h : 0 < s.height) :
    (s.endLoop ops).Reaches fun s' => 0 < s'.height := by
  induction ops generalizing s with
  | nil => exact ⟨_, rfl, h⟩
  | cons o ops ih =>
    rw [Shape.endLoop, if_neg (by omega)]
    split
    · exact Plan.Reaches.bind (Q := fun s' => 0 < s'.height) ⟨_, rfl, h⟩ fun s' hs' => ih hs'
    · -- a single number is joined by the last result
      have hpush : s.pushResult.Reaches fun s' => 2 ≤ s'.height := by
        unfold Shape.pushResult
        split
        · exact ⟨_, rfl, Nat.succ_le_succ h⟩
        · exact ⟨_, rfl, by omega⟩
      have hreduce : (s.pushResult.bind (Shape.reduce o)).Reaches fun s' => 0 < s'.height := by
        refine hpush.bind fun s₁ hs₁ => ⟨_, Shape.reduce_next o hs₁, ?_⟩
        change 0 < s₁.height - 1
        omega
      exact hreduce.bind fun s₂ hs₂ => ih hs₂

/-! ## What the debugger is told -/

/-- No index leaves the stacks, whatever the values. -/
def OnStacks (ts : List Token) : Prop := (plan ts).next.isSome = true

instance (ts : List Token) : Decidable (OnStacks ts) := inferInstanceAs (Decidable (_ = true))

/-- Before an index leaves the stacks one of the code's checks fails. -/
def CheckFails (P : Platform D) (ts : List Token) (dut : State D) : Prop :=
  Act.runAll P (plan ts).acts (.start dut) = none

theorem Expr.onStacks_iff (e : Expr) (h : e.outer = true) : OnStacks e.tokens ↔ e.steady = true := by
  have hrun := e.run_settles h
  unfold Plan.Settles at hrun
  rw [OnStacks, plan, Plan.bind_next, Plan.bind_next]
  cases hnext : (Shape.run e.tokens ⟨none, [], 0⟩).next with
  | none =>
    rw [hnext] at hrun
    simp [show e.steady = false from hrun]
  | some s =>
    rw [hnext] at hrun
    obtain ⟨hsteady, hheight⟩ := hrun
    obtain ⟨s', hs', hpos⟩ := endLoop_reaches s.ops hheight
    refine iff_of_true ?_ hsteady
    change (((s.endLoop s.ops).next.bind _).isSome = true)
    rw [hs']
    change (if s'.height = 0 then Plan.fault else .pure s').next.isSome = true
    rw [if_neg (by omega)]
    rfl

/-- No bad index, and success only for an expression. -/
def Safe (P : Platform D) (ts : List Token) (dut : State D) : Prop :=
  tokensCalculation P ts dut ≠ .error .fault ∧
    ∀ r, tokensCalculation P ts dut = .ok r → WellFormed ts

/-- An expression whose plan stays on the stacks, or a check that fails before the plan's end. -/
theorem tokensCalculation_safe (P : Platform D) (ts : List Token) (hlen : ts.length ≤ 32)
    (dut : State D) :
    (Safe P ts dut ↔ OnStacks ts ∧ WellFormed ts ∨ CheckFails P ts dut) ∧
    ∀ e : Expr, e.tokens = ts → e.outer = true → (OnStacks ts ↔ e.steady = true) := by
  refine ⟨?_, fun e he houter => he ▸ e.onStacks_iff houter⟩
  obtain ⟨hfault, hok⟩ := tokensCalculation_cases P hlen dut
  have hreturns : (∀ r, tokensCalculation P ts dut = .ok r → WellFormed ts) ↔
      ((∃ r, tokensCalculation P ts dut = .ok r) → WellFormed ts) := by
    constructor
    · rintro h ⟨r, hr⟩
      exact h r hr
    · exact fun h r hr => h ⟨r, hr⟩
  rw [Safe, ne_eq, hfault, hreturns, hok, CheckFails, OnStacks]
  cases Act.runAll P (plan ts).acts (.start dut) <;> cases (plan ts).next <;> simp

theorem tokensCalculation_safe_innerPointed :
    Safe bareBoard innerPointed.tokens blank ∧ Safe bareBoard brokenOff blank := by
  obtain ⟨hinner, -⟩ := tokensCalculation_safe bareBoard innerPointed.tokens (by decide) blank
  obtain ⟨hbroken, -⟩ := tokensCalculation_safe bareBoard brokenOff (by decide) blank
  exact ⟨hinner.mpr (.inl ⟨by decide, innerPointed, rfl⟩), hbroken.mpr (.inr rfl)⟩

def balanced : Nat → List Token → Bool
  | depth, [] => depth = 0
  | depth, .lparen :: ts => balanced (depth + 1) ts
  | 0, .rparen :: _ => false
  | depth + 1, .rparen :: ts => balanced depth ts
  | depth, _ :: ts => balanced depth ts

/-- The second `*` reads `op_stack[-1]`. -/
theorem tokensCalculation_safe_refuted : ¬∀ ts : List Token, ts.length ≤ 32 →
    balanced 0 ts = true → Safe bareBoard ts blank := by
  intro h
  have hfault : tokensCalculation bareBoard product blank = .error .fault := rfl
  exact (h product (by decide) (by decide)).1 hfault

end GsEmu.Sdb
