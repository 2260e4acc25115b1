import GsEmu.Lib.Outcome
import GsEmu.Sdb.Grammar

/-! The two stacks: how far a token can fill them, and the four loops on a stretch of operators that
take two operands, where each of them only reduces. -/

namespace GsEmu.Sdb
open Riscv32 Outcome

variable {D : Type} {P : Platform D} {c : Calc D} {o : Op} {E : Stop → Prop}
  {Q R : Calc D → Prop}

/-! ## Filling -/

def Calc.size (c : Calc D) : Nat := c.ops.length + c.nums.length

theorem pushNum_eq (h : c.size < 32) (v : Word) :
    c.pushNum v = .ok { c with nums := v :: c.nums } :=
  if_pos (lt_of_le_of_lt (Nat.le_add_left _ _) h)

theorem pushOp_eq (h : c.size < 32) (o : Op) : c.pushOp o = .ok { c with ops := o :: c.ops } :=
  if_pos (lt_of_le_of_lt (Nat.le_add_right _ _) h)

theorem pushNum_size (v : Word) :
    Ensures (fun _ => True) (c.pushNum v) fun c' =>
      c'.ops = c.ops ∧ c'.nums.length = c.nums.length + 1 := by
  unfold Calc.pushNum
  split
  · exact ⟨rfl, rfl⟩
  · trivial

theorem pushOp_size (o : Op) :
    Ensures (fun _ => True) (c.pushOp o) fun c' => c'.size = c.size + 1 := by
  unfold Calc.pushOp
  split
  · simp only [ensures_ok, Calc.size, List.length_cons]
    omega
  · trivial

theorem readTop_size : Ensures (fun _ => True) (c.readTop P) fun c' =>
    c'.ops = c.ops ∧ c'.nums = c.nums := by
  unfold Calc.readTop
  split
  · trivial
  · split
    · exact ⟨rfl, rfl⟩
    · trivial

theorem reduce_size (o : Op) : Ensures (fun _ => True) (c.reduce o) fun c' =>
    c'.ops = c.ops ∧ c'.nums.length + 1 = c.nums.length := by
  unfold Calc.reduce
  split
  · rename_i a b nums hnums
    cases calculate o b a with
    | ok r => exact ⟨rfl, by rw [hnums]; rfl⟩
    | error e => trivial
  · trivial

theorem closeRound_size (o below : Op) : Ensures (fun _ => True) (c.closeRound P o below) fun c' =>
    c'.nums.length ≤ c.nums.length + 1 := by
  unfold Calc.closeRound
  split
  · refine readTop_size.bind fun c₁ h₁ => (pushNum_size c₁.result).mono fun c₂ h₂ => ?_
    rw [h₂.2, h₁.2]
  · exact (reduce_size o).mono fun c₁ h₁ => by omega

theorem closeParen_size (ops : List Op) (c : Calc D) :
    Ensures (fun _ => True) (closeParen P ops c) fun c' =>
      c'.size ≤ ops.length + c.nums.length := by
  fun_induction closeParen P ops c with
  | case1 c => exact Nat.le_refl _
  | case2 ops c => simp [Calc.size]
  | case3 o c ho => trivial
  | case4 o below ops c ho ih =>
    refine (closeRound_size o below).bind fun c₁ h₁ => (ih c₁).mono fun c₂ h₂ => ?_
    simp only [List.length_cons] at h₂ ⊢
    omega

theorem mulLoop_size (ops : List Op) (c : Calc D) :
    Ensures (fun _ => True) (mulLoop P ops c) fun c' => c'.size ≤ ops.length + c.nums.length := by
  induction ops generalizing c with
  | nil => trivial
  | cons o ops ih =>
    unfold mulLoop
    split
    · trivial
    · split
      · refine (reduce_size o).bind fun c₁ h₁ => (ih c₁).mono fun c₂ h₂ => ?_
        simp only [List.length_cons]
        omega
      · exact Nat.le_refl _

theorem addLoop_size (ops : List Op) (c : Calc D) :
    Ensures (fun _ => True) (addLoop ops c) fun c' => c'.size ≤ ops.length + c.nums.length := by
  induction ops generalizing c with
  | nil => trivial
  | cons o ops ih =>
    unfold addLoop
    split
    · refine (reduce_size o).bind fun c₁ h₁ => (ih c₁).mono fun c₂ h₂ => ?_
      simp only [List.length_cons]
      omega
    · exact Nat.le_refl _

theorem mulDiv_size (o : Op) :
    Ensures (fun _ => True) (mulDiv P o c) fun c' => c'.size ≤ c.size + 1 := by
  have hloop : Ensures (fun _ => True) (if c.ops = [] then .ok c else mulLoop P c.ops c)
      fun c' => c'.size ≤ c.size := by
    split
    · exact Nat.le_refl _
    · exact mulLoop_size c.ops c
  refine hloop.bind fun c₁ h₁ => (pushOp_size o).mono fun c₂ h₂ => ?_
  omega

theorem addSub_size (o : Op) :
    Ensures (fun _ => True) (addSub o c) fun c' => c'.size ≤ c.size + 1 := by
  unfold addSub
  split
  · exact (pushOp_size o).mono fun c' h => by omega
  · exact (addLoop_size c.ops c).mono fun c' h => Nat.le_succ_of_le h

theorem token_size (t : Token) :
    Ensures (fun _ => True) (token P t c) fun c' => c'.size ≤ c.size + 1 := by
  have hnum : ∀ v, Ensures (fun _ => True) (c.pushNum v) fun c' => c'.size ≤ c.size + 1 :=
    fun v => (pushNum_size v).mono fun c' h => by
      simp only [Calc.size, h.1, h.2]
      omega
  have hop : ∀ o, Ensures (fun _ => True) (c.pushOp o) fun c' => c'.size ≤ c.size + 1 :=
    fun o => (pushOp_size o).mono fun c' h => by omega
  cases t with
  | decimal digits => exact hnum _
  | hex digits => exact hnum _
  | reg name =>
    refine (hnum (isaRegStr2val name c.dut).1).bind fun c₁ h₁ => ?_
    split
    · exact h₁
    · trivial
  | word => exact hnum _
  | eq => exact Nat.le_succ _
  | lparen => exact hop _
  | rparen => exact (closeParen_size c.ops c).mono fun c' h => Nat.le_succ_of_le h
  | star =>
    change Ensures _ (if c.unary then c.pushOp .hash else mulDiv P .star c) _
    split
    · exact hop _
    · exact mulDiv_size _
  | slash => exact mulDiv_size _
  | plus => exact addSub_size _
  | minus => exact addSub_size _

theorem run_size (ts : List Token) (c : Calc D) :
    Ensures (fun _ => True) (ts.foldlM (step P) c) fun c' => c'.size ≤ c.size + ts.length := by
  induction ts generalizing c with
  | nil => exact Nat.le_refl _
  | cons t ts ih =>
    rw [List.foldlM_cons]
    have hstep : Ensures (fun _ => True) (step P c t) fun c' => c'.size ≤ c.size + 1 :=
      (token_size t).bind fun c' h => h
    refine hstep.bind fun c₁ h₁ => (ih c₁).mono fun c₂ h₂ => ?_
    simp only [List.length_cons]
    omega

theorem run_append {xs ys : List Token} (hroom : c.size + (xs ++ ys).length ≤ 32)
    (h : c.size + xs.length ≤ 32 → Ensures E (xs.foldlM (step P) c) Q)
    (hk : ∀ c', Q c' → c'.size + ys.length ≤ 32 → Ensures E (ys.foldlM (step P) c') R) :
    Ensures E ((xs ++ ys).foldlM (step P) c) R := by
  rw [List.length_append] at hroom
  rw [List.foldlM_append]
  have hsize : ∀ c', xs.foldlM (step P) c = .ok c' → c'.size ≤ c.size + xs.length := by
    intro c' hc'
    have h' := run_size (P := P) xs c
    rwa [hc'] at h'
  refine ((h (by omega)).also hsize).bind fun c' hc' => hk c' hc'.1 ?_
  have := hc'.2
  omega

theorem run_cons {t : Token} {ys : List Token} (hroom : c.size + (t :: ys).length ≤ 32)
    (h : c.size < 32 → Ensures E (token P t c) Q)
    (hk : ∀ c', Q c' → c'.size + ys.length ≤ 32 →
      Ensures E (ys.foldlM (step P) { c' with prev := some t }) R) :
    Ensures E ((t :: ys).foldlM (step P) c) R := by
  rw [List.length_cons] at hroom
  rw [List.foldlM_cons, step, bind_assoc]
  have hsize : ∀ c', token P t c = .ok c' → c'.size ≤ c.size + 1 := by
    intro c' hc'
    have h' := token_size (P := P) (c := c) t
    rwa [hc'] at h'
  refine ((h (by omega)).also hsize).bind fun c' hc' => hk c' hc'.1 ?_
  have := hc'.2
  omega

theorem run_cons_ok {t : Token} {ys : List Token} {c₁ : Calc D}
    (hroom : c.size + (t :: ys).length ≤ 32) (h : c.size < 32 → token P t c = .ok c₁)
    (hk : c₁.size + ys.length ≤ 32 →
      Ensures E (ys.foldlM (step P) { c₁ with prev := some t }) R) :
    Ensures E ((t :: ys).foldlM (step P) c) R :=
  run_cons (Q := (· = c₁)) hroom (fun hsize => by rw [h hsize]; exact rfl)
    fun c' hc' hroom' => by
      subst hc'
      exact hk hroom'

/-! ## Reducing -/

def collapse (bs : List Op) (c : Calc D) : Except Stop (Calc D) := bs.foldlM Calc.reduce c

theorem collapse_cons (o : Op) (bs : List Op) (c : Calc D) :
    collapse (o :: bs) c = c.reduce o >>= collapse bs := List.foldlM_cons

theorem collapse_append (as bs : List Op) (c : Calc D) :
    collapse (as ++ bs) c = collapse as c >>= collapse bs := List.foldlM_append

theorem collapse_size (bs : List Op) (c : Calc D) : Ensures (fun _ => True) (collapse bs c) fun c' =>
    c'.nums.length + bs.length = c.nums.length := by
  induction bs generalizing c with
  | nil => exact Nat.add_zero _
  | cons o bs ih =>
    rw [collapse_cons]
    refine (reduce_size o).bind fun c₁ h₁ => (ih c₁).mono fun c₂ h₂ => ?_
    rw [List.length_cons]
    omega

theorem map_bind {r : Except Stop (Calc D)} {k : Calc D → Except Stop (Calc D)}
    {f : Calc D → Calc D} : (r >>= k).map f = r >>= fun c => (k c).map f := by
  cases r <;> rfl

theorem Op.not_isMul_of_isLow (h : o.isLow = true) : o.isMul = false := by
  cases o <;> first | rfl | cases h

theorem Op.ne_hash_of_isLow (h : o.isLow = true) : o ≠ .hash := by
  rintro rfl
  cases h

theorem Op.ne_hash_of_isBinary (h : o.isBinary = true) : o ≠ .hash := by
  rintro rfl
  cases h

theorem Op.ne_lparen_of_isBinary (h : o.isBinary = true) : o ≠ .lparen := by
  rintro rfl
  cases h

theorem closeParen_cons {below : Op} (ho : o ≠ .lparen) (hb : below ≠ .hash) (ops : List Op) :
    closeParen P (o :: below :: ops) c = c.reduce o >>= closeParen P (below :: ops) := by
  rw [closeParen, Calc.closeRound, if_neg hb]
  exact fun h => ho h

theorem closeParen_collapse {bs : List Op} (h : ∀ o ∈ bs, o.isBinary = true) (rest : List Op)
    (c : Calc D) : closeParen P (bs ++ .lparen :: rest) c =
      (collapse bs c).map fun c => { c with ops := rest } := by
  induction bs generalizing c with
  | nil => rfl
  | cons o bs ih =>
    have ho := Op.ne_lparen_of_isBinary (h o (List.mem_cons_self ..))
    have htail : ∀ o ∈ bs, o.isBinary = true := fun o' ho' => h o' (List.mem_cons_of_mem _ ho')
    have hround : closeParen P (o :: (bs ++ .lparen :: rest)) c =
        c.reduce o >>= closeParen P (bs ++ .lparen :: rest) := by
      cases bs with
      | nil => exact closeParen_cons ho (by decide) rest
      | cons below bs =>
        exact closeParen_cons ho (Op.ne_hash_of_isBinary (htail below (List.mem_cons_self ..))) _
    rw [List.cons_append, hround, collapse_cons, map_bind]
    exact bind_congr fun c' => ih htail c'

theorem mulLoop_collapse {ms : List Op} (h : ∀ o ∈ ms, o.isMul = true) {floor : Op}
    (hfloor : floor.isLow = true) (rest : List Op) (c : Calc D) :
    mulLoop P (ms ++ floor :: rest) c =
      (collapse ms c).map fun c => { c with ops := floor :: rest } := by
  induction ms generalizing c with
  | nil =>
    rw [List.nil_append, mulLoop, if_neg (Op.ne_hash_of_isLow hfloor),
      if_neg (by rw [Op.not_isMul_of_isLow hfloor]; decide)]
    rfl
  | cons o ms ih =>
    have ho := h o (List.mem_cons_self ..)
    rw [List.cons_append, mulLoop, if_neg (Op.ne_hash_of_isBinary (Op.isBinary_of_isMul ho)),
      if_pos ho, collapse_cons, map_bind]
    exact bind_congr fun c' => ih (fun o' ho' => h o' (List.mem_cons_of_mem _ ho')) c'

theorem endLoop_collapse {bs : List Op} (h : ∀ o ∈ bs, o.isBinary = true)
    (hlen : bs.length < c.nums.length) :
    endLoop P bs c = (collapse bs c).map fun c => { c with ops := [] } := by
  induction bs generalizing c with
  | nil => rfl
  | cons o bs ih =>
    have htail : ∀ o ∈ bs, o.isBinary = true := fun o' ho' => h o' (List.mem_cons_of_mem _ ho')
    obtain ⟨a, nums, hnums⟩ := List.exists_cons_of_length_pos (Nat.zero_lt_of_lt hlen)
    -- with more numbers than operators no round runs out of them
    have hpush : c.pushResult = .ok c := if_neg (by simp only [List.length_cons] at hlen; omega)
    have hround : endLoop P (o :: bs) c = c.reduce o >>= endLoop P bs := by
      rw [endLoop, hnums]
      simp only
      rw [if_neg (Op.ne_hash_of_isBinary (h o (List.mem_cons_self ..))), hpush]
      rfl
    rw [hround, collapse_cons, map_bind]
    cases hr : c.reduce o with
    | error e => rfl
    | ok c' =>
      have hsize := reduce_size (c := c) o
      rw [hr] at hsize
      refine ih htail ?_
      have := hsize.2
      simp only [List.length_cons] at hlen
      omega

end GsEmu.Sdb
