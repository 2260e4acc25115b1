import Mathlib.Data.List.TakeWhile
import GsEmu.Sdb.Lexing
import GsEmu.Sdb.Safety

/-! `expr` from the text to the value: what is typed for a list of tokens is read back as these tokens. -/

namespace GsEmu.Sdb
open Bytes Regex Riscv32

variable {D : Type}

/-! ## From the arrays to the evaluator -/

def decDigit (b : Byte) : Fin 10 := ⟨(b.toNat - (ch '0').toNat) % 10, Nat.mod_lt _ (by decide)⟩

def hexDigit (b : Byte) : Fin 16 :=
  let n :=
    if isDigit b then b.toNat - (ch '0').toNat
    else if inRange 'A' 'F' b then b.toNat - (ch 'A').toNat + 10
    else b.toNat - (ch 'a').toNat + 10
  ⟨n % 16, Nat.mod_lt _ (by decide)⟩

def regName (text : List Byte) : String := String.ofList (text.map fun b => Char.ofNat b.toNat)

/-- What the evaluator reads of a slot: `atol`, `strtol` behind the `0x`, and the name behind the `$`. A text
without its NUL runs on into the next slot. -/
def Slot.token (s : Slot) : Option Token :=
  match s.type with
  | some .decimal => (cString 32 s.str).map fun text => .decimal ((text.takeWhile isDigit).map decDigit)
  | some .hex => (cString 32 s.str).map fun text => .hex (((text.drop 2).takeWhile isHexDigit).map hexDigit)
  | some .reg => (cString 32 s.str).map fun text => .reg (regName (text.drop 1))
  | some .word => some .word
  | some .eq => some .eq
  | some .plus => some .plus
  | some .minus => some .minus
  | some .star => some .star
  | some .slash => some .slash
  | some .lparen => some .lparen
  | some .rparen => some .rparen
  | some .notype | none => none

def Tokens.read (t : Tokens) : Option (List Token) := (List.range t.nrToken).mapM fun i => (t.slot i).token

def lastDut (P : Platform D) : List Token → Calc D → State D
  | [], c => c.dut
  | t :: ts, c =>
    match step P c t with
    | .ok c => lastDut P ts c
    | .error _ => c.dut

/-- What a call of `expr` leaves: the value with `*success`, the tokens and the machine. -/
structure Evaluated (D : Type) where
  value : Option Word
  tokens : Tokens
  dut : State D

/-- Why it does not return: an array or a text that is overrun, or the evaluator. -/
inductive Crash
  | overrun
  | stop (s : Stop)
  deriving DecidableEq

def evaluate (P : Platform D) (ts : List Token) (t : Tokens) (dut : State D) : Except Crash (Evaluated D) :=
  match tokensCalculation P ts dut with
  | .ok (v, dut) => .ok ⟨some v, t, dut⟩
  | .error .failed => .ok ⟨none, t, lastDut P ts (Calc.start dut)⟩
  | .error s => .error (.stop s)

def expr (P : Platform D) (e : CString) (t : Tokens) (dut : State D) : Except Crash (Evaluated D) :=
  match exprTokens e t with
  | .error _ => .error .overrun
  | .ok (false, t) => .ok ⟨none, t, dut⟩
  | .ok (true, t) =>
    match t.read with
    | none => .error .overrun
    | some ts => evaluate P ts t dut

/-! ## Texts -/

def Token.type : Token → TokenType
  | .decimal _ => .decimal
  | .hex _ => .hex
  | .reg _ => .reg
  | .word => .word
  | .eq => .eq
  | .plus => .plus
  | .minus => .minus
  | .star => .star
  | .slash => .slash
  | .lparen => .lparen
  | .rparen => .rparen

def Token.isOperand : Token → Bool
  | .decimal _ | .hex _ | .reg _ | .word => true
  | _ => false

inductive Token.Text : Token → List Byte → Prop
  | decimal {c : Byte} {w : List Byte} :
    (∀ b ∈ c :: w, isDigit b = true) → Text (.decimal ((c :: w).map decDigit)) (c :: w)
  | hex {c : Byte} {w : List Byte} :
    (∀ b ∈ c :: w, isHexDigit b = true) → Text (.hex ((c :: w).map hexDigit)) (ch '0' :: ch 'x' :: c :: w)
  | reg {c : Byte} {w : List Byte} :
    (∀ b ∈ c :: w, isAlnum b = true) → Text (.reg (regName (c :: w))) (ch '$' :: c :: w)
  | word {c : Byte} {w : List Byte} :
    (isAlpha c || c = ch '_') = true → (∀ b ∈ w, isWord b = true) → Text .word (c :: w)
  | eq : Text .eq [ch '=', ch '=']
  | plus : Text .plus [ch '+']
  | minus : Text .minus [ch '-']
  | star : Text .star [ch '*']
  | slash : Text .slash [ch '/']
  | lparen : Text .lparen [ch '(']
  | rparen : Text .rparen [ch ')']

def blanks (n : Nat) : List Byte := List.replicate n (ch ' ')

/-- The ways to write tokens, with any blanks between them and in texts that have room. -/
inductive Writes : List Token → List Byte → Prop
  | nil (n : Nat) : Writes [] (blanks n)
  | cons {t : Token} {text : List Byte} {ts : List Token} {s : List Byte} (n : Nat) :
    t.Text text → text.length < 32 → Writes ts s → Writes (t :: ts) (blanks n ++ (text ++ s))

/-- No two numbers or names stand side by side. -/
def Apart (ts : List Token) : Prop := ts.IsChain fun t u => t.isOperand = true → u.isOperand = false

variable {t : Token} {text s : List Byte} {ts : List Token} {type : TokenType} {n : Nat}

/-! ## The rule of a token -/

theorem firstRule_of {r : Rule} (i : Nat) (hr : rules[i]? = some r)
    (hbefore : ∀ q ∈ rules.take i, ∀ k, ¬Matches q.regex none s k)
    (hm : IsGreatest {k | Matches r.regex none s k} n) : FirstRule s r.type n := by
  obtain ⟨hi, rfl⟩ := List.getElem?_eq_some_iff.mp hr
  refine ⟨rules.take i, rules[i], rules.drop (i + 1), ?_, rfl, hm, hbefore⟩
  rw [← List.drop_eq_getElem_cons hi, List.take_append_drop]

theorem not_matches_of_begins {c : Byte} {q : Rule} (h : begins q.regex c = false) (k : Nat) :
    ¬Matches q.regex none (c :: s) k := fun hm => by
  have hbegins := hm.begins
  rw [h] at hbegins
  cases hbegins

theorem not_matches_of_first {i : Nat} {c : Byte} (h : ∀ q ∈ rules.take i, begins q.regex c = false) :
    ∀ q ∈ rules.take i, ∀ k, ¬Matches q.regex none (c :: s) k :=
  fun q hq => not_matches_of_begins (h q hq)

theorem begins_digit : ∀ c : Byte, isDigit c = true → ∀ q ∈ rules.take 8, begins q.regex c = false := by
  decide +kernel

theorem begins_letter : ∀ c : Byte, (isAlpha c || c = ch '_') = true →
    ∀ q ∈ rules.take 11, begins q.regex c = false := by
  decide +kernel

theorem isWord_of_isDigit {c : Byte} (h : isDigit c = true) : isWord c = true := by
  unfold isWord isAlnum
  rw [h]
  rfl

theorem isWord_of_isAlnum {c : Byte} (h : isAlnum c = true) : isWord c = true := by
  unfold isWord
  rw [h]
  rfl

theorem isWord_of_isHexDigit : ∀ c : Byte, isHexDigit c = true → isWord c = true := by decide +kernel

theorem isWord_of_letter : ∀ c : Byte, (isAlpha c || c = ch '_') = true → isWord c = true := by decide +kernel

theorem outside {p : Byte → Bool} (hp : ∀ c, p c = true → isWord c = true)
    (hend : ∀ c ∈ s.head?, isWord c = false) : ∀ c ∈ s.head?, p c = false := by
  intro c hc
  by_contra hin
  have hword := hp c (Bool.eq_true_of_not_eq_false hin)
  rw [hend c hc] at hword
  cases hword

theorem atBound_end {b : Option Byte} (hb : b.any isWord = true) (hend : ∀ c ∈ s.head?, isWord c = false) :
    atBound isWord b s.head? = true := by
  have hafter : s.head?.any isWord = false := by
    cases hs : s.head? with
    | none => rfl
    | some c => exact hend c hs
  rw [atBound, hb, hafter]
  rfl

theorem any_getLast? {w : List Byte} {c : Byte} (hc : isWord c = true) (hw : ∀ b ∈ w, isWord b = true) :
    (w.getLast?.or (some c)).any isWord = true := by
  cases hlast : w.getLast? with
  | none => exact hc
  | some b => exact hw b (List.mem_of_getLast? hlast)

theorem firstRule_decimal {c : Byte} {w : List Byte} (hw : ∀ b ∈ c :: w, isDigit b = true)
    (hend : ∀ d ∈ s.head?, isWord d = false) : FirstRule (c :: w ++ s) .decimal (w.length + 1) := by
  obtain ⟨hc, hw⟩ := List.forall_mem_cons.mp hw
  refine firstRule_of 9 rfl (fun q hq k hm => ?_) (isGreatest_bound ?_ (isGreatest_one hc
    (isGreatest_many (by simp) hw (outside (fun _ => isWord_of_isDigit) hend) ⟨?_, rfl⟩)))
  · have hsplit : rules.take 9 = rules.take 8 ++ [⟨.hex, [lit '0', lit 'x', .one isHexDigit, .many isHexDigit]⟩] :=
      rfl
    rw [hsplit, List.mem_append, List.mem_singleton] at hq
    rcases hq with hq | rfl
    · exact not_matches_of_begins (begins_digit c hc q hq) k hm
    · -- behind the first digit there is no `x`
      obtain ⟨_, _, _, hs, -, -, d, _, _, hs', hd, -⟩ := hm
      obtain ⟨-, rfl⟩ := List.cons.inj hs
      have hx : d = ch 'x' := of_decide_eq_true hd
      cases w with
      | nil =>
        have hword := hend d (by rw [show s = _ from hs']; rfl)
        rw [hx] at hword
        exact absurd hword (by decide)
      | cons e w =>
        obtain ⟨rfl, -⟩ := List.cons.inj hs'
        have hdigit := hw _ List.mem_cons_self
        rw [hx] at hdigit
        exact absurd hdigit (by decide)
  · change ((none : Option Byte).any isWord != (some c).any isWord) = true
    rw [Option.any_some, isWord_of_isDigit hc]
    rfl
  · exact atBound_end (any_getLast? (isWord_of_isDigit hc) fun b hb => isWord_of_isDigit (hw b hb)) hend

theorem firstRule_word {c : Byte} {w : List Byte} (hc : (isAlpha c || c = ch '_') = true)
    (hw : ∀ b ∈ w, isWord b = true) (hend : ∀ d ∈ s.head?, isWord d = false) :
    FirstRule (c :: w ++ s) .word (w.length + 1) := by
  refine firstRule_of 11 rfl (not_matches_of_first (begins_letter c hc)) (isGreatest_bound ?_ (isGreatest_one hc
    (isGreatest_many (by simp) hw hend ⟨?_, rfl⟩)))
  · change ((none : Option Byte).any isWord != (some c).any isWord) = true
    rw [Option.any_some, isWord_of_letter c hc]
    rfl
  · exact atBound_end (any_getLast? (isWord_of_letter c hc) hw) hend

theorem firstRule_hex {c : Byte} {w : List Byte} (hw : ∀ b ∈ c :: w, isHexDigit b = true)
    (hend : ∀ d ∈ s.head?, isWord d = false) :
    FirstRule (ch '0' :: ch 'x' :: c :: w ++ s) .hex (w.length + 3) := by
  obtain ⟨hc, hw⟩ := List.forall_mem_cons.mp hw
  exact firstRule_of 8 rfl (not_matches_of_first (by decide)) (isGreatest_one (by decide) (isGreatest_one (by decide)
    (isGreatest_one hc (isGreatest_many (by simp) hw (outside isWord_of_isHexDigit hend) rfl))))

theorem firstRule_reg {c : Byte} {w : List Byte} (hw : ∀ b ∈ c :: w, isAlnum b = true)
    (hend : ∀ d ∈ s.head?, isWord d = false) : FirstRule (ch '$' :: c :: w ++ s) .reg (w.length + 2) := by
  obtain ⟨hc, hw⟩ := List.forall_mem_cons.mp hw
  exact firstRule_of 10 rfl (not_matches_of_first (by decide)) (isGreatest_one (by decide) (isGreatest_one hc
    (isGreatest_many (by simp) hw (outside (fun _ => isWord_of_isAlnum) hend) rfl)))

theorem firstRule_blanks (n : Nat) (hs : ∀ c ∈ s.head?, c ≠ ch ' ') :
    FirstRule (blanks (n + 1) ++ s) .notype (n + 1) := by
  have hrest : IsGreatest {k | Matches [.many (decide <| · = ch ' ')] (some (ch ' ')) (blanks n ++ s) k}
      (blanks n).length :=
    isGreatest_many (by simp) (fun c hc => decide_eq_true (List.eq_of_mem_replicate hc))
      (fun c hc => decide_eq_false (hs c hc)) rfl
  rw [blanks, List.length_replicate] at hrest
  exact firstRule_of 0 rfl (by simp) (isGreatest_one (by decide) hrest)

theorem Token.Text.firstRule (h : t.Text text) (hend : t.isOperand = true → ∀ c ∈ s.head?, isWord c = false) :
    FirstRule (text ++ s) t.type text.length := by
  cases h with
  | decimal hw => exact firstRule_decimal hw (hend rfl)
  | hex hw => exact firstRule_hex hw (hend rfl)
  | reg hw => exact firstRule_reg hw (hend rfl)
  | word hc hw => exact firstRule_word hc hw (hend rfl)
  | eq =>
    exact firstRule_of 7 rfl (not_matches_of_first (by decide)) (isGreatest_one (by decide)
      (isGreatest_one (by decide) isGreatest_nil))
  | plus => exact firstRule_of 1 rfl (not_matches_of_first (by decide)) (isGreatest_one (by decide) isGreatest_nil)
  | minus => exact firstRule_of 2 rfl (not_matches_of_first (by decide)) (isGreatest_one (by decide) isGreatest_nil)
  | star => exact firstRule_of 3 rfl (not_matches_of_first (by decide)) (isGreatest_one (by decide) isGreatest_nil)
  | slash => exact firstRule_of 4 rfl (not_matches_of_first (by decide)) (isGreatest_one (by decide) isGreatest_nil)
  | lparen => exact firstRule_of 5 rfl (not_matches_of_first (by decide)) (isGreatest_one (by decide) isGreatest_nil)
  | rparen => exact firstRule_of 6 rfl (not_matches_of_first (by decide)) (isGreatest_one (by decide) isGreatest_nil)

/-! ## The split of a text -/

variable {ls : List Lexeme} {rest : List Byte}

theorem Lexes.append (h : FirstRule (text ++ s) type text.length) (hs : Lexes s ls rest) :
    Lexes (text ++ s) (⟨type, text⟩ :: ls) rest := by
  have hcons : Lexes (text ++ s) (⟨type, (text ++ s).take text.length⟩ :: ls) rest :=
    .cons h (by rwa [List.drop_left])
  rwa [List.take_left] at hcons

theorem Token.Text.head (h : t.Text text) : ∃ c w, text = c :: w ∧ c ≠ ch ' ' ∧
    (t.isOperand = false → isWord c = false) := by
  cases h with
  | @decimal c w hw =>
    refine ⟨c, w, rfl, ?_, nofun⟩
    rintro rfl
    exact absurd (hw _ List.mem_cons_self) (by decide)
  | @hex c w _ => exact ⟨_, _, rfl, by decide, nofun⟩
  | @reg c w _ => exact ⟨_, _, rfl, by decide, nofun⟩
  | @word c w hc _ =>
    refine ⟨c, w, rfl, ?_, nofun⟩
    rintro rfl
    exact absurd hc (by decide)
  | _ => exact ⟨_, _, rfl, by decide, fun _ => by decide⟩

theorem Writes.head (h : Writes ts s) (hts : ∀ t ∈ ts.head?, t.isOperand = false) :
    ∀ c ∈ s.head?, isWord c = false := by
  have hblank : isWord (ch ' ') = false := by decide
  cases h with
  | nil n =>
    cases n with
    | zero => exact nofun
    | succ n => exact fun c hc => Option.some.inj hc ▸ hblank
  | @cons t text ts s n ht _ _ =>
    cases n with
    | zero =>
      obtain ⟨d, w, rfl, -, hd⟩ := ht.head
      exact fun c hc => Option.some.inj hc ▸ hd (hts t rfl)
    | succ n => exact fun c hc => Option.some.inj hc ▸ hblank

structure Spells (l : Lexeme) (t : Token) : Prop where
  type : l.type = t.type
  text : t.Text l.text
  short : l.text.length < 32

theorem Token.type_ne (t : Token) : t.type ≠ .notype := by cases t <;> exact nofun

theorem stored_cons (l : Lexeme) (ls : List Lexeme) :
    stored (l :: ls) = if l.type = .notype then stored ls else l :: stored ls := by
  unfold stored
  rw [List.filter_cons]
  by_cases h : l.type = .notype <;> simp [h]

theorem Writes.lexes (h : Writes ts s) (ha : Apart ts) :
    ∃ ls, Lexes s ls [] ∧ List.Forall₂ Spells (stored ls) ts := by
  induction h with
  | nil n =>
    cases n with
    | zero => exact ⟨[], .nil, .nil⟩
    | succ n =>
      have hfirst : FirstRule (blanks (n + 1) ++ []) .notype (blanks (n + 1)).length := by
        rw [blanks, List.length_replicate]
        exact firstRule_blanks n (by simp)
      have hblanks := Lexes.append hfirst .nil
      rw [List.append_nil] at hblanks
      exact ⟨_, hblanks, .nil⟩
  | @cons t text ts s n ht hshort hs ih =>
    obtain ⟨ls, hls, hwritten⟩ := ih ha.tail
    have hend : t.isOperand = true → ∀ c ∈ s.head?, isWord c = false := fun hop =>
      hs.head fun u hu => (List.isChain_cons.mp ha).1 u hu hop
    have htoken : Lexes (text ++ s) (⟨t.type, text⟩ :: ls) [] := .append (ht.firstRule hend) hls
    have hspells : List.Forall₂ Spells (stored (⟨t.type, text⟩ :: ls)) (t :: ts) := by
      rw [stored_cons, if_neg t.type_ne]
      exact .cons ⟨rfl, ht, hshort⟩ hwritten
    cases n with
    | zero => exact ⟨_, htoken, hspells⟩
    | succ n =>
      obtain ⟨d, w, rfl, hd, -⟩ := ht.head
      refine ⟨⟨.notype, blanks (n + 1)⟩ :: ⟨t.type, d :: w⟩ :: ls, .append ?_ htoken, ?_⟩
      · rw [blanks, List.length_replicate]
        exact firstRule_blanks n fun c hc => Option.some.inj hc ▸ hd
      · rw [stored_cons, if_pos rfl]
        exact hspells

/-! ## What `make_token` checks -/

theorem opens_cons (l : Lexeme) (ls : List Lexeme) :
    opens (l :: ls) = opens ls + if l.type = .lparen then 1 else 0 := by
  simp [opens, List.countP_cons]

theorem closes_cons (l : Lexeme) (ls : List Lexeme) :
    closes (l :: ls) = closes ls + if l.type = .rparen then 1 else 0 := by
  simp [closes, List.countP_cons]

/-- With `d` of them open, the parentheses of the lexemes close what is open and nothing else. -/
def Closes (d : Nat) (ls : List Lexeme) : Prop :=
  (∀ ls', ls' <+: ls → closes ls' ≤ opens ls' + d) ∧ closes ls = opens ls + d

theorem closes_cons_iff {d : Nat} {l : Lexeme} : Closes d (l :: ls) ↔
    (if l.type = .rparen then 0 < d else True) ∧
      Closes (if l.type = .lparen then d + 1 else if l.type = .rparen then d - 1 else d) ls := by
  have hstep : ∀ ls', (closes (l :: ls') ≤ opens (l :: ls') + d ↔ closes ls' + (if l.type = .rparen then 1 else 0) ≤
      opens ls' + (if l.type = .lparen then 1 else 0) + d) := fun ls' => by rw [closes_cons, opens_cons]
  have hbegin : (∀ ls', ls' <+: l :: ls → closes ls' ≤ opens ls' + d) ↔
      ∀ ls', ls' <+: ls → closes (l :: ls') ≤ opens (l :: ls') + d := by
    constructor
    · exact fun h ls' hls' => h _ (List.cons_prefix_cons.mpr ⟨rfl, hls'⟩)
    · intro h ls' hls'
      cases ls' with
      | nil => exact Nat.zero_le _
      | cons l' ls' =>
        obtain ⟨rfl, htail⟩ := List.cons_prefix_cons.mp hls'
        exact h ls' htail
  unfold Closes
  rw [hbegin, closes_cons, opens_cons]
  simp only [hstep]
  by_cases hl : l.type = .lparen
  · simp only [hl, reduceCtorEq, if_true, if_false, true_and]
    refine and_congr (forall₂_congr fun ls' _ => ?_) ?_ <;> omega
  · by_cases hr : l.type = .rparen
    · simp only [hr, reduceCtorEq, if_true, if_false]
      constructor
      · rintro ⟨hall, hsum⟩
        have hnil := hall [] (List.nil_prefix)
        have hpos : 0 < d := by
          simp only [closes, opens, List.countP_nil] at hnil
          omega
        refine ⟨hpos, fun ls' hls' => ?_, by omega⟩
        have hone := hall ls' hls'
        omega
      · rintro ⟨hpos, hall, hsum⟩
        refine ⟨fun ls' hls' => ?_, by omega⟩
        have hone := hall ls' hls'
        omega
    · simp only [hl, hr, if_false, true_and, Nat.add_zero]

theorem balanced_iff {d : Nat} (h : List.Forall₂ Spells (stored ls) ts) :
    balanced d ts = true ↔ Closes d ls := by
  induction ls generalizing ts d with
  | nil =>
    cases h
    simp [balanced, Closes, closes, opens, eq_comm]
  | cons l ls ih =>
    rw [stored_cons] at h
    rw [closes_cons_iff]
    by_cases hl : l.type = .notype
    · rw [if_pos hl] at h
      simp only [hl, reduceCtorEq, if_false, true_and]
      exact ih h
    · rw [if_neg hl] at h
      obtain ⟨t, ts, ht, hrest, rfl⟩ := List.forall₂_cons_left_iff.mp h
      rw [ht.type]
      cases t with
      | lparen => simpa [balanced, Token.type] using ih hrest
      | rparen =>
        cases d with
        | zero => simp [balanced, Token.type]
        | succ d => simpa [balanced, Token.type] using ih hrest
      | _ => simpa [balanced, Token.type] using ih hrest

theorem Lexes.initial {ls' : List Lexeme} (h : Lexes s ls rest) (h' : Lexes s ls' []) : ls <+: ls' := by
  induction h generalizing ls' with
  | nil => exact List.nil_prefix
  | cons hfirst _ ih =>
    obtain ⟨ls', rfl, htail⟩ := h'.head hfirst
    exact List.cons_prefix_cons.mpr ⟨rfl, ih htail⟩

theorem short_of_spells (h : List.Forall₂ Spells (stored ls) ts) : ∀ l ∈ stored ls, l.text.length < 32 := by
  intro l hl
  obtain ⟨i, hi, rfl⟩ := List.getElem_of_mem hl
  have hlen := h.length_eq
  exact (List.Forall₂.get h hi (hlen ▸ hi)).short

theorem tokensFit_of_spells (h : Lexes s ls []) (hs : List.Forall₂ Spells (stored ls) ts)
    (hfew : ts.length ≤ 32) : TokensFit s := by
  have hshort := short_of_spells hs
  refine ⟨fun ls₀ l rest hlexes _ hover => ?_, fun ls' h' l hl => ?_⟩
  · have hinitial := hlexes.initial h
    have hstored : (stored (ls₀ ++ [l])).length ≤ 32 :=
      ((hinitial.sublist.filter _).length_le.trans_eq hs.length_eq).trans hfew
    rcases hover with ⟨htype, -, hlong⟩ | ⟨hdepth, hparen⟩
    · have hmem : l ∈ stored ls :=
        List.mem_filter.mpr ⟨hinitial.subset (List.mem_append_right _ (List.mem_singleton_self l)), by simpa using htype⟩
      exact absurd (hshort l hmem) (by omega)
    · -- 32 open parentheses are 32 tokens
      have hne : l.type ≠ .notype := by rcases hparen with h | h <;> rw [h] <;> exact nofun
      have hopens := opens_le_stored ls₀
      rw [stored_snoc, if_neg hne, List.length_append, List.length_singleton] at hstored
      omega
  · rw [h.unique h'.lexes] at hl
    exact hshort l hl

theorem accepts_iff (h : Lexes s ls []) (hs : List.Forall₂ Spells (stored ls) ts) (hfew : ts.length ≤ 32) :
    (∃ ls', Accepts s ls') ↔ balanced 0 ts = true := by
  rw [balanced_iff hs]
  constructor
  · rintro ⟨ls', h'⟩
    rw [← h.unique h'.lexes]
    exact ⟨h'.admitted.nested, h'.closed⟩
  · rintro ⟨hnested, hclosed⟩
    exact ⟨ls, h, ⟨hs.length_eq.trans_le hfew, hnested⟩, hclosed⟩

/-! ## Reading back -/

theorem takeWhile_all {p : Byte → Bool} {w : List Byte} (h : ∀ b ∈ w, p b = true) : w.takeWhile p = w :=
  List.takeWhile_eq_self_iff.mpr h

theorem Spells.token {l : Lexeme} {slot : Slot} (h : Spells l t) (htype : slot.type = some l.type)
    (htext : cString 32 slot.str = some l.text) : slot.token = some t := by
  obtain ⟨rule, text⟩ := l
  obtain ⟨hrule, hwritten, -⟩ := h
  have htype : slot.type = some t.type := htype.trans (congrArg some hrule)
  have htext : cString 32 slot.str = some text := htext
  have hwritten : t.Text text := hwritten
  unfold Slot.token
  rw [htype]
  cases hwritten with
  | @decimal c w hw =>
    change (cString 32 slot.str).map _ = _
    rw [htext, Option.map_some, takeWhile_all hw]
  | @hex c w hw =>
    change (cString 32 slot.str).map _ = _
    rw [htext, Option.map_some]
    change some (Token.hex (((c :: w).takeWhile isHexDigit).map hexDigit)) = _
    rw [takeWhile_all hw]
  | @reg c w hw =>
    change (cString 32 slot.str).map _ = _
    rw [htext]
    rfl
  | _ => rfl

theorem mapM_range {f : Nat → Option Token} (h : ∀ i (hi : i < ts.length), f i = some ts[i]) :
    (List.range ts.length).mapM f = some ts := by
  induction ts using List.reverseRecOn with
  | nil => rfl
  | append_singleton ts t ih =>
    have hlast := h ts.length (by simp)
    have hinit : (List.range ts.length).mapM f = some ts := ih fun i hi => by
      rw [h i (by rw [List.length_append]; omega), List.getElem_append_left hi]
    rw [List.length_append, List.length_singleton, List.range_succ, List.mapM_append, hinit]
    simp [hlast]

theorem Held.read {tokens : Tokens} (h : Held tokens (stored ls)) (hs : List.Forall₂ Spells (stored ls) ts) :
    tokens.read = some ts := by
  rw [Tokens.read, h.count, hs.length_eq]
  refine mapM_range fun i hi => ?_
  have hi' : i < (stored ls).length := hs.length_eq ▸ hi
  obtain ⟨htype, htext⟩ := h.slots i hi'
  exact (List.Forall₂.get hs hi' hi).token htype htext

/-! ## Expressions -/

theorem apart_append {us : List Token} (hts : Apart ts) (hus : Apart us)
    (h : ∀ u ∈ us.head?, u.isOperand = false) : Apart (ts ++ us) :=
  List.isChain_append.mpr ⟨hts, hus, fun _ _ u hu _ => h u hu⟩

theorem apart_cons (h : t.isOperand = false) (hts : Apart ts) : Apart (t :: ts) :=
  List.isChain_cons.mpr ⟨fun _ _ hop => absurd (hop.symm.trans h) Bool.noConfusion, hts⟩

theorem AddOp.isOperand_token (o : AddOp) : o.token.isOperand = false := by cases o <;> rfl

theorem MulOp.isOperand_token (o : MulOp) : o.token.isOperand = false := by cases o <;> rfl

mutual

theorem Expr.apart (e : Expr) : Apart e.tokens := by
  cases e with
  | term t => exact t.apart
  | add e o t =>
    exact apart_append e.apart (apart_cons o.isOperand_token t.apart) fun u hu =>
      Option.some.inj hu ▸ o.isOperand_token

theorem Term.apart (t : Term) : Apart t.tokens := by
  cases t with
  | factor f => exact f.apart
  | mul t o f =>
    exact apart_append t.apart (apart_cons o.isOperand_token f.apart) fun u hu =>
      Option.some.inj hu ▸ o.isOperand_token

theorem Factor.apart (f : Factor) : Apart f.tokens := by
  cases f with
  | paren e =>
    exact apart_cons rfl (apart_append e.apart (List.isChain_singleton _) fun u hu => Option.some.inj hu ▸ rfl)
  | deref f => exact apart_cons rfl f.apart
  | _ => exact List.isChain_singleton _

end

theorem AddOp.balanced_token (o : AddOp) (d : Nat) (ts : List Token) :
    balanced d (o.token :: ts) = balanced d ts := by
  cases o <;> cases d <;> rfl

theorem MulOp.balanced_token (o : MulOp) (d : Nat) (ts : List Token) :
    balanced d (o.token :: ts) = balanced d ts := by
  cases o <;> cases d <;> rfl

mutual

theorem Expr.balanced (e : Expr) (d : Nat) (ts : List Token) :
    Sdb.balanced d (e.tokens ++ ts) = Sdb.balanced d ts := by
  cases e with
  | term t => exact t.balanced d ts
  | add e o t =>
    rw [Expr.tokens, List.append_assoc, e.balanced, List.cons_append, o.balanced_token, t.balanced]

theorem Term.balanced (t : Term) (d : Nat) (ts : List Token) :
    Sdb.balanced d (t.tokens ++ ts) = Sdb.balanced d ts := by
  cases t with
  | factor f => exact f.balanced d ts
  | mul t o f =>
    rw [Term.tokens, List.append_assoc, t.balanced, List.cons_append, o.balanced_token, f.balanced]

theorem Factor.balanced (f : Factor) (d : Nat) (ts : List Token) :
    Sdb.balanced d (f.tokens ++ ts) = Sdb.balanced d ts := by
  cases f with
  | paren e =>
    have hopen : Sdb.balanced d ((Factor.paren e).tokens ++ ts) =
        Sdb.balanced (d + 1) (e.tokens ++ (.rparen :: ts)) := by
      rw [Factor.tokens, List.cons_append, List.append_assoc]
      cases d <;> rfl
    rw [hopen, e.balanced]
    rfl
  | deref f =>
    have hstar : Sdb.balanced d ((Factor.deref f).tokens ++ ts) = Sdb.balanced d (f.tokens ++ ts) := by
      rw [Factor.tokens, List.cons_append]
      cases d <;> rfl
    rw [hstar, f.balanced]
  | _ => cases d <;> rfl

end

/-! ## Main result -/

variable {P : Platform D} {tokens : Tokens}

/-- After any earlier calls `expr` reads what is written for at most 32 tokens as these tokens, and refuses it,
with nothing read from the machine, if the parentheses do not match. The tokens of an expression are of this
kind, with their parentheses matched. -/
theorem expr_writes {tr : List (Tokens × CString)} (hrun : Run ExprStep .initial tr tokens) (dut : State D) :
    (∀ (ts : List Token) (e : CString), Writes ts e.bytes → Apart ts → ts.length ≤ 32 →
      ∃ tokens', ExprStep tokens e tokens' ∧ expr P e tokens dut =
        if balanced 0 ts then evaluate P ts tokens' dut else .ok ⟨none, tokens', dut⟩) ∧
    ∀ e : Expr, Apart e.tokens ∧ balanced 0 e.tokens = true := by
  refine ⟨fun ts e hw ha hfew => ?_, fun e => ⟨e.apart, ?_⟩⟩
  · obtain ⟨ls, hlexes, hs⟩ := hw.lexes ha
    have hclear := clearTokens_of_run hrun
    obtain ⟨ok, t', hmake, hok, hheld⟩ := (tokenizes_iff e).mpr (tokensFit_of_spells hlexes hs hfew)
    rw [accepts_iff hlexes hs hfew] at hok
    by_cases hbal : balanced 0 ts = true
    · obtain rfl := hok.mpr hbal
      obtain ⟨ls', h'⟩ := (accepts_iff hlexes hs hfew).mpr hbal
      have hread := hheld rfl ls' h'
      rw [hlexes.unique h'.lexes] at hread
      have hcall : exprTokens e tokens = .ok (true, t') := by
        rw [exprTokens, hclear, hmake]
        rfl
      refine ⟨t', ⟨true, hcall⟩, ?_⟩
      rw [expr, hcall, if_pos hbal]
      dsimp only
      rw [hread.read hs]
    · obtain rfl : ok = false := Bool.eq_false_iff.mpr fun h => hbal (hok.mp h)
      have hcall : exprTokens e tokens = .ok (false, clearTokens t') := by
        rw [exprTokens, hclear, hmake]
        rfl
      refine ⟨clearTokens t', ⟨false, hcall⟩, ?_⟩
      rw [expr, hcall, if_neg hbal]
  · have hall := e.balanced 0 []
    rwa [List.append_nil] at hall

/-- ` 1 +0x1F` after `a(`, which is refused. -/
theorem expr_writes_sum : ∃ tokens tokens', Run ExprStep .initial [(.initial, ⟨[ch 'a', ch '('], by decide⟩)] tokens ∧
    expr bareBoard ⟨[ch ' ', ch '1', ch ' ', ch '+', ch '0', ch 'x', ch '1', ch 'F'], by decide⟩ tokens blank =
      evaluate bareBoard [.decimal [1], .plus, .hex [1, 15]] tokens' blank := by
  have hok : (exprTokens ⟨[ch 'a', ch '('], by decide⟩ .initial).isOk = true := by decide +kernel
  obtain ⟨⟨ok, tokens⟩, hcall⟩ : ∃ r, exprTokens ⟨[ch 'a', ch '('], by decide⟩ .initial = .ok r := by
    cases hcall : exprTokens ⟨[ch 'a', ch '('], by decide⟩ .initial with
    | error o =>
      rw [hcall] at hok
      exact absurd hok Bool.false_ne_true
    | ok r => exact ⟨r, rfl⟩
  have hrun : Run ExprStep .initial [(.initial, ⟨[ch 'a', ch '('], by decide⟩)] tokens := .snoc .nil ⟨ok, hcall⟩
  have hhex : Writes [.hex [1, 15]] [ch '0', ch 'x', ch '1', ch 'F'] :=
    .cons 0 (.hex (c := ch '1') (w := [ch 'F']) (by decide)) (by decide) (.nil 0)
  have hwrites : Writes [.decimal [1], .plus, .hex [1, 15]]
      [ch ' ', ch '1', ch ' ', ch '+', ch '0', ch 'x', ch '1', ch 'F'] :=
    .cons 1 (.decimal (c := ch '1') (w := []) (by decide)) (by decide) (.cons 1 .plus (by decide) hhex)
  have hapart : Apart [.decimal [1], .plus, .hex [1, 15]] := by
    simp [Apart, Token.isOperand]
  obtain ⟨tokens', -, hexpr⟩ := (expr_writes hrun blank).1 _ ⟨_, by decide⟩ hwrites hapart (by decide)
  exact ⟨tokens, tokens', hrun, hexpr⟩

end GsEmu.Sdb
