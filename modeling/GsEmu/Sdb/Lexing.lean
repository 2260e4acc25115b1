import GsEmu.Lib.Run
import GsEmu.Sdb.Tokenizer

/-! `make_token` against the split of the string under the rules. -/

namespace GsEmu.Sdb
open Bytes Regex

/-! ## The split -/

structure Lexeme where
  type : TokenType
  text : List Byte

/-- The first rule that matches at the beginning of `e`, with the length of its longest match. -/
def FirstRule (e : List Byte) (type : TokenType) (n : Nat) : Prop :=
  ∃ before r after, rules = before ++ r :: after ∧ r.type = type ∧
    IsGreatest {k | Matches r.regex none e k} n ∧ ∀ q ∈ before, ∀ k, ¬Matches q.regex none e k

inductive Lexes : List Byte → List Lexeme → List Byte → Prop
  | nil {e : List Byte} : Lexes e [] e
  | cons {e rest : List Byte} {type : TokenType} {n : Nat} {ls : List Lexeme} :
    FirstRule e type n → Lexes (e.drop n) ls rest → Lexes e (⟨type, e.take n⟩ :: ls) rest

variable {e rest : List Byte} {type : TokenType} {n : Nat} {ls ls' : List Lexeme} {l : Lexeme}

theorem ruleMatch_some_iff (r : Rule) : (match regexec r.regex e with
      | some (0, eo) => some (r.type, eo)
      | _ => none) = some (type, n) ↔ r.type = type ∧ IsGreatest {k | Matches r.regex none e k} n := by
  rw [← search_zero_iff, ← regexec]
  match regexec r.regex e with
  | none => simp
  | some (0, eo) => simp
  | some (so + 1, eo) => simp

theorem ruleMatch_none_iff (r : Rule) : (match regexec r.regex e with
      | some (0, eo) => some (r.type, eo)
      | _ => none) = none ↔ ∀ k, ¬Matches r.regex none e k := by
  have hzero : (∀ k, ¬Matches r.regex none e k) ↔ ∀ m, regexec r.regex e ≠ some (0, m) := by
    constructor
    · exact fun h m hm => h m (search_zero_iff.mp hm).1
    · intro h k hk
      obtain ⟨m, hm⟩ := search_zero_of_matches hk
      exact h m hm
  rw [hzero]
  match regexec r.regex e with
  | none => simp
  | some (0, eo) => simp
  | some (so + 1, eo) => simp

theorem matchRule_some_iff : matchRule e = some (type, n) ↔ FirstRule e type n := by
  rw [matchRule, List.findSome?_eq_some_iff]
  constructor
  · rintro ⟨before, r, after, hrules, hr, hbefore⟩
    obtain ⟨htype, hm⟩ := (ruleMatch_some_iff r).mp hr
    exact ⟨before, r, after, hrules, htype, hm, fun q hq => (ruleMatch_none_iff q).mp (hbefore q hq)⟩
  · rintro ⟨before, r, after, hrules, htype, hm, hbefore⟩
    exact ⟨before, r, after, hrules, (ruleMatch_some_iff r).mpr ⟨htype, hm⟩, fun q hq =>
      (ruleMatch_none_iff q).mpr (hbefore q hq)⟩

theorem FirstRule.pos (h : FirstRule e type n) : 0 < n := by
  obtain ⟨before, r, after, hrules, -, hm, -⟩ := h
  have hall : ∀ r ∈ rules, 0 < minLength r.regex := by decide
  have hr : r ∈ rules := hrules ▸ List.mem_append_right _ List.mem_cons_self
  exact (hall r hr).trans_le (Matches.minLength_le hm.1)

theorem FirstRule.le_length (h : FirstRule e type n) : n ≤ e.length := by
  obtain ⟨before, r, after, -, -, hm, -⟩ := h
  exact Matches.le_length hm.1

theorem FirstRule.unique {type' : TokenType} {n' : Nat} (h : FirstRule e type n)
    (h' : FirstRule e type' n') : type' = type ∧ n' = n :=
  Prod.mk.inj (Option.some.inj ((matchRule_some_iff.mpr h').symm.trans (matchRule_some_iff.mpr h)))

theorem not_firstRule_nil : ¬FirstRule [] type n := fun h => Nat.not_le_of_lt h.pos h.le_length

theorem lexes_cons_iff (h : FirstRule e type n) :
    Lexes e (l :: ls) rest ↔ l = ⟨type, e.take n⟩ ∧ Lexes (e.drop n) ls rest := by
  constructor
  · rintro (- | ⟨h', hrest⟩)
    obtain ⟨rfl, rfl⟩ := h.unique h'
    exact ⟨rfl, hrest⟩
  · rintro ⟨rfl, hrest⟩
    exact .cons h hrest

theorem Lexes.head (h : Lexes e ls []) (hfirst : FirstRule e type n) :
    ∃ ls', ls = ⟨type, e.take n⟩ :: ls' ∧ Lexes (e.drop n) ls' [] := by
  cases ls with
  | nil =>
    cases h with
    | nil => exact absurd hfirst not_firstRule_nil
  | cons l ls' =>
    obtain ⟨rfl, hrest⟩ := (lexes_cons_iff hfirst).mp h
    exact ⟨ls', rfl, hrest⟩

theorem Lexes.unique (h : Lexes e ls []) (h' : Lexes e ls' []) : ls' = ls := by
  generalize hrest : ([] : List Byte) = rest at h
  induction h generalizing ls' with
  | nil =>
    subst hrest
    cases h' with
    | nil => rfl
    | cons hfirst _ => exact absurd hfirst not_firstRule_nil
  | cons hfirst _ ih =>
    obtain ⟨ls', rfl, htail⟩ := h'.head hfirst
    rw [ih htail hrest]

theorem Lexes.noNul (h : Lexes e ls rest) (he : 0 ∉ e) : ∀ l ∈ ls, 0 ∉ l.text := by
  induction h with
  | nil => simp
  | cons _ _ ih =>
    refine List.forall_mem_cons.mpr ⟨fun h0 => he (List.mem_of_mem_take h0), ih fun h0 => ?_⟩
    exact he (List.mem_of_mem_drop h0)

/-! ## Admitted lexemes -/

def stored (ls : List Lexeme) : List Lexeme := ls.filter (·.type ≠ .notype)

def opens (ls : List Lexeme) : Nat := ls.countP (·.type = .lparen)

def closes (ls : List Lexeme) : Nat := ls.countP (·.type = .rparen)

/-- What `make_token` lets through: at most 32 tokens, and no parenthesis closed before it is opened. -/
structure Admitted (ls : List Lexeme) : Prop where
  few : (stored ls).length ≤ 32
  nested : ∀ ls', ls' <+: ls → closes ls' ≤ opens ls'

/-- The string splits into admitted lexemes with all parentheses closed. -/
structure Accepts (e : List Byte) (ls : List Lexeme) : Prop where
  lexes : Lexes e ls []
  admitted : Admitted ls
  closed : closes ls = opens ls

theorem stored_snoc (ls : List Lexeme) (l : Lexeme) :
    stored (ls ++ [l]) = if l.type = .notype then stored ls else stored ls ++ [l] := by
  unfold stored
  rw [List.filter_append]
  by_cases h : l.type = .notype <;> simp [h]

theorem opens_snoc (ls : List Lexeme) (l : Lexeme) :
    opens (ls ++ [l]) = opens ls + if l.type = .lparen then 1 else 0 := by
  simp [opens, List.countP_append, List.countP_singleton]

theorem closes_snoc (ls : List Lexeme) (l : Lexeme) :
    closes (ls ++ [l]) = closes ls + if l.type = .rparen then 1 else 0 := by
  simp [closes, List.countP_append, List.countP_singleton]

theorem opens_le_stored (ls : List Lexeme) : opens ls ≤ (stored ls).length := by
  rw [opens, stored, ← List.countP_eq_length_filter]
  refine List.countP_mono_left fun l _ hl => ?_
  have htype : l.type = .lparen := of_decide_eq_true hl
  rw [htype]
  rfl

theorem Admitted.of_append (h : Admitted (ls ++ ls')) : Admitted ls where
  few := by
    refine le_trans ?_ h.few
    rw [stored, stored, List.filter_append, List.length_append]
    exact Nat.le_add_right _ _
  nested := fun k hk => h.nested k (hk.trans (List.prefix_append ls ls'))

theorem admitted_snoc_iff (h : Admitted ls) : Admitted (ls ++ [l]) ↔
    (stored (ls ++ [l])).length ≤ 32 ∧ closes (ls ++ [l]) ≤ opens (ls ++ [l]) := by
  refine ⟨fun h' => ⟨h'.few, h'.nested _ List.prefix_rfl⟩, fun ⟨hfew, hnested⟩ => ⟨hfew, fun k hk => ?_⟩⟩
  rcases List.prefix_concat_iff.mp hk with rfl | hk
  · exact hnested
  · exact h.nested k hk

/-- With `ls` taken, `l` overruns an array: the 32 bytes of its token, or the 32 slots of
`bracket_stack`, which are written before the number of tokens is looked at. -/
def Overruns (ls : List Lexeme) (l : Lexeme) : Prop :=
  (l.type ≠ .notype ∧ Admitted (ls ++ [l]) ∧ 32 < l.text.length) ∨
    opens ls = closes ls + 32 ∧ (l.type = .lparen ∨ l.type = .rparen)

/-! ## One lexeme -/

def slotOf (l : Lexeme) : Slot := ⟨some l.type, strncpy (fun _ => 0) l.text⟩

structure Taken (ls : List Lexeme) (s : Lexer) : Prop where
  admitted : Admitted ls
  count : s.tokens.nrToken = (stored ls).length
  depth : s.stackTop + closes ls = opens ls
  brackets : ∀ i < s.stackTop, s.bracketStack i = ch '('
  slots : ∀ i, s.tokens.slot i = ((stored ls)[i]?).elim .cleared slotOf
  short : ∀ l ∈ stored ls, l.text.length ≤ 32

def StepOutcome (ls : List Lexeme) (l : Lexeme) (t : Tokens) (r : Except Overrun (Bool × Lexer)) : Prop :=
  (Overruns ls l ∧ ∃ o, r = .error o) ∨ ¬Overruns ls l ∧
    ((¬Admitted (ls ++ [l]) ∧ ∃ s, r = .ok (false, s) ∧ s.tokens = t) ∨
      ∃ s, r = .ok (true, s) ∧ Taken (ls ++ [l]) s)

variable {s u : Lexer}

theorem Taken.top_le (h : Taken ls s) : s.stackTop ≤ 32 := by
  have hopens := opens_le_stored ls
  have hfew := h.admitted.few
  have hdepth := h.depth
  omega

theorem Taken.putSlot (h : Taken ls s) (l : Lexeme) (i : Nat) :
    Function.update s.tokens.slot (stored ls).length
      ⟨some l.type, strncpy (s.tokens.slot (stored ls).length).str l.text⟩ i =
        ((stored ls ++ [l])[i]?).elim .cleared slotOf := by
  have hfree : s.tokens.slot (stored ls).length = .cleared := by
    rw [h.slots, List.getElem?_eq_none le_rfl]
    rfl
  rw [hfree, Function.update_apply]
  by_cases hi : i = (stored ls).length
  · rw [if_pos hi, hi, List.getElem?_concat_length]
    rfl
  · rw [if_neg hi, h.slots]
    by_cases hlt : i < (stored ls).length
    · rw [List.getElem?_append_left hlt]
    · rw [List.getElem?_eq_none (by omega), List.getElem?_eq_none]
      rw [List.length_append, List.length_singleton]
      omega

theorem putToken_outcome (h : Taken ls s) (hl : l.type ≠ .notype) (htokens : u.tokens = s.tokens)
    (hdepth : u.stackTop + closes (ls ++ [l]) = opens (ls ++ [l]))
    (hbrackets : ∀ i < u.stackTop, u.bracketStack i = ch '(')
    (hstack : ¬(opens ls = closes ls + 32 ∧ (l.type = .lparen ∨ l.type = .rparen))) :
    StepOutcome ls l s.tokens (putToken l.type l.text u) := by
  have hstored : stored (ls ++ [l]) = stored ls ++ [l] := by rw [stored_snoc, if_neg hl]
  have hlength : (stored (ls ++ [l])).length = s.tokens.nrToken + 1 := by
    rw [hstored, h.count, List.length_append, List.length_singleton]
  have hadmitted : Admitted (ls ++ [l]) ↔ ¬32 ≤ s.tokens.nrToken := by
    rw [admitted_snoc_iff h.admitted, hlength]
    omega
  unfold putToken
  dsimp only
  rw [htokens]
  by_cases hfull : 32 ≤ s.tokens.nrToken
  · rw [if_pos hfull]
    have hno : ¬Admitted (ls ++ [l]) := fun h => hadmitted.mp h hfull
    exact .inr ⟨not_or.mpr ⟨fun h => hno h.2.1, hstack⟩, .inl ⟨hno, u, rfl, htokens⟩⟩
  · rw [if_neg hfull]
    by_cases hlong : 32 < l.text.length
    · rw [if_pos hlong]
      exact .inl ⟨.inl ⟨hl, hadmitted.mpr hfull, hlong⟩, _, rfl⟩
    · rw [if_neg hlong]
      refine .inr ⟨not_or.mpr ⟨fun h => hlong h.2.2, hstack⟩, .inr ⟨_, rfl, ?_⟩⟩
      refine ⟨hadmitted.mpr hfull, hlength.symm, hdepth, hbrackets, fun i => ?_, ?_⟩
      · change Function.update s.tokens.slot s.tokens.nrToken ⟨some l.type,
          strncpy (s.tokens.slot s.tokens.nrToken).str l.text⟩ i = _
        rw [hstored, h.count]
        exact h.putSlot l i
      · rw [hstored]
        exact List.forall_mem_append.mpr ⟨h.short, by simpa using hlong⟩

theorem notype_outcome (h : Taken ls s) (hl : l.type = .notype) :
    StepOutcome ls l s.tokens (takeLexeme l.type l.text s) := by
  have hsame : stored (ls ++ [l]) = stored ls := by rw [stored_snoc, if_pos hl]
  have hopens : opens (ls ++ [l]) = opens ls := by simp [opens_snoc, hl]
  have hcloses : closes (ls ++ [l]) = closes ls := by simp [closes_snoc, hl]
  have hadmitted : Admitted (ls ++ [l]) := by
    rw [admitted_snoc_iff h.admitted, hsame, hopens, hcloses]
    exact ⟨h.admitted.few, h.admitted.nested _ List.prefix_rfl⟩
  have hno : ¬Overruns ls l := by
    rintro (⟨hne, -⟩ | ⟨-, hparen⟩)
    · exact hne hl
    · simp [hl] at hparen
  rw [hl]
  refine .inr ⟨hno, .inr ⟨s, rfl, hadmitted, ?_, ?_, h.brackets, fun i => ?_, ?_⟩⟩
  · rw [hsame, h.count]
  · rw [hopens, hcloses, h.depth]
  · rw [hsame, h.slots]
  · rw [hsame]
    exact h.short

theorem lparen_outcome (h : Taken ls s) (hl : l.type = .lparen) :
    StepOutcome ls l s.tokens (takeLexeme l.type l.text s) := by
  have hne : l.type ≠ .notype := by simp [hl]
  have hopens : opens (ls ++ [l]) = opens ls + 1 := by simp [opens_snoc, hl]
  have hcloses : closes (ls ++ [l]) = closes ls := by simp [closes_snoc, hl]
  have hdepth := h.depth
  have htop := h.top_le
  by_cases hroom : s.stackTop < 32
  · have hstep : takeLexeme l.type l.text s = putToken l.type l.text { s with
        bracketStack := Function.update s.bracketStack s.stackTop (ch '(')
        stackTop := s.stackTop + 1 } := by
      rw [hl, takeLexeme, Lexer.setBracket, if_pos hroom]
      rfl
    rw [hstep]
    refine putToken_outcome h hne rfl ?_ (fun i hi => ?_) fun hfull => ?_
    · change s.stackTop + 1 + closes (ls ++ [l]) = opens (ls ++ [l])
      omega
    · have hi : i < s.stackTop + 1 := hi
      change Function.update s.bracketStack s.stackTop (ch '(') i = ch '('
      rw [Function.update_apply]
      split
      · rfl
      · exact h.brackets i (by omega)
    · omega
  · refine .inl ⟨.inr ⟨by omega, .inl hl⟩, .bracketStack, ?_⟩
    rw [hl, takeLexeme, Lexer.setBracket, if_neg hroom]
    rfl

theorem rparen_outcome (h : Taken ls s) (hl : l.type = .rparen) :
    StepOutcome ls l s.tokens (takeLexeme l.type l.text s) := by
  have hne : l.type ≠ .notype := by simp [hl]
  have hopens : opens (ls ++ [l]) = opens ls := by simp [opens_snoc, hl]
  have hcloses : closes (ls ++ [l]) = closes ls + 1 := by simp [closes_snoc, hl]
  have hdepth := h.depth
  have htop := h.top_le
  by_cases hempty : s.stackTop = 0
  · have hno : ¬Admitted (ls ++ [l]) := fun hadmitted => by
      have hnested := hadmitted.nested _ List.prefix_rfl
      omega
    refine .inr ⟨?_, .inl ⟨hno, s, ?_, rfl⟩⟩
    · rintro (⟨-, hadmitted, -⟩ | ⟨hfull, -⟩)
      · exact hno hadmitted
      · omega
    · rw [hl, takeLexeme, if_pos (.inl hempty)]
  have hopen : ¬(s.stackTop = 0 ∨ s.bracketStack (s.stackTop - 1) ≠ ch '(') := by
    have hbelow := h.brackets (s.stackTop - 1) (by omega)
    simp [hempty, hbelow]
  by_cases hroom : s.stackTop < 32
  · have hstep : takeLexeme l.type l.text s = putToken l.type l.text { s with
        bracketStack := Function.update s.bracketStack s.stackTop 0
        stackTop := s.stackTop - 1 } := by
      rw [hl, takeLexeme, if_neg hopen, Lexer.setBracket, if_pos hroom]
      rfl
    rw [hstep]
    refine putToken_outcome h hne rfl ?_ (fun i hi => ?_) fun hfull => ?_
    · change s.stackTop - 1 + closes (ls ++ [l]) = opens (ls ++ [l])
      omega
    · have hi : i < s.stackTop - 1 := hi
      change Function.update s.bracketStack s.stackTop 0 i = ch '('
      rw [Function.update_of_ne (by omega)]
      exact h.brackets i (by omega)
    · omega
  · refine .inl ⟨.inr ⟨by omega, .inr hl⟩, .bracketStack, ?_⟩
    rw [hl, takeLexeme, if_neg hopen, Lexer.setBracket, if_neg hroom]
    rfl

theorem takeLexeme_outcome (h : Taken ls s) (l : Lexeme) :
    StepOutcome ls l s.tokens (takeLexeme l.type l.text s) := by
  by_cases hnotype : l.type = .notype
  · exact notype_outcome h hnotype
  by_cases hlparen : l.type = .lparen
  · exact lparen_outcome h hlparen
  by_cases hrparen : l.type = .rparen
  · exact rparen_outcome h hrparen
  have hstep : takeLexeme l.type l.text s = putToken l.type l.text s := by
    cases htype : l.type <;> first | rfl | contradiction
  rw [hstep]
  refine putToken_outcome h hnotype rfl ?_ h.brackets fun hparen => hparen.2.elim hlparen hrparen
  rw [opens_snoc, closes_snoc, if_neg hlparen, if_neg hrparen]
  exact h.depth

/-! ## The loop -/

def NoOverrun (ls : List Lexeme) (e : List Byte) : Prop :=
  ∀ ls' l rest, Lexes e (ls' ++ [l]) rest → Admitted (ls ++ ls') → ¬Overruns (ls ++ ls') l

def TailClear (t : Tokens) : Prop := ∀ i, t.nrToken ≤ i → t.slot i = .cleared

theorem Taken.tailClear (h : Taken ls s) : TailClear s.tokens := by
  intro i hi
  rw [h.slots, List.getElem?_eq_none (h.count ▸ hi)]
  rfl

def LoopOutcome (ls : List Lexeme) (e : List Byte) : Except Overrun (Bool × Lexer) → Prop
  | .error _ => ¬NoOverrun ls e
  | .ok (false, s) => NoOverrun ls e ∧
      (∀ ls', Lexes e ls' [] → Admitted (ls ++ ls') → closes (ls ++ ls') ≠ opens (ls ++ ls')) ∧
      TailClear s.tokens
  | .ok (true, s) => NoOverrun ls e ∧ ∃ ls', Lexes e ls' [] ∧ closes (ls ++ ls') = opens (ls ++ ls') ∧
      Taken (ls ++ ls') s

theorem noOverrun_cons_iff (hfirst : FirstRule e type n) (hls : Admitted ls) : NoOverrun ls e ↔
    ¬Overruns ls ⟨type, e.take n⟩ ∧
      (Admitted (ls ++ [⟨type, e.take n⟩]) → NoOverrun (ls ++ [⟨type, e.take n⟩]) (e.drop n)) := by
  constructor
  · intro h
    constructor
    · have hone := h [] ⟨type, e.take n⟩ (e.drop n) (.cons hfirst .nil)
      rw [List.append_nil] at hone
      exact hone hls
    · intro _ ls' l rest hrest
      have hmore := h (⟨type, e.take n⟩ :: ls') l rest (.cons hfirst hrest)
      rwa [List.append_cons] at hmore
  · rintro ⟨hone, hmore⟩ ls' l rest hlexes hadmitted
    cases ls' with
    | nil =>
      obtain ⟨rfl, -⟩ := (lexes_cons_iff hfirst).mp hlexes
      rwa [List.append_nil]
    | cons l' ls' =>
      obtain ⟨rfl, hrest⟩ := (lexes_cons_iff hfirst).mp hlexes
      rw [List.append_cons] at hadmitted ⊢
      exact hmore hadmitted.of_append ls' l rest hrest hadmitted

theorem lexes_of_stuck (h : ∀ type n, ¬FirstRule e type n) (hlexes : Lexes e ls rest) :
    ls = [] ∧ rest = e := by
  cases hlexes with
  | nil => exact ⟨rfl, rfl⟩
  | cons hfirst _ => exact absurd hfirst (h _ _)

theorem noOverrun_of_stuck (h : ∀ type n, ¬FirstRule e type n) (ls : List Lexeme) : NoOverrun ls e := by
  intro ls' l rest hlexes
  exact absurd (lexes_of_stuck h hlexes).1 (by simp)

theorem nil_outcome (h : Taken ls s) : LoopOutcome ls [] (.ok (decide (s.stackTop = 0), s)) := by
  have hstuck : ∀ type n, ¬FirstRule [] type n := fun _ _ => not_firstRule_nil
  have hdepth := h.depth
  by_cases htop : s.stackTop = 0
  · rw [decide_eq_true htop]
    refine ⟨noOverrun_of_stuck hstuck ls, [], .nil, ?_, ?_⟩
    · rw [List.append_nil]
      omega
    · rwa [List.append_nil]
  · rw [decide_eq_false htop]
    refine ⟨noOverrun_of_stuck hstuck ls, fun ls' hlexes _ => ?_, h.tailClear⟩
    rw [(lexes_of_stuck hstuck hlexes).1, List.append_nil]
    omega

theorem stuck_outcome (h : Taken ls s) (hstuck : ∀ type n, ¬FirstRule e type n) (he : e ≠ []) :
    LoopOutcome ls e (.ok (false, s)) :=
  ⟨noOverrun_of_stuck hstuck ls, fun _ hlexes _ => absurd (lexes_of_stuck hstuck hlexes).2.symm he,
    h.tailClear⟩

theorem LoopOutcome.cons {r : Except Overrun (Bool × Lexer)} (hfirst : FirstRule e type n)
    (hls : Admitted ls) (hno : ¬Overruns ls ⟨type, e.take n⟩)
    (hadmitted : Admitted (ls ++ [⟨type, e.take n⟩]))
    (h : LoopOutcome (ls ++ [⟨type, e.take n⟩]) (e.drop n) r) : LoopOutcome ls e r := by
  have hsafe : NoOverrun ls e ↔ NoOverrun (ls ++ [⟨type, e.take n⟩]) (e.drop n) := by
    rw [noOverrun_cons_iff hfirst hls]
    exact ⟨fun h => h.2 hadmitted, fun h => ⟨hno, fun _ => h⟩⟩
  match r, h with
  | .error _, h => exact fun hs => h (hsafe.mp hs)
  | .ok (false, s), ⟨hs, hopen, hclear⟩ =>
    refine ⟨hsafe.mpr hs, fun ls' hlexes hadmitted' => ?_, hclear⟩
    obtain ⟨ls', rfl, hrest⟩ := hlexes.head hfirst
    rw [List.append_cons] at hadmitted' ⊢
    exact hopen ls' hrest hadmitted'
  | .ok (true, s), ⟨hs, ls', hlexes, hclosed, htaken⟩ =>
    rw [← List.append_cons] at hclosed htaken
    exact ⟨hsafe.mpr hs, _, .cons hfirst hlexes, hclosed, htaken⟩

theorem return_outcome {s : Lexer} (hfirst : FirstRule e type n) (hls : Admitted ls)
    (hno : ¬Overruns ls ⟨type, e.take n⟩) (hadmitted : ¬Admitted (ls ++ [⟨type, e.take n⟩]))
    (hclear : TailClear s.tokens) : LoopOutcome ls e (.ok (false, s)) := by
  refine ⟨(noOverrun_cons_iff hfirst hls).mpr ⟨hno, fun h => absurd h hadmitted⟩,
    fun ls' hlexes hadmitted' => ?_, hclear⟩
  obtain ⟨ls', rfl, -⟩ := hlexes.head hfirst
  rw [List.append_cons] at hadmitted'
  exact absurd hadmitted'.of_append hadmitted

theorem makeTokenLoop_outcome {fuel : Nat} (h : Taken ls s) (hfuel : e.length ≤ fuel) :
    LoopOutcome ls e (makeTokenLoop fuel e s) := by
  induction fuel generalizing ls e s with
  | zero =>
    obtain rfl := List.length_eq_zero_iff.mp (Nat.le_zero.mp hfuel)
    exact nil_outcome h
  | succ fuel ih =>
    cases e with
    | nil => exact nil_outcome h
    | cons b e =>
      rw [makeTokenLoop]
      rotate_left
      · exact List.cons_ne_nil b e
      match hrule : matchRule (b :: e) with
      | none =>
        refine stuck_outcome h (fun type n hfirst => ?_) (List.cons_ne_nil b e)
        rw [matchRule_some_iff.mpr hfirst] at hrule
        exact absurd hrule (by simp)
      | some (type, n) =>
        have hfirst := matchRule_some_iff.mp hrule
        have hpos := hfirst.pos
        rcases takeLexeme_outcome h ⟨type, (b :: e).take n⟩ with ⟨hover, o, hstep⟩ |
          ⟨hno, ⟨hadmitted, u, hstep, htokens⟩ | ⟨u, hstep, htaken⟩⟩
        · dsimp only at hstep ⊢
          rw [hstep]
          exact fun hsafe => ((noOverrun_cons_iff hfirst h.admitted).mp hsafe).1 hover
        · dsimp only at hstep ⊢
          rw [hstep]
          exact return_outcome hfirst h.admitted hno hadmitted (htokens ▸ h.tailClear)
        · dsimp only at hstep ⊢
          rw [hstep]
          refine LoopOutcome.cons hfirst h.admitted hno htaken.admitted (ih htaken ?_)
          rw [List.length_drop]
          rw [List.length_cons] at hfuel ⊢
          omega

/-! ## Main result -/

structure Held (t : Tokens) (ls : List Lexeme) : Prop where
  count : t.nrToken = ls.length
  slots : ∀ i (h : i < ls.length), (t.slot i).type = some ls[i].type ∧
    cString 32 (t.slot i).str = some ls[i].text

/-- `make_token` overruns nothing, accepts what splits into admitted lexemes with all parentheses closed,
and then holds them. -/
def Tokenizes (e : CString) (t : Tokens) : Prop :=
  ∃ ok t', makeToken e t = .ok (ok, t') ∧ (ok = true ↔ ∃ ls, Accepts e.bytes ls) ∧
    (ok = true → ∀ ls, Accepts e.bytes ls → Held t' (stored ls))

/-- Every token that is stored has room, with its NUL if the string is accepted, and no parenthesis
stands where 32 are open. -/
structure TokensFit (e : List Byte) : Prop where
  contained : ∀ ls l rest, Lexes e (ls ++ [l]) rest → Admitted ls → ¬Overruns ls l
  terminated : ∀ ls, Accepts e ls → ∀ l ∈ stored ls, l.text.length < 32

theorem cString_strncpy {text : List Byte} (h : 0 ∉ text) (n : Nat) :
    cString n (strncpy (fun _ => 0) text) = if text.length < n then some text else none := by
  induction n generalizing text with
  | zero => rfl
  | succ n ih =>
    cases text with
    | nil => rfl
    | cons b text =>
      have hb : b ≠ 0 := fun hb => h (hb ▸ List.mem_cons_self)
      have htail : (fun i => strncpy (fun _ => 0) (b :: text) (i + 1)) = strncpy (fun _ => 0) text := rfl
      have hhead : strncpy (fun _ => 0) (b :: text) 0 = b := rfl
      rw [cString, hhead, if_neg hb, htail, ih fun h0 => h (List.mem_cons_of_mem b h0), List.length_cons]
      by_cases hlen : text.length < n
      · rw [if_pos hlen, if_pos (Nat.succ_lt_succ hlen)]
        rfl
      · rw [if_neg hlen, if_neg fun hlt => hlen (Nat.lt_of_succ_lt_succ hlt)]
        rfl

theorem Taken.held_iff (h : Taken ls s) (hnul : ∀ l ∈ ls, 0 ∉ l.text) :
    Held s.tokens (stored ls) ↔ ∀ l ∈ stored ls, l.text.length < 32 := by
  have hslot : ∀ i (hi : i < (stored ls).length), s.tokens.slot i = slotOf (stored ls)[i] := by
    intro i hi
    rw [h.slots, List.getElem?_eq_getElem hi]
    rfl
  have htext : ∀ i (hi : i < (stored ls).length), cString 32 (s.tokens.slot i).str =
      if (stored ls)[i].text.length < 32 then some (stored ls)[i].text else none := by
    intro i hi
    rw [hslot i hi]
    exact cString_strncpy (hnul _ (List.mem_of_mem_filter (List.getElem_mem hi))) 32
  constructor
  · intro hheld l hl
    obtain ⟨i, hi, rfl⟩ := List.getElem_of_mem hl
    have hfull := (hheld.slots i hi).2
    rw [htext i hi] at hfull
    by_contra hlong
    rw [if_neg hlong] at hfull
    exact absurd hfull (by simp)
  · refine fun hshort => ⟨h.count, fun i hi => ⟨?_, ?_⟩⟩
    · rw [hslot i hi]
      rfl
    · rw [htext i hi, if_pos (hshort _ (List.getElem_mem hi))]

theorem taken_nil : Taken [] ⟨.initial, fun _ => 0, 0⟩ where
  admitted := ⟨by decide, fun ls' h => List.prefix_nil.mp h ▸ le_rfl⟩
  count := rfl
  depth := rfl
  brackets := fun i hi => absurd hi (Nat.not_lt_zero i)
  slots := fun _ => rfl
  short := by simp [stored]

theorem makeToken_outcome (e : CString) : ∃ r, LoopOutcome [] e.bytes r ∧
    makeToken e .initial = r.map fun x => (x.1, x.2.tokens) := by
  refine ⟨_, makeTokenLoop_outcome taken_nil le_rfl, ?_⟩
  change (makeTokenLoop e.bytes.length e.bytes ⟨.initial, fun _ => 0, 0⟩).bind _ = _
  cases makeTokenLoop e.bytes.length e.bytes ⟨.initial, fun _ => 0, 0⟩ <;> rfl

theorem tokenizes_iff (e : CString) : Tokenizes e .initial ↔ TokensFit e.bytes := by
  obtain ⟨r, houtcome, hmake⟩ := makeToken_outcome e
  unfold Tokenizes
  rw [hmake]
  match r, houtcome with
  | .error o, hover =>
    constructor
    · rintro ⟨ok, t', h, -⟩
      cases h
    · exact fun hfit => absurd hfit.contained hover
  | .ok (false, s), ⟨hsafe, hopen, _⟩ =>
    have hno : ¬∃ ls, Accepts e.bytes ls := fun ⟨ls, h⟩ => hopen ls h.lexes h.admitted h.closed
    refine ⟨fun _ => ⟨hsafe, fun ls h => absurd ⟨ls, h⟩ hno⟩, fun _ => ⟨false, s.tokens, rfl, ?_, ?_⟩⟩
    · simp [hno]
    · simp
  | .ok (true, s), ⟨hsafe, ls, hlexes, hclosed, htaken⟩ =>
    have haccepts : Accepts e.bytes ls := ⟨hlexes, htaken.admitted, hclosed⟩
    have hheld := htaken.held_iff (hlexes.noNul e.noNul)
    constructor
    · rintro ⟨ok, t', h, -, htokens⟩
      obtain ⟨rfl, rfl⟩ := Prod.mk.inj (Except.ok.inj h)
      refine ⟨hsafe, fun ls' h' => ?_⟩
      rw [hlexes.unique h'.lexes]
      exact hheld.mp (htokens rfl ls haccepts)
    · intro hfit
      refine ⟨true, s.tokens, rfl, ⟨fun _ => ⟨ls, haccepts⟩, fun _ => rfl⟩, fun _ ls' h' => ?_⟩
      rw [hlexes.unique h'.lexes]
      exact hheld.mpr (hfit.terminated ls haccepts)

/-! ## Every call -/

/-- A call of `expr` that overruns nothing. -/
def ExprStep (t : Tokens) (e : CString) (t' : Tokens) : Prop := ∃ ok, exprTokens e t = .ok (ok, t')

variable {t t' : Tokens}

theorem clearTokens_eq (h : TailClear t) : clearTokens t = .initial := by
  have hslot : (clearTokens t).slot = Tokens.initial.slot := by
    funext i
    change (if i < t.nrToken then Slot.cleared else t.slot i) = .cleared
    split
    · rfl
    · exact h i (by omega)
  exact congrArg (Tokens.mk · 0) hslot

theorem ExprStep.tailClear {e : CString} (h : TailClear t) (hs : ExprStep t e t') : TailClear t' := by
  obtain ⟨ok, hs⟩ := hs
  obtain ⟨r, houtcome, hmake⟩ := makeToken_outcome e
  rw [exprTokens, clearTokens_eq h, hmake] at hs
  match r, houtcome with
  | .error _, _ => cases hs
  | .ok (false, s), ⟨_, _, hclear⟩ =>
    obtain ⟨-, rfl⟩ := Prod.mk.inj (Except.ok.inj hs)
    rw [clearTokens_eq hclear]
    exact fun _ _ => rfl
  | .ok (true, s), ⟨_, ls, _, _, htaken⟩ =>
    obtain ⟨-, rfl⟩ := Prod.mk.inj (Except.ok.inj hs)
    exact htaken.tailClear

theorem clearTokens_of_run {tr : List (Tokens × CString)} (h : Run ExprStep .initial tr t) :
    clearTokens t = .initial :=
  clearTokens_eq (h.state_invariant (I := TailClear) (C := fun _ _ => True) (fun _ _ => rfl)
    (fun _ _ _ hI _ hs => hs.tailClear hI) fun _ _ => trivial)

theorem makeToken_iff {tr : List (Tokens × CString)} (h : Run ExprStep .initial tr t) (e : CString) :
    Tokenizes e (clearTokens t) ↔ TokensFit e.bytes := by
  rw [clearTokens_of_run h]
  exact tokenizes_iff e

theorem makeToken_iff_after_rejection : ∃ t, Run ExprStep .initial
    [(.initial, ⟨[ch 'a', ch '('], by decide⟩)] t ∧
      (Tokenizes ⟨[ch '1'], by decide⟩ (clearTokens t) ↔ TokensFit [ch '1']) := by
  have hok : (exprTokens ⟨[ch 'a', ch '('], by decide⟩ .initial).isOk = true := by decide +kernel
  match hcall : exprTokens ⟨[ch 'a', ch '('], by decide⟩ .initial with
  | .error _ =>
    rw [hcall] at hok
    exact absurd hok Bool.false_ne_true
  | .ok (ok, t) =>
    have hrun : Run ExprStep .initial [(.initial, ⟨[ch 'a', ch '('], by decide⟩)] t := .snoc .nil ⟨ok, hcall⟩
    exact ⟨t, hrun, makeToken_iff hrun ⟨[ch '1'], by decide⟩⟩

theorem Tokenizes.isOk {e : CString} (h : Tokenizes e t) : (makeToken e t).isOk = true := by
  obtain ⟨ok, t', hmake, -⟩ := h
  rw [hmake]
  rfl

/-- A word of 33 letters runs out of `str`, one of 32 loses its NUL, and 33 parentheses run out of
`bracket_stack`. -/
theorem makeToken_refuted :
    ¬Tokenizes ⟨List.replicate 33 (ch 'a'), by decide⟩ (clearTokens .initial) ∧
      ¬Tokenizes ⟨List.replicate 32 (ch 'a'), by decide⟩ (clearTokens .initial) ∧
      ¬Tokenizes ⟨List.replicate 33 (ch '('), by decide⟩ (clearTokens .initial) := by
  refine ⟨fun h => absurd h.isOk (by decide +kernel), ?_, fun h => absurd h.isOk (by decide +kernel)⟩
  rintro ⟨ok, t', hmake, hiff, hheld⟩
  have hfirst : FirstRule (List.replicate 32 (ch 'a')) .word 32 :=
    matchRule_some_iff.mp (by decide +kernel)
  have haccepts : Accepts (List.replicate 32 (ch 'a')) [⟨.word, List.replicate 32 (ch 'a')⟩] :=
    ⟨.cons hfirst .nil, (admitted_snoc_iff taken_nil.admitted).mpr ⟨by decide, by decide⟩, rfl⟩
  have htext := (hheld (hiff.mpr ⟨_, haccepts⟩) _ haccepts).slots 0 (by decide)
  have hread : ((makeToken ⟨List.replicate 32 (ch 'a'), by decide⟩ (clearTokens .initial)).toOption.bind
      fun x => cString 32 (x.2.slot 0).str) = none := by decide +kernel
  rw [hmake] at hread
  exact absurd (htext.2.symm.trans hread) (by simp)

end GsEmu.Sdb
