import GsEmu.Lib.Bytes
import GsEmu.Lib.Regex

/-! `expr.c` up to the tokens: the rules, `make_token` with its three fixed arrays, and `clear_tokens`. -/

namespace GsEmu.Sdb
open Bytes Regex

/-! ## The rules -/

inductive TokenType
  | notype
  | eq
  | decimal
  | hex
  | reg
  | word
  | plus
  | minus
  | star
  | slash
  | lparen
  | rparen
  deriving DecidableEq

def ch (c : Char) : Byte := BitVec.ofNat 8 c.toNat

def inRange (lo hi : Char) (b : Byte) : Bool := decide (ch lo ≤ b ∧ b ≤ ch hi)

def isDigit (b : Byte) : Bool := inRange '0' '9' b
def isHexDigit (b : Byte) : Bool := inRange '0' '9' b || inRange 'A' 'F' b || inRange 'a' 'f' b
def isAlpha (b : Byte) : Bool := inRange 'a' 'z' b || inRange 'A' 'Z' b
def isAlnum (b : Byte) : Bool := isDigit b || isAlpha b
def isWord (b : Byte) : Bool := isAlnum b || b = ch '_'

def lit (c : Char) : Piece Byte := .one (decide <| · = ch c)

structure Rule where
  type : TokenType
  regex : List (Piece Byte)

def rules : List Rule :=
  [⟨.notype, [lit ' ', .many (decide <| · = ch ' ')]⟩, -- " +"
    ⟨.plus, [lit '+']⟩,
    ⟨.minus, [lit '-']⟩,
    ⟨.star, [lit '*']⟩,
    ⟨.slash, [lit '/']⟩,
    ⟨.lparen, [lit '(']⟩,
    ⟨.rparen, [lit ')']⟩,
    ⟨.eq, [lit '=', lit '=']⟩,
    ⟨.hex, [lit '0', lit 'x', .one isHexDigit, .many isHexDigit]⟩, -- "0x[0-9A-Fa-f]+"
    ⟨.decimal, [.bound isWord, .one isDigit, .many isDigit, .bound isWord]⟩, -- "\\b[0-9]+\\b"
    ⟨.reg, [lit '$', .one isAlnum, .many isAlnum]⟩, -- "\\$[0-9a-zA-Z]+"
    -- "\\b[a-zA-Z_][a-zA-Z0-9_]*\\b"
    ⟨.word, [.bound isWord, .one (fun b => isAlpha b || b = ch '_'), .many isWord, .bound isWord]⟩]

/-- `regexec`; the string starts at the lexeme, so nothing stands in front of it. -/
def regexec (regex : List (Piece Byte)) (e : List Byte) : Option (Nat × Nat) := search regex none e

def matchRule (e : List Byte) : Option (TokenType × Nat) :=
  rules.findSome? fun r =>
    match regexec r.regex e with
    | some (0, eo) => some (r.type, eo)
    | _ => none

/-! ## The arrays -/

structure CString where
  bytes : List Byte
  noNul : 0 ∉ bytes

/-- `struct token`; the type 0 is `none`, and `str` has 32 bytes. -/
structure Slot where
  type : Option TokenType
  str : Nat → Byte

def Slot.cleared : Slot := ⟨none, fun _ => 0⟩

def cString : Nat → (Nat → Byte) → Option (List Byte)
  | 0, _ => none
  | n + 1, str => if str 0 = 0 then some [] else (cString n fun i => str (i + 1)).map (str 0 :: ·)

structure Tokens where
  slot : Nat → Slot
  nrToken : Nat

def Tokens.initial : Tokens := ⟨fun _ => .cleared, 0⟩

def clearTokens (t : Tokens) : Tokens := ⟨fun i => if i < t.nrToken then .cleared else t.slot i, 0⟩

inductive Overrun
  | str
  | bracketStack

/-! ## `make_token` -/

structure Lexer where
  tokens : Tokens
  bracketStack : Nat → Byte
  stackTop : Nat

/-- `strncpy` of as many bytes as `src` has, none of them NUL. -/
def strncpy (dst : Nat → Byte) (src : List Byte) : Nat → Byte := fun i => src[i]?.getD (dst i)

def Lexer.setBracket (i : Nat) (b : Byte) (s : Lexer) : Except Overrun Lexer :=
  if i < 32 then .ok { s with bracketStack := Function.update s.bracketStack i b }
  else .error .bracketStack

/-- The common end of the cases; `false` is the return on more than 32 tokens. -/
def putToken (type : TokenType) (text : List Byte) (s : Lexer) : Except Overrun (Bool × Lexer) :=
  let t := s.tokens
  if 32 ≤ t.nrToken then .ok (false, s)
  else if 32 < text.length then .error .str
  else .ok (true, { s with tokens :=
    ⟨Function.update t.slot t.nrToken ⟨some type, strncpy (t.slot t.nrToken).str text⟩, t.nrToken + 1⟩ })

/-- The switch; `false` is a return. -/
def takeLexeme (type : TokenType) (text : List Byte) (s : Lexer) : Except Overrun (Bool × Lexer) :=
  match type with
  | .notype => .ok (true, s)
  | .rparen =>
    if s.stackTop = 0 ∨ s.bracketStack (s.stackTop - 1) ≠ ch '(' then .ok (false, s)
    else do
      -- `bracket_stack[stack_top--] = 0` clears the slot above the top
      let s ← s.setBracket s.stackTop 0
      putToken type text { s with stackTop := s.stackTop - 1 }
  | .lparen => do
    let s ← s.setBracket s.stackTop (ch '(')
    putToken type text { s with stackTop := s.stackTop + 1 }
  | _ => putToken type text s

/-- The loop from `e + position` on, with a bound on its rounds. -/
def makeTokenLoop : Nat → List Byte → Lexer → Except Overrun (Bool × Lexer)
  | _, [], s => .ok (decide (s.stackTop = 0), s)
  | 0, _ :: _, s => .ok (false, s)
  | n + 1, e, s =>
    match matchRule e with
    | none => .ok (false, s)
    | some (type, len) => do
      let (go, s) ← takeLexeme type (e.take len) s
      if go then makeTokenLoop n (e.drop len) s else return (false, s)

def makeToken (e : CString) (t : Tokens) : Except Overrun (Bool × Tokens) := do
  let (ok, s) ← makeTokenLoop e.bytes.length e.bytes ⟨{ t with nrToken := 0 }, fun _ => 0, 0⟩
  return (ok, s.tokens)

def exprTokens (e : CString) (t : Tokens) : Except Overrun (Bool × Tokens) := do
  let (ok, t) ← makeToken e (clearTokens t)
  if ok then return (true, t) else return (false, clearTokens t)

end GsEmu.Sdb
