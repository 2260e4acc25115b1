import GsEmu.Lib.Run
import Mathlib.Data.Multiset.Count

/-! Tokens that are granted without a limit and claimed one at a time. -/

namespace GsEmu.Tokens

variable {α : Type*} [DecidableEq α]

inductive Op (α : Type*)
  | grant (a : α)
  | claim (a : α)
  deriving DecidableEq

/-- The tokens outstanding after an operation; a claim without a token changes nothing. -/
def next (s : Multiset α) : Op α → Multiset α
  | .grant a => a ::ₘ s
  | .claim a => s.erase a

def Step (s : Multiset α) (op : Op α) (s' : Multiset α) : Prop := s' = next s op

def honoured (a : α) (q : Multiset α × Op α) : Bool := decide (q.2 = .claim a ∧ a ∈ q.1)

def granted (a : α) (q : Multiset α × Op α) : Bool := decide (q.2 = .grant a)

theorem count_add_honoured {tr : List (Multiset α × Op α)} {s : Multiset α} (h : Run Step 0 tr s)
    (a : α) : s.count a + tr.countP (honoured a) = tr.countP (granted a) := by
  induction h with
  | nil => simp
  | @snoc tr s op s' _ hs ih =>
    rw [show s' = next s op from hs, List.countP_append, List.countP_append, List.countP_singleton,
      List.countP_singleton, ← ih]
    cases op with
    | grant b =>
      by_cases hb : b = a
      · subst hb
        simp [next, honoured, granted]
        omega
      · simp [next, honoured, granted, hb, Multiset.count_cons_of_ne (Ne.symm hb)]
    | claim b =>
      by_cases hb : b = a
      · subst hb
        by_cases hmem : b ∈ s
        · have hpos := Multiset.count_pos.mpr hmem
          simp [next, honoured, granted, hmem]
          omega
        · simp [next, honoured, granted, hmem]
      · simp [next, honoured, granted, hb, Multiset.count_erase_of_ne (Ne.symm hb)]

/-- A claim is honoured exactly when the grants outnumber the claims honoured before. -/
theorem mem_iff_lt {tr : List (Multiset α × Op α)} {s : Multiset α} (h : Run Step 0 tr s) (a : α) :
    a ∈ s ↔ tr.countP (honoured a) < tr.countP (granted a) := by
  rw [← Multiset.count_pos, ← count_add_honoured h a]
  omega

end GsEmu.Tokens
