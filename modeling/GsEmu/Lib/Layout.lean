import Mathlib.Tactic

/-! C struct layout: the offset of a field, and the common initial sequence of two structs. -/

namespace GsEmu.Layout

structure Field where
  name : String
  size : Nat
  align : Nat

def roundUp (n align : Nat) : Nat := (n + align - 1) / align * align

def offsetFrom : Nat → List Field → String → Option Nat
  | _, [], _ => none
  | n, f :: fs, x =>
    if f.name = x then some (roundUp n f.align)
    else offsetFrom (roundUp n f.align + f.size) fs x

/-- `offsetof`; a member that the struct lacks has none. -/
abbrev offsetOf (fs : List Field) (x : String) : Option Nat := offsetFrom 0 fs x

/-- Members of a common initial sequence have the same offsets, whatever follows. -/
theorem offsetFrom_append {n : Nat} {fs : List Field} {x : String} (gs : List Field)
    (hx : x ∈ fs.map Field.name) : offsetFrom n (fs ++ gs) x = offsetFrom n fs x := by
  induction fs generalizing n with
  | nil => simp at hx
  | cons f fs ih =>
    simp only [List.cons_append, offsetFrom]
    split
    · rfl
    · rename_i hne
      rw [List.map_cons, List.mem_cons] at hx
      exact ih (hx.resolve_left (Ne.symm hne))

end GsEmu.Layout
