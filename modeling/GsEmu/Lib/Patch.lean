import Mathlib.Tactic

/-! Writes that cover part of a store, one after the other. -/

namespace GsEmu

variable {α β : Type*}

/-- A write: which places it covers, and what it puts there. -/
structure Patch (α β : Type*) where
  covers : α → Bool
  value : α → β

namespace Patch

variable {p q : Patch α β} {f : α → β} {x : α}

def apply (p : Patch α β) (f : α → β) : α → β := fun x => if p.covers x then p.value x else f x

theorem apply_of_covers (h : p.covers x = true) : p.apply f x = p.value x := if_pos h

theorem apply_of_not_covers (h : p.covers x = false) : p.apply f x = f x := by
  rw [apply, h]
  rfl

theorem apply_comm (hdisj : ∀ x, p.covers x = true → q.covers x = false) :
    p.apply (q.apply f) = q.apply (p.apply f) := by
  funext x
  cases hp : p.covers x with
  | true =>
    have hq := hdisj x hp
    rw [apply_of_covers hp, apply_of_not_covers hq, apply_of_covers hp]
  | false =>
    rw [apply_of_not_covers hp]
    cases hq : q.covers x with
    | true => rw [apply_of_covers hq, apply_of_covers hq]
    | false => rw [apply_of_not_covers hq, apply_of_not_covers hq, apply_of_not_covers hp]

/-- What the last write around `x` put there, or what was there before all of them. -/
def lastValue (ps : List (Patch α β)) (f : α → β) (x : α) : β :=
  match ps.reverse.find? (·.covers x) with
  | some p => p.value x
  | none => f x

theorem lastValue_append (ps : List (Patch α β)) (p : Patch α β) (f : α → β) :
    lastValue (ps ++ [p]) f = p.apply (lastValue ps f) := by
  funext x
  rw [lastValue, List.reverse_append, List.reverse_singleton, List.singleton_append,
    List.find?_cons]
  cases hp : p.covers x with
  | true => exact (apply_of_covers hp).symm
  | false =>
    rw [apply_of_not_covers hp]
    rfl

end Patch

end GsEmu
