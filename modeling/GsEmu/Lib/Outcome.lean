import Mathlib.Data.List.Basic

/-! What a computation that may stop early is known to end with. -/

namespace GsEmu.Outcome

universe u v

variable {α β : Type u} {ε : Type v} {E : ε → Prop} {Q R : α → Prop} {r : Except ε α}

/-- `r` returns a value of `Q` or stops for a reason of `E`. -/
def Ensures (E : ε → Prop) (r : Except ε α) (Q : α → Prop) : Prop :=
  match r with
  | .ok a => Q a
  | .error e => E e

@[simp] theorem ensures_ok {a : α} : Ensures E (.ok a) Q ↔ Q a := Iff.rfl

@[simp] theorem ensures_error {e : ε} : Ensures E (.error e) Q ↔ E e := Iff.rfl

theorem Ensures.mono (h : Ensures E r Q) (hQ : ∀ a, Q a → R a) : Ensures E r R := by
  cases r with
  | ok a => exact hQ a h
  | error e => exact h

theorem Ensures.bind {k : α → Except ε β} {S : β → Prop} (h : Ensures E r Q)
    (hk : ∀ a, Q a → Ensures E (k a) S) : Ensures E (r >>= k) S := by
  cases r with
  | ok a => exact hk a h
  | error e => exact h

theorem Ensures.map {f : α → β} {S : β → Prop} (h : Ensures E r Q) (hf : ∀ a, Q a → S (f a)) :
    Ensures E (r.map f) S := by
  cases r with
  | ok a => exact hf a h
  | error e => exact h

theorem Ensures.also (h : Ensures E r Q) (hR : ∀ a, r = .ok a → R a) :
    Ensures E r fun a => Q a ∧ R a := by
  cases r with
  | ok a => exact ⟨h, hR a rfl⟩
  | error e => exact h

theorem Ensures.exists_ok (h : Ensures (fun _ => False) r Q) : ∃ a, r = .ok a ∧ Q a := by
  cases r with
  | ok a => exact ⟨a, rfl, h⟩
  | error e => exact h.elim

theorem ensures_iff : Ensures E r Q ↔ (∀ a, r = .ok a → Q a) ∧ ∀ e, r = .error e → E e := by
  cases r with
  | ok a => simp
  | error e => simp

theorem foldlM_keeps {γ : Type*} {δ : Type*} {I : δ → Prop} {f : δ → γ → Option δ}
    (hf : ∀ d c d', f d c = some d' → I d → I d') {l : List γ} {d d' : δ}
    (h : l.foldlM f d = some d') (hd : I d) : I d' := by
  induction l generalizing d with
  | nil =>
    obtain rfl := Option.some.inj h
    exact hd
  | cons c l ih =>
    obtain ⟨b, hb, h⟩ := Option.bind_eq_some_iff.mp (List.foldlM_cons.symm.trans h)
    exact ih h (hf _ _ _ hb hd)

end GsEmu.Outcome
