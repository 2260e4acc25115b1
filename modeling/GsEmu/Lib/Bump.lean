import GsEmu.Lib.Layout

/-! Bump allocation: things placed one behind the other, each in a whole number of pages, where what
uses a place may assume another length than was asked for. -/

namespace GsEmu.Bump
open Layout

variable {α : Type*} (page : Nat) (size window : α → Nat)

/-- Each thing with the place it gets when the next free byte is `p`. -/
def place : Nat → List α → List (Nat × α)
  | _, [] => []
  | p, x :: xs => (p, x) :: place (p + roundUp (size x) page) xs

theorem place_map {β : Type*} (f : β → α) (p : Nat) (xs : List β) :
    (place page (size ∘ f) p xs).map (Prod.map id f) = place page size p (xs.map f) := by
  induction xs generalizing p with
  | nil => rfl
  | cons x xs ih => exact congrArg (List.cons (p, f x)) (ih _)

theorem le_of_mem_place {p : Nat} {xs : List α} {y : Nat × α} (h : y ∈ place page size p xs) :
    p ≤ y.1 := by
  induction xs generalizing p with
  | nil => simp [place] at h
  | cons x xs ih =>
    rcases List.mem_cons.mp h with rfl | h
    · exact le_rfl
    · exact (Nat.le_add_right _ _).trans (ih h)

theorem exists_mem_place (p : Nat) {xs : List α} {x : α} (h : x ∈ xs) :
    ∃ q, (q, x) ∈ place page size p xs := by
  induction xs generalizing p with
  | nil => simp at h
  | cons z zs ih =>
    rcases List.mem_cons.mp h with rfl | h
    · exact ⟨p, List.mem_cons_self ..⟩
    · obtain ⟨q, hq⟩ := ih _ h
      exact ⟨q, List.mem_cons_of_mem _ hq⟩

theorem mem_of_mem_place {p : Nat} {xs : List α} {y : Nat × α} (h : y ∈ place page size p xs) :
    y.2 ∈ xs := by
  induction xs generalizing p with
  | nil => simp [place] at h
  | cons x xs ih =>
    rcases List.mem_cons.mp h with rfl | h
    · exact List.mem_cons_self ..
    · exact List.mem_cons_of_mem _ (ih h)

theorem place_sorted (p : Nat) (xs : List α) :
    (place page size p xs).Pairwise fun x y => x.1 ≤ y.1 := by
  induction xs generalizing p with
  | nil => exact .nil
  | cons x xs ih =>
    refine List.pairwise_cons.mpr ⟨fun y hy => ?_, ih _⟩
    have hle := le_of_mem_place page size hy
    dsimp only
    omega

/-- Windows and a margin of `k` bytes behind each end before the next place exactly when they end in
the pages of their own place, the last one excepted. -/
theorem place_pairwise_iff (k p : Nat) (xs : List α) :
    (place page size p xs).Pairwise (fun x y => x.1 + window x.2 + k ≤ y.1) ↔
      ∀ x ∈ xs.dropLast, window x + k ≤ roundUp (size x) page := by
  induction xs generalizing p with
  | nil => simp [place]
  | cons x xs ih =>
    rw [place, List.pairwise_cons, ih]
    cases xs with
    | nil => simp [place]
    | cons z zs =>
      rw [List.dropLast_cons_cons, List.forall_mem_cons]
      apply and_congr_left'
      constructor
      · intro h
        have hnext := h _ (List.mem_cons_self ..)
        dsimp only at hnext
        omega
      · intro h y hy
        have hle := le_of_mem_place page size hy
        dsimp only
        omega

end GsEmu.Bump
