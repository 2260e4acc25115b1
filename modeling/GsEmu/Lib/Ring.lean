import Mathlib.Tactic

/-! Circular buffers that keep one slot free, so that equal indices mean an empty one. -/

namespace GsEmu

variable {α : Type*}

/-- The entries lie in the slots from `front` up to, not including, `rear`. -/
structure Ring (α : Type*) where
  slot : Nat → α
  front : Nat
  rear : Nat

namespace Ring

variable {n : Nat} {q : Ring α} {x : α} {l : List α}

def push (n : Nat) (x : α) (q : Ring α) : Ring α :=
  { q with slot := Function.update q.slot q.rear x, rear := (q.rear + 1) % n }

def pop (n : Nat) (q : Ring α) : Ring α := { q with front := (q.front + 1) % n }

/-- The ring of `n` slots holds the entries of `l`, oldest first. -/
structure Holds (n : Nat) (q : Ring α) (l : List α) : Prop where
  room : l.length < n
  front : q.front < n
  rear : q.rear = (q.front + l.length) % n
  entry : ∀ i (hi : i < l.length), q.slot ((q.front + i) % n) = l[i]

theorem index_inj {f i j : Nat} (hi : i < n) (hj : j < n) : (f + i) % n = (f + j) % n ↔ i = j := by
  refine ⟨fun h => ?_, fun h => h ▸ rfl⟩
  have hmod : i ≡ j [MOD n] := Nat.ModEq.add_left_cancel' f h
  exact hmod.eq_of_lt_of_lt hi hj

theorem index_zero {f : Nat} (hf : f < n) : (f + 0) % n = f := by rw [Nat.add_zero, Nat.mod_eq_of_lt hf]

theorem holds_nil (hfront : q.front < n) (hrear : q.rear = q.front) : Holds n q [] where
  room := Nat.zero_lt_of_lt hfront
  front := hfront
  rear := hrear.trans (index_zero hfront).symm
  entry := fun i hi => absurd hi (Nat.not_lt_zero i)

def entries (n : Nat) (q : Ring α) : List α :=
  (List.range ((q.rear + n - q.front) % n)).map fun i => q.slot ((q.front + i) % n)

theorem holds_entries (hfront : q.front < n) (hrear : q.rear < n) : Holds n q (q.entries n) := by
  have hlength : (q.entries n).length = (q.rear + n - q.front) % n := by
    rw [entries, List.length_map, List.length_range]
  refine ⟨hlength ▸ Nat.mod_lt _ (Nat.zero_lt_of_lt hfront), hfront, ?_, fun i hi => ?_⟩
  · have hsum : q.front + (q.rear + n - q.front) = q.rear + n := by omega
    rw [hlength, Nat.add_mod_mod, hsum, Nat.add_mod_right, Nat.mod_eq_of_lt hrear]
  · simp only [entries, List.getElem_map, List.getElem_range]

theorem Holds.front_eq_rear_iff (h : Holds n q l) : q.front = q.rear ↔ l = [] := by
  have hindex : q.front = q.rear ↔ (q.front + 0) % n = (q.front + l.length) % n := by
    rw [index_zero h.front, h.rear]
  rw [hindex, index_inj (Nat.zero_lt_of_lt h.front) h.room, eq_comm, List.length_eq_zero_iff]

theorem Holds.push_rear_eq_front_iff (h : Holds n q l) (x : α) :
    (q.push n x).rear = (q.push n x).front ↔ l.length + 1 = n := by
  have hrear : (q.push n x).rear = (q.front + (l.length + 1)) % n := by
    change (q.rear + 1) % n = _
    rw [h.rear, Nat.mod_add_mod, Nat.add_assoc]
  have hroom := h.room
  rw [hrear]
  change _ = q.front ↔ _
  rcases Nat.lt_or_eq_of_le (Nat.succ_le_of_lt hroom) with hlt | heq
  · have hindex : (q.front + (l.length + 1)) % n = q.front ↔
        (q.front + (l.length + 1)) % n = (q.front + 0) % n := by rw [index_zero h.front]
    rw [hindex, index_inj hlt (Nat.zero_lt_of_lt h.front)]
    exact ⟨fun h0 => absurd h0 (Nat.succ_ne_zero _), fun hfull => absurd hfull (Nat.ne_of_lt hlt)⟩
  · refine ⟨fun _ => heq, fun _ => ?_⟩
    have hsucc : l.length + 1 = n := heq
    rw [hsucc, Nat.add_mod_right, Nat.mod_eq_of_lt h.front]

theorem Holds.push (h : Holds n q l) (x : α) (hroom : l.length + 1 < n) :
    Holds n (q.push n x) (l ++ [x]) := by
  have hlength : (l ++ [x]).length = l.length + 1 := List.length_append
  refine ⟨by rwa [hlength], h.front, ?_, fun i hi => ?_⟩
  · change (q.rear + 1) % n = _
    rw [h.rear, Nat.mod_add_mod, Nat.add_assoc, hlength]
    rfl
  · rw [hlength] at hi
    change Function.update q.slot q.rear x ((q.front + i) % n) = _
    rcases Nat.lt_or_eq_of_le (Nat.le_of_lt_succ hi) with hold | rfl
    · have hother : (q.front + i) % n ≠ q.rear := by
        rw [h.rear, Ne, index_inj (hold.trans h.room) h.room]
        exact Nat.ne_of_lt hold
      rw [Function.update_of_ne hother, h.entry i hold, List.getElem_append_left hold]
    · rw [h.rear, Function.update_self, List.getElem_concat_length rfl]

theorem Holds.head (h : Holds n q (x :: l)) : q.slot q.front = x := by
  have hentry := h.entry 0 (Nat.succ_pos _)
  rwa [index_zero h.front] at hentry

theorem Holds.pop (h : Holds n q (x :: l)) : Holds n (q.pop n) l := by
  have hlength : (x :: l).length = l.length + 1 := rfl
  have hindex : ∀ i, ((q.front + 1) % n + i) % n = (q.front + (i + 1)) % n := by
    intro i
    rw [Nat.mod_add_mod, Nat.add_assoc, Nat.add_comm 1 i]
  refine ⟨Nat.lt_of_succ_lt h.room, Nat.mod_lt _ (Nat.zero_lt_of_lt h.front), ?_, fun i hi => ?_⟩
  · change q.rear = ((q.front + 1) % n + l.length) % n
    rw [h.rear, hindex, hlength]
  · change q.slot (((q.front + 1) % n + i) % n) = _
    rw [hindex, h.entry (i + 1) (Nat.succ_lt_succ hi), List.getElem_cons_succ]

end Ring

end GsEmu
