import Mathlib.Tactic

/-! Blocks of values with their addresses: put into a memory, apart from one another, or laid end to end. -/

namespace GsEmu

variable {β : Type*}

structure Block (β : Type*) where
  addr : Int
  bytes : List β

namespace Block

variable {b c : Block β} {bs : List (Block β)} {m : Int → β} {x a e : Int}

def stop (b : Block β) : Int := b.addr + b.bytes.length

def Covers (b : Block β) (x : Int) : Prop := b.addr ≤ x ∧ x < b.stop

def Apart (b c : Block β) : Prop := b.stop ≤ c.addr ∨ c.stop ≤ b.addr

def Within (b : Block β) (lo hi : Int) : Prop := lo ≤ b.addr ∧ b.stop ≤ hi

/-! ## Blocks in a memory -/

def store (m : Int → β) (b : Block β) : Int → β := fun x =>
  if b.addr ≤ x then b.bytes[(x - b.addr).toNat]?.getD (m x) else m x

def Shown (b : Block β) (m : Int → β) : Prop :=
  ∀ i (hi : i < b.bytes.length), m (b.addr + i) = b.bytes[i]

theorem store_of_not_covers (h : ¬b.Covers x) : store m b x = m x := by
  unfold store
  split_ifs with hle
  · have hpast : b.bytes.length ≤ (x - b.addr).toNat := by
      have hstop : b.stop ≤ x := not_lt.mp fun hlt => h ⟨hle, hlt⟩
      unfold stop at hstop
      omega
    rw [List.getElem?_eq_none hpast, Option.getD_none]
  · rfl

theorem shown_store (b : Block β) (m : Int → β) : b.Shown (store m b) := by
  intro i hi
  have hindex : (b.addr + i - b.addr).toNat = i := by omega
  rw [store, if_pos (Int.le_add_of_nonneg_right (Int.natCast_nonneg i)), hindex,
    List.getElem?_eq_getElem hi, Option.getD_some]

theorem Shown.store (h : b.Shown m) (hapart : b.Apart c) : b.Shown (store m c) := by
  intro i hi
  have hout : ¬c.Covers (b.addr + i) := by
    rintro ⟨hle, hlt⟩
    rcases hapart with hbefore | hbehind
    · unfold stop at hbefore
      omega
    · omega
  rw [store_of_not_covers hout, h i hi]

theorem shown_foldl (h : b.Shown m) (hapart : ∀ c ∈ bs, b.Apart c) : b.Shown (bs.foldl Block.store m) := by
  induction bs generalizing m with
  | nil => exact h
  | cons c bs ih =>
    exact ih (h.store (hapart c (List.mem_cons_self ..))) fun d hd => hapart d (List.mem_cons_of_mem _ hd)

theorem shown_of_pairwise (hapart : bs.Pairwise Apart) (hb : b ∈ bs) : b.Shown (bs.foldl Block.store m) := by
  induction bs generalizing m with
  | nil => exact absurd hb List.not_mem_nil
  | cons c bs ih =>
    obtain ⟨hfirst, hrest⟩ := List.pairwise_cons.mp hapart
    rw [List.foldl_cons]
    rcases List.mem_cons.mp hb with rfl | hb
    · exact shown_foldl (shown_store b m) hfirst
    · exact ih hrest hb

/-! ## Blocks end to end -/

/-- The blocks lie end to end from `a` up to `e`, in this order. -/
def Tiles : Int → List (Block β) → Int → Prop
  | a, [], e => a = e
  | a, b :: bs, e => b.addr = a ∧ Tiles b.stop bs e

theorem addr_le_stop (b : Block β) : b.addr ≤ b.stop := Int.le_add_of_nonneg_right (Int.natCast_nonneg _)

theorem Tiles.le (h : Tiles a bs e) : a ≤ e := by
  induction bs generalizing a with
  | nil => exact le_of_eq h
  | cons b bs ih =>
    obtain ⟨rfl, hrest⟩ := h
    exact b.addr_le_stop.trans (ih hrest)

theorem Tiles.le_addr (h : Tiles a bs e) (hb : b ∈ bs) : a ≤ b.addr := by
  induction bs generalizing a with
  | nil => exact absurd hb List.not_mem_nil
  | cons c bs ih =>
    obtain ⟨rfl, hrest⟩ := h
    rcases List.mem_cons.mp hb with rfl | hb
    · exact le_rfl
    · exact c.addr_le_stop.trans (ih hrest hb)

theorem Tiles.covers_iff (h : Tiles a bs e) (x : Int) : (∃ b ∈ bs, b.Covers x) ↔ a ≤ x ∧ x < e := by
  induction bs generalizing a with
  | nil =>
    obtain rfl := h
    simp only [List.not_mem_nil, false_and, exists_false, false_iff, not_and, not_lt, imp_self]
  | cons b bs ih =>
    obtain ⟨rfl, hrest⟩ := h
    have hbelow := b.addr_le_stop
    have hle := hrest.le
    rw [List.exists_mem_cons_iff, ih hrest, Covers]
    omega

end Block

end GsEmu
