import Mathlib.Data.BitVec
import Mathlib.Tactic

/-! Byte memories read and written as little-endian words. -/

namespace GsEmu.Bytes

abbrev Byte := BitVec 8
abbrev Memory := Nat → Byte

def readLE (m : Memory) (a : Nat) : Nat → BitVec 32
  | 0 => 0
  | n + 1 => (readLE m (a + 1) n <<< 8) ||| (m a).setWidth 32

def writeLE (m : Memory) (a n : Nat) (v : BitVec 32) : Memory := fun x =>
  if a ≤ x ∧ x < a + n then (v >>> (8 * (x - a))).setWidth 8 else m x

theorem writeLE_outside (m : Memory) {a n x : Nat} (v : BitVec 32) (hx : ¬(a ≤ x ∧ x < a + n)) :
    writeLE m a n v x = m x := if_neg hx

theorem writeLE_inside (m : Memory) {a n k : Nat} (v : BitVec 32) (hk : k < n) :
    writeLE m a n v (a + k) = (v >>> (8 * k)).setWidth 8 := by
  rw [writeLE, if_pos (by omega), Nat.add_sub_cancel_left]

theorem readLE_shift {m m' : Memory} {a b n : Nat} (h : ∀ i < n, m (a + i) = m' (b + i)) :
    readLE m a n = readLE m' b n := by
  induction n generalizing a b with
  | zero => rfl
  | succ n ih =>
    have hnext : ∀ i < n, m (a + 1 + i) = m' (b + 1 + i) := by
      intro i hi
      have hi' := h (i + 1) (by omega)
      rwa [show a + (i + 1) = a + 1 + i by omega, show b + (i + 1) = b + 1 + i by omega] at hi'
    have hfirst : m a = m' b := h 0 (Nat.succ_pos _)
    rw [readLE, readLE, ih hnext, hfirst]

theorem readLE_congr {m m' : Memory} {a n : Nat} (h : ∀ x, a ≤ x → x < a + n → m x = m' x) :
    readLE m a n = readLE m' a n :=
  readLE_shift fun i hi => h (a + i) (Nat.le_add_right _ _) (Nat.add_lt_add_left hi a)

theorem readLE_writeLE_low (m : Memory) (a : Nat) (v : BitVec 32) {n : Nat} (hn : n ≤ 4) :
    readLE (writeLE m a 4 v) a n = (v.setWidth (8 * n)).setWidth 32 := by
  have hbyte : ∀ j < 4, writeLE m a 4 v (a + j) = (v >>> (8 * j)).setWidth 8 :=
    fun j hj => writeLE_inside m v hj
  have h0 := hbyte 0 (by omega)
  have h1 := hbyte 1 (by omega)
  have h2 := hbyte 2 (by omega)
  have h3 := hbyte 3 (by omega)
  rw [Nat.add_zero] at h0
  interval_cases n <;> simp only [readLE, h0, h1, Nat.add_assoc, Nat.reduceAdd, h2, h3] <;>
    · apply BitVec.eq_of_getLsbD_eq
      intro i hi
      interval_cases i <;> simp

theorem readLE_writeLE (m : Memory) (a : Nat) (v : BitVec 32) :
    readLE (writeLE m a 4 v) a 4 = v :=
  (readLE_writeLE_low m a v (Nat.le_refl 4)).trans (BitVec.setWidth_eq v)

def memcpy (dst src : Memory) (n : Nat) : Memory := fun x => if x < n then src x else dst x

theorem readLE_memcpy_inside {dst src : Memory} {n a len : Nat} (h : a + len ≤ n) :
    readLE (memcpy dst src n) a len = readLE src a len :=
  readLE_congr fun x _ hx => if_pos (by omega)

theorem readLE_memcpy_outside {dst src : Memory} {n a len : Nat} (h : n ≤ a) :
    readLE (memcpy dst src n) a len = readLE dst a len :=
  readLE_congr fun x hx _ => if_neg (by omega)

theorem readLE_writeLE_outside {m : Memory} {a n b len : Nat} (v : BitVec 32)
    (h : b + len ≤ a ∨ a + n ≤ b) : readLE (writeLE m a n v) b len = readLE m b len :=
  readLE_congr fun x _ _ => writeLE_outside m v (by omega)

/-! ## Arrays of words -/

/-- An array of words over what the memory holds elsewhere. -/
def storeWords (m : Memory) : Nat → List (BitVec 32) → Memory
  | _, [] => m
  | a, w :: ws => writeLE (storeWords m (a + 4) ws) a 4 w

theorem readLE_storeWords (m : Memory) {a k : Nat} {ws : List (BitVec 32)} (hk : k < ws.length) :
    readLE (storeWords m a ws) (a + 4 * k) 4 = ws[k] := by
  induction ws generalizing a k with
  | nil => simp at hk
  | cons w ws ih =>
    cases k with
    | zero => exact readLE_writeLE _ _ _
    | succ k =>
      rw [storeWords, readLE_writeLE_outside _ (.inr (by omega)), List.getElem_cons_succ,
        ← ih (Nat.lt_of_succ_lt_succ hk)]
      congr 1
      omega

end GsEmu.Bytes
