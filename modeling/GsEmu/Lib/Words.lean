import GsEmu.Lib.Bytes

/-! Arrays of words in byte memories, loaded and stored piece by piece and byte by byte, and copies of bytes. -/

namespace GsEmu.Bytes

variable {m src : Memory} {a n i x : Nat}

/-! ## Copies -/

def copyTo (m : Memory) (a n : Nat) (src : Memory) : Memory :=
  fun x => if a ≤ x ∧ x < a + n then src (x - a) else m x

theorem copyTo_outside (hx : x < a ∨ a + n ≤ x) : copyTo m a n src x = m x := if_neg (by omega)

theorem readLE_zero (h : ∀ i < n, m (a + i) = 0) : readLE m a n = 0 := by
  induction n generalizing a with
  | zero => rfl
  | succ n ih =>
    have hfirst : m a = 0 := h 0 (Nat.succ_pos n)
    have hrest : readLE m (a + 1) n = 0 :=
      ih fun i hi => by rw [Nat.add_assoc, Nat.add_comm 1]; exact h (i + 1) (Nat.succ_lt_succ hi)
    rw [readLE, hfirst, hrest]
    rfl

/-! ## Arrays of words -/

def wordsAt (mem : Memory) (a n : Nat) : List (BitVec 32) := (List.range n).map fun k => readLE mem (a + 4 * k) 4

theorem wordsAt_add (mem : Memory) (a n m : Nat) :
    wordsAt mem a (n + m) = wordsAt mem a n ++ wordsAt mem (a + 4 * n) m := by
  rw [wordsAt, List.range_add, List.map_append, List.map_map, wordsAt, wordsAt]
  refine congrArg _ (List.map_congr_left fun k _ => ?_)
  change readLE mem (a + 4 * (n + k)) 4 = _
  rw [show a + 4 * (n + k) = a + 4 * n + 4 * k by omega]

theorem storeWords_below (mem : Memory) {a x : Nat} (ws : List (BitVec 32)) (hx : x < a) :
    storeWords mem a ws x = mem x := by
  induction ws generalizing a with
  | nil => rfl
  | cons w ws ih => rw [storeWords, writeLE_outside _ _ (by omega), ih (by omega)]

theorem storeWords_cons (mem : Memory) (a : Nat) (w : BitVec 32) (ws : List (BitVec 32)) :
    storeWords mem a (w :: ws) = storeWords (writeLE mem a 4 w) (a + 4) ws := by
  have hcongr : ∀ (m m' : Memory) (b x : Nat), m x = m' x → storeWords m b ws x = storeWords m' b ws x := by
    induction ws with
    | nil => exact fun m m' b x h => h
    | cons v ws ih =>
      intro m m' b x h
      rw [storeWords, storeWords, writeLE, writeLE, ih _ _ _ x h]
  funext x
  by_cases hx : a ≤ x ∧ x < a + 4
  · rw [storeWords_below _ ws (by omega), storeWords, writeLE, writeLE, if_pos hx, if_pos hx]
  · rw [storeWords, writeLE_outside _ _ hx]
    exact hcongr _ _ _ _ (writeLE_outside _ _ hx).symm

theorem storeWords_append (mem : Memory) (a : Nat) (ws vs : List (BitVec 32)) :
    storeWords mem a (ws ++ vs) = storeWords (storeWords mem a ws) (a + 4 * ws.length) vs := by
  induction ws generalizing mem a with
  | nil => rfl
  | cons w ws ih =>
    rw [List.cons_append, storeWords_cons, ih, storeWords_cons, List.length_cons]
    congr 1
    omega

theorem readLE_byte (mem : Memory) (a : Nat) {j : Nat} (hj : j < 4) :
    (readLE mem a 4 >>> (8 * j)).setWidth 8 = mem (a + j) := by
  apply BitVec.eq_of_getLsbD_eq
  intro i hi
  interval_cases j <;> interval_cases i <;> simp [readLE, Nat.add_assoc]

theorem storeWords_wordsAt (mem src : Memory) (a p n : Nat) : storeWords mem a (wordsAt src p n) =
    fun x => if a ≤ x ∧ x < a + 4 * n then src (p + (x - a)) else mem x := by
  funext x
  induction n generalizing mem a p with
  | zero => rw [if_neg (by omega)]; rfl
  | succ n ih =>
    have hcons : wordsAt src p (n + 1) = readLE src p 4 :: wordsAt src (p + 4) n := by
      rw [Nat.add_comm, wordsAt_add]
      rfl
    rw [hcons, storeWords, writeLE]
    by_cases hx : a ≤ x ∧ x < a + 4
    · obtain ⟨j, rfl⟩ := Nat.exists_eq_add_of_le hx.1
      rw [if_pos hx, if_pos (by omega), Nat.add_sub_cancel_left, readLE_byte _ _ (by omega)]
    · rw [if_neg hx, ih mem (a + 4) (p + 4)]
      by_cases hin : a ≤ x ∧ x < a + 4 * (n + 1)
      · rw [if_pos (by omega), if_pos hin, show p + 4 + (x - (a + 4)) = p + (x - a) by omega]
      · rw [if_neg (by omega), if_neg hin]

theorem wordsAt_bytes {mem mem' : Memory} {a b : Nat} (h : wordsAt mem a n = wordsAt mem' b n) {i : Nat}
    (hi : i < 4 * n) : mem (a + i) = mem' (b + i) := by
  have hword : readLE mem (a + 4 * (i / 4)) 4 = readLE mem' (b + 4 * (i / 4)) 4 :=
    List.map_inj_left.mp h (i / 4) (List.mem_range.mpr (by omega))
  have hbyte := readLE_byte mem (a + 4 * (i / 4)) (Nat.mod_lt i (by decide))
  rw [hword, readLE_byte _ _ (Nat.mod_lt i (by decide)), Nat.add_assoc, Nat.add_assoc, Nat.div_add_mod] at hbyte
  exact hbyte.symm

end GsEmu.Bytes
