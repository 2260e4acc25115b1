import Mathlib.Data.List.Basic
import Mathlib.Order.Bounds.Basic
import Mathlib.Order.MinMax

/-! Regular expressions that are sequences of character classes, repeated classes and word boundaries, and the
leftmost-longest search for them. -/

namespace GsEmu.Regex

variable {α : Type*}

/-! ## Greatest elements -/

def Greatest (S : Nat → Prop) : Option Nat → Prop
  | none => ∀ n, ¬S n
  | some m => IsGreatest {n | S n} m

variable {S T : Nat → Prop} {x y : Option Nat}

theorem Greatest.congr (h : Greatest S x) (hST : ∀ n, S n ↔ T n) : Greatest T x := by
  obtain rfl : S = T := funext fun n => propext (hST n)
  exact h

theorem Greatest.succ (h : Greatest S x) : Greatest (fun n => ∃ k, n = k + 1 ∧ S k) (x.map (· + 1)) := by
  cases x with
  | none =>
    rintro n ⟨k, -, hk⟩
    exact h k hk
  | some m =>
    refine ⟨⟨m, rfl, h.1⟩, ?_⟩
    rintro n ⟨k, rfl, hk⟩
    exact Nat.succ_le_succ (h.2 hk)

theorem Greatest.union (h : Greatest S x) (h' : Greatest T y) : Greatest (fun n => S n ∨ T n) (max x y) := by
  cases x with
  | none =>
    cases y with
    | none => exact fun n hn => hn.elim (h n) (h' n)
    | some n => exact ⟨.inr h'.1, fun k hk => h'.2 (hk.resolve_left (h k))⟩
  | some m =>
    cases y with
    | none => exact ⟨.inl h.1, fun k hk => h.2 (hk.resolve_right (h' k))⟩
    | some n =>
      refine ⟨?_, fun k hk => hk.elim (fun hk => le_max_of_le_left (h.2 hk))
        fun hk => le_max_of_le_right (h'.2 hk)⟩
      rcases max_choice m n with hmax | hmax
      · rw [hmax]
        exact .inl h.1
      · rw [hmax]
        exact .inr h'.1

/-! ## Matches -/

inductive Piece (α : Type*)
  | one (p : α → Bool)
  | many (p : α → Bool)
  | bound (isWord : α → Bool)

/-- The characters on the two sides of a word boundary. -/
def atBound (isWord : α → Bool) (before after : Option α) : Bool :=
  before.any isWord != after.any isWord

/-- The first `n` characters of `s` match, `before` being the character in front of `s`. -/
def Matches : List (Piece α) → Option α → List α → Nat → Prop
  | [], _, _, n => n = 0
  | .one p :: ps, _, s, n => ∃ c s' k, s = c :: s' ∧ p c = true ∧ n = k + 1 ∧ Matches ps (some c) s' k
  | .many p :: ps, before, s, n => ∃ w s' k, s = w ++ s' ∧ (∀ c ∈ w, p c = true) ∧ n = w.length + k ∧
      Matches ps (w.getLast?.or before) s' k
  | .bound isWord :: ps, before, s, n => atBound isWord before s.head? = true ∧ Matches ps before s n

variable {ps : List (Piece α)} {p : α → Bool} {before : Option α} {s : List α} {c : α} {n : Nat}

theorem Matches.le_length (h : Matches ps before s n) : n ≤ s.length := by
  induction ps generalizing before s n with
  | nil => exact h.symm ▸ Nat.zero_le _
  | cons q ps ih =>
    cases q with
    | one p =>
      obtain ⟨c, s', k, rfl, -, rfl, hk⟩ := h
      exact Nat.succ_le_succ (ih hk)
    | many p =>
      obtain ⟨w, s', k, rfl, -, rfl, hk⟩ := h
      rw [List.length_append]
      exact Nat.add_le_add_left (ih hk) _
    | bound isWord => exact ih h.2

theorem getLast?_cons_or (c : α) (w : List α) (before : Option α) :
    (c :: w).getLast?.or before = w.getLast?.or (some c) := by
  rw [List.getLast?_cons]
  cases w.getLast? <;> rfl

theorem matches_many_iff : Matches (.many p :: ps) before s n ↔ Matches ps before s n ∨
    ∃ c s' k, s = c :: s' ∧ p c = true ∧ n = k + 1 ∧ Matches (.many p :: ps) (some c) s' k := by
  constructor
  · rintro ⟨w, s', k, rfl, hw, rfl, hk⟩
    cases w with
    | nil =>
      refine .inl ?_
      rwa [List.length_nil, Nat.zero_add]
    | cons c w =>
      rw [getLast?_cons_or] at hk
      refine .inr ⟨c, w ++ s', w.length + k, rfl, hw c List.mem_cons_self, ?_, w, s', k, rfl,
        fun d hd => hw d (List.mem_cons_of_mem c hd), rfl, hk⟩
      rw [List.length_cons]
      omega
  · rintro (h | ⟨c, s', k, rfl, hc, rfl, w, s'', j, rfl, hw, rfl, hj⟩)
    · exact ⟨[], s, n, rfl, by simp, (Nat.zero_add n).symm, h⟩
    · rw [← getLast?_cons_or c w before] at hj
      refine ⟨c :: w, s'', j, rfl, List.forall_mem_cons.mpr ⟨hc, hw⟩, ?_, hj⟩
      rw [List.length_cons]
      omega

def minLength (ps : List (Piece α)) : Nat := ps.countP fun
  | .one _ => true
  | _ => false

theorem Matches.minLength_le (h : Matches ps before s n) : minLength ps ≤ n := by
  induction ps generalizing before s n with
  | nil => exact Nat.zero_le n
  | cons q ps ih =>
    cases q with
    | one p =>
      obtain ⟨c, s', k, -, -, rfl, hk⟩ := h
      exact (List.countP_cons_of_pos rfl).trans_le (Nat.succ_le_succ (ih hk))
    | many p =>
      obtain ⟨w, s', k, -, -, rfl, hk⟩ := h
      refine (List.countP_cons_of_neg (by simp)).trans_le ?_
      exact (ih hk).trans (Nat.le_add_left k _)
    | bound isWord => exact (List.countP_cons_of_neg (by simp)).trans_le (ih h.2)

/-! ## The longest match -/

def longestMany (p : α → Bool) (rest : Option α → List α → Option Nat) : Option α → List α → Option Nat
  | before, [] => rest before []
  | before, c :: s =>
    if p c then max (rest before (c :: s)) ((longestMany p rest (some c) s).map (· + 1))
    else rest before (c :: s)

def longest : List (Piece α) → Option α → List α → Option Nat
  | [], _, _ => some 0
  | .one _ :: _, _, [] => none
  | .one p :: ps, _, c :: s => if p c then (longest ps (some c) s).map (· + 1) else none
  | .many p :: ps, before, s => longestMany p (longest ps) before s
  | .bound isWord :: ps, before, s => if atBound isWord before s.head? then longest ps before s else none

theorem longestMany_greatest {rest : Option α → List α → Option Nat}
    (hrest : ∀ before s, Greatest (Matches ps before s) (rest before s)) (before : Option α) (s : List α) :
    Greatest (Matches (.many p :: ps) before s) (longestMany p rest before s) := by
  induction s generalizing before with
  | nil =>
    refine (hrest before []).congr fun n => ?_
    rw [matches_many_iff]
    simp
  | cons c s ih =>
    rw [longestMany]
    split
    · refine ((hrest before (c :: s)).union (ih (some c)).succ).congr fun n => ?_
      rw [matches_many_iff]
      refine or_congr_right ⟨?_, ?_⟩
      · rintro ⟨k, hn, hk⟩
        exact ⟨c, s, k, rfl, ‹p c = true›, hn, hk⟩
      · rintro ⟨d, s', k, hs, -, hn, hk⟩
        obtain ⟨rfl, rfl⟩ := List.cons.inj hs
        exact ⟨k, hn, hk⟩
    · refine (hrest before (c :: s)).congr fun n => ?_
      rw [matches_many_iff]
      refine (or_iff_left ?_).symm
      rintro ⟨d, s', k, hs, hd, -⟩
      obtain ⟨rfl, rfl⟩ := List.cons.inj hs
      exact absurd hd ‹¬p _ = true›

theorem longest_greatest (ps : List (Piece α)) (before : Option α) (s : List α) :
    Greatest (Matches ps before s) (longest ps before s) := by
  induction ps generalizing before s with
  | nil => exact ⟨rfl, fun n hn => hn.le⟩
  | cons q ps ih =>
    cases q with
    | one p =>
      cases s with
      | nil =>
        rintro n ⟨c, s', k, hs, -⟩
        exact absurd hs (by simp)
      | cons c s =>
        rw [longest]
        split
        · refine (ih (some c) s).succ.congr fun n => ⟨?_, ?_⟩
          · rintro ⟨k, hn, hk⟩
            exact ⟨c, s, k, rfl, ‹p c = true›, hn, hk⟩
          · rintro ⟨d, s', k, hs, -, hn, hk⟩
            obtain ⟨rfl, rfl⟩ := List.cons.inj hs
            exact ⟨k, hn, hk⟩
        · rintro n ⟨d, s', k, hs, hd, -⟩
          obtain ⟨rfl, rfl⟩ := List.cons.inj hs
          exact absurd hd ‹¬p _ = true›
    | many p => exact longestMany_greatest ih before s
    | bound isWord =>
      rw [longest]
      split
      · exact (ih before s).congr fun n => (and_iff_right ‹_›).symm
      · exact fun n hn => absurd hn.1 ‹_›

/-! ## The leftmost match -/

/-- Start and end of the match that begins first and, from there, is the longest. -/
def search (ps : List (Piece α)) : Option α → List α → Option (Nat × Nat)
  | before, [] => (longest ps before []).map fun n => (0, n)
  | before, c :: s =>
    match longest ps before (c :: s) with
    | some n => some (0, n)
    | none => (search ps (some c) s).map fun m => (m.1 + 1, m.2 + 1)

def MatchesAt (ps : List (Piece α)) (before : Option α) (s : List α) (i n : Nat) : Prop :=
  i ≤ s.length ∧ Matches ps ((s.take i).getLast?.or before) (s.drop i) n

theorem matchesAt_zero : MatchesAt ps before s 0 n ↔ Matches ps before s n := by
  simp [MatchesAt]

theorem matchesAt_succ {i : Nat} :
    MatchesAt ps before (c :: s) (i + 1) n ↔ MatchesAt ps (some c) s i n := by
  unfold MatchesAt
  rw [List.take_succ_cons, getLast?_cons_or, List.drop_succ_cons, List.length_cons,
    Nat.add_le_add_iff_right]

def LeftmostLongest (ps : List (Piece α)) (before : Option α) (s : List α) : Option (Nat × Nat) → Prop
  | none => ∀ i n, ¬MatchesAt ps before s i n
  | some (so, eo) => (∃ n, eo = so + n ∧ IsGreatest {n | MatchesAt ps before s so n} n) ∧
      ∀ i < so, ∀ n, ¬MatchesAt ps before s i n

theorem leftmostLongest_zero (h : longest ps before s = some n) : LeftmostLongest ps before s (some (0, n)) := by
  have hmax := longest_greatest ps before s
  rw [h] at hmax
  refine ⟨⟨n, (Nat.zero_add n).symm, ?_⟩, fun i hi => absurd hi (Nat.not_lt_zero i)⟩
  exact ⟨matchesAt_zero.mpr hmax.1, fun k hk => hmax.2 (matchesAt_zero.mp hk)⟩

theorem not_matchesAt_zero (h : longest ps before s = none) (n : Nat) : ¬MatchesAt ps before s 0 n := by
  have hmax := longest_greatest ps before s
  rw [h] at hmax
  exact fun hn => hmax n (matchesAt_zero.mp hn)

theorem search_leftmostLongest (ps : List (Piece α)) (before : Option α) (s : List α) :
    LeftmostLongest ps before s (search ps before s) := by
  induction s generalizing before with
  | nil =>
    rw [search]
    cases hlongest : longest ps before [] with
    | none =>
      rintro i n hn
      obtain rfl := Nat.le_zero.mp hn.1
      exact not_matchesAt_zero hlongest n hn
    | some n => exact leftmostLongest_zero hlongest
  | cons c s ih =>
    rw [search]
    cases hlongest : longest ps before (c :: s) with
    | some n => exact leftmostLongest_zero hlongest
    | none =>
      have hrest := ih (some c)
      match hsearch : search ps (some c) s with
      | none =>
        rw [hsearch] at hrest
        intro i n
        cases i with
        | zero => exact not_matchesAt_zero hlongest n
        | succ i => exact fun hn => hrest i n (matchesAt_succ.mp hn)
      | some (so, eo) =>
        rw [hsearch] at hrest
        obtain ⟨⟨n, hn, hmatch, hbest⟩, hbefore⟩ := hrest
        refine ⟨⟨n, ?_, matchesAt_succ.mpr hmatch, fun k hk => hbest (matchesAt_succ.mp hk)⟩, ?_⟩
        · change eo + 1 = so + 1 + n
          omega
        · intro i hi k
          cases i with
          | zero => exact not_matchesAt_zero hlongest k
          | succ i => exact fun hk => hbefore i (Nat.lt_of_succ_lt_succ hi) k (matchesAt_succ.mp hk)

theorem search_zero_of_matches (h : Matches ps before s n) : ∃ m, search ps before s = some (0, m) := by
  have hsearch := search_leftmostLongest ps before s
  match hresult : search ps before s with
  | none =>
    rw [hresult] at hsearch
    exact absurd (matchesAt_zero.mpr h) (hsearch 0 n)
  | some (0, m) => exact ⟨m, rfl⟩
  | some (so + 1, m) =>
    rw [hresult] at hsearch
    exact absurd (matchesAt_zero.mpr h) (hsearch.2 0 (Nat.succ_pos so) n)

/-- The leftmost-longest match starts at 0 only where something matches at the very beginning. -/
theorem search_zero_iff : search ps before s = some (0, n) ↔ IsGreatest {k | Matches ps before s k} n := by
  have hgreatest : ∀ m, search ps before s = some (0, m) → IsGreatest {k | Matches ps before s k} m := by
    intro m hm
    have hsearch := search_leftmostLongest ps before s
    rw [hm] at hsearch
    obtain ⟨⟨k, hk, hmatch, hbest⟩, -⟩ := hsearch
    rw [hk, Nat.zero_add]
    exact ⟨matchesAt_zero.mp hmatch, fun j hj => hbest (matchesAt_zero.mpr hj)⟩
  refine ⟨hgreatest n, fun h => ?_⟩
  obtain ⟨m, hm⟩ := search_zero_of_matches h.1
  rw [hm, (hgreatest m hm).unique h]

/-! ## The longest match of a class that ends -/

def begins : List (Piece α) → α → Bool
  | .one p :: _, c => p c
  | .bound _ :: ps, c => begins ps c
  | _, _ => true

theorem Matches.begins (h : Matches ps before (c :: s) n) : begins ps c = true := by
  induction ps with
  | nil => rfl
  | cons q ps ih =>
    cases q with
    | one p =>
      obtain ⟨d, s', k, hs, hd, -⟩ := h
      obtain ⟨rfl, rfl⟩ := List.cons.inj hs
      exact hd
    | many p => rfl
    | bound isWord => exact ih h.2

theorem isGreatest_nil : IsGreatest {k | Matches ([] : List (Piece α)) before s k} 0 := ⟨rfl, fun _ hk => hk.le⟩

theorem isGreatest_one (hc : p c = true) (h : IsGreatest {k | Matches ps (some c) s k} n) :
    IsGreatest {k | Matches (.one p :: ps) before (c :: s) k} (n + 1) := by
  refine ⟨⟨c, s, n, rfl, hc, rfl, h.1⟩, ?_⟩
  rintro k ⟨d, s', j, hs, -, rfl, hj⟩
  obtain ⟨rfl, rfl⟩ := List.cons.inj hs
  exact Nat.succ_le_succ (h.2 hj)

theorem isGreatest_bound {isWord : α → Bool} (hbound : atBound isWord before s.head? = true)
    (h : IsGreatest {k | Matches ps before s k} n) :
    IsGreatest {k | Matches (.bound isWord :: ps) before s k} n :=
  ⟨⟨hbound, h.1⟩, fun _ hk => h.2 hk.2⟩

theorem Matches.eq_zero (h : Matches ps before s n) (hps : ∀ q ∈ ps, ∃ isWord, q = .bound isWord) : n = 0 := by
  induction ps with
  | nil => exact h
  | cons q ps ih =>
    obtain ⟨isWord, rfl⟩ := hps q List.mem_cons_self
    exact ih h.2 fun r hr => hps r (List.mem_cons_of_mem _ hr)

theorem isGreatest_many {w : List α} (hps : ∀ q ∈ ps, ∃ isWord, q = .bound isWord)
    (hw : ∀ c ∈ w, p c = true) (hs : ∀ c ∈ s.head?, p c = false)
    (hend : Matches ps (w.getLast?.or before) s 0) :
    IsGreatest {k | Matches (.many p :: ps) before (w ++ s) k} w.length := by
  refine ⟨⟨w, s, 0, rfl, hw, rfl, hend⟩, ?_⟩
  rintro k ⟨w', s', j, happend, hw', rfl, hj⟩
  rw [hj.eq_zero hps, Nat.add_zero]
  rcases List.append_eq_append_iff.mp happend with ⟨v, rfl, rfl⟩ | ⟨v, rfl, rfl⟩
  · -- a longer run would take the character behind `w` too
    cases v with
    | nil => simp
    | cons c v =>
      have hc := hw' c (List.mem_append_right _ List.mem_cons_self)
      rw [hs c rfl] at hc
      cases hc
  · rw [List.length_append]
    exact Nat.le_add_right _ _

end GsEmu.Regex
