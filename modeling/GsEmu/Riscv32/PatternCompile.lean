import GsEmu.Riscv32.Decode

/-! `pattern_decode`: what key, mask and shift say of a word is what the string says. -/

namespace GsEmu.Riscv32
open BitVec

/-! ## What a string says -/

def positions (str : String) : List Char := (str.toList.filter (· ≠ ' ')).reverse

/-- The bits of `v` at the digits of `ds` are those digits. -/
def Agrees (ds : List Char) (v : BitVec 64) : Prop :=
  ∀ i, (ds[i]? = some '0' → v.getLsbD i = false) ∧ (ds[i]? = some '1' → v.getLsbD i = true)

def Pattern.Selects (p : Pattern) (v : BitVec 64) : Prop := (v >>> p.shift.toNat) &&& p.mask = p.key

def Digit (c : Char) : Prop := c = '0' ∨ c = '1' ∨ c = '?'

/-! ## The accumulators -/

/-- The three accumulators after the positions `ds`, the last one first. -/
structure Compiled (ds : List Char) (key mask shift : BitVec 64) : Prop where
  key : ∀ i < 64, key.getLsbD i = decide (ds[i]? = some '1')
  mask : ∀ i < 64, mask.getLsbD i = ds[i]?.any (· ≠ '?')
  free : ∀ i < shift.toNat, ds[i]? = some '?'
  short : shift.toNat ≤ ds.length

variable {ds : List Char} {key mask shift : BitVec 64} {c : Char} {cs : List Char}

theorem compiled_nil : Compiled [] 0 0 0 :=
  ⟨by simp, by simp, fun i hi => absurd hi (Nat.not_lt_zero i), le_rfl⟩

theorem getLsbD_shiftIn {x y : BitVec 64} (hy : y = 0 ∨ y = 1) {i : Nat} (hi : i + 1 < 64) :
    ((x <<< 1) ||| y).getLsbD (i + 1) = x.getLsbD i := by
  have hy0 : y.getLsbD (i + 1) = false := by
    rcases hy with rfl | rfl
    · exact getLsbD_zero
    · simp
  rw [getLsbD_or, hy0, Bool.or_false, getLsbD_shiftLeft, decide_eq_true hi, decide_eq_false (by omega),
    Nat.add_sub_cancel]
  rfl

theorem Compiled.shift_succ (h : Compiled ds key mask shift) (hlen : ds.length < 64) :
    (shift + 1).toNat = shift.toNat + 1 := by
  have hshort := h.short
  rw [toNat_add]
  exact Nat.mod_eq_of_lt (show shift.toNat + 1 < 2 ^ 64 by omega)

theorem Compiled.cons (h : Compiled ds key mask shift) (hlen : ds.length < 64) (c : Char) :
    Compiled (c :: ds) ((key <<< 1) ||| (if c = '1' then 1 else 0))
      ((mask <<< 1) ||| (if c = '?' then 0 else 1)) (if c = '?' then shift + 1 else 0) where
  key := by
    intro i hi
    cases i with
    | zero => by_cases h1 : c = '1' <;> simp [h1]
    | succ i =>
      rw [getLsbD_shiftIn (by by_cases h1 : c = '1' <;> simp [h1]) hi, h.key i (Nat.lt_of_succ_lt hi)]
      rfl
  mask := by
    intro i hi
    cases i with
    | zero => by_cases h1 : c = '?' <;> simp [h1]
    | succ i =>
      rw [getLsbD_shiftIn (by by_cases h1 : c = '?' <;> simp [h1]) hi, h.mask i (Nat.lt_of_succ_lt hi)]
      rfl
  free := by
    intro i hi
    by_cases h1 : c = '?'
    · rw [if_pos h1, h.shift_succ hlen] at hi
      cases i with
      | zero => rw [h1]; rfl
      | succ i => exact h.free i (Nat.lt_of_succ_lt_succ hi)
    · rw [if_neg h1] at hi
      exact absurd hi (Nat.not_lt_zero i)
  short := by
    by_cases h1 : c = '?'
    · rw [if_pos h1, h.shift_succ hlen]
      exact Nat.succ_le_succ h.short
    · rw [if_neg h1]
      exact Nat.zero_le _

theorem patternLoop_compiled (h : Compiled ds key mask shift) (hcs : ∀ c ∈ cs, c = ' ' ∨ Digit c)
    (hlen : ds.length + cs.length < 64) : ∃ k m s, Compiled ((cs.filter (· ≠ ' ')).reverse ++ ds) k m s ∧
      patternLoop cs key mask shift = some ⟨k >>> s.toNat, m >>> s.toNat, s⟩ := by
  induction cs generalizing ds key mask shift with
  | nil => exact ⟨key, mask, shift, h, rfl⟩
  | cons c cs ih =>
    have hrest := fun d hd => hcs d (List.mem_cons_of_mem c hd)
    rw [List.length_cons] at hlen
    rw [patternLoop]
    by_cases hspace : c = ' '
    · rw [if_pos hspace, List.filter_cons_of_neg (by simpa using hspace)]
      exact ih h hrest (by omega)
    · have hdigit : c = '0' ∨ c = '1' ∨ c = '?' := (hcs c List.mem_cons_self).resolve_left hspace
      rw [if_neg hspace, if_pos hdigit, List.filter_cons_of_pos (by simpa using hspace), List.reverse_cons,
        List.append_assoc]
      have hroom : (c :: ds).length + cs.length < 64 := by
        rw [List.length_cons]
        omega
      exact ih (h.cons (by omega) c) hrest hroom

/-! ## The comparison -/

theorem Compiled.selects_iff (h : Compiled ds key mask shift) (hds : ∀ c ∈ ds, Digit c)
    (hlen : ds.length < 64) (v : BitVec 64) :
    Pattern.Selects ⟨key >>> shift.toNat, mask >>> shift.toNat, shift⟩ v ↔ Agrees ds v := by
  have hbits : Pattern.Selects ⟨key >>> shift.toNat, mask >>> shift.toNat, shift⟩ v ↔
      ∀ i < 64, shift.toNat ≤ i → (v.getLsbD i && mask.getLsbD i) = key.getLsbD i := by
    constructor
    · intro hsel i hi hle
      have hbit := congrArg (getLsbD · (i - shift.toNat)) hsel
      simp only [getLsbD_and, getLsbD_ushiftRight] at hbit
      rwa [Nat.add_sub_cancel' hle] at hbit
    · intro hall
      apply eq_of_getLsbD_eq
      intro i _
      rw [getLsbD_and, getLsbD_ushiftRight, getLsbD_ushiftRight, getLsbD_ushiftRight]
      by_cases hi : shift.toNat + i < 64
      · exact hall _ hi (Nat.le_add_right _ _)
      · rw [getLsbD_of_ge v _ (not_lt.mp hi), getLsbD_of_ge key _ (not_lt.mp hi), Bool.false_and]
  rw [hbits]
  constructor
  · intro hall i
    have hdigit : ∀ c, ds[i]? = some c → c ≠ '?' → (v.getLsbD i && decide (c ≠ '?')) = decide (c = '1') := by
      intro c hc hfixed
      have hi : i < 64 := (List.getElem?_eq_some_iff.mp hc).1.trans hlen
      have hle : shift.toNat ≤ i := by
        by_contra hlt
        exact hfixed (Option.some.inj (hc.symm.trans (h.free i (not_le.mp hlt))))
      have hbit := hall i hi hle
      rw [h.key i hi, h.mask i hi, hc] at hbit
      simpa using hbit
    exact ⟨fun h0 => by simpa using hdigit _ h0 (by decide), fun h1 => by simpa using hdigit _ h1 (by decide)⟩
  · intro hagrees i hi _
    rw [h.key i hi, h.mask i hi]
    cases hc : ds[i]? with
    | none => simp
    | some c =>
      rcases hds c (List.mem_of_getElem? hc) with rfl | rfl | rfl
      · rw [(hagrees i).1 hc]
        rfl
      · rw [(hagrees i).2 hc]
        rfl
      · simp

theorem patternLoop_selects (hcs : ∀ c ∈ cs, c = ' ' ∨ Digit c) (hlen : cs.length < 64) :
    ∃ p, patternLoop cs 0 0 0 = some p ∧ p.shift.toNat < 64 ∧
      ∀ v, p.Selects v ↔ Agrees (cs.filter (· ≠ ' ')).reverse v := by
  obtain ⟨k, m, s, hcompiled, hloop⟩ := patternLoop_compiled compiled_nil hcs
    (by rwa [List.length_nil, Nat.zero_add])
  rw [List.append_nil] at hcompiled
  have hpositions : (cs.filter (· ≠ ' ')).reverse.length < 64 := by
    rw [List.length_reverse]
    exact (List.length_filter_le _ _).trans_lt hlen
  have hdigits : ∀ c ∈ (cs.filter (· ≠ ' ')).reverse, Digit c := by
    intro c hc
    obtain ⟨hmem, hspace⟩ := List.mem_filter.mp (List.mem_reverse.mp hc)
    exact (hcs c hmem).resolve_left (of_decide_eq_true hspace)
  refine ⟨_, hloop, hcompiled.short.trans_lt hpositions, fun v => ?_⟩
  exact hcompiled.selects_iff hdigits hpositions v

/-! ## Main results -/

theorem patternDecode_correct {str : String} (hchars : ∀ c ∈ str.toList, c = ' ' ∨ Digit c)
    (hlen : str.toList.length ≤ 63) : ∃ p, patternDecode str = some p ∧ p.shift.toNat < 64 ∧
      ∀ v, p.Selects v ↔ Agrees (positions str) v := by
  have hshort : str.toList.length < 64 := Nat.lt_succ_of_le hlen
  obtain ⟨p, hloop, hrest⟩ := patternLoop_selects hchars hshort
  exact ⟨p, (if_pos hshort).trans hloop, hrest⟩

theorem patternDecode_correct_slli : ∃ p, patternDecode "000000? ????? ????? 001 ????? 00100 11" = some p ∧
    p.shift.toNat < 64 ∧
      ∀ v, p.Selects v ↔ Agrees (positions "000000? ????? ????? 001 ????? 00100 11") v := by
  have hall : "000000? ????? ????? 001 ????? 00100 11".toList.all
      (fun c => c == ' ' || (c == '0' || (c == '1' || c == '?'))) = true := by decide
  refine patternDecode_correct (fun c hc => ?_) (by decide)
  have hc := List.all_eq_true.mp hall c hc
  simpa only [Digit, Bool.or_eq_true, beq_iff_eq] using hc

end GsEmu.Riscv32
