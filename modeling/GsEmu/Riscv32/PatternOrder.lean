import GsEmu.Riscv32.Select

/-! The order of the pattern table: at most one line but the last hits a word, so the lines before it may
stand in any order. -/

namespace GsEmu.Riscv32

variable {c : Config} {ir : Word}

def zeroLine : Instpat := rvInv.head (by simp [rvInv])

def lastLine : Instpat := rvInv.getLast (by simp [rvInv])

theorem instpats_eq (c : Config) : instpats c = legalLines c ++ [zeroLine] ++ [lastLine] := by
  rw [List.append_assoc]
  rfl

theorem apart_zeroLine : ∀ p ∈ rv32i ++ rv32m ++ rv32a ++ rvZicsr ++ rvZifencei,
    p.code.Apart zeroLine.code := by
  decide +kernel

theorem lines_apart (c : Config) : ((legalLines c ++ [zeroLine]).map (·.code)).Pairwise Pattern.Apart := by
  rw [List.map_append, List.pairwise_append]
  refine ⟨legalLines_apart c, List.pairwise_singleton _ _, ?_⟩
  simp only [List.mem_map, List.map_singleton, List.mem_singleton]
  rintro _ ⟨p, hp, rfl⟩ _ rfl
  exact apart_zeroLine p ((legalLines_sublist c).subset hp)

theorem hits_length_le {ls : List Instpat} (h : (ls.map (·.code)).Pairwise Pattern.Apart) :
    (ls.filter (·.hits ir)).length ≤ 1 := by
  have hpair := (List.pairwise_map.mp h).filter (·.hits ir)
  have hall : ∀ p ∈ ls.filter (·.hits ir), p.hits ir = true := fun p hp => (List.mem_filter.mp hp).2
  generalize ls.filter (·.hits ir) = hits at hpair hall ⊢
  match hits with
  | [] => exact Nat.zero_le 1
  | [p] => exact le_rfl
  | p :: q :: rest =>
    have hno := ((List.pairwise_cons.mp hpair).1 q List.mem_cons_self).hits (hall p List.mem_cons_self)
    exact absurd (hall q (List.mem_cons_of_mem p List.mem_cons_self)) (Bool.eq_false_iff.mp hno)

theorem find?_perm {α : Type*} {p : α → Bool} {l l' : List α} (h : l'.Perm l)
    (hone : (l.filter p).length ≤ 1) : l'.find? p = l.find? p := by
  have hperm := h.filter p
  rw [← List.head?_filter, ← List.head?_filter]
  match hl : l.filter p with
  | [] =>
    rw [hl] at hperm
    rw [hperm.eq_nil]
  | [a] =>
    rw [hl] at hperm
    rw [List.perm_singleton.mp hperm]
  | a :: b :: rest =>
    rw [hl, List.length_cons, List.length_cons] at hone
    omega

/-- In every build: one line at most besides the two `inv` lines, none of them for the word 0, and every
order of the lines before the last selects the same one. -/
theorem pattern_order (c : Config) (ir : Word) :
    ((legalLines c).filter (·.hits ir)).length ≤ 1 ∧
    (∀ p ∈ legalLines c, p.hits ir = true → zeroLine.hits ir = false) ∧
    ∀ ls : List Instpat, ls.Perm (legalLines c ++ [zeroLine]) →
      (ls ++ [lastLine]).find? (·.hits ir) = selectInst c ir := by
  refine ⟨hits_length_le (legalLines_apart c), fun p hp hit => ?_, fun ls hperm => ?_⟩
  · exact (apart_zeroLine p ((legalLines_sublist c).subset hp)).hits hit
  · rw [selectInst, instpats_eq, List.find?_append, List.find?_append,
      find?_perm hperm (hits_length_le (lines_apart c))]

end GsEmu.Riscv32
