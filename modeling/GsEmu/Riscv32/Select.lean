import GsEmu.Riscv32.Decode

/-! Which line of the pattern table a word selects: no word hits two lines but the last. -/

namespace GsEmu.Riscv32

variable {c : Config} {ir : Word}

def Pattern.Apart (p q : Pattern) : Prop :=
  p.shift = 0 ∧ q.shift = 0 ∧ (p.key ^^^ q.key) &&& (p.mask &&& q.mask) ≠ 0

instance (p q : Pattern) : Decidable (p.Apart q) := inferInstanceAs (Decidable (_ ∧ _))

theorem Pattern.Apart.hits {p q : Pattern} (hpq : p.Apart q) (hp : p.hits ir = true) : q.hits ir = false := by
  obtain ⟨hp0, hq0, hne⟩ := hpq
  rw [Bool.eq_false_iff]
  intro hq
  simp only [Pattern.hits, hp0, hq0, decide_eq_true_eq] at hp hq
  apply hne
  rw [← hp, ← hq]
  apply BitVec.eq_of_getLsbD_eq
  intro i hi
  simp only [BitVec.getLsbD_and, BitVec.getLsbD_xor]
  cases p.mask.getLsbD i <;> cases q.mask.getLsbD i <;> simp

theorem find?_of_pairwise {l : List Instpat} (hl : (l.map (·.code)).Pairwise Pattern.Apart) {p : Instpat}
    (hp : p ∈ l) (hit : p.hits ir = true) : l.find? (·.hits ir) = some p := by
  induction l with
  | nil => simp at hp
  | cons q l ih =>
    rw [List.map_cons, List.pairwise_cons] at hl
    rcases List.mem_cons.mp hp with rfl | hp
    · simp only [List.find?_cons, hit]
    · have hno : q.hits ir = false := by
        rw [Bool.eq_false_iff]
        intro hq
        have hpq := hl.1 _ (List.mem_map_of_mem hp)
        exact absurd hit (Bool.eq_false_iff.mp (hpq.hits hq))
      simp only [List.find?_cons, hno]
      exact ih hl.2 hp

def legalLines (c : Config) : List Instpat :=
  rv32i ++ rv32m ++ (if c.rva then rv32a else []) ++ (if c.rvZicsr then rvZicsr else []) ++
    if c.rvZifencei then rvZifencei else []

theorem all_apart : ((rv32i ++ rv32m ++ rv32a ++ rvZicsr ++ rvZifencei).map (·.code)).Pairwise
    Pattern.Apart := by
  decide +kernel

theorem ite_nil_sublist {α : Type} (b : Bool) (l : List α) :
    List.Sublist (if b then l else []) l := by
  cases b
  · exact List.nil_sublist l
  · exact List.Sublist.refl l

theorem legalLines_sublist (c : Config) :
    List.Sublist (legalLines c) (rv32i ++ rv32m ++ rv32a ++ rvZicsr ++ rvZifencei) := by
  refine ((List.Sublist.append ?_ ?_).append ?_).append ?_
  · exact List.Sublist.refl _
  · exact ite_nil_sublist _ _
  · exact ite_nil_sublist _ _
  · exact ite_nil_sublist _ _

theorem legalLines_apart (c : Config) : ((legalLines c).map (·.code)).Pairwise Pattern.Apart :=
  all_apart.sublist ((legalLines_sublist c).map _)

theorem selectInst_of_mem {p : Instpat} (hp : p ∈ legalLines c) (hit : p.hits ir = true) :
    selectInst c ir = some p := by
  rw [selectInst, show instpats c = legalLines c ++ rvInv from rfl, List.find?_append,
    find?_of_pairwise (legalLines_apart c) hp hit, Option.some_or]

theorem selectInst_inv (h : ∀ p ∈ legalLines c, p.hits ir = false) :
    ∃ p, selectInst c ir = some p ∧ p.body = .inv := by
  have hnone : (legalLines c).find? (·.hits ir) = none := by
    rw [List.find?_eq_none]
    intro p hp
    rw [h p hp]
    exact Bool.false_ne_true
  have hsome : (rvInv.find? (·.hits ir)).isSome := by
    rw [List.find?_isSome]
    refine ⟨rvInv.getLast (by simp [rvInv]), List.getLast_mem _, ?_⟩
    simp [rvInv, Instpat.hits, Pattern.hits]
  obtain ⟨p, hp⟩ := Option.isSome_iff_exists.mp hsome
  refine ⟨p, ?_, ?_⟩
  · rw [selectInst, show instpats c = legalLines c ++ rvInv from rfl, List.find?_append, hnone,
      Option.none_or, hp]
  · have hmem := List.mem_of_find?_eq_some hp
    simp only [rvInv, List.mem_cons, List.not_mem_nil, or_false] at hmem
    rcases hmem with rfl | rfl <;> rfl

theorem Pattern.hits_of_and {k m : Word} (hk : ir &&& m = k) :
    Pattern.hits ⟨k.setWidth 64, m.setWidth 64, 0⟩ ir = true := by
  rw [Pattern.hits, decide_eq_true_eq, ← hk]
  apply BitVec.eq_of_getLsbD_eq
  intro i hi
  simp

theorem hits_of_and {p : Instpat} {k m : Word}
    (hp : p.code = ⟨k.setWidth 64, m.setWidth 64, 0⟩) (hk : ir &&& m = k) : p.hits ir = true := by
  rw [Instpat.hits, hp]
  exact Pattern.hits_of_and hk

end GsEmu.Riscv32
