import GsEmu.Riscv32.Exec
import GsEmu.Sdb.Expr

/-! `isa_reg_str2val`: the loop over the names, and which names it finds. -/

namespace GsEmu.Sdb
open Riscv32

variable {D : Type} {s : String} {st : State D}

/-! ## The loop -/

/-- `for (; i<len && !!strcmp(reg_name(i++),s);)` from `i` on, with the names that are left. -/
def nameLoop (s : String) : List String → Nat → Nat
  | [], i => i
  | name :: names, i => if name = s then i + 1 else nameLoop s names (i + 1)

theorem nameLoop_eq (s : String) (names : List String) (i : Nat) :
    nameLoop s names i = i + min (names.idxOf s + 1) names.length := by
  induction names generalizing i with
  | nil => simp [nameLoop]
  | cons name names ih =>
    simp only [nameLoop, List.idxOf_cons, List.length_cons, cond_eq_ite, beq_iff_eq]
    by_cases hname : name = s
    · rw [if_pos hname, if_pos hname, Nat.zero_add, Nat.min_eq_left (Nat.succ_pos _)]
    · rw [if_neg hname, if_neg hname, ih, Nat.succ_min_succ, Nat.add_right_comm]
      rfl

theorem isaRegStr2val_loop (s : String) (st : State D) : isaRegStr2val s st =
    if s = "pc" then (st.pc, true)
    else if regs.length ≤ nameLoop s regs 0 then (-1, false)
    else (st.gpr (BitVec.ofNat 5 (nameLoop s regs 0 - 1)), true) := by
  rw [nameLoop_eq, Nat.zero_add]
  rfl

/-! ## Main result -/

structure Looked (s : String) (st : State D) : Prop where
  pc : s = "pc" → isaRegStr2val s st = (st.pc, true)
  gpr : ∀ i : Reg, regs[i.toNat]? = some s → isaRegStr2val s st = (st.gpr i, true)
  other : s ≠ "pc" → s ∉ regs → (isaRegStr2val s st).2 = false

theorem isaRegStr2val_of_ne (hpc : s ≠ "pc") : isaRegStr2val s st =
    if regs.idxOf s + 1 < 32 then (st.gpr (BitVec.ofNat 5 (regs.idxOf s)), true) else (-1, false) := by
  have hlength : regs.length = 32 := rfl
  unfold isaRegStr2val
  rw [if_neg hpc, hlength]
  dsimp only
  by_cases hlt : regs.idxOf s + 1 < 32
  · rw [if_pos hlt, min_eq_left hlt.le, if_neg (not_le.mpr hlt), Nat.add_sub_cancel]
  · rw [if_neg hlt, min_eq_right (not_lt.mp hlt), if_pos le_rfl]

theorem idxOf_regs {i : Reg} (h : regs[i.toNat]? = some s) : regs.idxOf s = i.toNat := by
  obtain ⟨hi, rfl⟩ := List.getElem?_eq_some_iff.mp h
  have hnodup : regs.Nodup := by decide
  exact hnodup.idxOf_getElem _ hi

/-- A match in the last place counts as none. -/
theorem isaRegStr2val_iff (s : String) (st : State D) : Looked s st ↔ s ≠ "t6" := by
  constructor
  · rintro h rfl
    have hfound := h.gpr 31 (by decide)
    rw [isaRegStr2val_of_ne (by decide), if_neg (by decide)] at hfound
    exact absurd (congrArg Prod.snd hfound) Bool.false_ne_true
  · intro hlast
    refine ⟨fun hpc => if_pos hpc, fun i hi => ?_, fun hpc hnone => ?_⟩
    · have hpc : s ≠ "pc" := by
        rintro rfl
        exact absurd (List.mem_of_getElem? hi) (by decide)
      have hlt : i.toNat + 1 < 32 := by
        by_contra hge
        have h31 : i.toNat = 31 := by omega
        rw [h31] at hi
        exact hlast (Option.some.inj hi).symm
      rw [isaRegStr2val_of_ne hpc, idxOf_regs hi, if_pos hlt, BitVec.ofNat_toNat, BitVec.setWidth_eq]
    · have hlength : regs.idxOf s = 32 := List.idxOf_eq_length hnone
      rw [isaRegStr2val_of_ne hpc, if_neg (by omega)]

theorem isaRegStr2val_refuted : (isaRegStr2val "t6" (booted clintBoard [])).2 = false ∧
    regs[31]? = some "t6" ∧ ¬Looked "t6" (booted clintBoard []) := by
  have hfails : (isaRegStr2val "t6" (booted clintBoard [])).2 = false := by decide +kernel
  refine ⟨hfails, rfl, fun h => ?_⟩
  rw [h.gpr 31 rfl] at hfails
  exact absurd hfails.symm Bool.false_ne_true

end GsEmu.Sdb
