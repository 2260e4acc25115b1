import GsEmu.Riscv32.InstFrame

/-! What an instruction leaves of the devices: whatever the reads of the bus keep, and the writes that it
makes. -/

namespace GsEmu.Riscv32

variable {D : Type} {P : Platform D} {st st' g t : State D} {o : Operands} {a v : Word} {len : Nat}

def Body.isWfi : Body → Bool
  | .wfi => true
  | _ => false

theorem Body.eq_wfi {b : Body} (h : b.isWfi = true) : b = .wfi := by
  cases b <;> first | rfl | cases h

def ExecutesWfi (P : Platform D) (g : State D) : Prop :=
  ¬Stubs P g ∧ ¬Interrupts P g ∧ ∃ p ∈ selectInst P.toConfig g.s.inst, p.body.isWfi = true

theorem takeIrq_io (irq : Word) : (takeIrq P irq st).io = st.io := by
  simp [takeIrq]

@[simp] theorem ecallExit_io (st : State D) : (ecallExit P st).io = st.io := by
  unfold ecallExit
  split
  · rfl
  · split <;> rfl

theorem trapTail_io : (trapTail P t).io = t.io := by
  unfold trapTail
  split
  · split <;> simp [recyException, delegateException, illegalInstruction]
  · rfl

section
variable {Q : Io D → Prop} {W : Word → Nat → Prop}
  (hread : ∀ {a len v} {st st' : State D}, paddrRead P a len st = some (v, st') → Q st.io → Q st'.io)
include hread

theorem mr_io (h : mr P a len st = some (v, st')) (hQ : Q st.io) : Q st'.io := by
  rcases mr_cases h with ⟨-, h⟩ | ⟨-, -, rfl⟩
  · exact hread h hQ
  · exact hQ

theorem timerLate_io {late : Bool} (h : timerLate P st = some (late, st')) (hQ : Q st.io) :
    Q st'.io := by
  simp only [timerLate, Option.bind_eq_bind, Option.pure_def, Option.bind_eq_some_iff] at h
  obtain ⟨⟨hi, st₁⟩, h₁, ⟨cmphi, st₂⟩, h₂, h⟩ := h
  have hQ₂ := mr_io hread h₂ (mr_io hread h₁ hQ)
  dsimp only at h
  split at h
  · simp only [Option.some.injEq, Prod.mk.injEq] at h
    rwa [← h.2]
  · simp only [Option.bind_eq_some_iff] at h
    obtain ⟨⟨lo, st₃⟩, h₃, ⟨cmplo, st₄⟩, h₄, h⟩ := h
    simp only [Option.some.injEq, Prod.mk.injEq] at h
    rw [← h.2]
    exact mr_io hread h₄ (mr_io hread h₃ hQ₂)

theorem sampled_io (h : sampled P st = some g) (hQ : Q st.io) : Q g.io := by
  simp only [sampled, instFetch, Option.bind_eq_bind, Option.pure_def, Option.bind_eq_some_iff] at h
  obtain ⟨st₁, ⟨⟨inst, st₀⟩, hfetch, h₁⟩, ⟨late, st₂⟩, ht, h⟩ := h
  obtain rfl := Option.some.inj h₁
  obtain rfl := Option.some.inj h
  have hQ₀ : Q st₀.io := hread hfetch hQ
  exact (timerLate_io hread ht hQ₀ :)

variable (hwrite : ∀ {a len v} {st st' : State D}, paddrWrite P a len v st = some st' → W a len →
  Q st.io → Q st'.io)
include hwrite

omit hread in
theorem mw_io (h : mw P a len v st = some st') (hW : W a len) (hQ : Q st.io) : Q st'.io := by
  rcases mw_cases h with ⟨-, h⟩ | ⟨-, rfl⟩
  · exact hwrite h hW hQ
  · exact hQ

theorem execBody_io {b : Body} (hb : b.isWfi = false) (hW : ∀ x ∈ b.storeAt o st, W x.1 x.2)
    (h : execBody P b o st = some st') (hQ : Q st.io) : Q st'.io := by
  by_cases hbus : b.usesBus = true
  · cases b with
    | load len ext =>
      simp only [execBody, execLoad, Option.bind_eq_bind, Option.pure_def,
        Option.bind_eq_some_iff] at h
      obtain ⟨⟨w, st₁⟩, hr, h⟩ := h
      obtain rfl := Option.some.inj h
      exact (mr_io hread hr hQ :)
    | store len => exact mw_io hwrite h (hW _ rfl) hQ
    | lrW =>
      simp only [execBody, execLr, Option.bind_eq_bind, Option.pure_def,
        Option.bind_eq_some_iff] at h
      obtain ⟨⟨w, st₁⟩, hr, h⟩ := h
      obtain rfl := Option.some.inj h
      exact (mr_io hread hr hQ :)
    | scW =>
      rcases execSc_cases h with ⟨hres, -, _, _, _, hw, rfl⟩ | ⟨-, -, rfl⟩ | ⟨-, rfl⟩
      · exact (hwrite hw (hW _ (if_pos hres)) hQ :)
      · exact hQ
      · exact hQ
    | amo op =>
      simp only [execBody, execAmo, Option.bind_eq_bind, Option.pure_def,
        Option.bind_eq_some_iff] at h
      obtain ⟨⟨w, st₁⟩, hr, st₂, hw, h⟩ := h
      obtain rfl := Option.some.inj h
      exact (mw_io hwrite hw (hW _ rfl) (mr_io hread hr hQ) :)
    | wfi => exact Bool.noConfusion hb
    | _ => exact Bool.noConfusion hbus
  · rwa [(execBody_offBus (Bool.eq_false_iff.mpr hbus) h).io]

theorem execOnce_io (hg : sampled P st.enter = some g) (hwfi : ¬ExecutesWfi P g)
    (hW : ∀ x ∈ storeAt P g, W x.1 x.2) (h : execOnce P st = some st') (hQ : Q st.io) : Q st'.io := by
  have hQg : Q g.io := sampled_io hread hg hQ
  obtain ⟨g', hg', hcase⟩ := execOnce_cases h
  obtain rfl := Option.some.inj (hg.symm.trans hg')
  rcases hcase with ⟨-, rfl⟩ | ⟨-, rfl⟩ | ⟨hs, hi, t, ht, rfl⟩
  · exact hQg
  · change Q (takeIrq P _ g).io
    rwa [takeIrq_io]
  · obtain ⟨p, t₀, hp, hbody, rfl⟩ := decodeBody_cases ht
    have hb : p.body.isWfi = false :=
      Bool.eq_false_iff.mpr fun hb => hwfi ⟨hs, hi, p, hp, hb⟩
    have hstore : ∀ x ∈ p.body.storeAt (operands g p) (bodyStart g), W x.1 x.2 := by
      intro x hx
      rw [Body.storeAt_bodyStart] at hx
      refine hW x ?_
      rw [storeAt, if_neg (not_or.mpr ⟨hs, hi⟩), hp]
      exact hx
    have hQ₀ : Q t₀.io := by
      apply execBody_io hread hwrite hb hstore hbody
      rwa [dnpcAndCheck_io]
    change Q (trapTail P (resetFixed P t₀)).io
    rwa [trapTail_io, resetFixed_io]

end

theorem execOnce_wfi (hg : sampled P st.enter = some g) (hwfi : ExecutesWfi P g)
    (h : execOnce P st = some st') : ∃ u, execWfi P (bodyStart g) = some u ∧ st'.io = u.io := by
  obtain ⟨hs, hi, p, hp, hb⟩ := hwfi
  obtain ⟨g', hg', hcase⟩ := execOnce_cases h
  obtain rfl := Option.some.inj (hg.symm.trans hg')
  rcases hcase with ⟨hs', -⟩ | ⟨hi', -⟩ | ⟨-, -, t, ht, rfl⟩
  · exact absurd hs' hs
  · exact absurd hi' hi
  · obtain ⟨q, t₀, hq, hbody, rfl⟩ := decodeBody_cases ht
    obtain rfl := Option.some.inj (hp.symm.trans hq)
    rw [Body.eq_wfi hb] at hbody
    refine ⟨t₀, hbody, ?_⟩
    change (trapTail P (resetFixed P t₀)).io = _
    rw [trapTail_io, resetFixed_io]

end GsEmu.Riscv32
