import GsEmu.Device.Ram
import GsEmu.Riscv32.NextPc
import GsEmu.Riscv32.Precise

/-! What one `isa_exec_once` leaves alone among the registers and the bytes of RAM. -/

namespace GsEmu.Riscv32
open Bytes

variable {D : Type} {P : Platform D} {st st' g t : State D} {o : Operands} {a : Word} {len : Nat}

/-- The bodies that write no register: stores, branches, fences, `ecall`, `ebreak`, the returns,
`wfi`, and the words that raise an illegal-instruction exception. -/
def Body.keepsGpr (P : Platform D) (o : Operands) : Body → Prop
  | .store _ | .branch _ | .nop | .ecall | .ebreak | .sret | .mret | .wfi | .inv => True
  | .slli => o.imm &&& 0x20 ≠ 0
  | .csr _ => ¬csrPresent P.priv o.imm
  | _ => False

def Body.storeAt (o : Operands) (st : State D) : Body → Option (Word × Nat)
  | .store len => some (o.src1 + o.imm, len)
  | .scW => if scReserved st o.src1 then some (o.src1, 4) else none
  | .amo _ => some (o.src1, 4)
  | _ => none

def storeAt (P : Platform D) (g : State D) : Option (Word × Nat) :=
  if Stubs P g ∨ Interrupts P g then none
  else (selectInst P.toConfig g.s.inst).bind fun p => p.body.storeAt (operands g p) g

def KeepsGpr (P : Platform D) (g : State D) : Prop :=
  Stubs P g ∨ Interrupts P g ∨
    ∀ p ∈ selectInst P.toConfig g.s.inst, p.body.keepsGpr P (operands g p)

/-- A store that starts in RAM ends there. -/
def StoresInside (P : Platform D) (g : State D) : Prop :=
  ∀ x ∈ storeAt P g, inPmem x.1 = true → ∀ k < x.2, inPmem (x.1 + BitVec.ofNat 32 k) = true

instance : Decidable (StoresInside P g) :=
  inferInstanceAs (Decidable (∀ x ∈ storeAt P g, _ → ∀ k < x.2, _))

structure InstFrame (P : Platform D) (st g st' : State D) : Prop where
  rd : ∀ r, r ≠ regField g.s.inst 11 7 → st'.gpr r = st.gpr r
  kept : KeepsGpr P g → st'.gpr = st.gpr
  zero : st'.gpr 0 = 0
  ram : ∀ i, st'.pmem i ≠ st.pmem i → ∃ a len, storeAt P g = some (a, len) ∧
    ∃ k < len, inPmem (a + BitVec.ofNat 32 k) = true ∧ i = guestToHost (a + BitVec.ofNat 32 k)

/-! ## Registers -/

theorem Body.rdValue_of_keepsGpr (b : Body) (h : b.keepsGpr P o) : b.rdValue P o st = none := by
  cases b with
  | slli => exact if_pos h
  | csr op => exact if_neg h
  | store | branch | nop | ecall | ebreak | sret | mret | wfi | inv => rfl
  | _ => exact h.elim

theorem takeIrq_gpr (irq : Word) : (takeIrq P irq st).gpr = st.gpr := by
  simp [takeIrq]

theorem takeIrq_pmem (irq : Word) : (takeIrq P irq st).pmem = st.pmem := by
  simp [takeIrq]

theorem setR_zero (gpr : Reg → Word) (h : gpr 0 = 0) : Function.update gpr 0 0 = gpr := by
  rw [← h, Function.update_eq_self]

theorem decodeBody_gpr (hzero : g.gpr 0 = 0) (h : decodeBody P g = some t) :
    t.gpr 0 = 0 ∧ (∀ r, r ≠ regField g.s.inst 11 7 → t.gpr r = g.gpr r) ∧
      ((∀ p ∈ selectInst P.toConfig g.s.inst, p.body.keepsGpr P (operands g p)) →
        t.gpr = g.gpr) := by
  obtain ⟨p, t₀, hp, hbody, rfl⟩ := decodeBody_cases h
  have hgpr := execBody_gpr hbody
  have hstart : (bodyStart g).gpr = g.gpr := dnpcAndCheck_gpr _ _
  rw [hstart, decodeOperand_rd] at hgpr
  rw [resetFixed_gpr]
  refine ⟨Function.update_self .., ?_, ?_⟩
  · intro r hr
    by_cases h0 : r = 0
    · rw [h0, Function.update_self, hzero]
    rw [Function.update_of_ne h0, hgpr]
    split
    · exact Function.update_of_ne hr ..
    · rfl
  · intro hkeeps
    rw [p.body.rdValue_of_keepsGpr (hkeeps p hp)] at hgpr
    rw [hgpr]
    exact setR_zero _ hzero

/-! ## RAM -/

theorem mw_pmem_outside {v : Word} (h : mw P a len v st = some st') {i : Nat}
    (hi : st'.pmem i ≠ st.pmem i) :
    inPmem a = true ∧ guestToHost a ≤ i ∧ i < guestToHost a + len := by
  rcases mw_cases h with ⟨-, h⟩ | ⟨-, rfl⟩
  · cases hp : inPmem a with
    | true =>
      rw [vaddrWrite, paddrWrite_pmem hp] at h
      obtain ⟨pmem, hw, rfl⟩ := Option.map_eq_some_iff.mp h
      refine ⟨rfl, ?_⟩
      by_contra hout
      exact hi (hostWrite_outside hw hout)
    | false =>
      obtain ⟨pmem, io, skip, rfl, hpm⟩ := paddrWrite_bus h
      exact absurd (congrFun (hpm hp) i) hi
  · exact absurd rfl hi

theorem execBody_pmem {b : Body} (h : execBody P b o st = some st') {i : Nat}
    (hi : st'.pmem i ≠ st.pmem i) : ∃ a len, b.storeAt o st = some (a, len) ∧
      inPmem a = true ∧ guestToHost a ≤ i ∧ i < guestToHost a + len := by
  have hchanged : st'.pmem ≠ st.pmem := fun heq => hi (congrFun heq i)
  have hkept := mt (execBody_pmem_iff h).mpr hchanged
  cases b with
  | store len => exact ⟨_, _, rfl, mw_pmem_outside h hi⟩
  | scW =>
    by_cases hr : scReserved st o.src1
    · obtain ⟨w, hs⟩ := hr
      simp only [execBody, execSc, hs] at h
      obtain ⟨u, hw, h⟩ := Option.bind_eq_some_iff.mp h
      obtain rfl := Option.some.inj h
      exact ⟨_, _, if_pos ⟨w, hs⟩, mw_pmem_outside hw hi⟩
    · exact absurd (fun hr' => absurd hr' hr) hkept
  | amo op =>
    obtain ⟨⟨v, u⟩, hr, h⟩ := Option.bind_eq_some_iff.mp (show (mr P _ 4 st).bind _ = _ from h)
    obtain ⟨w, hw, h⟩ := Option.bind_eq_some_iff.mp (show (mw P _ 4 _ u).bind _ = _ from h)
    obtain rfl := Option.some.inj h
    rw [← (mr_gpr hr).2] at hi
    exact ⟨_, _, rfl, mw_pmem_outside hw hi⟩
  | _ => exact absurd trivial hkept

theorem Body.storeAt_bodyStart (b : Body) : b.storeAt o (bodyStart g) = b.storeAt o g := by
  cases b with
  | scW =>
    have hamw : scReserved (bodyStart g) o.src1 ↔ scReserved g o.src1 := by
      rw [scReserved, scReserved, dnpcAndCheck_amw]
    simp only [Body.storeAt, hamw]
  | _ => rfl

theorem decodeBody_pmem (h : decodeBody P g = some t) {i : Nat} (hi : t.pmem i ≠ g.pmem i) :
    ∃ p ∈ selectInst P.toConfig g.s.inst, ∃ a len,
      p.body.storeAt (operands g p) g = some (a, len) ∧ inPmem a = true ∧
        guestToHost a ≤ i ∧ i < guestToHost a + len := by
  obtain ⟨p, t₀, hp, hbody, rfl⟩ := decodeBody_cases h
  have hstart : (bodyStart g).pmem = g.pmem := dnpcAndCheck_pmem _ _
  rw [resetFixed_pmem, ← hstart] at hi
  obtain ⟨a, len, hat, hrange⟩ := execBody_pmem hbody hi
  rw [Body.storeAt_bodyStart] at hat
  exact ⟨p, hp, a, len, hat, hrange⟩

def Body.width : Body → Nat
  | .store len => len
  | _ => 4

theorem instpats_width (c : Config) : ∀ p ∈ instpats c, p.body.width ≤ 4 := by
  have hi : ∀ p ∈ rv32i, p.body.width ≤ 4 := by decide
  have hm : ∀ p ∈ rv32m, p.body.width ≤ 4 := by decide
  have ha : ∀ p ∈ rv32a, p.body.width ≤ 4 := by decide
  have hz : ∀ p ∈ rvZicsr, p.body.width ≤ 4 := by decide
  have hf : ∀ p ∈ rvZifencei, p.body.width ≤ 4 := by decide
  have hv : ∀ p ∈ rvInv, p.body.width ≤ 4 := by decide
  intro p hp
  simp only [instpats, List.mem_append] at hp
  rcases hp with ((((hp | hp) | hp) | hp) | hp) | hp
  · exact hi p hp
  · exact hm p hp
  · exact ha p (by split at hp; exacts [hp, absurd hp List.not_mem_nil])
  · exact hz p (by split at hp; exacts [hp, absurd hp List.not_mem_nil])
  · exact hf p (by split at hp; exacts [hp, absurd hp List.not_mem_nil])
  · exact hv p hp

theorem Body.storeAt_width (b : Body) (h : b.storeAt o g = some (a, len)) : len = b.width := by
  cases b with
  | store n => exact (Prod.mk.inj (Option.some.inj h)).2.symm
  | amo op => exact (Prod.mk.inj (Option.some.inj h)).2.symm
  | scW =>
    simp only [Body.storeAt] at h
    split at h
    · exact (Prod.mk.inj (Option.some.inj h)).2.symm
    · simp at h
  | _ => simp [Body.storeAt] at h

/-! ## The step -/

theorem InstFrame.of_eq (hgpr : st'.gpr = st.gpr) (hpmem : st'.pmem = st.pmem)
    (hzero : st.gpr 0 = 0) : InstFrame P st g st' where
  rd r _ := congrFun hgpr r
  kept _ := hgpr
  zero := (congrFun hgpr 0).trans hzero
  ram i hi := absurd (congrFun hpmem i) hi

/-- From `x0 = 0` one step changes at most `rd` and the bytes its store covers. -/
theorem isaExecOnce_frame (hzero : st.gpr 0 = 0) (h : isaExecOnce P st = some st') :
    ∃ g, sampled P st = some g ∧ (StoresInside P g → InstFrame P st g st') := by
  rw [isaExecOnce_eq] at h
  obtain ⟨g, hg, h⟩ := Option.bind_eq_some_iff.mp h
  refine ⟨g, hg, fun hinside => ?_⟩
  have hsame : g.gpr = st.gpr ∧ g.pmem = st.pmem := by
    obtain ⟨inst, io, skip, late, rfl⟩ := sampled_afterFetch hg
    exact ⟨rfl, rfl⟩
  by_cases hs : Stubs P g
  · rw [afterCheck_stub hs] at h
    obtain rfl := Option.some.inj h
    exact .of_eq hsame.1 hsame.2 hzero
  by_cases hi : Interrupts P g
  · rw [afterCheck_interrupt hi] at h
    obtain rfl := Option.some.inj h
    exact .of_eq ((takeIrq_gpr _).trans hsame.1) ((takeIrq_pmem _).trans hsame.2) hzero
  rw [afterCheck_decode hs hi] at h
  obtain ⟨t, ht, rfl⟩ := Option.map_eq_some_iff.mp h
  obtain ⟨h0, hrd, hkept⟩ := decodeBody_gpr (hsame.1 ▸ hzero) ht
  refine ⟨?_, ?_, ?_, ?_⟩
  · intro r hr
    rw [trapTail_gpr, hrd r hr, hsame.1]
  · intro hkeeps
    have hall := (hkeeps.resolve_left hs).resolve_left hi
    rw [trapTail_gpr, hkept hall, hsame.1]
  · rw [trapTail_gpr, h0]
  · intro i hchange
    rw [trapTail_pmem, ← hsame.2] at hchange
    obtain ⟨p, hp, a, len, hat, hin, hlo, hhi⟩ := decodeBody_pmem ht hchange
    have hlen : len ≤ 4 := by
      rw [p.body.storeAt_width hat]
      exact instpats_width _ p (List.mem_of_find?_eq_some hp)
    have hstore : storeAt P g = some (a, len) := by
      rw [storeAt, if_neg (not_or.mpr ⟨hs, hi⟩), show selectInst _ _ = some p from hp]
      exact hat
    have hk : i - guestToHost a < len := by omega
    refine ⟨a, len, hstore, i - guestToHost a, hk, hinside _ hstore hin _ hk, ?_⟩
    rw [guestToHost_add hin (by omega)]
    omega

def storeWord : State Unit := (booted clintBoard [0x00012223]).enter.setR 2 pmemDtb

theorem isaExecOnce_frame_storeWord : ∃ g st', sampled clintBoard storeWord = some g ∧
    isaExecOnce clintBoard storeWord = some st' ∧ InstFrame clintBoard storeWord g st' := by
  have hstep : (isaExecOnce clintBoard storeWord).isSome = true := by decide +kernel
  obtain ⟨st', h⟩ := Option.isSome_iff_exists.mp hstep
  have hinside : ∀ g ∈ sampled clintBoard storeWord, StoresInside clintBoard g := by
    decide +kernel
  obtain ⟨g, hg, hframe⟩ := isaExecOnce_frame (by decide +kernel) h
  exact ⟨g, st', hg, h, hframe (hinside g hg)⟩

end GsEmu.Riscv32
