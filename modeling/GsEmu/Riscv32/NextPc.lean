import GsEmu.Riscv32.Record

/-! The steps that assign `dnpc`: exactly these leave a state that does not depend on the record they
found. -/

namespace GsEmu.Riscv32

variable {D : Type} {P : Platform D} {st g t : State D} {o : Operands}

def Body.jumps (o : Operands) (st : State D) : Body → Prop
  | .jal => instAligned (jalTarget o st)
  | .jalr => instAligned (jalrTarget o)
  | .branch cond => cond o.src1 o.src2 ∧ instAligned (branchTarget o st)
  | .sret | .mret => True
  | _ => False

/-- From the sampled state on, some assignment to `dnpc` is reached. -/
def Assigns (P : Platform D) (g : State D) : Prop :=
  ¬Stubs P g ∧
  (Interrupts P g → (csr P g csrMtvec).getLsbD 1 = false) ∧
  (¬Interrupts P g → ∀ p ∈ selectInst P.toConfig g.s.inst, ∀ t ∈ decodeBody P g,
    instAligned g.s.snpc ∨ p.body.jumps (operands g p) g ∨ EntersAligned P t)

/-- The next step assigns `dnpc`, if it fetches. -/
def Settles (P : Platform D) (st : State D) : Prop := ∀ g ∈ sampled P st.enter, Assigns P g

instance (b : Body) : Decidable (b.jumps o st) :=
  match b with
  | .jal => inferInstanceAs (Decidable (instAligned _))
  | .jalr => inferInstanceAs (Decidable (instAligned _))
  | .branch _ => inferInstanceAs (Decidable (_ ∧ _))
  | .sret | .mret => isTrue trivial
  | .write _ | .load _ _ | .store _ | .slli | .ecall | .ebreak | .lrW | .scW | .amo _ | .csr _
  | .wfi | .nop | .inv => isFalse id

instance : Decidable (Stubs P g) := inferInstanceAs (Decidable (_ ∧ _))

instance : Decidable (Interrupts P g) := inferInstanceAs (Decidable (_ ∧ _ ∧ _))

instance : Decidable (Assigns P g) := inferInstanceAs (Decidable (_ ∧ (_ → _) ∧ (_ → _)))

instance : Decidable (Settles P st) := inferInstanceAs (Decidable (∀ g ∈ sampled P st.enter, _))

/-! ## The body's next address -/

theorem Body.jumps_bodyStart (b : Body) : b.jumps o (bodyStart g) ↔ b.jumps o g := by
  cases b <;> simp [Body.jumps, jalTarget, branchTarget]

theorem Body.next_of_jumps (b : Body) (h : b.jumps o st) (d : Word) :
    b.next P o (st.setDnpc d) = b.next P o st := by
  cases b with
  | jal => exact (if_pos h).trans (if_pos h).symm
  | jalr => exact (if_pos h).trans (if_pos h).symm
  | branch cond => exact (if_pos h).trans (if_pos h).symm
  | sret | mret => rfl
  | _ => exact h.elim

theorem Body.next_of_not_jumps (b : Body) (h : ¬b.jumps o st) : b.next P o st = st.s.dnpc := by
  cases b with
  | jal => exact if_neg h
  | jalr => exact if_neg h
  | branch cond => exact if_neg h
  | sret | mret => exact absurd trivial h
  | _ => rfl

theorem bodyStart_aligned (h : instAligned g.s.snpc) (d : Word) :
    bodyStart (g.setDnpc d) = bodyStart g := by
  have hsnpc : instAligned (g.setDnpc d).s.snpc := h
  simp only [dnpcAndCheck, if_pos h, if_pos hsnpc]
  rfl

theorem bodyStart_misaligned (h : ¬instAligned g.s.snpc) (d : Word) :
    bodyStart (g.setDnpc d) = (bodyStart g).setDnpc d := by
  have hsnpc : ¬instAligned (g.setDnpc d).s.snpc := h
  simp only [dnpcAndCheck, if_neg h, if_neg hsnpc]
  rfl

theorem decodeBody_aligned (h : instAligned g.s.snpc) (d : Word) :
    decodeBody P (g.setDnpc d) = decodeBody P g := by
  have hsnpc := bodyStart_aligned h d
  unfold decodeBody
  exact congrArg (fun u => (execSelected P u).bind fun st => some (resetFixed P st)) hsnpc

theorem decodeBody_dnpc {p : Instpat} (hp : selectInst P.toConfig g.s.inst = some p)
    (h : decodeBody P g = some t) : (trapTail P t).s.dnpc =
      if EntersAligned P t then trapVector P t else p.body.next P (operands g p) (bodyStart g) := by
  obtain ⟨q, t₀, hq, hbody, rfl⟩ := decodeBody_cases h
  obtain rfl := Option.some.inj (hp.symm.trans hq)
  have hnext : t₀.s.dnpc = p.body.next P (operands g p) (bodyStart g) := by
    rw [(execBody_control hbody).2.2]
  rw [trapTail_dnpc, resetFixed_s, hnext]

/-! ## The rest of the step -/

/-- `isa_exec_once` from the interrupt check on. -/
def afterCheck (P : Platform D) (g : State D) : Option (State D) :=
  if (irpTake P g).1 then some (irpTake P g).2 else decodeExec P (irpTake P g).2

theorem isaExecOnce_eq : isaExecOnce P st = (sampled P st).bind (afterCheck P) := by
  unfold isaExecOnce
  rw [fetchAndCheck_eq_sampled]
  cases sampled P st <;> rfl

theorem afterCheck_stub (h : Stubs P g) : afterCheck P g = some g := by
  rcases irpTake_cases P g with ⟨-, heq⟩ | ⟨hi, -⟩ | ⟨hs, -⟩
  · rw [afterCheck, heq]
    rfl
  · exact absurd hi h.not_interrupts
  · exact absurd h hs

theorem afterCheck_interrupt (h : Interrupts P g) :
    afterCheck P g = some (takeIrq P (findIrqTypeVal (haveIP P g)) g) := by
  rcases irpTake_cases P g with ⟨hs, -⟩ | ⟨-, heq⟩ | ⟨-, hi, -⟩
  · exact absurd h hs.not_interrupts
  · rw [afterCheck, heq]
    rfl
  · exact absurd h hi

theorem afterCheck_decode (hs : ¬Stubs P g) (hi : ¬Interrupts P g) :
    afterCheck P g = (decodeBody P g).map (trapTail P) := by
  rcases irpTake_cases P g with ⟨hs', -⟩ | ⟨hi', -⟩ | ⟨-, -, heq⟩
  · exact absurd hs' hs
  · exact absurd hi' hi
  · rw [afterCheck, heq]
    change (decodeBody P g).bind _ = _
    cases decodeBody P g <;> rfl

theorem SameGuest.eq {u v : State D} (h : SameGuest u v) (hd : v.s.dnpc = u.s.dnpc) : v = u := by
  obtain ⟨d, rfl⟩ := h
  have hd : d = u.s.dnpc := hd
  rw [hd]
  rfl

theorem afterCheck_assigns (h : Assigns P g) (d : Word) :
    afterCheck P (g.setDnpc d) = afterCheck P g := by
  obtain ⟨hs, hirq, hdec⟩ := h
  have hsame : SameGuest g (g.setDnpc d) := ⟨d, rfl⟩
  have hs' : ¬Stubs P (g.setDnpc d) := hs
  by_cases hi : Interrupts P g
  · have hi' : Interrupts P (g.setDnpc d) := hi
    have hvec : instAligned (irqVector P g) := irqVector_aligned_iff.mpr (hirq hi)
    have hdnpc : (takeIrq P (findIrqTypeVal (haveIP P (g.setDnpc d))) (g.setDnpc d)).s.dnpc =
        (takeIrq P (findIrqTypeVal (haveIP P g)) g).s.dnpc := by
      rw [takeIrq_s, takeIrq_s]
      exact (if_pos hvec).trans (if_pos hvec).symm
    rw [afterCheck_interrupt hi, afterCheck_interrupt hi']
    exact congrArg some ((hsame.takeIrq _).eq hdnpc)
  · have hi' : ¬Interrupts P (g.setDnpc d) := hi
    rw [afterCheck_decode hs hi, afterCheck_decode hs' hi']
    by_cases ha : instAligned g.s.snpc
    · rw [decodeBody_aligned ha]
    rcases hsame.decodeBody (P := P) with ⟨hx, hy⟩ | ⟨x, y, hx, hy, hxy⟩
    · rw [hx, hy]
    obtain ⟨p, hp⟩ := selectInst_exists P.toConfig g.s.inst
    have hp' : selectInst P.toConfig (g.setDnpc d).s.inst = some p := hp
    have hpending : (EntersAligned P y ↔ EntersAligned P x) ∧ trapVector P y = trapVector P x := by
      obtain ⟨d', rfl⟩ := hxy
      exact ⟨Iff.rfl, rfl⟩
    rw [hx, hy]
    refine congrArg some (hxy.trapTail.eq ?_)
    rw [decodeBody_dnpc hp hx, decodeBody_dnpc hp' hy, bodyStart_misaligned ha, hpending.2]
    simp only [hpending.1]
    rcases (hdec hi p hp x hx).resolve_left ha with hj | he
    · have hnext : p.body.next P (operands (g.setDnpc d) p) ((bodyStart g).setDnpc d) =
          p.body.next P (operands g p) (bodyStart g) :=
        p.body.next_of_jumps ((Body.jumps_bodyStart p.body).mpr hj) d
      rw [hnext]
    · rw [if_pos he, if_pos he]

theorem afterCheck_not_assigns (h : ¬Assigns P g) (d : Word) :
    ∃ t, afterCheck P (g.setDnpc d) = some t ∧ t.s.dnpc = d := by
  by_cases hs : Stubs P g
  · have hs' : Stubs P (g.setDnpc d) := hs
    exact ⟨_, afterCheck_stub hs', rfl⟩
  have hs' : ¬Stubs P (g.setDnpc d) := hs
  by_cases hi : Interrupts P g
  · have hi' : Interrupts P (g.setDnpc d) := hi
    have hvec : ¬instAligned (irqVector P g) := fun ha =>
      h ⟨hs, fun _ => irqVector_aligned_iff.mp ha, fun hn => absurd hi hn⟩
    refine ⟨_, afterCheck_interrupt hi', ?_⟩
    rw [takeIrq_s]
    exact if_neg hvec
  have hi' : ¬Interrupts P (g.setDnpc d) := hi
  have hdec : ∃ p t, selectInst P.toConfig g.s.inst = some p ∧ decodeBody P g = some t ∧
      ¬instAligned g.s.snpc ∧ ¬p.body.jumps (operands g p) g ∧ ¬EntersAligned P t := by
    by_contra hno
    refine h ⟨hs, fun h => absurd h hi, fun _ p hp t ht => ?_⟩
    by_contra hor
    simp only [not_or] at hor
    exact hno ⟨p, t, hp, ht, hor⟩
  obtain ⟨p, x, hp, hx, ha, hj, he⟩ := hdec
  have hsame : SameGuest g (g.setDnpc d) := ⟨d, rfl⟩
  rcases hsame.decodeBody (P := P) with ⟨hx', -⟩ | ⟨x', y, hx', hy, hxy⟩
  · rw [hx] at hx'
    simp at hx'
  obtain rfl := Option.some.inj (hx.symm.trans hx')
  have hp' : selectInst P.toConfig (g.setDnpc d).s.inst = some p := hp
  have he' : ¬EntersAligned P y := by
    obtain ⟨d', rfl⟩ := hxy
    exact he
  have hj' : ¬p.body.jumps (operands g p) ((bodyStart g).setDnpc d) := fun hj' =>
    hj ((Body.jumps_bodyStart p.body).mp hj')
  refine ⟨trapTail P y, by rw [afterCheck_decode hs' hi', hy]; rfl, ?_⟩
  rw [decodeBody_dnpc hp' hy, if_neg he', bodyStart_misaligned ha]
  exact p.body.next_of_not_jumps hj'

/-! ## The step -/

theorem execOnce_eq : execOnce P st = ((sampled P st.enter).bind (afterCheck P)).map moveOn := by
  unfold execOnce
  rw [isaExecOnce_eq]
  cases (sampled P st.enter).bind (afterCheck P) <;> rfl

theorem execOnce_of_sampled (h : sampled P st.enter = some g) (s : Decode) :
    execOnce P { st with s := s } = (afterCheck P (g.setDnpc s.dnpc)).map moveOn := by
  rw [execOnce_eq, sampled_record, h]
  rfl

theorem execOnce_record (h : Settles P st) (s : Decode) :
    execOnce P { st with s := s } = execOnce P st := by
  cases hg : sampled P st.enter with
  | none => rw [execOnce_eq, execOnce_eq, sampled_record, hg]; rfl
  | some g =>
    rw [execOnce_of_sampled hg, afterCheck_assigns (h g hg), execOnce_eq, hg]
    rfl

theorem settles_iff : (∀ s s' : Decode, (execOnce P { st with s := s }).map (·.pc) =
    (execOnce P { st with s := s' }).map (·.pc)) ↔ Settles P st := by
  constructor
  · intro hall g hg
    by_contra hno
    obtain ⟨t, ht, hd⟩ := afterCheck_not_assigns hno 0
    obtain ⟨t', ht', hd'⟩ := afterCheck_not_assigns hno 4
    have hpc := hall ⟨0, 0, 0, 0⟩ ⟨0, 0, 4, 0⟩
    rw [execOnce_of_sampled hg, execOnce_of_sampled hg, ht, ht'] at hpc
    have hzero : t.s.dnpc = t'.s.dnpc := Option.some.inj hpc
    rw [hd, hd'] at hzero
    exact absurd hzero (by decide)
  · intro h s s'
    rw [execOnce_record h s, execOnce_record h s']

end GsEmu.Riscv32
