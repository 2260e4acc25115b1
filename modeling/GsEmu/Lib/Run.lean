import Mathlib.Tactic

/-! Runs of a labelled transition system, with the states they pass through on record. -/

namespace GsEmu

variable {σ ε : Type*}

/-- `Run step s₀ tr s`: the steps recorded in `tr`, each with the state it was taken from, lead from
`s₀` to `s`. -/
inductive Run (step : σ → ε → σ → Prop) (s₀ : σ) : List (σ × ε) → σ → Prop
  | nil : Run step s₀ [] s₀
  | snoc {tr : List (σ × ε)} {s : σ} {e : ε} {s' : σ} :
    Run step s₀ tr s → step s e s' → Run step s₀ (tr ++ [(s, e)]) s'

namespace Run

variable {step : σ → ε → σ → Prop} {s₀ s : σ} {tr : List (σ × ε)}

theorem state_invariant {I : σ → Prop} {C : σ → ε → Prop} (h₀ : I s₀)
    (hstep : ∀ s e s', I s → C s e → step s e s' → I s') (h : Run step s₀ tr s)
    (hC : ∀ p ∈ tr, C p.1 p.2) : I s := by
  induction h with
  | nil => exact h₀
  | snoc _ hs ih =>
    have hlast := hC _ (List.mem_append_right _ (List.mem_singleton_self _))
    exact hstep _ _ _ (ih fun p hp => hC p (List.mem_append_left _ hp)) hlast hs

/-- Steps that meet `C` keep an invariant that implies `Q`, and one that does not breaks `Q`: the runs
that stay in `Q` are those whose steps all meet `C`. -/
theorem stays_iff {I Q : σ → Prop} {C : σ → ε → Prop} (h₀ : I s₀) (hQ : ∀ s, I s → Q s)
    (hgood : ∀ s e s', I s → step s e s' → C s e → I s')
    (hbad : ∀ s e s', I s → step s e s' → ¬C s e → ¬Q s') (h : Run step s₀ tr s) :
    ((∀ p ∈ tr, Q p.1) ∧ Q s) ↔ ∀ p ∈ tr, C p.1 p.2 := by
  induction h with
  | nil => simp [hQ _ h₀]
  | @snoc tr s e s' hr hs ih =>
    simp only [List.forall_mem_append, List.forall_mem_singleton]
    constructor
    · rintro ⟨hall, hQ'⟩
      have hC := ih.mp hall
      have hI := hr.state_invariant h₀ (fun s e s' hI hC hs => hgood s e s' hI hs hC) hC
      exact ⟨hC, by_contra fun hno => hbad _ _ _ hI hs hno hQ'⟩
    · rintro ⟨hC, hlast⟩
      have hI := hr.state_invariant h₀ (fun s e s' hI hC hs => hgood s e s' hI hs hC) hC
      exact ⟨ih.mpr hC, hQ _ (hgood _ _ _ hI hs hlast)⟩

theorem invariant_iff {I : σ → Prop} {C : σ → ε → Prop} (h₀ : I s₀)
    (hstep : ∀ s e s', I s → step s e s' → (I s' ↔ C s e)) (h : Run step s₀ tr s) :
    ((∀ p ∈ tr, I p.1) ∧ I s) ↔ ∀ p ∈ tr, C p.1 p.2 :=
  h.stays_iff h₀ (fun _ hI => hI) (fun s e s' hI hs => (hstep s e s' hI hs).mpr)
    fun s e s' hI hs hno hI' => hno ((hstep s e s' hI hs).mp hI')

theorem pairwise {I : σ → Prop} {C : σ → ε → Prop} {R : σ → σ → Prop}
    (htrans : ∀ a b c, R a b → R b c → R a c) (h₀ : I s₀)
    (hI : ∀ s e s', I s → step s e s' → C s e → I s')
    (hR : ∀ s e s', I s → step s e s' → C s e → R s s') (h : Run step s₀ tr s)
    (hC : ∀ p ∈ tr, C p.1 p.2) : (tr.map Prod.fst ++ [s]).Pairwise R := by
  induction h with
  | nil => simp
  | @snoc tr s e s' hr hs ih =>
    simp only [List.forall_mem_append, List.forall_mem_singleton] at hC
    have hlast := hR _ _ _ (hr.state_invariant h₀ (fun s e s' hI' hC hs => hI s e s' hI' hs hC) hC.1) hs
      hC.2
    have hpre := ih hC.1
    rw [List.map_append, List.map_singleton]
    refine List.pairwise_append.mpr ⟨hpre, List.pairwise_singleton _ _, ?_⟩
    rintro x hx y hy
    obtain rfl := List.mem_singleton.mp hy
    rcases List.mem_append.mp hx with hx | hx
    · exact htrans _ _ _ ((List.pairwise_append.mp hpre).2.2 x hx s (List.mem_singleton_self _)) hlast
    · rwa [List.mem_singleton.mp hx]

/-- Where `C` says exactly which steps of a kind keep a transitive relation, it says exactly which runs of
such steps keep it. -/
theorem pairwise_iff {G C : σ → ε → Prop} {R : σ → σ → Prop}
    (htrans : ∀ a b c, R a b → R b c → R a c)
    (hR : ∀ s e s', G s e → step s e s' → (R s s' ↔ C s e)) (h : Run step s₀ tr s)
    (hG : ∀ p ∈ tr, G p.1 p.2) : (tr.map Prod.fst ++ [s]).Pairwise R ↔ ∀ p ∈ tr, C p.1 p.2 := by
  constructor
  · intro hall
    induction h with
    | nil => simp
    | @snoc tr s e s' hr hs ih =>
      rw [List.map_append, List.map_singleton] at hall
      obtain ⟨hpre, -, hlast⟩ := List.pairwise_append.mp hall
      simp only [List.forall_mem_append, List.forall_mem_singleton] at hG ⊢
      have hstep := hlast s (List.mem_append_right _ (List.mem_singleton_self _)) s'
        (List.mem_singleton_self _)
      exact ⟨ih hG.1 hpre, (hR _ _ _ hG.2 hs).mp hstep⟩
  · intro hC
    exact h.pairwise (I := fun _ => True) (C := fun s e => G s e ∧ C s e) htrans trivial
      (fun _ _ _ _ _ _ => trivial) (fun s e s' _ hs hGC => (hR s e s' hGC.1 hs).mpr hGC.2)
      fun p hp => ⟨hG p hp, hC p hp⟩

theorem append {tr' : List (σ × ε)} {t : σ} (h : Run step s₀ tr s) (h' : Run step s tr' t) :
    Run step s₀ (tr ++ tr') t := by
  induction h' with
  | nil => rwa [List.append_nil]
  | snoc _ hs ih =>
    rw [← List.append_assoc]
    exact ih.snoc hs

/-- A step is matched under the abstraction `abs` by one labelled abstract step, or by none. -/
theorem simulates {τ κ : Type*} {astep : τ → κ → τ → Prop} (abs : σ → τ) (label : σ → ε → Option κ)
    {I : σ → Prop} (h₀ : I s₀) (hI : ∀ s e s', I s → step s e s' → I s')
    (hsome : ∀ s e s' k, I s → step s e s' → label s e = some k → astep (abs s) k (abs s'))
    (hnone : ∀ s e s', I s → step s e s' → label s e = none → abs s' = abs s)
    (h : Run step s₀ tr s) :
    Run astep (abs s₀) (tr.filterMap fun p => (label p.1 p.2).map fun k => (abs p.1, k)) (abs s) := by
  suffices hboth : I s ∧ Run astep (abs s₀)
      (tr.filterMap fun p => (label p.1 p.2).map fun k => (abs p.1, k)) (abs s) from hboth.2
  induction h with
  | nil => exact ⟨h₀, .nil⟩
  | @snoc tr s e s' _ hs ih =>
    refine ⟨hI _ _ _ ih.1 hs, ?_⟩
    rw [List.filterMap_append]
    cases hk : label s e with
    | none =>
      rw [hnone _ _ _ ih.1 hs hk]
      simpa [hk] using ih.2
    | some k => simpa [hk] using ih.2.snoc (hsome _ _ _ k ih.1 hs hk)

theorem relabel {κ : Type*} {step' : σ → κ → σ → Prop} (f : ε → κ)
    (hf : ∀ s e s', step s e s' → step' s (f e) s') (h : Run step s₀ tr s) :
    Run step' s₀ (tr.map (Prod.map id f)) s := by
  induction h with
  | nil => exact .nil
  | snoc _ hs ih =>
    rw [List.map_append]
    exact ih.snoc (hf _ _ _ hs)

def traceOf (f : σ → ε → Option σ) (s : σ) : List ε → List (σ × ε)
  | [] => []
  | e :: es => (s, e) :: match f s e with
    | none => []
    | some s' => traceOf f s' es

theorem of_foldlM {f : σ → ε → Option σ} {es : List ε} {t : σ} (h : es.foldlM f s = some t) :
    Run (fun s e s' => f s e = some s') s (traceOf f s es) t := by
  induction es generalizing s with
  | nil =>
    obtain rfl := Option.some.inj h
    exact .nil
  | cons e es ih =>
    obtain ⟨s', hs, h⟩ := Option.bind_eq_some_iff.mp (List.foldlM_cons.symm.trans h)
    simp only [traceOf, hs]
    exact (Run.nil.snoc hs).append (ih h)

theorem reaches (h : Run step s₀ tr s) {p : σ × ε} (hp : p ∈ tr) :
    ∃ tr', tr' <+: tr ∧ Run step s₀ tr' p.1 ∧ ∃ s', step p.1 p.2 s' := by
  induction h with
  | nil => simp at hp
  | @snoc tr t e t' hr hs ih =>
    rcases List.mem_append.mp hp with hp | hp
    · obtain ⟨tr', hpre, hrun⟩ := ih hp
      exact ⟨tr', hpre.trans (List.prefix_append _ _), hrun⟩
    · obtain rfl := List.mem_singleton.mp hp
      exact ⟨tr, List.prefix_append _ _, hr, t', hs⟩

end Run

end GsEmu
