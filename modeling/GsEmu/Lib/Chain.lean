import Mathlib.Tactic

/-! Singly linked lists in a heap. -/

namespace GsEmu

variable {ι α : Type*}

structure Cell (ι α : Type*) where
  value : α
  next : Option ι

/-- From the pointer `p` the links lead through the cells of `cs`, in this order, to `q`. -/
def Chain (h : ι → Option (Cell ι α)) : Option ι → List (ι × α) → Option ι → Prop
  | p, [], q => p = q
  | p, c :: cs, q => p = some c.1 ∧ ∃ n, h c.1 = some ⟨c.2, n⟩ ∧ Chain h n cs q

namespace Chain

variable {h h' : ι → Option (Cell ι α)} {p q m : Option ι} {cs ds : List (ι × α)} {c : ι × α} {a : ι} {x : α}

theorem append_iff : Chain h p (cs ++ ds) q ↔ ∃ m, Chain h p cs m ∧ Chain h m ds q := by
  induction cs generalizing p with
  | nil => exact ⟨fun hd => ⟨p, rfl, hd⟩, fun ⟨_, hp, hd⟩ => hp ▸ hd⟩
  | cons c cs ih =>
    constructor
    · rintro ⟨hp, n, hc, hrest⟩
      obtain ⟨m, hcs, hds⟩ := ih.mp hrest
      exact ⟨m, ⟨hp, n, hc, hcs⟩, hds⟩
    · rintro ⟨m, ⟨hp, n, hc, hcs⟩, hds⟩
      exact ⟨hp, n, hc, ih.mpr ⟨m, hcs, hds⟩⟩

theorem congr (hc : Chain h p cs q) (hsame : ∀ d ∈ cs, h' d.1 = h d.1) : Chain h' p cs q := by
  induction cs generalizing p with
  | nil => exact hc
  | cons c cs ih =>
    obtain ⟨hp, n, hcell, hrest⟩ := hc
    refine ⟨hp, n, (hsame c (List.mem_cons_self ..)).trans hcell, ?_⟩
    exact ih hrest fun d hd => hsame d (List.mem_cons_of_mem _ hd)

theorem unique (hc : Chain h p cs none) (hd : Chain h p ds none) : cs = ds := by
  induction cs generalizing p ds with
  | nil =>
    cases ds with
    | nil => rfl
    | cons d ds => exact absurd (hc.symm.trans hd.1) (by simp)
  | cons c cs ih =>
    obtain ⟨hp, n, hcell, hrest⟩ := hc
    cases ds with
    | nil => exact absurd (hp.symm.trans hd) (by simp)
    | cons d ds =>
      obtain ⟨hp', n', hcell', hrest'⟩ := hd
      have hloc : c.1 = d.1 := Option.some.inj (hp.symm.trans hp')
      rw [← hloc, hcell] at hcell'
      obtain ⟨hvalue, hnext⟩ := (Cell.mk.injEq ..).mp (Option.some.inj hcell')
      rw [ih hrest (hnext ▸ hrest'), Prod.ext hloc hvalue]

theorem nodup (hc : Chain h p cs none) : (cs.map Prod.fst).Nodup := by
  induction cs generalizing p with
  | nil => exact List.nodup_nil
  | cons c cs ih =>
    have hwhole := hc
    obtain ⟨hp, n, hcell, hrest⟩ := hc
    refine List.nodup_cons.mpr ⟨fun hmem => ?_, ih hrest⟩
    obtain ⟨d, hd, hloc⟩ := List.mem_map.mp hmem
    obtain ⟨as, bs, rfl⟩ := List.mem_iff_append.mp hd
    obtain ⟨m, -, hback⟩ := append_iff.mp hrest
    -- from the second visit on, the links lead the same way again
    have hm : m = p := by rw [hback.1, hp, hloc]
    have hlen := congrArg List.length (unique hwhole (hm ▸ hback))
    simp only [List.length_cons, List.length_append] at hlen
    omega

theorem ne_of_append (hc : Chain h p (cs ++ c :: ds) none) : ∀ d ∈ cs ++ ds, d.1 ≠ c.1 := by
  have hnodup := (List.perm_middle.map Prod.fst).nodup_iff.mp hc.nodup
  intro d hd heq
  exact (List.nodup_cons.mp hnodup).1 (heq ▸ List.mem_map_of_mem hd)

theorem cell (hc : Chain h p (cs ++ c :: ds) q) : ∃ n, h c.1 = some ⟨c.2, n⟩ ∧ Chain h n ds q := by
  obtain ⟨m, -, -, n, hcell, hrest⟩ := append_iff.mp hc
  exact ⟨n, hcell, hrest⟩

theorem snoc (hc : Chain h p (cs ++ [c]) none) (hsame : ∀ d ∈ cs, h' d.1 = h d.1)
    (hlast : h' c.1 = some ⟨c.2, some a⟩) (hnew : h' a = some ⟨x, none⟩) :
    Chain h' p (cs ++ [c, (a, x)]) none := by
  obtain ⟨m, hcs, hm, -⟩ := append_iff.mp hc
  exact append_iff.mpr ⟨m, hcs.congr hsame, hm, some a, hlast, rfl, none, hnew, rfl⟩

theorem unlink {d : ι × α} {n : Option ι} (hc : Chain h p (cs ++ d :: c :: ds) q)
    (hcell : h c.1 = some ⟨c.2, n⟩) (hsame : ∀ e ∈ cs ++ ds, h' e.1 = h e.1) (hpred : h' d.1 = some ⟨d.2, n⟩) :
    Chain h' p (cs ++ d :: ds) q := by
  obtain ⟨m, hcs, hm, _, -, -, n', hcell', hds⟩ := append_iff.mp hc
  obtain ⟨-, rfl⟩ := (Cell.mk.injEq ..).mp (Option.some.inj (hcell.symm.trans hcell'))
  refine append_iff.mpr ⟨m, hcs.congr fun e he => hsame e (List.mem_append_left _ he), hm, n, hpred, ?_⟩
  exact hds.congr fun e he => hsame e (List.mem_append_right _ he)

end Chain

end GsEmu
