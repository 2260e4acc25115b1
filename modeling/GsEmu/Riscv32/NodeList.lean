import Mathlib.Data.Finmap
import GsEmu.Lib.Chain
import GsEmu.Lib.Run
import GsEmu.Riscv32.Body

/-! `atomic_mem_word.c` on nodes and pointers: the list of reservations that the machine works with is what
the links spell. -/

namespace GsEmu.Riscv32.NodeList

abbrev Node := Cell Nat AtomicMemWord

abbrev Nodes := Finmap fun _ : Nat => Node

structure Reservations where
  nodes : Nodes
  head : Option Nat

def cellOf (nodes : Nodes) (a : Nat) : Option Node := nodes.lookup a

/-- A walk that ends takes no more rounds than there are nodes. -/
def rounds (nodes : Nodes) : Nat := nodes.keys.card

/-! ## The functions -/

/-- `block` is what `malloc` returns. From here on `none` is an access through `NULL` or to a node that is not
allocated, or a loop without end. -/
def createNode (block : Option Nat) (data : Word) (reserved : Bool) (nodes : Nodes) : Option (Nat × Nodes) :=
  block.map fun newNode => (newNode, nodes.insert newNode ⟨⟨data, reserved⟩, none⟩)

/-- `while (temp->next_node != NULL)`. -/
def insertLoop (nodes : Nodes) : Nat → Nat → Option Nat
  | 0, _ => none
  | fuel + 1, temp => do
    let node ← cellOf nodes temp
    match node.next with
    | none => some temp
    | some next => insertLoop nodes fuel next

def insertNode (block : Option Nat) (data : Word) (reserved : Bool) (s : Reservations) :
    Option Reservations := do
  let (newNode, nodes) ← createNode block data reserved s.nodes
  match s.head with
  | none => some ⟨nodes, some newNode⟩
  | some head => do
    let temp ← insertLoop nodes (rounds nodes) head
    let node ← cellOf nodes temp
    some ⟨nodes.insert temp { node with next := some newNode }, some head⟩

/-- `while (temp != NULL && temp->mem_word != data)`; the result is `prev` and `temp`. -/
def deleteLoop (nodes : Nodes) (data : Word) (fuel : Nat) (prev temp : Option Nat) :
    Option (Option Nat × Option Nat) :=
  match temp, fuel with
  | none, _ => some (prev, none)
  | some _, 0 => none
  | some temp, fuel + 1 => do
    let node ← cellOf nodes temp
    if node.value.memWord ≠ data then deleteLoop nodes data fuel (some temp) node.next
    else some (prev, some temp)

/-- Also returns the node that is freed; `none` is the message that there is no such node. -/
def deleteNode (data : Word) (s : Reservations) : Option (Option Nat × Reservations) := do
  let (prev, temp) ← deleteLoop s.nodes data (rounds s.nodes) none s.head
  match temp with
  | none => some (none, s)
  | some temp => do
    let node ← cellOf s.nodes temp
    match prev with
    | none => some (some temp, ⟨s.nodes.erase temp, node.next⟩)
    | some prev => do
      let before ← cellOf s.nodes prev
      some (some temp, ⟨(s.nodes.insert prev { before with next := node.next }).erase temp, s.head⟩)

def searchLoop (nodes : Nodes) (data : Word) (fuel : Nat) (temp : Option Nat) : Option (Option Nat) :=
  match temp, fuel with
  | none, _ => some none
  | some _, 0 => none
  | some temp, fuel + 1 => do
    let node ← cellOf nodes temp
    if node.value.memWord = data then some (some temp) else searchLoop nodes data fuel node.next

def searchNode (nodes : Nodes) (head : Option Nat) (data : Word) : Option (Option Nat) :=
  searchLoop nodes data (rounds nodes) head

/-! ## Lists of nodes -/

variable {nodes nodes' : Nodes} {s s' : Reservations} {a b : Nat} {node : Node} {data : Word}
  {reserved : Bool} {p q temp prev : Option Nat} {fuel : Nat} {cs ds : List (Nat × AtomicMemWord)}
  {c : Nat × AtomicMemWord}

theorem cellOf_insert_self : cellOf (nodes.insert a node) a = some node := Finmap.lookup_insert _

theorem cellOf_insert_of_ne (h : b ≠ a) : cellOf (nodes.insert a node) b = cellOf nodes b :=
  Finmap.lookup_insert_of_ne _ h

theorem cellOf_erase_of_ne (h : b ≠ a) : cellOf (nodes.erase a) b = cellOf nodes b := Finmap.lookup_erase_ne h

def Links (s : Reservations) (cs : List (Nat × AtomicMemWord)) : Prop :=
  Chain (cellOf s.nodes) s.head cs none

theorem mem_of_chain (h : Chain (cellOf nodes) p cs q) (hc : c ∈ cs) : c.1 ∈ nodes := by
  obtain ⟨as, bs, rfl⟩ := List.mem_iff_append.mp hc
  obtain ⟨n, hcell, -⟩ := h.cell
  exact Finmap.mem_iff.mpr ⟨_, hcell⟩

theorem length_le_rounds (h : Chain (cellOf nodes) p cs none) : cs.length ≤ rounds nodes := by
  have hsub : (cs.map Prod.fst).toFinset ⊆ nodes.keys := by
    intro a ha
    obtain ⟨c, hc, rfl⟩ := List.mem_map.mp (List.mem_toFinset.mp ha)
    exact Finmap.mem_keys.mpr (mem_of_chain h hc)
  calc cs.length = (cs.map Prod.fst).length := (List.length_map _).symm
    _ = (cs.map Prod.fst).toFinset.card := (List.toFinset_card_of_nodup h.nodup).symm
    _ ≤ rounds nodes := Finset.card_le_card hsub

theorem find_word_cases (cs : List (Nat × AtomicMemWord)) (data : Word) :
    (∀ c ∈ cs, c.2.memWord ≠ data) ∨
      ∃ as c ds, cs = as ++ c :: ds ∧ (∀ d ∈ as, d.2.memWord ≠ data) ∧ c.2.memWord = data := by
  cases hfind : cs.find? (·.2.memWord = data) with
  | none =>
    have hall := List.find?_eq_none.mp hfind
    exact .inl fun c hc => of_decide_eq_false (Bool.eq_false_iff.mpr (hall c hc))
  | some c =>
    obtain ⟨hword, as, ds, hcs, has⟩ := List.find?_eq_some_iff_append.mp hfind
    exact .inr ⟨as, c, ds, hcs, fun d hd => by simpa using has d hd, of_decide_eq_true hword⟩

/-! ## Each function -/

theorem insertLoop_eq (h : Chain (cellOf nodes) (some a) (cs ++ [c]) none) (hfuel : cs.length < fuel) :
    insertLoop nodes fuel a = some c.1 := by
  induction cs generalizing a fuel with
  | nil =>
    obtain ⟨fuel, rfl⟩ := Nat.exists_eq_succ_of_ne_zero (Nat.ne_zero_of_lt hfuel)
    obtain ⟨ha, n, hcell, rfl⟩ := h
    obtain rfl := Option.some.inj ha
    simp only [insertLoop, hcell, Option.bind_eq_bind, Option.bind_some]
  | cons d cs ih =>
    obtain ⟨fuel, rfl⟩ := Nat.exists_eq_succ_of_ne_zero (Nat.ne_zero_of_lt hfuel)
    obtain ⟨ha, n, hcell, hrest⟩ := h
    obtain rfl := Option.some.inj ha
    obtain ⟨e, hn⟩ : ∃ e, n = some e := by
      cases cs with
      | nil => exact ⟨_, hrest.1⟩
      | cons e cs => exact ⟨_, hrest.1⟩
    subst hn
    simp only [insertLoop, hcell, Option.bind_eq_bind, Option.bind_some]
    exact ih hrest (Nat.lt_of_succ_lt_succ hfuel)

theorem insertNode_links (h : Links s cs) (ha : a ∉ s.nodes) (data : Word) (reserved : Bool) :
    ∃ s', insertNode (some a) data reserved s = some s' ∧ Links s' (cs ++ [(a, ⟨data, reserved⟩)]) := by
  obtain ⟨nodes, hnodes⟩ : ∃ nodes, s.nodes.insert a ⟨⟨data, reserved⟩, none⟩ = nodes := ⟨_, rfl⟩
  have hcreate : createNode (some a) data reserved s.nodes = some (a, nodes) := by
    rw [← hnodes]
    rfl
  have hnew : cellOf nodes a = some ⟨⟨data, reserved⟩, none⟩ := by
    rw [← hnodes, cellOf_insert_self]
  have hold : ∀ d ∈ cs, d.1 ≠ a := fun d hd heq => ha (heq ▸ mem_of_chain h hd)
  have hchain : Chain (cellOf nodes) s.head cs none := by
    refine Chain.congr h fun d hd => ?_
    rw [← hnodes, cellOf_insert_of_ne (hold d hd)]
  rcases List.eq_nil_or_concat cs with rfl | ⟨cs, c, rfl⟩
  · have hhead : s.head = none := hchain
    refine ⟨⟨nodes, some a⟩, ?_, rfl, none, hnew, rfl⟩
    simp only [insertNode, hcreate, hhead, Option.bind_eq_bind, Option.bind_some]
  · rw [List.concat_eq_append] at hchain hold ⊢
    obtain ⟨head, hhead⟩ : ∃ head, s.head = some head := by
      cases cs with
      | nil => exact ⟨_, hchain.1⟩
      | cons d cs => exact ⟨_, hchain.1⟩
    have hlast : cellOf nodes c.1 = some ⟨c.2, none⟩ := by
      obtain ⟨n, hcell, rfl⟩ := hchain.cell
      exact hcell
    have hloop : insertLoop nodes (rounds nodes) head = some c.1 := by
      refine insertLoop_eq (hhead ▸ hchain) ?_
      have hlength := length_le_rounds hchain
      rw [List.length_append, List.length_singleton] at hlength
      exact hlength
    refine ⟨⟨nodes.insert c.1 ⟨c.2, some a⟩, some head⟩, ?_, ?_⟩
    · simp only [insertNode, hcreate, hhead, hloop, hlast, Option.bind_eq_bind, Option.bind_some]
    · have hapart := hchain.ne_of_append
      have hca : c.1 ≠ a := hold c (List.mem_append_right _ (List.mem_singleton_self _))
      rw [List.append_assoc]
      rw [hhead] at hchain
      refine Chain.snoc hchain (fun d hd => cellOf_insert_of_ne ?_) cellOf_insert_self ?_
      · exact hapart d (List.mem_append_left _ hd)
      · exact (cellOf_insert_of_ne hca.symm).trans hnew

theorem deleteLoop_none (h : Chain (cellOf nodes) temp cs none) (hword : ∀ c ∈ cs, c.2.memWord ≠ data)
    (hfuel : cs.length ≤ fuel) : ∃ prev', deleteLoop nodes data fuel prev temp = some (prev', none) := by
  induction cs generalizing temp prev fuel with
  | nil =>
    obtain rfl := h
    unfold deleteLoop
    exact ⟨prev, rfl⟩
  | cons c cs ih =>
    obtain ⟨fuel, rfl⟩ := Nat.exists_eq_succ_of_ne_zero (Nat.ne_zero_of_lt hfuel)
    obtain ⟨rfl, n, hcell, hrest⟩ := h
    unfold deleteLoop
    simp only [hcell, Option.bind_eq_bind, Option.bind_some, if_pos (hword c (List.mem_cons_self ..))]
    exact ih hrest (fun d hd => hword d (List.mem_cons_of_mem _ hd)) (Nat.le_of_succ_le_succ hfuel)

theorem deleteLoop_some (h : Chain (cellOf nodes) temp (cs ++ c :: ds) none)
    (hword : ∀ d ∈ cs, d.2.memWord ≠ data) (hc : c.2.memWord = data) (hfuel : cs.length < fuel) :
    deleteLoop nodes data fuel prev temp = some ((cs.getLast?.map Prod.fst).or prev, some c.1) := by
  induction cs generalizing temp prev fuel with
  | nil =>
    obtain ⟨fuel, rfl⟩ := Nat.exists_eq_succ_of_ne_zero (Nat.ne_zero_of_lt hfuel)
    obtain ⟨rfl, n, hcell, hrest⟩ := h
    unfold deleteLoop
    simp only [hcell, Option.bind_eq_bind, Option.bind_some, if_neg (not_not.mpr hc)]
    rfl
  | cons d cs ih =>
    obtain ⟨fuel, rfl⟩ := Nat.exists_eq_succ_of_ne_zero (Nat.ne_zero_of_lt hfuel)
    obtain ⟨rfl, n, hcell, hrest⟩ := h
    unfold deleteLoop
    simp only [hcell, Option.bind_eq_bind, Option.bind_some, if_pos (hword d (List.mem_cons_self ..))]
    rw [ih hrest (fun e he => hword e (List.mem_cons_of_mem _ he)) (Nat.lt_of_succ_lt_succ hfuel)]
    cases cs with
    | nil => rfl
    | cons e cs => simp [List.getLast?_cons]

theorem deleteNode_none (h : Links s cs) (hword : ∀ c ∈ cs, c.2.memWord ≠ data) :
    deleteNode data s = some (none, s) := by
  obtain ⟨prev, hloop⟩ : ∃ prev, deleteLoop s.nodes data (rounds s.nodes) none s.head = some (prev, none) :=
    deleteLoop_none h hword (length_le_rounds h)
  simp only [deleteNode, hloop, Option.bind_eq_bind, Option.bind_some]

theorem deleteNode_some (h : Links s (cs ++ c :: ds)) (hword : ∀ d ∈ cs, d.2.memWord ≠ data)
    (hc : c.2.memWord = data) :
    ∃ s', deleteNode data s = some (some c.1, s') ∧ Links s' (cs ++ ds) := by
  have hlength : cs.length < rounds s.nodes := by
    have hle := length_le_rounds h
    rw [List.length_append, List.length_cons] at hle
    omega
  have hloop : deleteLoop s.nodes data (rounds s.nodes) none s.head =
      some ((cs.getLast?.map Prod.fst).or none, some c.1) := deleteLoop_some h hword hc hlength
  obtain ⟨n, hcell, hrest⟩ := Chain.cell h
  have hapart := Chain.ne_of_append h
  rcases List.eq_nil_or_concat cs with rfl | ⟨cs, d, rfl⟩
  · refine ⟨⟨s.nodes.erase c.1, n⟩, ?_, ?_⟩
    · simp only [deleteNode, hloop, hcell, Option.bind_eq_bind, Option.bind_some]
      rfl
    · exact hrest.congr fun e he => cellOf_erase_of_ne (hapart e he)
  · rw [List.concat_eq_append] at *
    rw [List.append_assoc, List.singleton_append] at h
    have hlast : ((cs ++ [d]).getLast?.map Prod.fst).or none = some d.1 := by
      rw [List.getLast?_append, List.getLast?_singleton]
      rfl
    obtain ⟨m, hpred, -⟩ := Chain.cell h
    have hne : d.1 ≠ c.1 :=
      hapart d (List.mem_append_left _ (List.mem_append_right _ (List.mem_singleton_self _)))
    have hapart' := Chain.ne_of_append h
    rw [hlast] at hloop
    refine ⟨⟨(s.nodes.insert d.1 ⟨d.2, n⟩).erase c.1, s.head⟩, ?_, ?_⟩
    · simp only [deleteNode, hloop, hcell, hpred, Option.bind_eq_bind, Option.bind_some]
    · rw [List.append_assoc]
      refine Chain.unlink h hcell (fun e he => ?_) ?_
      · have hec : e.1 ≠ c.1 := by
          refine hapart e ?_
          rcases List.mem_append.mp he with he | he
          · exact List.mem_append_left _ (List.mem_append_left _ he)
          · exact List.mem_append_right _ he
        have hed : e.1 ≠ d.1 := by
          refine hapart' e ?_
          rcases List.mem_append.mp he with he | he
          · exact List.mem_append_left _ he
          · exact List.mem_append_right _ (List.mem_cons_of_mem _ he)
        exact (cellOf_erase_of_ne hec).trans (cellOf_insert_of_ne hed)
      · exact (cellOf_erase_of_ne hne).trans cellOf_insert_self

theorem searchLoop_eq (h : Chain (cellOf nodes) temp cs none) (hfuel : cs.length ≤ fuel) :
    searchLoop nodes data fuel temp = some ((cs.find? (·.2.memWord = data)).map Prod.fst) := by
  induction cs generalizing temp fuel with
  | nil =>
    obtain rfl := h
    unfold searchLoop
    rfl
  | cons c cs ih =>
    obtain ⟨fuel, rfl⟩ := Nat.exists_eq_succ_of_ne_zero (Nat.ne_zero_of_lt hfuel)
    obtain ⟨rfl, n, hcell, hrest⟩ := h
    unfold searchLoop
    simp only [hcell, Option.bind_eq_bind, Option.bind_some, List.find?_cons]
    by_cases hc : c.2.memWord = data
    · rw [if_pos hc, decide_eq_true hc]
      rfl
    · rw [if_neg hc, decide_eq_false hc]
      exact ih hrest (Nat.le_of_succ_le_succ hfuel)

theorem searchNode_eq (h : Links s cs) (data : Word) :
    searchNode s.nodes s.head data = some ((cs.find? (·.2.memWord = data)).map Prod.fst) :=
  searchLoop_eq h (length_le_rounds h)

/-! ## Runs -/

/-- A call, with the block that `malloc` returns or the node that is freed. -/
inductive ListOp
  | insert (block : Option Nat) (data : Word) (reserved : Bool)
  | delete (data : Word) (freed : Option Nat)

/-- `malloc` returns `NULL` or a block that is not allocated. -/
def ListStep (s : Reservations) : ListOp → Reservations → Prop
  | .insert block data reserved, s' =>
    (∀ a ∈ block, a ∉ s.nodes) ∧ insertNode block data reserved s = some s'
  | .delete data freed, s' => deleteNode data s = some (freed, s')

def ListOp.apply (l : List AtomicMemWord) : ListOp → List AtomicMemWord
  | .insert _ data reserved => Riscv32.insertNode l data reserved
  | .delete data _ => Riscv32.deleteNode l data

def sequence (ops : List ListOp) : List AtomicMemWord := ops.foldl ListOp.apply []

def ListOp.inserts (data : Word) : ListOp → Bool
  | .insert _ data' _ => data' = data
  | .delete .. => false

def ListOp.deletes (data : Word) : ListOp → Bool
  | .insert .. => false
  | .delete data' freed => data' = data ∧ freed ≠ none

/-- The calls have left the nodes of `cs`, as many of each word as were inserted and not deleted. -/
structure Account (ops : List ListOp) (s : Reservations) (cs : List (Nat × AtomicMemWord)) : Prop where
  links : Links s cs
  entries : cs.map Prod.snd = sequence ops
  counts : ∀ data, ops.countP (·.inserts data) =
    ops.countP (·.deletes data) + (sequence ops).countP (·.memWord = data)

variable {ops : List ListOp} {op : ListOp}

theorem sequence_snoc (ops : List ListOp) (op : ListOp) :
    sequence (ops ++ [op]) = op.apply (sequence ops) := by
  rw [sequence, List.foldl_append]
  rfl

theorem Account.insert {block : Option Nat} (h : Account ops s cs)
    (hstep : ListStep s (.insert block data reserved) s') :
    ∃ cs, Account (ops ++ [.insert block data reserved]) s' cs := by
  obtain ⟨hfresh, hinsert⟩ := hstep
  cases block with
  | none => exact absurd hinsert (by simp [insertNode, createNode])
  | some a =>
    obtain ⟨t, ht, hlinks⟩ := insertNode_links h.links (hfresh a rfl) data reserved
    obtain rfl := Option.some.inj (ht.symm.trans hinsert)
    refine ⟨_, hlinks, ?_, fun x => ?_⟩
    · rw [sequence_snoc, List.map_append, h.entries]
      rfl
    · have hcounts := h.counts x
      have hx : (sequence (ops ++ [.insert (some a) data reserved])).countP (·.memWord = x) =
          (sequence ops).countP (·.memWord = x) + if data = x then 1 else 0 := by
        rw [sequence_snoc]
        simp [ListOp.apply, Riscv32.insertNode, List.countP_append, List.countP_singleton]
      rw [hx, List.countP_append, List.countP_append, hcounts]
      simp only [List.countP_singleton, ListOp.inserts, ListOp.deletes, Bool.false_eq_true, if_false,
        decide_eq_true_eq]
      omega

theorem Account.delete {freed : Option Nat} (h : Account ops s cs)
    (hstep : ListStep s (.delete data freed) s') : ∃ cs, Account (ops ++ [.delete data freed]) s' cs := by
  have hdelete : deleteNode data s = some (freed, s') := hstep
  have hnoinsert : ∀ x, (ops ++ [ListOp.delete data freed]).countP (·.inserts x) =
      ops.countP (·.inserts x) := by
    intro x
    simp [List.countP_append, ListOp.inserts]
  rcases find_word_cases cs data with hword | ⟨as, c, ds, rfl, has, hc⟩
  · obtain ⟨hfreed, hs⟩ := Prod.mk.inj (Option.some.inj ((deleteNode_none h.links hword).symm.trans hdelete))
    have hkeep : sequence (ops ++ [.delete data freed]) = sequence ops := by
      rw [sequence_snoc, ← h.entries]
      refine List.eraseP_of_forall_not fun e he => ?_
      obtain ⟨c, hc, rfl⟩ := List.mem_map.mp he
      simpa using hword c hc
    refine ⟨cs, hs ▸ h.links, h.entries.trans hkeep.symm, fun x => ?_⟩
    rw [hnoinsert, hkeep, h.counts x, List.countP_append, ← hfreed]
    simp [ListOp.deletes]
  · obtain ⟨t, ht, hlinks⟩ := deleteNode_some h.links has hc
    obtain ⟨hfreed, rfl⟩ := Prod.mk.inj (Option.some.inj (ht.symm.trans hdelete))
    have hnot : ∀ e ∈ as.map Prod.snd, ¬(decide (e.memWord = data)) = true := by
      intro e he
      obtain ⟨d, hd, rfl⟩ := List.mem_map.mp he
      simpa using has d hd
    have hfirst : decide (c.2.memWord = data) = true := decide_eq_true hc
    have hdrop : sequence (ops ++ [.delete data freed]) = as.map Prod.snd ++ ds.map Prod.snd := by
      rw [sequence_snoc, ← h.entries, List.map_append, List.map_cons]
      change List.eraseP _ _ = _
      rw [List.eraseP_append_right _ hnot]
      exact congrArg _
        (List.eraseP_cons_of_pos (p := fun e : AtomicMemWord => decide (e.memWord = data)) hfirst)
    refine ⟨as ++ ds, hlinks, by rw [hdrop, List.map_append], fun x => ?_⟩
    have hcounts := h.counts x
    rw [← h.entries, List.map_append, List.map_cons, List.countP_append, List.countP_cons, hc] at hcounts
    rw [hnoinsert, hdrop, List.countP_append, hcounts, List.countP_append, ← hfreed]
    simp only [List.countP_singleton, ListOp.deletes, decide_eq_true_eq, ne_eq, reduceCtorEq,
      not_false_eq_true, and_true]
    omega

theorem exists_account_step (h : ∃ cs, Account ops s cs) (hstep : ListStep s op s') :
    ∃ cs, Account (ops ++ [op]) s' cs := by
  obtain ⟨cs, h⟩ := h
  cases op with
  | insert block data reserved => exact h.insert hstep
  | delete data freed => exact h.delete hstep

/-! ## Main result -/

/-- The nodes of `cs` are linked in this order up to `NULL`, none twice, with the entries of the sequence; a
search returns the first with the word. -/
structure Refines (ops : List ListOp) (s : Reservations) (cs : List (Nat × AtomicMemWord)) : Prop where
  links : Links s cs
  acyclic : (cs.map Prod.fst).Nodup
  entries : cs.map Prod.snd = sequence ops
  search : ∀ data, searchNode s.nodes s.head data =
    some ((cs.find? (·.2.memWord = data)).map Prod.fst)
  null : ∀ data, searchNode s.nodes s.head data = some none ↔
    ops.countP (·.inserts data) ≤ ops.countP (·.deletes data)
  completes : (∀ a ∉ s.nodes, ∀ data reserved, ∃ s', insertNode (some a) data reserved s = some s') ∧
    ∀ data, ∃ freed s', deleteNode data s = some (freed, s')

theorem Account.refines (h : Account ops s cs) : Refines ops s cs where
  links := h.links
  acyclic := Chain.nodup h.links
  entries := h.entries
  search := searchNode_eq h.links
  null := by
    intro data
    rw [searchNode_eq h.links, Option.some.injEq, Option.map_eq_none_iff, List.find?_eq_none]
    have hcounts := h.counts data
    rw [← h.entries, List.countP_map] at hcounts
    have hzero : (∀ c ∈ cs, ¬(decide (c.2.memWord = data)) = true) ↔
        cs.countP ((fun e => decide (e.memWord = data)) ∘ Prod.snd) = 0 := List.countP_eq_zero.symm
    rw [hzero, hcounts]
    omega
  completes := by
    refine ⟨fun a ha data reserved => ?_, fun data => ?_⟩
    · obtain ⟨s', hs', -⟩ := insertNode_links h.links ha data reserved
      exact ⟨s', hs'⟩
    · rcases find_word_cases cs data with hword | ⟨as, c, ds, rfl, has, hc⟩
      · exact ⟨_, _, deleteNode_none h.links hword⟩
      · obtain ⟨s', hs', -⟩ := deleteNode_some h.links has hc
        exact ⟨_, s', hs'⟩

theorem nodeList_refines {tr : List (Reservations × ListOp)} (h : Run ListStep ⟨nodes, none⟩ tr s) :
    ∃ cs, Refines (tr.map Prod.snd) s cs := by
  have haccount : ∃ cs, Account (tr.map Prod.snd) s cs := by
    induction h with
    | nil => exact ⟨[], rfl, rfl, fun _ => rfl⟩
    | snoc _ hstep ih =>
      rw [List.map_append]
      exact exists_account_step ih hstep
  exact haccount.imp fun _ => Account.refines

/-- Three nodes, two of them for the word 5; the inner node is deleted, and then the older of the two. -/
theorem nodeList_refines_inner : ∃ s cs, Refines [.insert (some 1) 5 true, .insert (some 2) 7 true,
    .insert (some 3) 5 false, .delete 7 (some 2), .delete 5 (some 1)] s cs := by
  have hcalls : ∃ s₁, insertNode (some 1) 5 true ⟨∅, none⟩ = some s₁ ∧ 2 ∉ s₁.nodes ∧
      ∃ s₂, insertNode (some 2) 7 true s₁ = some s₂ ∧ 3 ∉ s₂.nodes ∧
      ∃ s₃, insertNode (some 3) 5 false s₂ = some s₃ ∧
      ∃ s₄, deleteNode 7 s₃ = some (some 2, s₄) ∧ ∃ s₅, deleteNode 5 s₄ = some (some 1, s₅) :=
    ⟨_, rfl, by decide, _, rfl, by decide, _, rfl, _, rfl, _, rfl⟩
  obtain ⟨s₁, h₁, hfresh₂, s₂, h₂, hfresh₃, s₃, h₃, s₄, h₄, s₅, h₅⟩ := hcalls
  have hinsert₁ : ListStep ⟨∅, none⟩ (.insert (some 1) 5 true) s₁ := ⟨fun _ _ => Finmap.notMem_empty, h₁⟩
  have hinsert₂ : ListStep s₁ (.insert (some 2) 7 true) s₂ := ⟨fun a ha => Option.some.inj ha ▸ hfresh₂, h₂⟩
  have hinsert₃ : ListStep s₂ (.insert (some 3) 5 false) s₃ := ⟨fun a ha => Option.some.inj ha ▸ hfresh₃, h₃⟩
  have hdelete₁ : ListStep s₃ (.delete 7 (some 2)) s₄ := h₄
  have hdelete₂ : ListStep s₄ (.delete 5 (some 1)) s₅ := h₅
  exact ⟨s₅, nodeList_refines
    (((((Run.nil.snoc hinsert₁).snoc hinsert₂).snoc hinsert₃).snoc hdelete₁).snoc hdelete₂)⟩

end GsEmu.Riscv32.NodeList
