import GsEmu.Lib.Run

/-! Stop and wait: a sender repeats a message until it is acknowledged. A message may be damaged on its way,
and is then refused; an acknowledgement may be damaged, and is then taken for a refusal. -/

namespace GsEmu.StopAndWait

variable {μ : Type*}

/-! ## The line -/

inductive Phase
  | idle
  | message (intact : Bool)
  | answer (accepted : Bool)
  deriving DecidableEq

/-- The messages still to be acknowledged, the first of them under way unless the line is idle, those that
have been, and what the receiver has accepted. -/
structure Line (μ : Type*) where
  todo : List μ
  acked : List μ
  accepted : List μ
  phase : Phase

inductive Event
  | send
  | damage
  | receive
  | spoil
  | answer
  deriving DecidableEq

inductive Step : Line μ → Event → Line μ → Prop
  | send (m : μ) (todo acked accepted : List μ) :
    Step ⟨m :: todo, acked, accepted, .idle⟩ .send ⟨m :: todo, acked, accepted, .message true⟩
  | damage (b : Bool) (todo acked accepted : List μ) :
    Step ⟨todo, acked, accepted, .message b⟩ .damage ⟨todo, acked, accepted, .message false⟩
  | accept (m : μ) (todo acked accepted : List μ) :
    Step ⟨m :: todo, acked, accepted, .message true⟩ .receive
      ⟨m :: todo, acked, accepted ++ [m], .answer true⟩
  | refuse (todo acked accepted : List μ) :
    Step ⟨todo, acked, accepted, .message false⟩ .receive ⟨todo, acked, accepted, .answer false⟩
  | spoil (b : Bool) (todo acked accepted : List μ) :
    Step ⟨todo, acked, accepted, .answer b⟩ .spoil ⟨todo, acked, accepted, .answer false⟩
  | done (m : μ) (todo acked accepted : List μ) :
    Step ⟨m :: todo, acked, accepted, .answer true⟩ .answer ⟨todo, acked ++ [m], accepted, .idle⟩
  | again (todo acked accepted : List μ) :
    Step ⟨todo, acked, accepted, .answer false⟩ .answer ⟨todo, acked, accepted, .message true⟩

def start (all : List μ) : Line μ := ⟨all, [], [], .idle⟩

def spoils (events : List Event) : Nat := events.count .spoil

theorem spoils_snoc (events : List Event) (e : Event) :
    spoils (events ++ [e]) = spoils events + if e = .spoil then 1 else 0 := by
  rw [spoils, List.count_append, List.count_singleton]
  simp only [beq_iff_eq, spoils]

/-! ## Repetitions -/

/-- `ys` is `xs` with each entry once or several times in a row. -/
inductive Repeats : List μ → List μ → Prop
  | nil : Repeats [] []
  | new {xs ys : List μ} (x : μ) : Repeats xs ys → Repeats (xs ++ [x]) (ys ++ [x])
  | again {xs ys : List μ} (x : μ) : Repeats (xs ++ [x]) ys → Repeats (xs ++ [x]) (ys ++ [x])

variable {xs ys all : List μ}

/-! ## What holds of every run -/

structure Sound (all : List μ) (n : Nat) (s : Line μ) : Prop where
  whole : s.acked ++ s.todo = all
  busy : s.phase ≠ .idle → s.todo ≠ []
  order : Repeats s.acked s.accepted ∧ s.phase ≠ .answer true ∨
    ∃ m ∈ s.todo.head?, Repeats (s.acked ++ [m]) s.accepted ∧ s.phase ≠ .idle
  count : s.accepted.length ≤ s.acked.length + n + if s.phase = .answer true then 1 else 0

theorem Sound.start (all : List μ) : Sound all 0 (start all) where
  whole := rfl
  busy h := absurd rfl h
  order := .inl ⟨.nil, nofun⟩
  count := Nat.le_refl _

variable {s s' : Line μ} {e : Event} {n : Nat} {tr : List (Line μ × Event)}

theorem Sound.keeps (h : Sound all n s) (hbusy : s.todo ≠ []) (p : Phase) (hp : p ≠ .idle)
    (hp' : p ≠ .answer true) {k : Nat} (hk : s.phase = .answer true → 1 ≤ k) :
    Sound all (n + k) { s with phase := p } where
  whole := h.whole
  busy _ := hbusy
  order := h.order.imp (fun h => ⟨h.1, hp'⟩) fun ⟨m, hm, hrep, _⟩ => ⟨m, hm, hrep, hp⟩
  count := by
    have hcount := h.count
    rw [if_neg hp']
    dsimp only
    split_ifs at hcount with htrue
    · have := hk htrue
      omega
    · omega

theorem Sound.step (h : Sound all n s) (hs : Step s e s') :
    Sound all (n + if e = .spoil then 1 else 0) s' := by
  cases hs with
  | send m todo acked accepted => exact h.keeps (List.cons_ne_nil _ _) (.message true) nofun nofun nofun
  | damage b todo acked accepted => exact h.keeps (h.busy nofun) (.message false) nofun nofun nofun
  | accept m todo acked accepted =>
    refine ⟨h.whole, fun _ => List.cons_ne_nil _ _, .inr ⟨m, rfl, ?_, nofun⟩, ?_⟩
    · rcases h.order with ⟨hrep, -⟩ | ⟨m', hm, hrep, -⟩
      · exact hrep.new m
      · obtain rfl : m = m' := Option.some.inj hm
        exact hrep.again m
    · rw [List.length_append]
      exact Nat.succ_le_succ h.count
  | refuse todo acked accepted => exact h.keeps (h.busy nofun) (.answer false) nofun nofun nofun
  | spoil b todo acked accepted =>
    exact h.keeps (h.busy nofun) (.answer false) nofun nofun fun _ => Nat.le_refl _
  | done m todo acked accepted =>
    have hcount : accepted.length ≤ acked.length + n + 1 := h.count
    rcases h.order with ⟨-, hanswer⟩ | ⟨m', hm, hrep, -⟩
    · exact absurd rfl hanswer
    · obtain rfl : m = m' := Option.some.inj hm
      refine ⟨?_, fun h => absurd rfl h, .inl ⟨hrep, nofun⟩, ?_⟩
      · rw [← h.whole]
        exact List.append_assoc ..
      · change accepted.length ≤ (acked ++ [m]).length + n + 0
        rw [List.length_append, List.length_singleton]
        omega
  | again todo acked accepted => exact h.keeps (h.busy nofun) (.message true) nofun nofun nofun

theorem Sound.run (h : Run Step (StopAndWait.start all) tr s) : Sound all (spoils (tr.map Prod.snd)) s := by
  induction h with
  | nil => exact .start all
  | @snoc tr s e s' _ hs ih =>
    rw [List.map_append, List.map_singleton, spoils_snoc]
    exact ih.step hs

/-- Nothing is lost, altered or moved: what has been accepted repeats the messages acknowledged and perhaps
the one under way, and repeats no more often than acknowledgements were spoilt. -/
theorem Sound.delivers (h : Sound all n s) : ∃ heard,
    (heard = s.acked ∨ ∃ m ∈ s.todo.head?, heard = s.acked ++ [m]) ∧ Repeats heard s.accepted ∧
      s.accepted.length ≤ heard.length + n := by
  have hcount := h.count
  rcases h.order with ⟨hrep, hanswer⟩ | ⟨m, hm, hrep, -⟩
  · rw [if_neg hanswer] at hcount
    exact ⟨s.acked, .inl rfl, hrep, hcount⟩
  · refine ⟨s.acked ++ [m], .inr ⟨m, hm, rfl⟩, hrep, ?_⟩
    rw [List.length_append, List.length_singleton]
    split_ifs at hcount <;> omega

end GsEmu.StopAndWait
