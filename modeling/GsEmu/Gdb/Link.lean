import GsEmu.Gdb.Framing
import GsEmu.Lib.StopAndWait

/-! `gdb_send` and `gdb_recv`, alone and as the two ends of a line that damages what it carries. -/

namespace GsEmu.Gdb
open Bytes Outcome StopAndWait
open Difftest (gdbDecodeHex)

/-! ## The code -/

structure GdbConn where
  input : List Byte
  output : List Byte
  ack : Bool

def sendLoop (command : List Byte) : List Byte → List Byte → Option (List Byte × List Byte)
  | [], _ => none
  | c :: input, output =>
    let output := output ++ sendPacket command
    if c = 0x2b then some (input, output) else sendLoop command input output

def gdbSend (command : List Byte) (conn : GdbConn) : Option GdbConn :=
  if conn.ack then
    (sendLoop command conn.input conn.output).map fun (input, output) => ⟨input, output, conn.ack⟩
  else some { conn with output := conn.output ++ sendPacket command }

def answerByte (acked : Bool) : Byte := if acked then 0x2b else 0x2d

variable {input rest body wire msg command : List Byte} {c d msb lsb : Byte} {r : Received}

theorem sumDigits_length (input : List Byte) : (sumDigits input).2.2.length ≤ input.length := by
  rcases input with - | ⟨_, - | ⟨_, _⟩⟩
  · exact Nat.le_refl _
  · exact Nat.zero_le _
  · exact (Nat.le_succ _).trans (Nat.le_succ _)

theorem readLoop_shrinks {sum : Byte} {escape : Bool} {reply : List Byte}
    (h : readLoop input sum escape reply = some r) : r.rest.length < input.length := by
  induction hn : input.length using Nat.strongRecOn generalizing input sum escape reply with
  | ind n ih =>
    subst hn
    cases input with
    | nil => cases h
    | cons c rest =>
      have hlt : rest.length < (c :: rest).length := Nat.lt_succ_self _
      have hnext {sum : Byte} {escape : Bool} {reply : List Byte}
          (h : readLoop rest sum escape reply = some r) : r.rest.length < (c :: rest).length :=
        (ih _ hlt h rfl).trans hlt
      unfold readLoop at h
      obtain ⟨x, hx⟩ : ∃ x, (if escape then c ^^^ 0x20 else c) = x := ⟨_, rfl⟩
      rw [hx] at h
      dsimp only at h
      split_ifs at h with hstart hend hesc hstar
      · exact hnext h
      · obtain rfl := Option.some.inj h
        exact Nat.lt_succ_of_le (sumDigits_length rest)
      · exact hnext h
      · split at h
        · split_ifs at h
          · have hlt2 := Nat.lt_of_succ_lt hlt
            exact (ih _ hlt2 h rfl).trans hlt2
          · exact hnext h
        · exact hnext h
      · exact hnext h

theorem recvPacket_shrinks (h : recvPacket input = .ok r) : r.rest.length < input.length := by
  have hdrop := (List.dropWhile_sublist (l := input) fun c => decide (c ≠ 0x24)).length_le
  unfold recvPacket at h
  split at h
  · cases h
  · next _ rest heq =>
    rw [heq] at hdrop
    rw [recvLoop_eq ⟨Nat.zero_le _, le_rfl⟩] at h
    split at h
    · next hread =>
      obtain rfl := Except.ok.inj h
      exact (readLoop_shrinks hread).trans (Nat.lt_of_succ_le hdrop)
    · cases h

def gdbRecv (conn : GdbConn) : Except RecvStop (List Byte × GdbConn) :=
  match _h : recvPacket conn.input with
  | .error stop => .error stop
  | .ok r =>
    if conn.ack then
      let conn' := ⟨r.rest, conn.output ++ [answerByte r.sumOk], conn.ack⟩
      if r.sumOk then .ok (r.reply, conn') else gdbRecv conn'
    else .ok (r.reply, { conn with input := r.rest })
termination_by conn.input.length
decreasing_by exact recvPacket_shrinks _h

/-! ## One request -/

structure IsDamaged (body : List Byte) (msb lsb : Byte) : Prop where
  text : ∀ c ∈ body, ¬IsFraming c
  sum : (checksum body).setWidth 16 ≠ gdbDecodeHex msb lsb

theorem IsDamaged.replaced {a b : List Byte} (htext : ∀ x ∈ a ++ d :: b, ¬IsFraming x) (hne : d ≠ c) :
    IsDamaged (a ++ d :: b) (hexUpper (checksum (a ++ c :: b) >>> 4))
      (hexUpper (checksum (a ++ c :: b) &&& 0xf)) :=
  ⟨htext, mt (sum_replaced a b c d).mp hne⟩

inductive Refusals : List Byte → Nat → Prop
  | nil : Refusals [] 0
  | cons {junk body stream : List Byte} {aborted : List (List Byte)} {msb lsb : Byte} {n : Nat} :
    Leads junk aborted → IsDamaged body msb lsb → Refusals stream n →
      Refusals (leading junk aborted ++ (framed body msb lsb ++ stream)) (n + 1)

variable {refused : List Byte} {n : Nat} {output : List Byte} {junk : List Byte}
  {aborted : List (List Byte)}

theorem gdbRecv_again (h : recvPacket input = .ok r) (hsum : r.sumOk = false) :
    gdbRecv ⟨input, output, true⟩ = gdbRecv ⟨r.rest, output ++ [0x2d], true⟩ := by
  rw [gdbRecv]
  split
  · next hread =>
    rw [h] at hread
    cases hread
  · next r' hread =>
    rw [h] at hread
    obtain rfl := Except.ok.inj hread
    simp only [hsum, if_true, Bool.false_eq_true, if_false]
    rfl

theorem gdbRecv_done (h : recvPacket input = .ok r) (hsum : r.sumOk = true) :
    gdbRecv ⟨input, output, true⟩ = .ok (r.reply, ⟨r.rest, output ++ [0x2b], true⟩) := by
  rw [gdbRecv]
  split
  · next hread =>
    rw [h] at hread
    cases hread
  · next r' hread =>
    rw [h] at hread
    obtain rfl := Except.ok.inj hread
    simp only [hsum, if_true]
    rfl

theorem gdbRecv_refusals (h : Refusals refused n) (input output : List Byte) :
    gdbRecv ⟨refused ++ input, output, true⟩ =
      gdbRecv ⟨input, output ++ List.replicate n 0x2d, true⟩ := by
  induction h generalizing output with
  | nil => rw [List.nil_append, List.replicate_zero, List.append_nil]
  | @cons junk body stream aborted msb lsb n hleads hdamaged _ ih =>
    obtain ⟨reply, hread⟩ := recvPacket_framed hleads hdamaged.text msb lsb (stream ++ input)
    rw [List.append_assoc, List.append_assoc, gdbRecv_again hread (decide_eq_false hdamaged.sum), ih,
      List.append_assoc, List.singleton_append, ← List.replicate_succ]

theorem sendLoop_answers {naks : List Byte} (h : ∀ c ∈ naks, c ≠ 0x2b) (output : List Byte) :
    sendLoop command (naks ++ 0x2b :: input) output =
      some (input, output ++ (List.replicate (naks.length + 1) (sendPacket command)).flatten) := by
  induction naks generalizing output with
  | nil =>
    rw [List.nil_append, sendLoop, if_pos rfl, List.length_nil, List.replicate_one, List.flatten_singleton]
  | cons c naks ih =>
    rw [List.cons_append, sendLoop, if_neg (h c (List.mem_cons_self ..)),
      ih fun d hd => h d (List.mem_cons_of_mem _ hd), List.length_cons,
      List.replicate_succ (n := naks.length + 1), List.flatten_cons, List.append_assoc]

/-- What `gdb_si` and the others do with a command: they send it and wait for the reply. -/
def request (command : List Byte) (conn : GdbConn) : Option (Except RecvStop (List Byte × GdbConn)) :=
  (gdbSend command conn).map gdbRecv

/-- A request ends with the first reply that is intact, in whichever encoding. The command has been sent once
for each byte up to the first `+`, and every reply has been answered by itself. -/
theorem request_returns {naks : List Byte} (hnaks : ∀ c ∈ naks, c ≠ 0x2b) (hrefused : Refusals refused n)
    (hleads : Leads junk aborted) (henc : Encodes msg wire) (command rest output : List Byte) :
    request command ⟨naks ++ 0x2b :: (refused ++ (leading junk aborted ++ (sendPacket wire ++ rest))),
      output, true⟩ = some (.ok (msg, ⟨rest, output ++
        (List.replicate (naks.length + 1) (sendPacket command)).flatten ++ List.replicate n 0x2d ++ [0x2b],
        true⟩)) := by
  rw [request, gdbSend, if_pos rfl, sendLoop_answers hnaks]
  simp only [Option.map_some]
  rw [gdbRecv_refusals hrefused, gdbRecv_done (recvPacket_encodes hleads henc rest) rfl]

/-! ## Two ends -/

/-- A call of `gdb_send` for each message to do, and calls of `gdb_recv` at the other end. `waiting` holds
while a `gdb_send` waits for a byte; the last two are what is under way in each direction. -/
structure Link where
  todo : List (List Byte)
  acked : List (List Byte)
  accepted : List (List Byte)
  waiting : Bool
  wire : List Byte
  answers : List Byte

/-- The loop bodies of `gdb_send` and `gdb_recv`, and a line that makes of what it carries a packet with the
wrong sum, or of an answer any byte but `+`. -/
inductive LinkStep : Link → Event → Link → Prop
  | send {m : List Byte} {todo acked accepted : List (List Byte)} {wire answers : List Byte} :
    LinkStep ⟨m :: todo, acked, accepted, false, wire, answers⟩ .send
      ⟨m :: todo, acked, accepted, true, wire ++ sendPacket m, answers⟩
  | damage {todo acked accepted : List (List Byte)} {waiting : Bool} {wire answers body : List Byte}
    {msb lsb : Byte} : wire ≠ [] → IsDamaged body msb lsb →
    LinkStep ⟨todo, acked, accepted, waiting, wire, answers⟩ .damage
      ⟨todo, acked, accepted, waiting, framed body msb lsb, answers⟩
  | receive {todo acked accepted : List (List Byte)} {waiting : Bool} {wire answers : List Byte}
    {r : Received} : recvPacket wire = .ok r →
    LinkStep ⟨todo, acked, accepted, waiting, wire, answers⟩ .receive
      ⟨todo, acked, if r.sumOk then accepted ++ [r.reply] else accepted, waiting, r.rest,
        answers ++ [answerByte r.sumOk]⟩
  | spoil {todo acked accepted : List (List Byte)} {waiting : Bool} {wire answers a b : List Byte}
    {c d : Byte} : answers = a ++ c :: b → d ≠ 0x2b →
    LinkStep ⟨todo, acked, accepted, waiting, wire, answers⟩ .spoil
      ⟨todo, acked, accepted, waiting, wire, a ++ d :: b⟩
  | done {m : List Byte} {todo acked accepted : List (List Byte)} {wire answers : List Byte} :
    LinkStep ⟨m :: todo, acked, accepted, true, wire, 0x2b :: answers⟩ .answer
      ⟨todo, acked ++ [m], accepted, false, wire, answers⟩
  | again {m : List Byte} {todo acked accepted : List (List Byte)} {wire answers : List Byte} {c : Byte} :
    c ≠ 0x2b → LinkStep ⟨m :: todo, acked, accepted, true, wire, c :: answers⟩ .answer
      ⟨m :: todo, acked, accepted, true, wire ++ sendPacket m, answers⟩

def linkStart (all : List (List Byte)) : Link := ⟨all, [], [], false, [], []⟩

inductive Shows : Link → Line (List Byte) → Prop
  | idle {todo acked accepted : List (List Byte)} :
    Shows ⟨todo, acked, accepted, false, [], []⟩ ⟨todo, acked, accepted, .idle⟩
  | intact {m : List Byte} {todo acked accepted : List (List Byte)} :
    Shows ⟨m :: todo, acked, accepted, true, sendPacket m, []⟩ ⟨m :: todo, acked, accepted, .message true⟩
  | damaged {m body : List Byte} {todo acked accepted : List (List Byte)} {msb lsb : Byte} :
    IsDamaged body msb lsb → Shows ⟨m :: todo, acked, accepted, true, framed body msb lsb, []⟩
      ⟨m :: todo, acked, accepted, .message false⟩
  | answered {m : List Byte} {todo acked accepted : List (List Byte)} (c : Byte) :
    Shows ⟨m :: todo, acked, accepted, true, [], [c]⟩
      ⟨m :: todo, acked, accepted, .answer (decide (c = 0x2b))⟩

variable {all : List (List Byte)} {s s' : Link} {a : Line (List Byte)} {e : Event}
  {tr : List (Link × Event)}

/-- No byte of a message needs an escape. -/
def IsPlain (m : List Byte) : Prop := ∀ c ∈ m, ¬IsSpecial c

theorem recvPacket_plain {m : List Byte} (h : IsPlain m) : recvPacket (sendPacket m) = .ok ⟨m, true, []⟩ := by
  have hleads : Leads [] [] := ⟨by simp, by simp⟩
  have hread := recvPacket_encodes hleads (encodes_self h) []
  rwa [leading, List.flatMap_nil, List.nil_append, List.nil_append, List.append_nil] at hread

theorem recvPacket_damaged (h : IsDamaged body msb lsb) :
    ∃ reply, recvPacket (framed body msb lsb) = .ok ⟨reply, false, []⟩ := by
  have hleads : Leads [] [] := ⟨by simp, by simp⟩
  obtain ⟨reply, hread⟩ := recvPacket_framed hleads h.text msb lsb []
  rw [leading, List.flatMap_nil, List.nil_append, List.nil_append, List.append_nil,
    decide_eq_false h.sum] at hread
  exact ⟨reply, hread⟩

theorem Shows.step (h : Shows s a) (hplain : ∀ m ∈ s.todo, IsPlain m) (hs : LinkStep s e s') :
    ∃ a', Step a e a' ∧ Shows s' a' := by
  cases h with
  | idle =>
    cases hs with
    | send => exact ⟨_, .send .., .intact⟩
    | damage hwire _ => exact absurd rfl hwire
    | receive hread => cases hread
    | spoil hanswers _ => exact absurd hanswers (by simp)
  | @intact m todo acked accepted =>
    cases hs with
    | damage _ hdamaged => exact ⟨_, .damage .., .damaged hdamaged⟩
    | receive hread =>
      rw [recvPacket_plain (hplain m (List.mem_cons_self ..))] at hread
      obtain rfl := Except.ok.inj hread
      exact ⟨_, .accept .., .answered 0x2b⟩
    | spoil hanswers _ => exact absurd hanswers (by simp)
  | @damaged m body todo acked accepted msb lsb hdamaged =>
    cases hs with
    | damage _ hdamaged => exact ⟨_, .damage .., .damaged hdamaged⟩
    | receive hread =>
      obtain ⟨reply, hread'⟩ := recvPacket_damaged hdamaged
      rw [hread'] at hread
      obtain rfl := Except.ok.inj hread
      exact ⟨_, .refuse .., .answered 0x2d⟩
    | spoil hanswers _ => exact absurd hanswers (by simp)
  | @answered m todo acked accepted c =>
    cases hs with
    | damage hwire _ => exact absurd rfl hwire
    | receive hread => cases hread
    | @spoil _ _ _ _ _ _ a b c' d hanswers hd =>
      have hshape : a = [] ∧ b = [] := by
        have hlen := congrArg List.length hanswers
        simp only [List.length_append, List.length_cons, List.length_nil] at hlen
        exact ⟨List.eq_nil_of_length_eq_zero (by omega), List.eq_nil_of_length_eq_zero (by omega)⟩
      obtain ⟨rfl, rfl⟩ := hshape
      have hshow := @Shows.answered m todo acked accepted d
      rw [decide_eq_false hd] at hshow
      exact ⟨_, .spoil .., hshow⟩
    | done => exact ⟨_, .done .., .idle⟩
    | again hc =>
      rw [decide_eq_false hc]
      exact ⟨_, .again .., .intact⟩

/-- A run of the link is a run of stop and wait. -/
theorem link_simulates (hplain : ∀ m ∈ all, IsPlain m) (h : Run LinkStep (linkStart all) tr s) :
    ∃ tr' a, Run Step (StopAndWait.start all) tr' a ∧ tr'.map Prod.snd = tr.map Prod.snd ∧ Shows s a := by
  induction h with
  | nil => exact ⟨[], _, .nil, rfl, .idle⟩
  | @snoc tr s e s' _ hs ih =>
    obtain ⟨tr', a, hrun, hevents, hshow⟩ := ih
    have hwhole := (Sound.run hrun).whole
    have htodo : a.todo = s.todo := by cases hshow <;> rfl
    obtain ⟨a', hstep, hshow'⟩ := hshow.step
      (fun m hm => hplain m (by rw [← hwhole, htodo]; exact List.mem_append_right _ hm)) hs
    refine ⟨tr' ++ [(a, e)], a', hrun.snoc hstep, ?_, hshow'⟩
    rw [List.map_append, List.map_append, hevents]
    rfl

/-- Steps without damage lead from `s` to `t`. -/
def CleanRun (s t : Link) : Prop :=
  ∃ tr, Run LinkStep s tr t ∧ ∀ p ∈ tr, p.2 ≠ .damage ∧ p.2 ≠ .spoil

theorem CleanRun.step {t : Link} (hs : LinkStep s e s') (he : e ≠ .damage ∧ e ≠ .spoil)
    (h : CleanRun s' t) : CleanRun s t := by
  obtain ⟨tr, hrun, hclean⟩ := h
  refine ⟨[] ++ [(s, e)] ++ tr, (Run.nil.snoc hs).append hrun, fun p hp => ?_⟩
  rcases List.mem_append.mp hp with hp | hp
  · rw [List.mem_singleton.mp hp]
    exact he
  · exact hclean p hp

theorem CleanRun.across {m : List Byte} {todo acked accepted : List (List Byte)} {t : Link}
    (hm : IsPlain m)
    (h : CleanRun ⟨todo, acked ++ [m], accepted ++ [m], false, [], []⟩ t) :
    CleanRun ⟨m :: todo, acked, accepted, true, sendPacket m, []⟩ t :=
  .step (.receive (recvPacket_plain hm)) ⟨nofun, nofun⟩ (.step .done ⟨nofun, nofun⟩ h)

theorem CleanRun.idle {todo : List (List Byte)} (hplain : ∀ m ∈ todo, IsPlain m)
    (acked accepted : List (List Byte)) :
    ∃ t, CleanRun ⟨todo, acked, accepted, false, [], []⟩ t ∧ t.todo = [] := by
  induction todo generalizing acked accepted with
  | nil => exact ⟨_, ⟨[], .nil, by simp⟩, rfl⟩
  | cons m todo ih =>
    obtain ⟨t, hclean, hdone⟩ := ih (fun m hm => hplain m (List.mem_cons_of_mem _ hm)) (acked ++ [m])
      (accepted ++ [m])
    exact ⟨t, .step .send ⟨nofun, nofun⟩ (.across (hplain m (List.mem_cons_self ..)) hclean), hdone⟩

theorem Shows.finishes (h : Shows s a) (hplain : ∀ m ∈ s.todo, IsPlain m) :
    ∃ t, CleanRun s t ∧ t.todo = [] := by
  cases h with
  | idle => exact CleanRun.idle hplain _ _
  | @intact m todo acked accepted =>
    obtain ⟨t, hclean, hdone⟩ := CleanRun.idle (fun m hm => hplain m (List.mem_cons_of_mem _ hm))
      (acked ++ [m]) (accepted ++ [m])
    exact ⟨t, .across (hplain m (List.mem_cons_self ..)) hclean, hdone⟩
  | @damaged m body todo acked accepted msb lsb hdamaged =>
    obtain ⟨t, hclean, hdone⟩ := CleanRun.idle (fun m hm => hplain m (List.mem_cons_of_mem _ hm))
      (acked ++ [m]) (accepted ++ [m])
    obtain ⟨reply, hread⟩ := recvPacket_damaged hdamaged
    exact ⟨t, .step (.receive hread) ⟨nofun, nofun⟩ (.step (.again (c := 0x2d) (by decide)) ⟨nofun, nofun⟩
      (.across (hplain m (List.mem_cons_self ..)) hclean)), hdone⟩
  | @answered m todo acked accepted c =>
    have hrest : ∀ m ∈ todo, IsPlain m := fun m hm => hplain m (List.mem_cons_of_mem _ hm)
    by_cases hc : c = 0x2b
    · obtain ⟨t, hclean, hdone⟩ := CleanRun.idle hrest (acked ++ [m]) accepted
      rw [hc]
      exact ⟨t, .step .done ⟨nofun, nofun⟩ hclean, hdone⟩
    · obtain ⟨t, hclean, hdone⟩ := CleanRun.idle hrest (acked ++ [m]) (accepted ++ [m])
      exact ⟨t, .step (.again hc) ⟨nofun, nofun⟩ (.across (hplain m (List.mem_cons_self ..)) hclean), hdone⟩

/-- Whatever is damaged on the way, in either direction: the calls that have returned are those of the first
messages, in order, and the other end has received these, perhaps the next, and nothing else. It has received
none twice unless an acknowledgement was damaged, and the link never gets stuck. -/
theorem link_delivers (hplain : ∀ m ∈ all, IsPlain m) (h : Run LinkStep (linkStart all) tr s) :
    s.acked ++ s.todo = all ∧
    (∃ heard, (heard = s.acked ∨ ∃ m ∈ s.todo.head?, heard = s.acked ++ [m]) ∧ Repeats heard s.accepted ∧
      s.accepted.length ≤ heard.length + spoils (tr.map Prod.snd)) ∧
    ∃ t, CleanRun s t ∧ t.todo = [] := by
  obtain ⟨tr', a, hrun, hevents, hshow⟩ := link_simulates hplain h
  have hsound := Sound.run hrun
  have hsame : a.todo = s.todo ∧ a.acked = s.acked ∧ a.accepted = s.accepted := by
    cases hshow <;> exact ⟨rfl, rfl, rfl⟩
  obtain ⟨htodo, hacked, haccepted⟩ := hsame
  have hwhole := hsound.whole
  have hheard := hsound.delivers
  rw [hevents] at hheard
  rw [htodo, hacked] at hwhole
  rw [htodo, hacked, haccepted] at hheard
  exact ⟨hwhole, hheard, hshow.finishes fun m hm =>
    hplain m (by rw [← hwhole]; exact List.mem_append_right _ hm)⟩

/-- Two messages, the first damaged, and refused, before it is sent again. -/
theorem link_delivers_damaged : ∃ tr s, Run LinkStep (linkStart [[0x67], [0x63]]) tr s ∧
    (s.acked ++ s.todo = [[0x67], [0x63]] ∧
      (∃ heard, (heard = s.acked ∨ ∃ m ∈ s.todo.head?, heard = s.acked ++ [m]) ∧
        Repeats heard s.accepted ∧ s.accepted.length ≤ heard.length + spoils (tr.map Prod.snd)) ∧
      ∃ t, CleanRun s t ∧ t.todo = []) := by
  have hdamaged : IsDamaged ([] ++ [0x66]) 0x36 0x37 := .replaced (c := 0x67) (by decide) (by decide)
  obtain ⟨reply, hread⟩ := recvPacket_damaged hdamaged
  have hplain : ∀ m ∈ [[0x67], [0x63]], IsPlain m := by
    unfold IsPlain
    decide
  have hstart : Run LinkStep (linkStart [[0x67], [0x63]]) [] (linkStart [[0x67], [0x63]]) := .nil
  have hrun := ((hstart.snoc .send).snoc (.damage (List.cons_ne_nil _ _) hdamaged)).snoc (.receive hread)
  exact ⟨_, _, hrun, link_delivers hplain hrun⟩

end GsEmu.Gdb
