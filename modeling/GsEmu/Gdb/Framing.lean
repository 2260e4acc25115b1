import GsEmu.Gdb.Packet

/-! What `recv_packet` makes of the bytes it reads: its buffer never overflows, every legal encoding of a
message is read back as the message, and the checksum decides about the rest. -/

namespace GsEmu.Gdb
open Bytes Outcome
open Difftest (gdbDecodeHex isxdigit)

/-! ## The buffer -/

structure Reply.Sound (r : Reply) : Prop where
  fits : r.bytes.length ≤ r.size
  large : 4096 ≤ r.size

variable {r : Reply} {c : Byte} {count : Nat} {input rest body : List Byte} {sum : Byte} {escape : Bool}

theorem Reply.Sound.fill (h : r.Sound) (hcount : count ≤ 4096) (c : Byte) :
    ∃ r', r.fill count c = .ok r' ∧ r'.Sound ∧ r'.bytes = r.bytes ++ List.replicate count c := by
  obtain ⟨hfits, hlarge⟩ := h
  have hroom : r.bytes.length + count ≤
      if r.size < r.bytes.length + count then r.size * 2 else r.size := by
    split_ifs <;> omega
  refine ⟨_, if_pos hroom, ⟨?_, ?_⟩, rfl⟩
  · rw [List.length_append, List.length_replicate]
    exact hroom
  · dsimp only
    split_ifs <;> omega

theorem Reply.Sound.push (h : r.Sound) (c : Byte) :
    ∃ r', r.push c = .ok r' ∧ r'.Sound ∧ r'.bytes = r.bytes ++ [c] := by
  obtain ⟨hfits, hlarge⟩ := h
  have hroom : r.bytes.length < if r.bytes.length = r.size then r.size * 2 else r.size := by
    split_ifs <;> omega
  refine ⟨_, if_pos hroom, ⟨?_, ?_⟩, rfl⟩
  · rw [List.length_append, List.length_singleton]
    exact hroom
  · dsimp only
    split_ifs <;> omega

theorem Reply.Sound.terminate (h : r.Sound) : r.terminate = .ok r.bytes := by
  have hfits := h.fits
  unfold Reply.terminate
  rw [if_pos]
  split_ifs <;> omega

/-! ## The loop over a buffer without bounds -/

def readEnd (input : List Byte) (sum : Byte) (reply : List Byte) : Received :=
  let (msb, lsb, rest) := sumDigits input
  ⟨reply, decide (sum.setWidth 16 = gdbDecodeHex msb lsb), rest⟩

/-- `none` where the stream ends before the packet. -/
def readLoop : List Byte → Byte → Bool → List Byte → Option Received
  | [], _, _, _ => none
  | c :: rest, sum, escape, reply =>
    let sum := sum + c
    let add := readLoop rest sum false (reply ++ [if escape then c ^^^ 0x20 else c])
    if c = 0x24 then readLoop rest 0 false []
    else if c = 0x23 then some (readEnd rest (sum - c) reply)
    else if c = 0x7d then readLoop rest sum true reply
    else if c = 0x2a then
      match rest, reply.getLast? with
      | c2 :: rest, some last =>
        if isCount c2 then
          readLoop rest (sum + c2) escape (reply ++ List.replicate (c2.toNat - 29) last)
        else add
      | _, _ => add
    else add

theorem count_le (h : isCount c = true) : c.toNat - 29 ≤ 4096 := by
  have hle : c ≤ 126 := (of_decide_eq_true h).2.1
  have hnat : c.toNat ≤ 126 := hle
  omega

theorem finishPacket_eq (h : r.Sound) : finishPacket input sum r = .ok (readEnd input sum r.bytes) := by
  unfold finishPacket
  rw [h.terminate]
  rfl

/-- The loop of the source returns what the loop without bounds does: it never leaves its buffer. -/
theorem recvLoop_eq (h : r.Sound) : recvLoop input sum escape r =
    match readLoop input sum escape r.bytes with
    | some x => .ok x
    | none => .error .closed := by
  induction hn : input.length using Nat.strongRecOn generalizing input sum escape r with
  | ind n ih =>
    cases input with
    | nil => rfl
    | cons c rest =>
      have hrest : rest.length < n := by
        rw [← hn]
        exact Nat.lt_succ_self _
      unfold recvLoop readLoop
      dsimp only
      obtain ⟨x, hx⟩ : ∃ x, (if escape then c ^^^ 0x20 else c) = x := ⟨_, rfl⟩
      rw [hx]
      have hadd : (do
          let reply ← r.push x
          recvLoop rest (sum + c) false reply) =
          match readLoop rest (sum + c) false (r.bytes ++ [x]) with
          | some x => .ok x
          | none => .error .closed := by
        obtain ⟨r', hpush, hsound, hbytes⟩ := h.push x
        rw [hpush, ← hbytes]
        exact ih _ hrest hsound rfl
      split_ifs with hstart hend hesc hrun
      · exact ih _ hrest (r := ⟨[], r.size⟩) ⟨Nat.zero_le _, h.large⟩ rfl
      · exact finishPacket_eq h
      · exact ih _ hrest h rfl
      · cases rest with
        | nil => exact hadd
        | cons c2 rest =>
          cases hlast : r.bytes.getLast? with
          | none => exact hadd
          | some last =>
            dsimp only
            split_ifs with hcount
            · obtain ⟨r', hfill, hsound, hbytes⟩ := h.fill (count_le hcount) last
              rw [hfill, ← hbytes]
              exact ih _ (Nat.lt_of_succ_lt hrest) hsound rfl
            · exact hadd
      · exact hadd

/-! ## One round -/

def IsFraming (c : Byte) : Prop := c = 0x23 ∨ c = 0x24

/-- The bytes the loop does not take as they are. -/
def IsSpecial (c : Byte) : Prop := IsFraming c ∨ c = 0x7d ∨ c = 0x2a

instance (c : Byte) : Decidable (IsFraming c) := inferInstanceAs (Decidable (_ ∨ _))

instance (c : Byte) : Decidable (IsSpecial c) := inferInstanceAs (Decidable (_ ∨ _))

def RunsOn (reply rest : List Byte) : Prop := reply ≠ [] ∧ ∃ c2 ∈ rest.head?, isCount c2 = true

variable {reply : List Byte} {last c2 : Byte}

theorem readLoop_start : readLoop (0x24 :: rest) sum escape reply = readLoop rest 0 false [] := by
  rw [readLoop.eq_def]
  exact if_pos rfl

theorem readLoop_end :
    readLoop (0x23 :: rest) sum escape reply = some (readEnd rest (sum + 0x23 - 0x23) reply) := by
  rw [readLoop.eq_def]
  exact (if_neg (by decide)).trans (if_pos rfl)

theorem readLoop_escape :
    readLoop (0x7d :: rest) sum escape reply = readLoop rest (sum + 0x7d) true reply := by
  rw [readLoop.eq_def]
  exact (if_neg (by decide)).trans ((if_neg (by decide)).trans (if_pos rfl))

theorem readLoop_run (hlast : reply.getLast? = some last) (hcount : isCount c2 = true) :
    readLoop (0x2a :: c2 :: rest) sum escape reply =
      readLoop rest (sum + 0x2a + c2) escape (reply ++ List.replicate (c2.toNat - 29) last) := by
  rw [readLoop.eq_def]
  dsimp only
  rw [if_neg (by decide), if_neg (by decide), if_neg (by decide), if_pos rfl, hlast]
  exact if_pos hcount

theorem readLoop_add (hframing : ¬IsFraming c) (hesc : c ≠ 0x7d) (hrun : c = 0x2a → ¬RunsOn reply rest) :
    readLoop (c :: rest) sum escape reply =
      readLoop rest (sum + c) false (reply ++ [if escape then c ^^^ 0x20 else c]) := by
  obtain ⟨hend, hstart⟩ := not_or.mp hframing
  rw [readLoop.eq_def]
  dsimp only
  rw [if_neg hstart, if_neg hend, if_neg hesc]
  by_cases hstar : c = 0x2a
  · rw [if_pos hstar]
    cases rest with
    | nil => rfl
    | cons c2 rest =>
      cases hlast : reply.getLast? with
      | none => rfl
      | some last =>
        have hne : reply ≠ [] := by
          rintro rfl
          simp at hlast
        exact if_neg fun hcount => hrun hstar ⟨hne, c2, rfl, hcount⟩
  · exact if_neg hstar

theorem readLoop_plain (hc : ¬IsSpecial c) : readLoop (c :: rest) sum escape reply =
    readLoop rest (sum + c) false (reply ++ [if escape then c ^^^ 0x20 else c]) := by
  obtain ⟨hframing, hother⟩ := not_or.mp hc
  obtain ⟨hesc, hstar⟩ := not_or.mp hother
  exact readLoop_add hframing hesc fun h => absurd h hstar

/-! ## Checksums -/

theorem checksum_append (a b : List Byte) : checksum (a ++ b) = checksum a + checksum b := by
  rw [checksum, List.foldl_append]
  change b.foldl (· + ·) (checksum a) = _
  rw [← BitVec.add_zero (checksum a), List.foldl_assoc, BitVec.add_zero]
  rfl

theorem checksum_singleton (c : Byte) : checksum [c] = c := BitVec.zero_add c

theorem checksum_pair (c d : Byte) : checksum [c, d] = c + d := congrArg (· + d) (BitVec.zero_add c)

theorem add_checksum_cons (sum c : Byte) (body : List Byte) :
    sum + checksum (c :: body) = sum + c + checksum body := by
  rw [← List.singleton_append, checksum_append, checksum_singleton, BitVec.add_assoc]

theorem readLoop_skip {f : Byte} (rest : List Byte) (hf : IsFraming f) (hbody : ∀ c ∈ body, ¬IsFraming c)
    (sum : Byte) (escape : Bool) (reply : List Byte) : ∃ e' reply', readLoop (body ++ f :: rest) sum escape reply =
      readLoop (f :: rest) (sum + checksum body) e' reply' := by
  -- on the length of the text: a run takes two bytes at once
  induction hn : body.length using Nat.strongRecOn generalizing body sum escape reply with
  | ind n ih =>
    cases body with
    | nil =>
      refine ⟨escape, reply, ?_⟩
      have hzero : sum + checksum [] = sum := BitVec.add_zero sum
      rw [hzero, List.nil_append]
    | cons c body =>
      have hlen : body.length < n := by
        rw [← hn]
        exact Nat.lt_succ_self _
      have hc : ¬IsFraming c := hbody c (List.mem_cons_self ..)
      have htail : ∀ d ∈ body, ¬IsFraming d := fun d hd => hbody d (List.mem_cons_of_mem _ hd)
      rw [List.cons_append, add_checksum_cons]
      by_cases hesc : c = 0x7d
      · rw [hesc, readLoop_escape]
        exact ih _ hlen htail _ _ _ rfl
      by_cases hrun : c = 0x2a ∧ RunsOn reply (body ++ f :: rest)
      · obtain ⟨rfl, hne, c2, hc2, hcount⟩ := hrun
        obtain ⟨last, hlast⟩ := Option.ne_none_iff_exists'.mp (mt List.getLast?_eq_none_iff.mp hne)
        cases body with
        | nil =>
          obtain rfl : f = c2 := Option.some.inj hc2
          rcases hf with rfl | rfl <;> exact absurd hcount (by decide)
        | cons d body =>
          obtain rfl : d = c2 := Option.some.inj hc2
          rw [List.cons_append, readLoop_run hlast hcount, add_checksum_cons]
          exact ih _ (Nat.lt_of_succ_lt hlen) (fun d hd => htail d (List.mem_cons_of_mem _ hd)) _ _ _ rfl
      · rw [readLoop_add hc hesc fun hstar hon => hrun ⟨hstar, hon⟩]
        exact ih _ hlen htail _ _ _ rfl

theorem gdbDecodeHex_sumText : ∀ sum : Byte,
    gdbDecodeHex (hexUpper (sum >>> 4)) (hexUpper (sum &&& 0xf)) = sum.setWidth 16 := by
  decide +kernel

theorem checksum_replaced (a b : List Byte) (c d : Byte) :
    checksum (a ++ d :: b) = checksum (a ++ c :: b) ↔ d = c := by
  rw [checksum_append, checksum_append, BitVec.add_right_inj, ← BitVec.zero_add (checksum (d :: b)),
    ← BitVec.zero_add (checksum (c :: b)), add_checksum_cons, add_checksum_cons, BitVec.add_left_inj,
    BitVec.add_right_inj]

theorem sum_replaced (a b : List Byte) (c d : Byte) : (checksum (a ++ d :: b)).setWidth 16 =
    gdbDecodeHex (hexUpper (checksum (a ++ c :: b) >>> 4)) (hexUpper (checksum (a ++ c :: b) &&& 0xf)) ↔
      d = c := by
  rw [gdbDecodeHex_sumText, ← checksum_replaced a b c d]
  exact ⟨fun heq => by simpa using congrArg (BitVec.setWidth 8) heq, congrArg _⟩

/-! ## Encodings -/

/-- The texts that stand for a message: bytes as they are or escaped, and runs of the byte before. -/
inductive Encodes : List Byte → List Byte → Prop
  | nil : Encodes [] []
  | plain {msg wire : List Byte} {c : Byte} :
    Encodes msg wire → ¬IsSpecial c → Encodes (msg ++ [c]) (wire ++ [c])
  | escaped {msg wire : List Byte} {c : Byte} :
    Encodes msg wire → ¬IsSpecial (c ^^^ 0x20) → Encodes (msg ++ [c]) (wire ++ [0x7d, c ^^^ 0x20])
  | run {msg wire : List Byte} {last c2 : Byte} :
    Encodes msg wire → msg.getLast? = some last → isCount c2 = true →
      Encodes (msg ++ List.replicate (c2.toNat - 29) last) (wire ++ [0x2a, c2])

theorem exists_encodes (msg : List Byte) : ∃ wire, Encodes msg wire := by
  induction msg using List.reverseRecOn with
  | nil => exact ⟨[], .nil⟩
  | append_singleton msg c ih =>
    obtain ⟨wire, h⟩ := ih
    by_cases hc : IsSpecial c
    · have hescaped : ¬IsSpecial (c ^^^ 0x20) := by
        rcases hc with (rfl | rfl) | rfl | rfl <;> decide
      exact ⟨_, h.escaped hescaped⟩
    · exact ⟨_, h.plain hc⟩

theorem encodes_self {msg : List Byte} (h : ∀ c ∈ msg, ¬IsSpecial c) : Encodes msg msg := by
  induction msg using List.reverseRecOn with
  | nil => exact .nil
  | append_singleton msg c ih =>
    exact (ih fun d hd => h d (List.mem_append_left _ hd)).plain (h c (List.mem_append_right _ (by simp)))

theorem Encodes.readLoop {msg wire : List Byte} (h : Encodes msg wire) (rest : List Byte) :
    readLoop (wire ++ rest) 0 false [] = Gdb.readLoop rest (checksum wire) false msg := by
  induction h generalizing rest with
  | nil => rfl
  | plain _ hc ih =>
    rw [List.append_assoc, ih, List.singleton_append, readLoop_plain hc, checksum_append,
      checksum_singleton]
    rfl
  | @escaped msg wire c _ hc ih =>
    have hback : c ^^^ 0x20 ^^^ 0x20 = c := by
      rw [BitVec.xor_assoc, BitVec.xor_self, BitVec.xor_zero]
    rw [List.append_assoc, ih, List.cons_append, List.singleton_append, readLoop_escape,
      readLoop_plain hc, if_pos rfl, hback, checksum_append, checksum_pair, BitVec.add_assoc]
  | run _ hlast hcount ih =>
    rw [List.append_assoc, ih, List.cons_append, List.singleton_append, readLoop_run hlast hcount,
      checksum_append, checksum_pair, BitVec.add_assoc]

/-! ## Packets -/

variable {junk : List Byte} {aborted : List (List Byte)}

def framed (body : List Byte) (msb lsb : Byte) : List Byte := 0x24 :: body ++ [0x23, msb, lsb]

theorem sendPacket_eq (command : List Byte) : sendPacket command = framed command
    (hexUpper (checksum command >>> 4)) (hexUpper (checksum command &&& 0xf)) := rfl

/-- Junk before the first packet, then packets that are broken off before their `#`. -/
structure Leads (junk : List Byte) (aborted : List (List Byte)) : Prop where
  junk : ∀ c ∈ junk, c ≠ 0x24
  aborted : ∀ a ∈ aborted, ∀ c ∈ a, ¬IsFraming c

def leading (junk : List Byte) (aborted : List (List Byte)) : List Byte :=
  junk ++ aborted.flatMap (0x24 :: ·)

theorem readLoop_aborted (h : ∀ a ∈ aborted, ∀ c ∈ a, ¬IsFraming c) :
    readLoop (aborted.flatMap (0x24 :: ·) ++ 0x24 :: rest) sum escape reply = readLoop rest 0 false [] := by
  induction aborted generalizing sum escape reply with
  | nil => exact readLoop_start
  | cons a aborted ih =>
    have hrest := fun b hb => h b (List.mem_cons_of_mem _ hb)
    rw [List.flatMap_cons, List.cons_append, List.cons_append, readLoop_start, List.append_assoc]
    cases aborted with
    | nil =>
      obtain ⟨e, r, hskip⟩ := readLoop_skip rest (.inr rfl) (h a (List.mem_cons_self ..)) 0 false []
      exact hskip.trans readLoop_start
    | cons b aborted =>
      obtain ⟨e, r, hskip⟩ := readLoop_skip (b ++ (aborted.flatMap (0x24 :: ·) ++ 0x24 :: rest))
        (.inr rfl) (h a (List.mem_cons_self ..)) 0 false []
      rw [List.flatMap_cons, List.cons_append, List.cons_append, List.append_assoc, hskip]
      have hnext := @ih (0 + checksum a) e r hrest
      rwa [List.flatMap_cons, List.cons_append, List.cons_append, List.append_assoc] at hnext

theorem recvPacket_leading (h : Leads junk aborted) : recvPacket (leading junk aborted ++ 0x24 :: rest) =
    match readLoop rest 0 false [] with
    | some x => .ok x
    | none => .error .closed := by
  have hdrop : ∀ l : List Byte, (junk ++ 0x24 :: l).dropWhile (· ≠ 0x24) = 0x24 :: l := by
    intro l
    rw [List.dropWhile_append_of_pos fun c hc => by simpa using h.junk c hc]
    rfl
  have hsound : Reply.Sound ⟨[], 4096⟩ := ⟨Nat.zero_le _, le_rfl⟩
  rw [leading, List.append_assoc]
  cases aborted with
  | nil =>
    rw [List.flatMap_nil, List.nil_append, recvPacket, hdrop]
    exact recvLoop_eq hsound
  | cons a aborted =>
    have hread : readLoop ((a :: aborted).flatMap (0x24 :: ·) ++ 0x24 :: rest) 0 false [] =
        readLoop rest 0 false [] := readLoop_aborted h.aborted
    rw [List.flatMap_cons, List.cons_append, List.cons_append] at hread ⊢
    rw [readLoop_start] at hread
    rw [recvPacket, hdrop, ← hread]
    exact recvLoop_eq hsound

/-! ## Main results -/

/-- Whatever bytes arrive, the buffer of `recv_packet` is large enough for what it writes. -/
theorem recvPacket_noOverrun (input : List Byte) : recvPacket input ≠ .error .overrun := by
  unfold recvPacket
  split
  · exact fun h => by cases h
  · rw [recvLoop_eq ⟨Nat.zero_le _, le_rfl⟩]
    split <;> exact fun h => by cases h

/-- A packet is accepted exactly when its digits spell the sum of the text between its framing bytes. -/
theorem recvPacket_framed (h : Leads junk aborted) (hbody : ∀ c ∈ body, ¬IsFraming c) (msb lsb : Byte)
    (rest : List Byte) :
    ∃ reply, recvPacket (leading junk aborted ++ (framed body msb lsb ++ rest)) =
      .ok ⟨reply, decide ((checksum body).setWidth 16 = gdbDecodeHex msb lsb), rest⟩ := by
  obtain ⟨e, reply, hskip⟩ := readLoop_skip (msb :: lsb :: rest) (.inl rfl) hbody 0 false []
  have hsum : (0 : Byte) + checksum body + 0x23 - 0x23 = checksum body := by
    rw [BitVec.add_sub_cancel]
    exact BitVec.zero_add _
  refine ⟨reply, ?_⟩
  rw [framed, List.append_assoc, List.cons_append, recvPacket_leading h]
  change (match readLoop (body ++ 0x23 :: msb :: lsb :: rest) 0 false [] with | some x => _ | none => _) = _
  rw [hskip, readLoop_end, hsum]
  rfl

/-- A message is read back from each of its encodings. -/
theorem recvPacket_encodes {msg wire : List Byte} (h : Leads junk aborted) (henc : Encodes msg wire)
    (rest : List Byte) :
    recvPacket (leading junk aborted ++ (sendPacket wire ++ rest)) = .ok ⟨msg, true, rest⟩ := by
  obtain ⟨msb, hmsb⟩ : ∃ msb, hexUpper (checksum wire >>> 4) = msb := ⟨_, rfl⟩
  obtain ⟨lsb, hlsb⟩ : ∃ lsb, hexUpper (checksum wire &&& 0xf) = lsb := ⟨_, rfl⟩
  have hsum : (checksum wire).setWidth 16 = gdbDecodeHex msb lsb := by
    rw [← hmsb, ← hlsb, gdbDecodeHex_sumText]
  rw [sendPacket_eq, hmsb, hlsb, framed, List.append_assoc, List.cons_append, recvPacket_leading h]
  change (match readLoop (wire ++ 0x23 :: msb :: lsb :: rest) 0 false [] with | some x => _ | none => _) = _
  rw [henc.readLoop, readLoop_end, BitVec.add_sub_cancel]
  change Except.ok (Received.mk msg (decide _) rest) = _
  rw [decide_eq_true hsum]

/-- Every message can be encoded, and is read back from each of its encodings. -/
theorem recvPacket_decodes (h : Leads junk aborted) (msg rest : List Byte) : (∃ wire, Encodes msg wire) ∧
    ∀ wire, Encodes msg wire →
      recvPacket (leading junk aborted ++ (sendPacket wire ++ rest)) = .ok ⟨msg, true, rest⟩ :=
  ⟨exists_encodes msg, fun _ henc => recvPacket_encodes h henc rest⟩

/-- A run of three zeros behind the first, after an acknowledgement and a packet that is broken off. -/
theorem recvPacket_decodes_run : (∃ wire, Encodes [0x30, 0x30, 0x30, 0x30] wire) ∧
    recvPacket (leading [0x2b] [[0x4d, 0x30]] ++ (sendPacket [0x30, 0x2a, 0x20] ++ [])) =
      .ok ⟨[0x30, 0x30, 0x30, 0x30], true, []⟩ := by
  have hleads : Leads [0x2b] [[0x4d, 0x30]] := ⟨by decide, by decide⟩
  have hrun : Encodes [0x30, 0x30, 0x30, 0x30] [0x30, 0x2a, 0x20] :=
    @Encodes.run [0x30] [0x30] 0x30 0x20 (Encodes.nil.plain (c := 0x30) (by decide)) rfl (by decide)
  obtain ⟨hsome, hall⟩ := recvPacket_decodes hleads [0x30, 0x30, 0x30, 0x30] []
  exact ⟨hsome, hall _ hrun⟩

/-- The sum gives away every byte that has been replaced by another, whatever surrounds it. -/
theorem recvPacket_replaced (h : Leads junk aborted) {a b : List Byte} {c d : Byte}
    (hbody : ∀ x ∈ a ++ d :: b, ¬IsFraming x) (rest : List Byte) :
    ∃ reply, recvPacket (leading junk aborted ++ (0x24 :: (a ++ d :: b) ++
      0x23 :: sumText (checksum (a ++ c :: b)) ++ rest)) = .ok ⟨reply, decide (d = c), rest⟩ := by
  obtain ⟨reply, hread⟩ := recvPacket_framed h hbody (hexUpper (checksum (a ++ c :: b) >>> 4))
    (hexUpper (checksum (a ++ c :: b) &&& 0xf)) rest
  rw [decide_eq_decide.mpr (sum_replaced a b c d)] at hread
  exact ⟨reply, hread⟩

theorem recvPacket_replaced_digit : ∃ reply, recvPacket (leading [] [] ++
    (0x24 :: ([0x4d] ++ 0x31 :: [0x2c]) ++ 0x23 :: sumText (checksum ([0x4d] ++ 0x30 :: [0x2c])) ++ [])) =
      .ok ⟨reply, false, []⟩ := by
  have hleads : Leads [] [] := ⟨by decide, by decide⟩
  have hbody : ∀ x ∈ ([0x4d] ++ 0x31 :: [0x2c] : List Byte), ¬IsFraming x := by decide
  exact recvPacket_replaced hleads hbody []

end GsEmu.Gdb
