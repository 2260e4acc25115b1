import GsEmu.Gdb.Registers

/-! `difftest_exec` and `difftest_regcpy` of `qemu-diff` over the wire, against a stub that keeps to the protocol:
together they are the adapter that copies registers. -/

namespace GsEmu.Gdb
open Bytes Layout Riscv32
open Difftest (RegFile regFileAt putRegs isaGdbRegs difftestRegSize Adapter qemuAdapter isOk isxdigit)

/-! ## The code -/

def regcpyToDut (junk dut : Memory) (conn : GdbConn) : ExceptT RecvStop Option (Memory × GdbConn) := do
  let (qemuR, conn) ← gdbGetregs junk conn
  return (memcpy dut qemuR difftestRegSize, conn)

/-- `difftest_regcpy` to the reference; nothing looks at the answer of `gdb_setregs`. -/
def regcpyToRef (junk dut : Memory) (conn : GdbConn) : ExceptT RecvStop Option GdbConn := do
  let (qemuR, conn) ← gdbGetregs junk conn
  let (_, conn) ← gdbSetregs (memcpy qemuR dut difftestRegSize) conn
  return conn

/-- A call of `difftest_exec(1)` or of `difftest_regcpy`, with what its reply buffer holds behind the reply. -/
inductive Op
  | exec
  | toDut (junk dut : Memory)
  | toRef (junk dut : Memory)

def runOps : List Op → GdbConn → ExceptT RecvStop Option (List Memory × GdbConn)
  | [], conn => return ([], conn)
  | .exec :: ops, conn => do
    let conn ← gdbSi conn
    runOps ops conn
  | .toDut junk dut :: ops, conn => do
    let (dut, conn) ← regcpyToDut junk dut conn
    let (duts, conn) ← runOps ops conn
    return (dut :: duts, conn)
  | .toRef junk dut :: ops, conn => do
    let conn ← regcpyToRef junk dut conn
    runOps ops conn

/-! ## The other end -/

def imageOf (r : RegFile) : Memory := putRegs isaGdbRegs r fun _ => 0

def SpellsRegs (digits : List Byte) (m : Memory) : Prop :=
  ∀ i < difftestRegSize, Spells (digits.getD (2 * i) 0) (digits.getD (2 * i + 1) 0) (m i)

/-- The reference behind its stub: what it executes, what it answers to `g`, and what it says when it has
stopped. -/
structure Stub where
  exec : RegFile → RegFile
  regText : RegFile → List Byte
  stopped : RegFile → List Byte
  spells : ∀ r, SpellsRegs (regText r) (imageOf r)

inductive Stub.Serves (q : Stub) : RegFile → List Byte → List Byte → RegFile → Prop
  | g {r : RegFile} : Serves q r (text "g") (q.regText r) r
  | si {r : RegFile} : Serves q r (text "vCont;s:1") (q.stopped r) (q.exec r)
  | G {r : RegFile} {m : Memory} {digits reply : List Byte} :
    SpellsRegs digits m → Serves q r (0x47 :: digits) reply (regFileAt isaGdbRegs m)

/-- What comes back for a command, and what goes out: bytes that refuse it and one that does not, replies that are
damaged, and the reply of the stub in any encoding. -/
inductive Exchange (q : Stub) (r : RegFile) (command : List Byte) : List Byte → List Byte → RegFile → Prop
  | mk {naks refused junk reply wire : List Byte} {aborted : List (List Byte)} {n : Nat} {r' : RegFile} :
    (∀ c ∈ naks, c ≠ 0x2b) → Refusals refused n → Leads junk aborted → Encodes reply wire →
      q.Serves r command reply r' →
      Exchange q r command (naks ++ 0x2b :: (refused ++ (leading junk aborted ++ sendPacket wire)))
        ((List.replicate (naks.length + 1) (sendPacket command)).flatten ++ List.replicate n 0x2d ++ [0x2b]) r'

/-- The second command of a `difftest_regcpy` to the reference that holds `r`. -/
def Stub.setRegs (q : Stub) (r : RegFile) (junk dut : Memory) : List Byte :=
  setCommand (memcpy (regArray (replyBuffer (q.regText r) junk)) dut difftestRegSize)

/-- What comes back for the calls, and what goes out. -/
inductive Session (q : Stub) : RegFile → List Op → List Byte → List Byte → RegFile → Prop
  | nil {r : RegFile} : Session q r [] [] [] r
  | exec {r r₁ r' : RegFile} {s t u v : List Byte} {ops : List Op} :
    Exchange q r (text "vCont;s:1") s u r₁ → Session q r₁ ops t v r' →
      Session q r (.exec :: ops) (s ++ t) (u ++ v) r'
  | toDut {r r₁ r' : RegFile} {s t u v : List Byte} {ops : List Op} {junk dut : Memory} :
    Exchange q r (text "g") s u r₁ → Session q r₁ ops t v r' →
      Session q r (.toDut junk dut :: ops) (s ++ t) (u ++ v) r'
  | toRef {r r₁ r₂ r' : RegFile} {s s' t u u' v : List Byte} {ops : List Op} {junk dut : Memory} :
    Exchange q r (text "g") s u r₁ → Exchange q r₁ (q.setRegs r junk dut) s' u' r₂ → Session q r₂ ops t v r' →
      Session q r (.toRef junk dut :: ops) (s ++ (s' ++ t)) (u ++ (u' ++ v)) r'

def adapterOps (A : Adapter RegFile) : List Op → RegFile → List Memory × RegFile
  | [], r => ([], r)
  | .exec :: ops, r => adapterOps A ops (A.exec r)
  | .toDut _ dut :: ops, r => (A.toDut r dut :: (adapterOps A ops r).1, (adapterOps A ops r).2)
  | .toRef _ dut :: ops, r => adapterOps A ops (A.toRef dut r).2

variable {q : Stub} {r r' : RegFile} {command stream sent reply digits : List Byte} {ops : List Op}
  {m m' junk dut : Memory}

/-! ## One exchange -/

theorem request_exchange (h : Exchange q r command stream sent r') (more output : List Byte) :
    ∃ reply, q.Serves r command reply r' ∧ request command ⟨stream ++ more, output, true⟩ =
      some (.ok (reply, ⟨more, output ++ sent, true⟩)) := by
  obtain @⟨naks, refused, junk, reply, wire, aborted, n, r', hnaks, hrefused, hleads, henc, hserves⟩ := h
  refine ⟨reply, hserves, ?_⟩
  have hrequest := request_returns hnaks hrefused hleads henc command more output
  simpa only [List.append_assoc, List.cons_append] using hrequest

theorem Stub.Serves.of_g (h : q.Serves r (text "g") reply r') : reply = q.regText r ∧ r' = r := by
  have hg : text "g" = [0x67] := by decide
  have hsi : text "vCont;s:1" ≠ [0x67] := by decide
  generalize hc : text "g" = c at h
  cases h with
  | g => exact ⟨rfl, rfl⟩
  | si => exact absurd (hc.symm.trans hg) hsi
  | G _ => exact absurd (hg.symm.trans hc) (by simp)

theorem Stub.Serves.of_si (h : q.Serves r (text "vCont;s:1") reply r') : r' = q.exec r := by
  have hg : text "vCont;s:1" ≠ text "g" := by decide
  have hhead : (text "vCont;s:1").head? = some 0x76 := by decide
  generalize hc : text "vCont;s:1" = c at h
  cases h with
  | g => exact absurd hc hg
  | si => rfl
  | G _ =>
    rw [hc] at hhead
    exact absurd hhead (by simp)

theorem SpellsRegs.unique (h : SpellsRegs digits m) (h' : SpellsRegs digits m') {i : Nat}
    (hi : i < difftestRegSize) : m i = m' i := by
  have hvalue := congrArg (BitVec.setWidth 8) ((h i hi).value.symm.trans (h' i hi).value)
  simpa using hvalue

theorem spellsRegs_setCommand (m : Memory) : SpellsRegs (setCommand m).tail m := by
  intro i hi
  have hsize : difftestRegSize ≤ 4 * nrArray := by decide
  have hlen : i < (Difftest.bufferAt m 0 (4 * nrArray)).length := by
    rw [Difftest.length_bufferAt]
    omega
  have hspells := decodePayload_spells (decodePayload_setCommand m) hlen
  have hbyte : (Difftest.bufferAt m 0 (4 * nrArray)).getD i 0 = m i := by
    rw [List.getD_eq_getElem?_getD, List.getElem?_eq_getElem hlen]
    simp [Difftest.bufferAt]
  rwa [hbyte] at hspells

theorem regFileAt_congr (h : ∀ i < difftestRegSize, m i = m' i) :
    regFileAt isaGdbRegs m = regFileAt isaGdbRegs m' := by
  have hsize : difftestRegSize = 132 := rfl
  have hgpr : Difftest.off isaGdbRegs "gpr" = 0 := by decide
  have hpc : Difftest.off isaGdbRegs "pc" = 128 := by decide
  ext1
  · funext i
    have hi := i.isLt
    simp only [regFileAt, hgpr]
    exact readLE_congr fun x _ hx => h x (by omega)
  · simp only [regFileAt, hpc]
    exact readLE_congr fun x _ hx => h x (by omega)

theorem Stub.Serves.of_G (h : q.Serves r (setCommand m) reply r') : r' = regFileAt isaGdbRegs m := by
  have hg : (text "g").head? = some 0x67 := by decide
  have hsi : (text "vCont;s:1").head? = some 0x76 := by decide
  have hG : (setCommand m).head? = some 0x47 := rfl
  generalize hc : setCommand m = c at h
  cases h with
  | g =>
    rw [hc, hg] at hG
    exact absurd hG (by decide)
  | si =>
    rw [hc, hsi] at hG
    exact absurd hG (by decide)
  | @G m' digits _ hdigits =>
    have hspells := spellsRegs_setCommand m
    rw [hc] at hspells
    exact regFileAt_congr fun i hi => hdigits.unique hspells hi

/-! ## One call -/

theorem request_pure (h : Exchange q r command stream sent r') (more output : List Byte) :
    ∃ reply, q.Serves r command reply r' ∧ ExceptT.mk (request command ⟨stream ++ more, output, true⟩) =
      pure (reply, ⟨more, output ++ sent, true⟩) := by
  obtain ⟨reply, hserves, hrequest⟩ := request_exchange h more output
  exact ⟨reply, hserves, by rw [hrequest]; rfl⟩

theorem gdbSi_eq (h : Exchange q r (text "vCont;s:1") stream sent r') (more output : List Byte) :
    r' = q.exec r ∧ gdbSi ⟨stream ++ more, output, true⟩ = pure ⟨more, output ++ sent, true⟩ := by
  obtain ⟨reply, hserves, hrequest⟩ := request_pure h more output
  refine ⟨hserves.of_si, ?_⟩
  rw [gdbSi, hrequest, pure_bind]

theorem gdbGetregs_eq (h : Exchange q r (text "g") stream sent r') (junk : Memory) (more output : List Byte) :
    r' = r ∧ gdbGetregs junk ⟨stream ++ more, output, true⟩ =
      pure (regArray (replyBuffer (q.regText r) junk), ⟨more, output ++ sent, true⟩) := by
  obtain ⟨reply, hserves, hrequest⟩ := request_pure h more output
  obtain ⟨rfl, rfl⟩ := hserves.of_g
  refine ⟨rfl, ?_⟩
  rw [gdbGetregs, hrequest, pure_bind]

theorem gdbSetregs_eq (h : Exchange q r (setCommand m) stream sent r') (more output : List Byte) :
    r' = regFileAt isaGdbRegs m ∧ ∃ ok, gdbSetregs m ⟨stream ++ more, output, true⟩ =
      pure (ok, ⟨more, output ++ sent, true⟩) := by
  obtain ⟨reply, hserves, hrequest⟩ := request_pure h more output
  refine ⟨hserves.of_G, isOk reply, ?_⟩
  rw [gdbSetregs, hrequest, pure_bind]

theorem regArray_regText (q : Stub) (r : RegFile) (junk : Memory) {x : Nat} (hx : x < difftestRegSize) :
    regArray (replyBuffer (q.regText r) junk) x = imageOf r x := by
  have hsize : difftestRegSize = 4 * 33 := rfl
  have hin : ∀ i, (q.regText r).getD i 0 ≠ 0 → replyBuffer (q.regText r) junk i = (q.regText r).getD i 0 := by
    intro i hi
    by_cases hlen : i < (q.regText r).length
    · rw [replyBuffer, if_pos hlen]
    · refine absurd ?_ hi
      rw [List.getD_eq_getElem?_getD, List.getElem?_eq_none (Nat.le_of_not_lt hlen), Option.getD_none]
  have hdigit : ∀ c, isxdigit c = true → c ≠ 0 := by
    rintro c hc rfl
    exact absurd hc (by decide)
  refine regArray_spells (n := 33) (by decide) (fun i hi => ?_) hx
  have hspells := q.spells r i hi
  rw [hin _ (hdigit _ hspells.high), hin _ (hdigit _ hspells.low)]
  exact hspells

theorem putRegs_low (r : RegFile) (rest : Memory) {x : Nat} (hx : x < difftestRegSize) :
    putRegs isaGdbRegs r rest x = imageOf r x := by
  have hgpr : Difftest.off isaGdbRegs "gpr" = 0 := by decide
  have hpc : Difftest.off isaGdbRegs "pc" = 0 + 4 * 32 := by decide
  have hread : ∀ m k, k < 33 → readLE (putRegs isaGdbRegs r m) (0 + 4 * k) 4 =
      if k < 32 then r.x (BitVec.ofNat 5 k) else r.pc := by
    intro m k hk
    have hregs : regFileAt isaGdbRegs (putRegs isaGdbRegs r m) = r := Difftest.regFileAt_putRegs (by decide) r m
    split
    · rename_i hlow
      have hxk := congrFun (congrArg RegFile.x hregs) (BitVec.ofNat 5 k)
      simp only [regFileAt, hgpr, BitVec.toNat_ofNat] at hxk
      rwa [Nat.mod_eq_of_lt (show k < 2 ^ 5 by omega)] at hxk
    · rename_i hhigh
      obtain rfl : k = 32 := by omega
      have hpcr := congrArg RegFile.pc hregs
      rwa [regFileAt, hpc] at hpcr
  have hwords : wordsAt (putRegs isaGdbRegs r rest) 0 33 = wordsAt (imageOf r) 0 33 := by
    refine List.map_congr_left fun k hk => ?_
    rw [imageOf, hread _ k (List.mem_range.mp hk), hread _ k (List.mem_range.mp hk)]
  have hbyte := wordsAt_bytes hwords hx
  rwa [Nat.zero_add] at hbyte

theorem regcpyToDut_eq (h : Exchange q r (text "g") stream sent r') (rest junk dut : Memory)
    (more output : List Byte) : r' = r ∧ regcpyToDut junk dut ⟨stream ++ more, output, true⟩ =
      pure ((qemuAdapter q.exec rest).toDut r dut, ⟨more, output ++ sent, true⟩) := by
  obtain ⟨hr, hget⟩ := gdbGetregs_eq h junk more output
  refine ⟨hr, ?_⟩
  have hcopy : memcpy dut (regArray (replyBuffer (q.regText r) junk)) difftestRegSize =
      (qemuAdapter q.exec rest).toDut r dut := by
    funext x
    change (if x < difftestRegSize then _ else _) = if x < difftestRegSize then _ else _
    split
    · rename_i hx
      rw [regArray_regText q r junk hx]
      exact (putRegs_low r rest hx).symm
    · rfl
  rw [regcpyToDut, hget, pure_bind]
  dsimp only
  rw [hcopy]

theorem regcpyToRef_eq {s t u v : List Byte} {r₁ r₂ : RegFile} (h : Exchange q r (text "g") s u r₁)
    (hset : Exchange q r₁ (q.setRegs r junk dut) t v r₂) (rest : Memory) (more output : List Byte) :
    r₂ = ((qemuAdapter q.exec rest).toRef dut r).2 ∧ regcpyToRef junk dut ⟨s ++ (t ++ more), output, true⟩ =
      pure ⟨more, output ++ u ++ v, true⟩ := by
  obtain ⟨-, hget⟩ := gdbGetregs_eq h junk (t ++ more) output
  obtain ⟨hr, ok, hset⟩ := gdbSetregs_eq hset more (output ++ u)
  refine ⟨hr.trans (regFileAt_congr fun i hi => ?_), ?_⟩
  · exact (if_pos hi).trans (if_pos hi).symm
  · rw [regcpyToRef, hget, pure_bind]
    dsimp only
    rw [hset, pure_bind]

/-! ## Main result -/

/-- Whatever is refused or damaged on the way and however the stub encodes its replies: the calls return what those
of the adapter return, and leave the reference with the registers that the adapter has. -/
theorem session_adapter (h : Session q r ops stream sent r') (rest : Memory) (more output : List Byte) :
    runOps ops ⟨stream ++ more, output, true⟩ =
      pure ((adapterOps (qemuAdapter q.exec rest) ops r).1, ⟨more, output ++ sent, true⟩) ∧
    r' = (adapterOps (qemuAdapter q.exec rest) ops r).2 := by
  induction h generalizing output with
  | nil => exact ⟨by rw [List.append_nil]; rfl, rfl⟩
  | @exec r r₁ r' s t u v ops hex _ ih =>
    obtain ⟨rfl, hsi⟩ := gdbSi_eq hex (t ++ more) output
    obtain ⟨hrest, hr'⟩ := ih (output ++ u)
    refine ⟨?_, hr'⟩
    rw [List.append_assoc, runOps, hsi, pure_bind, hrest, List.append_assoc]
    rfl
  | @toDut r r₁ r' s t u v ops junk dut hex _ ih =>
    obtain ⟨rfl, hcopy⟩ := regcpyToDut_eq hex rest junk dut (t ++ more) output
    obtain ⟨hrest, hr'⟩ := ih (output ++ u)
    refine ⟨?_, hr'⟩
    rw [List.append_assoc, runOps, hcopy, pure_bind]
    dsimp only
    rw [hrest, pure_bind, List.append_assoc]
    rfl
  | @toRef r r₁ r₂ r' s s' t u u' v ops junk dut hget hset _ ih =>
    have hcopy := regcpyToRef_eq hget hset rest (t ++ more) output
    obtain ⟨rfl, hcopy⟩ := hcopy
    obtain ⟨hrest, hr'⟩ := ih (output ++ u ++ u')
    refine ⟨?_, hr'⟩
    rw [List.append_assoc, List.append_assoc, runOps, hcopy, pure_bind, hrest]
    simp only [List.append_assoc]
    rfl

def nopStub : Stub where
  exec r := { r with pc := r.pc + 4 }
  regText r := (setCommand (imageOf r)).tail
  stopped _ := text "S05"
  spells r := spellsRegs_setCommand (imageOf r)

theorem hexEncode_plain : ∀ b : Byte, ¬IsSpecial (Difftest.hexEncode (b >>> 4)) ∧
    ¬IsSpecial (Difftest.hexEncode (b &&& 0xf)) := by
  decide +kernel

theorem nopStub_plain (r : RegFile) : ∀ c ∈ nopStub.regText r, ¬IsSpecial c := by
  intro c hc
  obtain ⟨i, -, hc⟩ := List.mem_flatMap.mp hc
  rcases List.mem_pair.mp hc with rfl | rfl
  · exact (hexEncode_plain _).1
  · exact (hexEncode_plain _).2

/-- The registers are set, a `nop` is executed and the registers are fetched. Each command is refused once, a packet
is broken off and one damaged before each reply, and the one to `vCont` comes with its first byte escaped. -/
theorem session_adapter_nop : ∃ stream sent r', runOps [.toRef (fun _ => 0) fun _ => 1, .exec,
      .toDut (fun _ => 0) fun _ => 0] ⟨stream ++ [], [], true⟩ =
    pure ((adapterOps (qemuAdapter nopStub.exec fun _ => 0) [.toRef (fun _ => 0) fun _ => 1, .exec,
      .toDut (fun _ => 0) fun _ => 0] ⟨fun _ => 0, resetVector⟩).1, ⟨[], [] ++ sent, true⟩) ∧
    r' = (adapterOps (qemuAdapter nopStub.exec fun _ => 0) [.toRef (fun _ => 0) fun _ => 1, .exec,
      .toDut (fun _ => 0) fun _ => 0] ⟨fun _ => 0, resetVector⟩).2 := by
  have hnaks : ∀ c ∈ [(0x2d : Byte)], c ≠ 0x2b := by decide
  have hleads : Leads [0x2d] [text "S0"] := ⟨by decide, by decide⟩
  have hdamaged : IsDamaged (text "S15") 0x42 0x38 := ⟨by decide, by decide⟩
  have hexchange : ∀ (r r' : RegFile) (command reply wire : List Byte), nopStub.Serves r command reply r' →
      Encodes reply wire → ∃ stream sent, Exchange nopStub r command stream sent r' := by
    intro r r' command reply wire hserves henc
    exact ⟨_, _, .mk hnaks (.cons hleads hdamaged .nil) hleads henc hserves⟩
  have hstopped : Encodes (text "S05") [0x7d, 0x73, 0x30, 0x35] :=
    ((Encodes.nil.escaped (c := 0x53) (by decide)).plain (c := 0x30) (by decide)).plain (c := 0x35) (by decide)
  obtain ⟨m, hm⟩ : ∃ m, memcpy (regArray (replyBuffer (nopStub.regText ⟨fun _ => 0, resetVector⟩) fun _ => 0))
    (fun _ => 1) difftestRegSize = m := ⟨_, rfl⟩
  obtain ⟨s, u, hget⟩ := hexchange ⟨fun _ => 0, resetVector⟩ _ _ _ _ .g (encodes_self (nopStub_plain _))
  obtain ⟨s', u', hset⟩ := hexchange ⟨fun _ => 0, resetVector⟩ _ _ (text "OK") _ (.G (spellsRegs_setCommand m))
    (encodes_self (by decide))
  obtain ⟨t, v, hsi⟩ := hexchange (regFileAt isaGdbRegs m) _ _ _ _ .si hstopped
  obtain ⟨t', v', hback⟩ := hexchange (nopStub.exec (regFileAt isaGdbRegs m)) _ _ _ _ .g
    (encodes_self (nopStub_plain _))
  rw [← hm] at hset hsi hback
  exact ⟨_, _, _, session_adapter (.toRef hget hset (.exec hsi (.toDut hback .nil))) _ _ _⟩

end GsEmu.Gdb
