import GsEmu.Lib.Ring
import GsEmu.Lib.Run
import GsEmu.Riscv32.MachineTime

/-! The queue of keys between the window and the guest. A read of the register, of any length, takes one
code out of the queue; a byte does not hold the code of a key press. -/

namespace GsEmu.Riscv32
open Bytes

variable {st st' : State Devices} {d d' : Devices} {code : Word} {l : List Word}

/-! ## The queue as a ring -/

def Devices.keys (d : Devices) : Ring Word := ⟨d.keyQueue, d.keyF, d.keyR⟩

theorem keys_empty_iff (hl : d.keys.Holds keyQueueLen l) : d.keyF = d.keyR ↔ l = [] :=
  Fin.ext_iff.trans hl.front_eq_rear_iff

theorem keyEnqueue_eq_none_iff (hl : d.keys.Holds keyQueueLen l) :
    keyEnqueue code d = none ↔ l.length + 1 = keyQueueLen := by
  rw [← hl.push_rear_eq_front_iff code, keyEnqueue]
  simp only [ite_eq_right_iff, reduceCtorEq, imp_false, not_not]
  exact Fin.ext_iff

theorem keyEnqueue_holds (hl : d.keys.Holds keyQueueLen l) (h : keyEnqueue code d = some d') :
    d'.keys.Holds keyQueueLen (l ++ [code]) := by
  have hfree : l.length + 1 ≠ keyQueueLen := by
    intro hfull
    rw [(keyEnqueue_eq_none_iff hl).mpr hfull] at h
    exact absurd h (by simp)
  unfold keyEnqueue at h
  dsimp only at h
  split_ifs at h
  obtain rfl := Option.some.inj h
  exact hl.push code (Nat.lt_of_le_of_ne hl.room hfree)

theorem keyDequeue_nil (hl : d.keys.Holds keyQueueLen []) : keyDequeue d = (nemuKeyNone, d) :=
  if_neg (not_not.mpr ((keys_empty_iff hl).mpr rfl))

theorem keyDequeue_cons (hl : d.keys.Holds keyQueueLen (code :: l)) :
    (keyDequeue d).1 = code ∧ (keyDequeue d).2.keys.Holds keyQueueLen l := by
  have hne : d.keyF ≠ d.keyR := fun h => absurd ((keys_empty_iff hl).mp h) (List.cons_ne_nil _ _)
  rw [keyDequeue, if_pos hne]
  exact ⟨hl.head, hl.pop⟩

/-! ## Overflow -/

def Devices.unread (d : Devices) : List Word := d.keys.entries keyQueueLen

theorem unread_holds (d : Devices) : d.keys.Holds keyQueueLen d.unread :=
  Ring.holds_entries d.keyF.isLt d.keyR.isLt

/-- How many codes the events add; after the window has been closed they add none. -/
def keysTyped : List SdlEvent → Nat
  | [] | .quit :: _ => 0
  | .key amKey _ :: events => keysTyped events + if amKey = nemuKeyNone then 0 else 1
  | .other :: events => keysTyped events

theorem handleEvents_quit (events : List SdlEvent) (h : st.nemuState.state = .nemuQuit) :
    events.foldlM handleEvent st ≠ none := by
  induction events generalizing st with
  | nil => exact Option.some_ne_none _
  | cons e events ih =>
    rw [List.foldlM_cons]
    cases e with
    | quit => exact ih rfl
    | key amKey isKeydown =>
      have hrun : ¬(st.nemuState.state = .nemuRunning ∧ amKey ≠ nemuKeyNone) := by
        rw [h]
        rintro ⟨hrun, -⟩
        cases hrun
      change (sendKey amKey isKeydown st).bind _ ≠ none
      rw [sendKey, if_neg hrun]
      exact ih h
    | other => exact ih h

theorem handleEvents_none_iff (events : List SdlEvent) (st : State Devices) (hrun : st.nemuState.state = .nemuRunning)
    (hl : st.io.dev.keys.Holds keyQueueLen l) :
    events.foldlM handleEvent st = none ↔ keyQueueLen ≤ l.length + keysTyped events := by
  induction events generalizing st l with
  | nil => exact iff_of_false (Option.some_ne_none _) (not_le.mpr hl.room)
  | cons e events ih =>
    rw [List.foldlM_cons]
    cases e with
    | quit => exact iff_of_false (handleEvents_quit events rfl) (not_le.mpr hl.room)
    | other => exact ih st hrun hl
    | key amKey isKeydown =>
      change (sendKey amKey isKeydown st).bind _ = none ↔ _
      rw [keysTyped, sendKey]
      by_cases hkey : amKey = nemuKeyNone
      · rw [if_neg fun h => h.2 hkey, if_pos hkey]
        exact ih st hrun hl
      rw [if_pos ⟨hrun, hkey⟩, if_neg hkey]
      cases hd : keyEnqueue (amKey ||| if isKeydown then keydownMask else 0) st.io.dev with
      | none =>
        have hfull := (keyEnqueue_eq_none_iff hl).mp hd
        exact iff_of_true rfl (by omega)
      | some d =>
        have hlength : ∀ c : Word, (l ++ [c]).length = l.length + 1 := fun _ => List.length_append
        have hrest := ih { st with io := { st.io with dev := d } } hrun (keyEnqueue_holds hl hd)
        rw [hlength] at hrest
        rw [Option.map_some, Option.bind_some]
        exact hrest.trans (by omega)

/-- A tick fails exactly when it would make as many codes outstanding as the queue has slots. -/
theorem deviceUpdate_none_iff (events : List SdlEvent) (hrun : st.nemuState.state = .nemuRunning) :
    deviceUpdate events st = none ↔ keyQueueLen ≤ st.io.dev.unread.length + keysTyped events :=
  handleEvents_none_iff events { st with io := clintUpdate clintPortBase st.io } hrun (unread_holds st.io.dev)

/-! ## Reads -/

/-- A load from the register; the handler does not look at its length. -/
def readKey (len : Nat) (st : State Devices) : Option (Word × State Devices) :=
  vaddrRead defaultBoard configI8042DataMmio len st

def lowBytes (len : Nat) (v : Word) : Word := (v.setWidth (8 * len)).setWidth 32

variable {len : Nat}

theorem defaultBoard_keyboard : defaultBoard.maps.find? (mapInside · configI8042DataMmio) =
    some ((keyboardWindow defaultHandlers).toMap i8042DataPortBase) := by
  obtain ⟨s, hs, hmaps⟩ := Option.map_eq_some_iff.mp initDevice_default
  have hmem : (keyboardWindow defaultHandlers).toMap i8042DataPortBase ∈ defaultMaps := by
    simp only [defaultMaps, List.mem_cons, true_or, or_true]
  exact (hmaps ▸ initDevice_registered hs).find (List.Perm.refl _) hmem rfl

theorem readKey_eq (hlen : len = 1 ∨ len = 2 ∨ len = 4) (st : State Devices) :
    readKey len st = some (lowBytes len (keyDequeue st.io.dev).1,
      st.setBus st.pmem
        ⟨writeLE st.io.space i8042DataPortBase 4 (keyDequeue st.io.dev).1, (keyDequeue st.io.dev).2⟩
        (difftestSkipRef defaultBoard.difftest st.skip)) := by
  refine (paddrRead_map rfl defaultBoard_keyboard hlen).trans ?_
  refine congrArg some (Prod.ext ?_ rfl)
  exact readLE_writeLE_low _ _ _ (by omega)

/-! ## Key codes -/

/-- `keymap`: `NEMU_KEYS` names 82 keys, and a scan code without a key has the entry 0. -/
structure Keymap where
  entry : BitVec 8 → Word
  entry_le : ∀ scancode, (entry scancode).toNat ≤ 82

def keyCode (keymap : Keymap) (scancode : BitVec 8) (isKeydown : Bool) (st : State Devices) :
    Option Word :=
  if st.nemuState.state = .nemuRunning ∧ keymap.entry scancode ≠ nemuKeyNone then
    some (keymap.entry scancode ||| if isKeydown then keydownMask else 0)
  else none

/-- A key in the low byte, and nothing above but the mask of a press. -/
structure IsKeyCode (code : Word) : Prop where
  key : lowBytes 1 code ≠ nemuKeyNone
  short : code.toNat < 2 ^ 16

variable {keymap : Keymap} {scancode : BitVec 8} {isKeydown : Bool}

theorem lowBytes_eq_iff (hlen : len ≤ 4) : lowBytes len code = code ↔ code.toNat < 2 ^ (8 * len) := by
  have hle : 2 ^ (8 * len) ≤ 2 ^ 32 := Nat.pow_le_pow_right (by decide) (by omega)
  have hpos := Nat.two_pow_pos (8 * len)
  have hmod := Nat.mod_lt code.toNat hpos
  rw [← BitVec.toNat_inj, lowBytes, BitVec.toNat_setWidth, BitVec.toNat_setWidth,
    Nat.mod_eq_of_lt (Nat.lt_of_lt_of_le hmod hle)]
  exact ⟨fun h => h ▸ hmod, Nat.mod_eq_of_lt⟩

theorem lowBytes_ne_none (hcode : IsKeyCode code) (hlen : len = 1 ∨ len = 2 ∨ len = 4) :
    lowBytes len code ≠ nemuKeyNone := by
  have hkey := hcode.key
  rcases hlen with rfl | hlen
  · exact hkey
  · have hwhole : lowBytes len code = code := by
      rw [lowBytes_eq_iff (by omega)]
      exact Nat.lt_of_lt_of_le hcode.short (Nat.pow_le_pow_right (by decide) (by omega))
    rw [hwhole]
    rintro rfl
    exact hkey rfl

theorem isKeyCode_or {key mask : Word} (hle : key.toNat ≤ 82) (hne : key ≠ nemuKeyNone)
    (hlow : lowBytes 1 mask = 0) (hshort : mask.toNat < 2 ^ 16) : IsKeyCode (key ||| mask) where
  key := by
    have hkey : lowBytes 1 key = key := (lowBytes_eq_iff (by decide)).mpr (by omega)
    have hor : lowBytes 1 (key ||| mask) = lowBytes 1 key ||| lowBytes 1 mask := by
      rw [lowBytes, BitVec.setWidth_or, BitVec.setWidth_or]
      rfl
    rw [hor, hkey, hlow]
    simpa using hne
  short := by
    rw [BitVec.toNat_or]
    exact Nat.or_lt_two_pow (by omega) hshort

theorem keyCode_isKeyCode (h : keyCode keymap scancode isKeydown st = some code) : IsKeyCode code := by
  unfold keyCode at h
  split_ifs at h with hguard
  all_goals
    obtain rfl := Option.some.inj h
    exact isKeyCode_or (keymap.entry_le scancode) hguard.2 (by decide) (by decide)

theorem sendKey_eq (keymap : Keymap) (scancode : BitVec 8) (isKeydown : Bool) (st : State Devices) :
    sendKey (keymap.entry scancode) isKeydown st = match keyCode keymap scancode isKeydown st with
      | some code => (keyEnqueue code st.io.dev).map fun d => { st with io := { st.io with dev := d } }
      | none => some st := by
  unfold sendKey keyCode
  split_ifs <;> rfl

/-! ## Runs -/

structure KeyLog where
  enqueued : List Word
  returned : List Word

def KeyLog.codes (log : KeyLog) : List Word := log.returned.filter (· ≠ nemuKeyNone)

inductive KeyEvent
  | key (scancode : BitVec 8) (isKeydown : Bool)
  | read (len : Nat)
  | other

/-- A key event, a load from the register, or anything else the emulator does, which leaves the queue
alone. -/
def KeyStep (keymap : Keymap) (s : State Devices × KeyLog) : KeyEvent → State Devices × KeyLog → Prop
  | .key scancode isKeydown, s' => sendKey (keymap.entry scancode) isKeydown s.1 = some s'.1 ∧
      s'.2 = { s.2 with enqueued := s.2.enqueued ++ (keyCode keymap scancode isKeydown s.1).toList }
  | .read len, s' => (len = 1 ∨ len = 2 ∨ len = 4) ∧
      ∃ v, readKey len s.1 = some (v, s'.1) ∧ s'.2 = { s.2 with returned := s.2.returned ++ [v] }
  | .other, s' => s'.1.io.dev.keys = s.1.io.dev.keys ∧ s'.2 = s.2

/-- A byte is loaded only while the queue is empty or its oldest code, that of a release, fits in a byte. -/
def WholeRead (s : State Devices × KeyLog) (e : KeyEvent) : Prop :=
  e = .read 1 → s.1.io.dev.keyF ≠ s.1.io.dev.keyR →
    (s.1.io.dev.keyQueue s.1.io.dev.keyF).toNat < 2 ^ 8

def Outstanding (s : State Devices × KeyLog) (l : List Word) : Prop :=
  s.1.io.dev.keys.Holds keyQueueLen l ∧ s.2.enqueued = s.2.codes ++ l ∧ ∀ c ∈ l, IsKeyCode c

variable {s s' : State Devices × KeyLog}

theorem Outstanding.key (hl : Outstanding s l) (h : KeyStep keymap s (.key scancode isKeydown) s') :
    Outstanding s' (l ++ (keyCode keymap scancode isKeydown s.1).toList) := by
  obtain ⟨hsend, hlog⟩ := h
  rw [sendKey_eq] at hsend
  cases hcode : keyCode keymap scancode isKeydown s.1 with
  | none =>
    rw [hcode] at hsend hlog
    have hst : s.1 = s'.1 := Option.some.inj hsend
    have hsame : s'.2 = s.2 := by
      rw [hlog, Option.toList_none, List.append_nil]
    rw [Option.toList_none, List.append_nil, Outstanding, ← hst, hsame]
    exact hl
  | some code =>
    rw [hcode] at hsend hlog
    obtain ⟨d, hd, hst⟩ := Option.map_eq_some_iff.mp hsend
    obtain ⟨hring, heq, hcodes⟩ := hl
    refine ⟨?_, ?_, ?_⟩
    · rw [← hst]
      exact keyEnqueue_holds hring hd
    · rw [hlog]
      change s.2.enqueued ++ _ = s.2.codes ++ (l ++ _)
      rw [heq, List.append_assoc]
    · intro c hc
      rcases List.mem_append.mp hc with hc | hc
      · exact hcodes c hc
      · obtain rfl := Option.some.inj (Option.mem_toList.mp hc)
        exact keyCode_isKeyCode hcode

theorem Outstanding.read_nil (hl : Outstanding s []) (h : KeyStep keymap s (.read len) s') :
    Outstanding s' [] := by
  obtain ⟨hlen, v, hread, hlog⟩ := h
  obtain ⟨hring, heq, -⟩ := hl
  rw [readKey_eq hlen, keyDequeue_nil hring] at hread
  obtain ⟨hv, hst⟩ := Prod.mk.inj (Option.some.inj hread)
  have hnone : v = nemuKeyNone := by
    rw [← hv]
    rcases hlen with rfl | rfl | rfl <;> rfl
  refine ⟨?_, ?_, fun c hc => absurd hc (List.not_mem_nil)⟩
  · rw [← hst]
    exact hring
  · have hcodes : s'.2.codes = s.2.codes := by
      rw [hlog, hnone]
      simp [KeyLog.codes]
    rw [hcodes, hlog]
    exact heq

theorem Outstanding.read_cons (hl : Outstanding s (code :: l)) (h : KeyStep keymap s (.read len) s') :
    s'.1.io.dev.keys.Holds keyQueueLen l ∧ s'.2.codes = s.2.codes ++ [lowBytes len code] ∧
      s'.2.enqueued = s.2.codes ++ code :: l := by
  obtain ⟨hlen, v, hread, hlog⟩ := h
  obtain ⟨hring, heq, hcodes⟩ := hl
  obtain ⟨hcode, hrest⟩ := keyDequeue_cons hring
  rw [readKey_eq hlen, hcode] at hread
  obtain ⟨hv, hst⟩ := Prod.mk.inj (Option.some.inj hread)
  have hne := lowBytes_ne_none (hcodes code (List.mem_cons_self ..)) hlen
  refine ⟨?_, ?_, ?_⟩
  · rw [← hst]
    exact hrest
  · rw [hlog, ← hv]
    simp [KeyLog.codes, hne]
  · rw [hlog]
    exact heq

theorem Outstanding.wholeRead_iff (hl : Outstanding s (code :: l)) (hlen : len = 1 ∨ len = 2 ∨ len = 4) :
    WholeRead s (.read len) ↔ lowBytes len code = code := by
  obtain ⟨hring, -, hcodes⟩ := hl
  have hcode := hcodes code (List.mem_cons_self ..)
  have hfront : s.1.io.dev.keyQueue s.1.io.dev.keyF = code := hring.head
  have hne : s.1.io.dev.keyF ≠ s.1.io.dev.keyR := fun h =>
    absurd ((keys_empty_iff hring).mp h) (List.cons_ne_nil _ _)
  rw [WholeRead, hfront, lowBytes_eq_iff (by omega)]
  rcases hlen with rfl | hlen
  · exact ⟨fun h => h rfl hne, fun h _ _ => h⟩
  · have hfits : code.toNat < 2 ^ (8 * len) :=
      Nat.lt_of_lt_of_le hcode.short (Nat.pow_le_pow_right (by decide) (by omega))
    exact iff_of_true (fun h => by simp only [KeyEvent.read.injEq] at h; omega) hfits

theorem exists_outstanding_step {e : KeyEvent} (hl : ∃ l, Outstanding s l) (h : KeyStep keymap s e s')
    (hwhole : WholeRead s e) : ∃ l, Outstanding s' l := by
  obtain ⟨l, hl⟩ := hl
  cases e with
  | key scancode isKeydown => exact ⟨_, hl.key h⟩
  | read len =>
    cases l with
    | nil => exact ⟨[], hl.read_nil h⟩
    | cons code l =>
      obtain ⟨hring, hcodes, henqueued⟩ := hl.read_cons h
      rw [(hl.wholeRead_iff h.1).mp hwhole] at hcodes
      refine ⟨l, hring, ?_, fun c hc => hl.2.2 c (List.mem_cons_of_mem _ hc)⟩
      rw [henqueued, hcodes, List.append_assoc]
      rfl
  | other =>
    obtain ⟨hkeys, hlog⟩ := h
    refine ⟨l, ?_⟩
    rw [Outstanding, hkeys, hlog]
    exact hl

/-! ## Main result -/

/-- The queue is a FIFO with room for one code less than its slots. -/
structure KeyFifo (keymap : Keymap) (s : State Devices × KeyLog) : Prop where
  delivered : s.2.codes <+: s.2.enqueued
  reads : ∀ len, len = 1 ∨ len = 2 ∨ len = 4 → ∃ v st', readKey len s.1 = some (v, st') ∧
    (v = nemuKeyNone ↔ s.2.codes = s.2.enqueued)
  overflows : ∀ scancode isKeydown, sendKey (keymap.entry scancode) isKeydown s.1 = none ↔
    keyCode keymap scancode isKeydown s.1 ≠ none ∧
      s.2.enqueued.length + 1 - s.2.codes.length = keyQueueLen

theorem Outstanding.fifo (hl : Outstanding s l) : KeyFifo keymap s := by
  obtain ⟨hring, heq, hcodes⟩ := hl
  refine ⟨⟨l, heq.symm⟩, fun len hlen => ⟨_, _, readKey_eq hlen s.1, ?_⟩, fun scancode isKeydown => ?_⟩
  · rw [heq, List.self_eq_append_right]
    cases l with
    | nil =>
      rw [keyDequeue_nil hring]
      rcases hlen with rfl | rfl | rfl <;> exact iff_of_true rfl rfl
    | cons code l =>
      rw [(keyDequeue_cons hring).1]
      exact iff_of_false (lowBytes_ne_none (hcodes code (List.mem_cons_self ..)) hlen) (List.cons_ne_nil _ _)
  · have houtstanding : s.2.enqueued.length + 1 - s.2.codes.length = l.length + 1 := by
      rw [heq, List.length_append, Nat.add_assoc, Nat.add_sub_cancel_left]
    rw [sendKey_eq, houtstanding]
    cases hcode : keyCode keymap scancode isKeydown s.1 with
    | none => simp
    | some code =>
      simp only [Option.map_eq_none_iff, ne_eq, reduceCtorEq, not_false_eq_true, true_and]
      exact keyEnqueue_eq_none_iff hring

theorem Outstanding.not_fifo_of_byte {e : KeyEvent} (hl : Outstanding s l) (h : KeyStep keymap s e s')
    (hbyte : ¬WholeRead s e) : ¬KeyFifo keymap s' := by
  obtain ⟨rfl, hne, -⟩ : e = .read 1 ∧ s.1.io.dev.keyF ≠ s.1.io.dev.keyR ∧ _ := by
    simpa only [WholeRead, Classical.not_imp] using hbyte
  cases l with
  | nil => exact absurd ((keys_empty_iff hl.1).mpr rfl) hne
  | cons code l =>
    obtain ⟨-, hcodes, henqueued⟩ := hl.read_cons h
    intro hfifo
    have hpre := hfifo.delivered
    rw [hcodes, henqueued, List.prefix_append_right_inj, List.singleton_prefix_cons_iff] at hpre
    exact hbyte ((hl.wholeRead_iff h.1).mpr hpre)

/-- In every run from an empty queue, whatever the scan codes, the order of events and reads, and how often
the indices wrap. -/
theorem keyboard_fifo_iff {tr : List ((State Devices × KeyLog) × KeyEvent)}
    (hempty : st.io.dev.keyF = st.io.dev.keyR) (h : Run (KeyStep keymap) (st, ⟨[], []⟩) tr s) :
    ((∀ p ∈ tr, KeyFifo keymap p.1) ∧ KeyFifo keymap s) ↔ ∀ p ∈ tr, WholeRead p.1 p.2 := by
  have hring : st.io.dev.keys.Holds keyQueueLen [] :=
    Ring.holds_nil st.io.dev.keyF.isLt (congrArg Fin.val hempty.symm)
  have hstart : Outstanding (st, ⟨[], []⟩) [] := ⟨hring, rfl, fun c hc => absurd hc List.not_mem_nil⟩
  refine h.stays_iff (I := fun s => ∃ l, Outstanding s l) ⟨[], hstart⟩ ?_ ?_ ?_
  · rintro s ⟨l, hl⟩
    exact hl.fifo
  · exact fun s e s' hl hstep hwhole => exists_outstanding_step hl hstep hwhole
  · rintro s e s' ⟨l, hl⟩ hstep hbyte
    exact hl.not_fifo_of_byte hstep hbyte

def typedKeymap : Keymap where
  entry scancode := if scancode = 4 then 43 else nemuKeyNone
  entry_le scancode := by split <;> decide

theorem typed_run : ∃ tr s, Run (KeyStep typedKeymap) (wfiMachine, ⟨[], []⟩) tr s ∧
    tr.map Prod.snd = [.key 4 true, .read 1] ∧ s.2 = ⟨[0x802b], [0x2b]⟩ := by
  obtain ⟨st, hsend⟩ : ∃ st, sendKey (typedKeymap.entry 4) true wfiMachine = some st := ⟨_, rfl⟩
  have hcode : keyCode typedKeymap 4 true wfiMachine = some 0x802b := rfl
  have hhead : (keyDequeue st.io.dev).1 = 0x802b := by
    obtain rfl := Option.some.inj hsend
    rfl
  have hread := readKey_eq (.inl rfl) st
  rw [hhead] at hread
  have hkey : KeyStep typedKeymap (wfiMachine, ⟨[], []⟩) (.key 4 true) (st, ⟨[0x802b], []⟩) :=
    ⟨hsend, by rw [hcode]; rfl⟩
  have hnext : KeyStep typedKeymap (st, ⟨[0x802b], []⟩) (.read 1) (_, ⟨[0x802b], [0x2b]⟩) :=
    ⟨.inl rfl, 0x2b, hread, rfl⟩
  exact ⟨_, _, (Run.nil.snoc hkey).snoc hnext, rfl, rfl⟩

theorem keyboard_fifo_refuted : ∃ tr s, Run (KeyStep typedKeymap) (wfiMachine, ⟨[], []⟩) tr s ∧
    tr.map Prod.snd = [.key 4 true, .read 1] ∧ s.2.enqueued = [0x802b] ∧ s.2.returned = [0x2b] ∧
    ¬s.2.codes <+: s.2.enqueued := by
  obtain ⟨tr, s, hrun, htr, hlog⟩ := typed_run
  refine ⟨tr, s, hrun, htr, ?_⟩
  rw [hlog]
  exact ⟨rfl, rfl, by decide⟩

theorem keyboard_fifo_iff_typed : ∃ tr s, Run (KeyStep typedKeymap) (wfiMachine, ⟨[], []⟩) tr s ∧
    tr.length = 2 ∧
    (((∀ p ∈ tr, KeyFifo typedKeymap p.1) ∧ KeyFifo typedKeymap s) ↔ ∀ p ∈ tr, WholeRead p.1 p.2) := by
  obtain ⟨tr, s, hrun, htr, -⟩ := typed_run
  refine ⟨tr, s, hrun, ?_, keyboard_fifo_iff rfl hrun⟩
  rw [← List.length_map (f := Prod.snd), htr]
  rfl

end GsEmu.Riscv32
