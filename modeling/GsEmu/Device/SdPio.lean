import GsEmu.Device.SdHost
import GsEmu.Lib.Words

/-! The data phase of a request: whatever the bursts, the blocks and the cuts between pieces of memory, the card
sees one access to `SDDATA` for each word, in order. -/

namespace GsEmu.SdHost
open Bytes Riscv32

variable {K : Kernel} {base n m : Nat} {isRead : Bool} {s s' : Pio K} {io io' : Io SdCard} {ws vs : List Word}

/-! ## The accesses of a transfer -/

def dataAccesses (isRead : Bool) (buf : Memory) (addr n : Nat) : List SdAccess :=
  if isRead then List.replicate n (.read sddata) else (wordsAt buf addr n).map (.write sddata)

def Pio.moved (s : Pio K) (ws : List Word) (io : Io SdCard) (n : Nat) : Pio K :=
  ⟨io, { s.data with buf := storeWords s.data.buf s.addr ws }, s.miter, s.addr + 4 * n⟩

def Pio.accesses (s : Pio K) (isRead : Bool) (n : Nat) : List SdAccess := dataAccesses isRead s.data.buf s.addr n

def Delivers (base : Nat) (isRead : Bool) (n : Nat) (s : Pio K) (ws : List Word) (io : Io SdCard) : Prop :=
  sdRun base (s.accesses isRead n) s.io = some (ws, io)

theorem sdRun_append_inv {as bs : List SdAccess} (h : sdRun base (as ++ bs) io = some (ws, io')) :
    ∃ us io₁ vs, sdRun base as io = some (us, io₁) ∧ sdRun base bs io₁ = some (vs, io') ∧ ws = us ++ vs := by
  induction as generalizing io ws with
  | nil => exact ⟨[], io, ws, rfl, h, rfl⟩
  | cons a as ih =>
    obtain ⟨⟨us, io₁⟩, ha, hrest⟩ := Option.bind_eq_some_iff.mp h
    obtain ⟨⟨vs, io₂⟩, has, heq⟩ := Option.bind_eq_some_iff.mp hrest
    obtain ⟨rfl, rfl⟩ := Prod.mk.inj (Option.some.inj heq)
    obtain ⟨us', io₃, vs', has', hbs, rfl⟩ := ih has
    exact ⟨us ++ us', io₃, vs', sdRun_cons ha has', hbs, (List.append_assoc ..).symm⟩

theorem dataAccesses_add (isRead : Bool) (buf : Memory) (addr n m : Nat) : dataAccesses isRead buf addr (n + m) =
    dataAccesses isRead buf addr n ++ dataAccesses isRead buf (addr + 4 * n) m := by
  unfold dataAccesses
  split
  · exact List.replicate_add ..
  · rw [wordsAt_add, List.map_append]

theorem sdRun_length {as : List SdAccess} (h : sdRun base as io = some (ws, io')) :
    ws.length = wordsRead as := by
  induction as generalizing io ws with
  | nil =>
    obtain ⟨rfl, -⟩ := Prod.mk.inj (Option.some.inj h)
    rfl
  | cons a as ih =>
    obtain ⟨⟨us, io₁⟩, ha, hrest⟩ := Option.bind_eq_some_iff.mp h
    obtain ⟨⟨vs, io₂⟩, has, heq⟩ := Option.bind_eq_some_iff.mp hrest
    obtain ⟨rfl, rfl⟩ := Prod.mk.inj (Option.some.inj heq)
    have hfirst : us.length = if a = .read sddata then 1 else 0 := by
      cases a with
      | read idx =>
        obtain ⟨⟨v, io₃⟩, -, hv⟩ := Option.map_eq_some_iff.mp ha
        obtain ⟨rfl, -⟩ := Prod.mk.inj hv
        simp only [SdAccess.read.injEq]
        split <;> rfl
      | write idx v =>
        obtain ⟨io₃, -, hv⟩ := Option.map_eq_some_iff.mp ha
        obtain ⟨rfl, -⟩ := Prod.mk.inj hv
        rfl
    rw [List.length_append, hfirst, ih has, wordsRead, wordsRead, List.count_cons, Nat.add_comm]
    simp only [beq_iff_eq]

theorem Delivers.length (h : Delivers base isRead n s ws io) : ws.length = if isRead then n else 0 := by
  rw [sdRun_length h, Pio.accesses, dataAccesses, wordsRead]
  split
  · exact List.count_replicate_self
  · refine List.count_eq_zero.mpr fun hmem => ?_
    obtain ⟨v, -, hv⟩ := List.mem_map.mp hmem
    cases hv

theorem Delivers.split (h : Delivers base isRead (n + m) s ws io) : ∃ us io₁ vs,
    Delivers base isRead n s us io₁ ∧ Delivers base isRead m (s.moved us io₁ n) vs io ∧ ws = us ++ vs ∧
      (s.moved us io₁ n).moved vs io m = s.moved ws io (n + m) := by
  unfold Delivers Pio.accesses at h
  rw [dataAccesses_add] at h
  obtain ⟨us, io₁, vs, hfirst, hsecond, rfl⟩ := sdRun_append_inv h
  have hlen : us.length = if isRead then n else 0 := Delivers.length hfirst
  have hbuf : isRead = false → us = [] := by
    rintro rfl
    exact List.eq_nil_of_length_eq_zero hlen
  have hrest : Delivers base isRead m (s.moved us io₁ n) vs io := by
    unfold Delivers Pio.accesses
    rw [← hsecond]
    cases isRead with
    | true => rfl
    | false =>
      rw [hbuf rfl]
      rfl
  refine ⟨us, io₁, vs, hfirst, hrest, rfl, ?_⟩
  have haddr : s.addr + 4 * n + 4 * m = s.addr + 4 * (n + m) := by omega
  simp only [Pio.moved, haddr, Pio.mk.injEq, true_and, and_true, MmcData.mk.injEq]
  cases isRead with
  | true =>
    rw [storeWords_append, hlen]
    rfl
  | false =>
    obtain rfl := hbuf rfl
    obtain rfl : vs = [] := List.eq_nil_of_length_eq_zero hrest.length
    rfl

theorem Delivers.zero (h : Delivers base isRead 0 s ws io) : s.moved ws io 0 = s := by
  have hnone : s.accesses isRead 0 = [] := by
    unfold Pio.accesses dataAccesses
    split <;> rfl
  unfold Delivers at h
  rw [hnone] at h
  obtain ⟨rfl, rfl⟩ := Prod.mk.inj (Option.some.inj h)
  rfl

/-! ## The loops -/

theorem transferWord_eq (h : Delivers base isRead 1 s ws io) :
    transferWord base isRead s = some (s.moved ws io 1) := by
  unfold Delivers at h
  cases isRead with
  | true =>
    obtain ⟨⟨us, io₁⟩, hread, hrest⟩ := Option.bind_eq_some_iff.mp h
    obtain ⟨rfl, rfl⟩ := Prod.mk.inj (Option.some.inj hrest)
    obtain ⟨⟨v, io₂⟩, hv, heq⟩ := Option.map_eq_some_iff.mp hread
    obtain ⟨rfl, rfl⟩ := Prod.mk.inj heq
    rw [transferWord, if_pos rfl, hv]
    rfl
  | false =>
    obtain ⟨⟨us, io₁⟩, hwrite, hrest⟩ := Option.bind_eq_some_iff.mp h
    obtain ⟨rfl, rfl⟩ := Prod.mk.inj (Option.some.inj hrest)
    obtain ⟨io₂, hv, heq⟩ := Option.map_eq_some_iff.mp hwrite
    obtain ⟨rfl, rfl⟩ := Prod.mk.inj heq
    rw [transferWord, if_neg (by decide)]
    change (sdWrite base sddata (readLE s.data.buf (s.addr + 4 * 0) 4) s.io).map _ = _
    rw [hv]
    rfl

theorem transferWords_eq (h : Delivers base isRead n s ws io) :
    transferWords base isRead n s = some (s.moved ws io n) := by
  induction n generalizing s ws with
  | zero => rw [transferWords, h.zero]
  | succ n ih =>
    rw [Nat.add_comm] at h ⊢
    obtain ⟨us, io₁, vs, hfirst, hrest, -, hmoved⟩ := h.split
    rw [Nat.add_comm, transferWords, transferWord_eq hfirst, Option.bind_some, ih hrest, hmoved,
      Nat.add_comm]

theorem copyLoop_eq (h : Delivers base isRead n s ws io) :
    copyLoop base isRead n s = some (s.moved ws io n) := by
  induction n using Nat.strongRecOn generalizing s ws with
  | ind n ih =>
    rw [copyLoop]
    split_ifs with hzero
    · subst hzero
      rw [h.zero]
    · rw [fifoWords_eq]
      dsimp only
      rw [if_neg (by omega)]
      obtain ⟨k, hk⟩ : ∃ k, (if n < sddataFifoPioBurst then n else sddataFifoPioBurst) = k := ⟨_, rfl⟩
      have hle : k ≤ n ∧ 0 < k := by
        rw [← hk, sddataFifoPioBurst]
        split_ifs <;> omega
      rw [hk]
      obtain ⟨j, rfl⟩ := Nat.exists_eq_add_of_le hle.1
      obtain ⟨us, io₁, vs, hfirst, hrest, -, hmoved⟩ := h.split
      rw [transferWords_eq hfirst, Option.bind_some, Nat.add_sub_cancel_left, ih j (by omega) hrest, hmoved]

def Aligned (pieces : List Nat) : Prop := ∀ p ∈ pieces, 4 ∣ p

def Pio.mapped (s : Pio K) : Pio K := { s with addr := K.offset s.miter }

def Pio.done (s : Pio K) (ws : List Word) (io : Io SdCard) (m : K.SgMiter) (addr : Nat) : Pio K :=
  ⟨io, { s.data with buf := storeWords s.data.buf (K.offset s.miter) ws }, m, addr⟩

theorem Delivers.done_zero (h : Delivers base isRead 0 s.mapped ws io) : s.done ws io s.miter s.addr = s := by
  have hio := congrArg Pio.io h.zero
  have hdata := congrArg Pio.data h.zero
  exact congr (congrArg (Pio.mk · · s.miter s.addr) hio) hdata

theorem blockLoop_zero (h : Delivers base isRead 0 s.mapped ws io) :
    blockLoop base isRead 0 s = some (s.done ws io s.miter s.addr) := by
  rw [blockLoop, dif_pos rfl, h.done_zero]

def Pio.next (s : Pio K) (us : List Word) (io : Io SdCard) (q : Nat) (m : K.SgMiter) : Pio K :=
  { s.mapped.moved us io q with miter := m }

theorem Delivers.next {q k : Nat} (h : Delivers base isRead (q + k) s.mapped ws io) : ∃ us io₁ vs,
    Delivers base isRead q s.mapped us io₁ ∧ ∀ m, K.offset m = K.offset s.miter + 4 * q →
      Delivers base isRead k (s.next us io₁ q m).mapped vs io ∧
        ∀ m' addr, (s.next us io₁ q m).done vs io m' addr = s.done ws io m' addr := by
  obtain ⟨us, io₁, vs, hfirst, hsecond, -, hmoved⟩ := h.split
  refine ⟨us, io₁, vs, hfirst, fun m hoffset => ⟨?_, fun m' addr => ?_⟩⟩
  · unfold Delivers Pio.accesses Pio.mapped Pio.next
    dsimp only
    rw [hoffset]
    exact hsecond
  · have hdata := congrArg Pio.data hmoved
    unfold Pio.done Pio.next
    dsimp only
    rw [hoffset]
    exact congrArg (Pio.mk io · m' addr) hdata

theorem blockLoop_cons (base : Nat) (isRead : Bool) {q : Nat} {rest : List Nat}
    (hleft : K.left s.miter = 4 * q :: rest) (hn : n ≠ 0) :
    ∃ m, blockLoop base isRead (4 * n) s = (copyLoop base isRead (min q n) s.mapped).bind (fun s =>
        blockLoop base isRead (4 * (n - q)) { s with miter := m }) ∧
      K.left m = (if n < q then 4 * (q - n) :: rest else rest) ∧
      K.offset m = K.offset s.miter + 4 * min q n := by
  obtain ⟨m₁, hnext, hstop⟩ := K.next_some s.miter _ rest hleft
  obtain ⟨hpieces, hoffset⟩ := hstop _ (Nat.min_le_left (4 * q) (4 * n))
  have hmin : min (4 * q) (4 * n) = 4 * min q n := by omega
  rw [hmin] at hpieces hoffset
  refine ⟨K.sgMiterStop (4 * min q n) m₁, ?_, ?_, hoffset⟩
  · rw [blockLoop, dif_neg (by omega)]
    split
    · rename_i hnone
      rw [hnext] at hnone
      cases hnone
    · rename_i addr length m hsome
      obtain ⟨rfl, rfl, rfl⟩ : K.offset s.miter = addr ∧ 4 * q = length ∧ m₁ = m := by simpa [hnext] using hsome
      have hafter : 4 * n - 4 * min q n = 4 * (n - q) := by omega
      rw [hmin, if_neg (by omega), Nat.mul_div_cancel_left _ (by decide), hafter]
      rfl
  · rw [hpieces]
    have hsplit : 4 * min q n < 4 * q ↔ n < q := by omega
    simp only [hsplit]
    split_ifs with hlt
    · rw [Nat.min_eq_right (Nat.le_of_lt hlt), Nat.mul_sub]
    · rfl

/-- A block leaves the iterator where its words end. -/
theorem blockLoop_eq {pieces : List Nat} (hleft : K.left s.miter = pieces) (hpieces : Aligned pieces)
    (hsum : 4 * n ≤ pieces.sum) (h : Delivers base isRead n s.mapped ws io) : ∃ m addr,
      blockLoop base isRead (4 * n) s = some (s.done ws io m addr) ∧ K.offset m = K.offset s.miter + 4 * n ∧
        Aligned (K.left m) ∧ (K.left m).sum + 4 * n = pieces.sum := by
  induction pieces generalizing n s ws with
  | nil =>
    obtain rfl : n = 0 := by
      rw [List.sum_nil] at hsum
      omega
    exact ⟨s.miter, s.addr, blockLoop_zero h, rfl, hleft ▸ hpieces, congrArg List.sum hleft⟩
  | cons p rest ih =>
    by_cases hzero : n = 0
    · subst hzero
      exact ⟨s.miter, s.addr, blockLoop_zero h, rfl, hleft ▸ hpieces, congrArg List.sum hleft⟩
    obtain ⟨⟨q, rfl⟩, hrest⟩ := List.forall_mem_cons.mp hpieces
    rw [List.sum_cons] at hsum
    obtain ⟨m₁, hloop, hleft₁, hoffset⟩ := blockLoop_cons base isRead hleft hzero
    by_cases hlt : n < q
    · rw [Nat.min_eq_right (Nat.le_of_lt hlt)] at hloop hoffset
      rw [if_pos hlt] at hleft₁
      refine ⟨m₁, K.offset s.miter + 4 * n, ?_, hoffset, ?_, ?_⟩
      · rw [hloop, copyLoop_eq h, Option.bind_some, Nat.sub_eq_zero_of_le (Nat.le_of_lt hlt), Nat.mul_zero, blockLoop,
          dif_pos rfl]
        rfl
      · rw [hleft₁]
        exact List.forall_mem_cons.mpr ⟨⟨q - n, rfl⟩, hrest⟩
      · rw [hleft₁, List.sum_cons, List.sum_cons]
        omega
    · obtain ⟨k, rfl⟩ := Nat.exists_eq_add_of_le (Nat.le_of_not_lt hlt)
      rw [Nat.min_eq_left (Nat.le_add_right ..)] at hloop hoffset
      rw [if_neg hlt] at hleft₁
      obtain ⟨us, io₁, vs, hfirst, hnext⟩ := h.next
      obtain ⟨hsecond, hdone⟩ := hnext m₁ hoffset
      obtain ⟨m, addr, hrun, hoffset', haligned, hsum'⟩ := ih hleft₁ hrest (by omega) hsecond
      refine ⟨m, addr, ?_, ?_, haligned, ?_⟩
      · rw [hloop, copyLoop_eq hfirst, Option.bind_some, Nat.add_sub_cancel_left, ← hdone]
        exact hrun
      · rw [hoffset']
        change K.offset m₁ + 4 * k = _
        omega
      · rw [List.sum_cons]
        omega

theorem pioBlocks_eq {blocks k : Nat} (hread : s.data.dataRead = isRead) (hsize : s.data.blksz.toNat = 4 * k)
    (hpieces : Aligned (K.left s.miter)) (hsum : 4 * (blocks * k) ≤ (K.left s.miter).sum)
    (h : Delivers base isRead (blocks * k) s.mapped ws io) : ∃ m addr,
      pioBlocks base blocks s = some (s.done ws io m addr) := by
  induction blocks generalizing s ws with
  | zero =>
    rw [Nat.zero_mul] at h
    exact ⟨s.miter, s.addr, by rw [pioBlocks, h.done_zero]⟩
  | succ blocks ih =>
    have hcount : (blocks + 1) * k = k + blocks * k := by rw [Nat.add_mul, Nat.one_mul, Nat.add_comm]
    rw [hcount] at h hsum
    obtain ⟨us, io₁, vs, hfirst, hnext⟩ := h.next
    obtain ⟨m₁, addr₁, hloop, hoffset, haligned, hleft⟩ := blockLoop_eq rfl hpieces (by omega) hfirst
    obtain ⟨hsecond, hdone⟩ := hnext m₁ hoffset
    obtain ⟨m, addr, hblocks⟩ := ih (s := s.done us io₁ m₁ addr₁) hread hsize haligned
      (by change 4 * (blocks * k) ≤ (K.left m₁).sum; omega) hsecond
    refine ⟨m, addr, ?_⟩
    rw [pioBlocks, nemuTransferPio, nemuTransferBlockPio, hread, hsize, hloop, Option.bind_some, hblocks, ← hdone]
    rfl

end GsEmu.SdHost
