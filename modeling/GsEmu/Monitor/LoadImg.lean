import GsEmu.Lib.Blocks
import GsEmu.Riscv32.State

/-! `load_img` of `monitor.c`: where the files of the command line end up. Nothing checks that they fit. -/

namespace GsEmu.Monitor
open Bytes Riscv32

/-! ## The loader -/

structure Args where
  imgFile : Option String
  biosFile : Option String
  kernelFile : Option String
  dtbFile : Option String

def pmemKernel : Word := resetVector + 0x00200000

/-- `pmem + paddr - CONFIG_MBASE`, counted from the start of `pmem`; it may lie outside. -/
def hostOffset (paddr : Word) : Int := (paddr.toNat : Int) - configMbase.toNat

/-- The size and what `fread` writes. `size` is an `unsigned int`; an item of size 0 is never read, so the
assertion fails for an empty file as it does for one that cannot be opened. -/
def inputFileLoad (fopen : String → Option (List Byte)) (fileName : Option String) (paddr : Word) :
    Option (Nat × List (Block Byte)) :=
  match fileName with
  | none => some (0, [])
  | some name => do
    let fp ← fopen name
    let size := fp.length % 2 ^ 32
    if size = 0 then none else some (size, [⟨hostOffset paddr, fp.take size⟩])

def loadImg (fopen : String → Option (List Byte)) (args : Args) : Option (Nat × List (Block Byte)) :=
  if args.imgFile = none ∧ args.biosFile = none ∧ args.dtbFile = none ∧ args.kernelFile = none then
    some (4096, [])
  else do
    let (img, w₁) ← inputFileLoad fopen args.imgFile resetVector
    let (bios, w₂) ← inputFileLoad fopen args.biosFile (resetVector + BitVec.ofNat 32 img)
    let (kernel, w₃) ← inputFileLoad fopen args.kernelFile pmemKernel
    if img + bios + kernel = 0 then return (4096, w₁ ++ w₂ ++ w₃)
    let (dtb, w₄) ← inputFileLoad fopen args.dtbFile pmemDtb
    return (img + bios + kernel + dtb, w₁ ++ w₂ ++ w₃ ++ w₄)

/-! ## The law -/

variable {fopen : String → Option (List Byte)} {args : Args} {file : Option String} {paddr : Word} {n : Nat}
  {writes : List (Block Byte)} {m : Int → Byte} {off : Int}

def fileSize (fopen : String → Option (List Byte)) (file : Option String) : Nat :=
  ((file.bind fopen).getD []).length

/-- Each file with its place: the bios follows the image, the others have fixed addresses. -/
def slots (fopen : String → Option (List Byte)) (args : Args) : List (Option String × Int) :=
  [(args.imgFile, hostOffset resetVector),
    (args.biosFile, hostOffset resetVector + fileSize fopen args.imgFile),
    (args.kernelFile, hostOffset pmemKernel), (args.dtbFile, hostOffset pmemDtb)]

/-- The files given have been written to their places inside `pmem` and are there at the end. -/
structure Loaded (fopen : String → Option (List Byte)) (args : Args) (writes : List (Block Byte))
    (m : Int → Byte) : Prop where
  inside : ∀ w ∈ writes, w.Within 0 configMsize.toNat
  apart : writes.Pairwise Block.Apart
  present : ∀ slot ∈ slots fopen args, ∀ name ∈ slot.1, ∃ data, fopen name = some data ∧
    ⟨slot.2, data⟩ ∈ writes ∧ Block.Shown ⟨slot.2, data⟩ (writes.foldl Block.store m)

/-- A device tree does not come alone, and each file ends before the next one begins. -/
structure Fits (fopen : String → Option (List Byte)) (args : Args) : Prop where
  accompanied : args.dtbFile ≠ none →
    args.imgFile ≠ none ∨ args.biosFile ≠ none ∨ args.kernelFile ≠ none
  image : fileSize fopen args.imgFile + fileSize fopen args.biosFile ≤ 0x8000000
  kernel : args.kernelFile ≠ none →
    fileSize fopen args.imgFile + fileSize fopen args.biosFile ≤ 0x200000 ∧
      fileSize fopen args.kernelFile ≤ 0x8000000 - 0x200000
  dtb : args.dtbFile ≠ none →
    fileSize fopen args.imgFile + fileSize fopen args.biosFile ≤ 0x6c00000 ∧
      fileSize fopen args.kernelFile ≤ 0x6c00000 - 0x200000 ∧ fileSize fopen args.dtbFile ≤ 0x1400000

/-! ## What is written -/

def segment (fopen : String → Option (List Byte)) (file : Option String) (off : Int) : List (Block Byte) :=
  (file.bind fopen).toList.map fun data => ⟨off, data⟩

theorem mem_segment_iff {b : Block Byte} :
    b ∈ segment fopen file off ↔ ∃ data, file.bind fopen = some data ∧ b = ⟨off, data⟩ := by
  simp only [segment, List.mem_map, Option.mem_toList, eq_comm]

theorem fileSize_of_bind {data : List Byte} (h : file.bind fopen = some data) :
    fileSize fopen file = data.length := by
  rw [fileSize, h, Option.getD_some]

theorem inputFileLoad_some {name : String} {ws : List (Block Byte)}
    (h : inputFileLoad fopen (some name) paddr = some (n, ws)) :
    ∃ data, fopen name = some data ∧ data.length % 2 ^ 32 ≠ 0 ∧ n = data.length % 2 ^ 32 ∧
      ws = [⟨hostOffset paddr, data.take n⟩] := by
  obtain ⟨data, hdata, h⟩ := Option.bind_eq_some_iff.mp
    (show (fopen name).bind _ = some (n, ws) from h)
  dsimp only at h
  split_ifs at h with hsize
  obtain ⟨rfl, rfl⟩ := Prod.mk.inj (Option.some.inj h)
  exact ⟨data, hdata, hsize, rfl, rfl⟩

theorem inputFileLoad_given {ws : List (Block Byte)} (h : inputFileLoad fopen file paddr = some (n, ws)) :
    (file ≠ none ↔ n ≠ 0) ∧ (file ≠ none ↔ 0 < fileSize fopen file) := by
  cases file with
  | none =>
    obtain ⟨rfl, -⟩ := Prod.mk.inj (Option.some.inj h)
    exact ⟨by simp, by simp [fileSize]⟩
  | some name =>
    obtain ⟨data, hdata, hsize, rfl, -⟩ := inputFileLoad_some h
    have hbind : (some name).bind fopen = some data := hdata
    have hpos : 0 < data.length := Nat.pos_of_ne_zero fun hzero => hsize (by rw [hzero, Nat.zero_mod])
    rw [fileSize_of_bind hbind]
    exact ⟨by simpa using hsize, by simpa using hpos⟩

theorem inputFileLoad_small {ws : List (Block Byte)} (h : inputFileLoad fopen file paddr = some (n, ws))
    (hsmall : fileSize fopen file < 2 ^ 32) :
    n = fileSize fopen file ∧ ws = segment fopen file (hostOffset paddr) := by
  cases file with
  | none =>
    obtain ⟨rfl, rfl⟩ := Prod.mk.inj (Option.some.inj h)
    exact ⟨rfl, rfl⟩
  | some name =>
    obtain ⟨data, hdata, -, rfl, rfl⟩ := inputFileLoad_some h
    have hbind : (some name).bind fopen = some data := hdata
    rw [fileSize_of_bind hbind] at hsmall ⊢
    rw [segment, hbind, Nat.mod_eq_of_lt hsmall, List.take_length]
    exact ⟨rfl, rfl⟩

theorem loadImg_cases (h : loadImg fopen args = some (n, writes)) :
    (args.imgFile = none ∧ args.biosFile = none ∧ args.kernelFile = none ∧ writes = []) ∨
      ∃ img w₁ bios w₂ kernel w₃ dtb w₄, img + bios + kernel ≠ 0 ∧
        inputFileLoad fopen args.imgFile resetVector = some (img, w₁) ∧
        inputFileLoad fopen args.biosFile (resetVector + BitVec.ofNat 32 img) = some (bios, w₂) ∧
        inputFileLoad fopen args.kernelFile pmemKernel = some (kernel, w₃) ∧
        inputFileLoad fopen args.dtbFile pmemDtb = some (dtb, w₄) ∧ writes = w₁ ++ w₂ ++ w₃ ++ w₄ := by
  unfold loadImg at h
  split_ifs at h with hnone
  · obtain ⟨-, rfl⟩ := Prod.mk.inj (Option.some.inj h)
    exact .inl ⟨hnone.1, hnone.2.1, hnone.2.2.2, rfl⟩
  · obtain ⟨⟨img, w₁⟩, h₁, h⟩ := Option.bind_eq_some_iff.mp h
    obtain ⟨⟨bios, w₂⟩, h₂, h⟩ := Option.bind_eq_some_iff.mp h
    obtain ⟨⟨kernel, w₃⟩, h₃, h⟩ := Option.bind_eq_some_iff.mp h
    dsimp only at h
    split_ifs at h with hzero
    · obtain ⟨-, rfl⟩ := Prod.mk.inj (Option.some.inj h)
      have himg : args.imgFile = none := by
        by_contra hgiven
        exact (inputFileLoad_given h₁).1.mp hgiven (by omega)
      have hbios : args.biosFile = none := by
        by_contra hgiven
        exact (inputFileLoad_given h₂).1.mp hgiven (by omega)
      have hkernel : args.kernelFile = none := by
        by_contra hgiven
        exact (inputFileLoad_given h₃).1.mp hgiven (by omega)
      rw [himg] at h₁
      rw [hbios] at h₂
      rw [hkernel] at h₃
      obtain ⟨-, rfl⟩ := Prod.mk.inj (Option.some.inj h₁)
      obtain ⟨-, rfl⟩ := Prod.mk.inj (Option.some.inj h₂)
      obtain ⟨-, rfl⟩ := Prod.mk.inj (Option.some.inj h₃)
      exact .inl ⟨himg, hbios, hkernel, rfl⟩
    · obtain ⟨⟨dtb, w₄⟩, h₄, h⟩ := Option.bind_eq_some_iff.mp h
      obtain ⟨-, rfl⟩ := Prod.mk.inj (Option.some.inj h)
      exact .inr ⟨img, w₁, bios, w₂, kernel, w₃, dtb, w₄, hzero, h₁, h₂, h₃, h₄, rfl⟩

/-! ## Segments in memory -/

theorem hostOffset_reset : hostOffset resetVector = 0 := rfl

theorem hostOffset_kernel : hostOffset pmemKernel = 0x200000 := by decide

theorem hostOffset_dtb : hostOffset pmemDtb = 0x6c00000 := by decide

theorem hostOffset_behind {k : Nat} (hk : k ≤ 0x8000000) :
    hostOffset (resetVector + BitVec.ofNat 32 k) = k := by
  have hreset : resetVector.toNat = 0x80000000 := rfl
  have hbase : configMbase.toNat = 0x80000000 := rfl
  rw [hostOffset, BitVec.toNat_add, BitVec.toNat_ofNat, hreset, hbase]
  omega

theorem forall_segment_iff {P : Int → Int → Prop} (hopen : file ≠ none ↔ 0 < fileSize fopen file) :
    (∀ w ∈ segment fopen file off, P w.addr w.stop) ↔
      (0 < fileSize fopen file → P off (off + fileSize fopen file)) := by
  cases hbind : file.bind fopen with
  | none =>
    have hzero : fileSize fopen file = 0 := by
      rw [fileSize, hbind]
      rfl
    simp [segment, hbind, hzero]
  | some data =>
    have hsize := fileSize_of_bind hbind
    have hgiven : file ≠ none := by
      rintro rfl
      exact absurd hbind (by simp)
    have hpos := hopen.mp hgiven
    constructor
    · intro hall _
      have hfirst := hall ⟨off, data⟩ (mem_segment_iff.mpr ⟨data, hbind, rfl⟩)
      rw [hsize]
      exact hfirst
    · intro hP w hw
      obtain ⟨data', hbind', rfl⟩ := mem_segment_iff.mp hw
      obtain rfl := Option.some.inj (hbind.symm.trans hbind')
      rw [hsize] at hP hpos
      exact hP hpos

theorem pairwise_segment : (segment fopen file off).Pairwise Block.Apart := by
  unfold segment
  cases file.bind fopen with
  | none => exact List.Pairwise.nil
  | some data => exact List.pairwise_singleton _ _

theorem apart_segments_iff {file' : Option String} {off' : Int}
    (hopen : file ≠ none ↔ 0 < fileSize fopen file)
    (hopen' : file' ≠ none ↔ 0 < fileSize fopen file') :
    (∀ a ∈ segment fopen file off, ∀ b ∈ segment fopen file' off', a.Apart b) ↔
      (0 < fileSize fopen file → 0 < fileSize fopen file' →
        off + fileSize fopen file ≤ off' ∨ off' + fileSize fopen file' ≤ off) := by
  have hinner : ∀ a : Block Byte, (∀ b ∈ segment fopen file' off', a.Apart b) ↔
      (0 < fileSize fopen file' → a.stop ≤ off' ∨ off' + fileSize fopen file' ≤ a.addr) := fun a =>
    forall_segment_iff (P := fun addr stop => a.stop ≤ addr ∨ stop ≤ a.addr) hopen'
  simp only [hinner]
  exact forall_segment_iff
    (P := fun addr stop => 0 < fileSize fopen file' → stop ≤ off' ∨ off' + fileSize fopen file' ≤ addr) hopen

def layout (fopen : String → Option (List Byte)) (args : Args) : List (Block Byte) :=
  segment fopen args.imgFile (hostOffset resetVector) ++
    segment fopen args.biosFile (hostOffset resetVector + fileSize fopen args.imgFile) ++
    segment fopen args.kernelFile (hostOffset pmemKernel) ++ segment fopen args.dtbFile (hostOffset pmemDtb)

structure Opened (fopen : String → Option (List Byte)) (args : Args) : Prop where
  image : args.imgFile ≠ none ↔ 0 < fileSize fopen args.imgFile
  bios : args.biosFile ≠ none ↔ 0 < fileSize fopen args.biosFile
  kernel : args.kernelFile ≠ none ↔ 0 < fileSize fopen args.kernelFile
  dtb : args.dtbFile ≠ none ↔ 0 < fileSize fopen args.dtbFile

theorem mem_layout {slot : Option String × Int} {b : Block Byte} (hslot : slot ∈ slots fopen args)
    (hb : b ∈ segment fopen slot.1 slot.2) : b ∈ layout fopen args := by
  simp only [slots, List.mem_cons, List.not_mem_nil, or_false] at hslot
  simp only [layout, List.mem_append]
  rcases hslot with rfl | rfl | rfl | rfl
  · exact .inl (.inl (.inl hb))
  · exact .inl (.inl (.inr hb))
  · exact .inl (.inr hb)
  · exact .inr hb

theorem loaded_layout_iff (hopen : Opened fopen args) {si sb sk sd : Nat}
    (hi : fileSize fopen args.imgFile = si)
    (hb : fileSize fopen args.biosFile = sb) (hk : fileSize fopen args.kernelFile = sk)
    (hd : fileSize fopen args.dtbFile = sd) : Loaded fopen args (layout fopen args) m ↔
      si + sb ≤ 0x8000000 ∧ (0 < sk → si + sb ≤ 0x200000 ∧ sk ≤ 0x8000000 - 0x200000) ∧
        (0 < sd → si + sb ≤ 0x6c00000 ∧ sk ≤ 0x6c00000 - 0x200000 ∧ sd ≤ 0x1400000) := by
  have hsize : (configMsize.toNat : Int) = 0x8000000 := rfl
  obtain ⟨hoi, hob, hok, hod⟩ := hopen
  have hinside : (∀ w ∈ layout fopen args, w.Within 0 configMsize.toNat) ↔
      si + sb ≤ 0x8000000 ∧ (0 < sk → sk ≤ 0x8000000 - 0x200000) ∧ (0 < sd → sd ≤ 0x1400000) := by
    have hone : ∀ {file : Option String} {off : Int}, (file ≠ none ↔ 0 < fileSize fopen file) →
        ((∀ w ∈ segment fopen file off, w.Within 0 0x8000000) ↔
          (0 < fileSize fopen file → 0 ≤ off ∧ off + fileSize fopen file ≤ 0x8000000)) := fun h =>
      forall_segment_iff (P := fun addr stop => 0 ≤ addr ∧ stop ≤ 0x8000000) h
    rw [hsize]
    simp only [layout, List.forall_mem_append, hone hoi, hone hob, hone hok, hone hod, hostOffset_reset,
      hostOffset_kernel, hostOffset_dtb, hi, hb, hk, hd]
    omega
  have hapart : (layout fopen args).Pairwise Block.Apart ↔
      (0 < sk → si + sb ≤ 0x200000) ∧ (0 < sd → si + sb ≤ 0x6c00000 ∧ sk ≤ 0x6c00000 - 0x200000) := by
    simp only [layout, List.pairwise_append, pairwise_segment, true_and, or_imp, forall_and,
      List.mem_append, apart_segments_iff hoi hob, apart_segments_iff hoi hok,
      apart_segments_iff hoi hod, apart_segments_iff hob hok, apart_segments_iff hob hod,
      apart_segments_iff hok hod, hostOffset_reset, hostOffset_kernel, hostOffset_dtb, hi, hb, hk, hd]
    omega
  constructor
  · intro h
    have hin := hinside.mp h.inside
    have hap := hapart.mp h.apart
    exact ⟨hin.1, fun hk => ⟨hap.1 hk, hin.2.1 hk⟩, fun hd => ⟨(hap.2 hd).1, (hap.2 hd).2, hin.2.2 hd⟩⟩
  · rintro ⟨hcode, hkernel, hdtb⟩
    have hap := hapart.mpr ⟨fun hk => (hkernel hk).1, fun hd => ⟨(hdtb hd).1, (hdtb hd).2.1⟩⟩
    refine ⟨hinside.mpr ⟨hcode, fun hk => (hkernel hk).2, fun hd => (hdtb hd).2.2⟩, hap, ?_⟩
    intro slot hslot name hname
    have hgiven : slot.1 = some name := hname
    have hsize : 0 < fileSize fopen slot.1 := by
      have hne : slot.1 ≠ none := by
        rw [hgiven]
        exact Option.some_ne_none _
      simp only [slots, List.mem_cons, List.not_mem_nil, or_false] at hslot
      rcases hslot with rfl | rfl | rfl | rfl
      · exact hoi.mp hne
      · exact hob.mp hne
      · exact hok.mp hne
      · exact hod.mp hne
    cases hdata : fopen name with
    | none =>
      have hbind : slot.1.bind fopen = none := by
        rw [hgiven]
        exact hdata
      rw [fileSize, hbind] at hsize
      exact absurd hsize (Nat.lt_irrefl 0)
    | some data =>
      have hbind : slot.1.bind fopen = some data := by
        rw [hgiven]
        exact hdata
      have hmem := mem_layout hslot (mem_segment_iff.mpr ⟨data, hbind, rfl⟩)
      exact ⟨data, rfl, hmem, Block.shown_of_pairwise hap hmem⟩

theorem Loaded.fileSize_le (h : Loaded fopen args writes m) {slot : Option String × Int}
    (hslot : slot ∈ slots fopen args) : fileSize fopen slot.1 ≤ 0x8000000 := by
  have hsize : (configMsize.toNat : Int) = 0x8000000 := rfl
  cases hgiven : slot.1 with
  | none => exact Nat.zero_le _
  | some name =>
    obtain ⟨data, hdata, hmem, -⟩ := h.present slot hslot name hgiven
    have hbind : (some name).bind fopen = some data := hdata
    obtain ⟨hlow, hhigh⟩ := h.inside _ hmem
    change 0 ≤ slot.2 at hlow
    change slot.2 + data.length ≤ _ at hhigh
    rw [fileSize_of_bind hbind]
    omega

theorem Fits.fileSize_le (h : Fits fopen args) {slot : Option String × Int}
    (hslot : slot ∈ slots fopen args) : fileSize fopen slot.1 ≤ 0x8000000 := by
  have hcode := h.image
  simp only [slots, List.mem_cons, List.not_mem_nil, or_false] at hslot
  rcases hslot with rfl | rfl | rfl | rfl
  · exact (Nat.le_add_right _ _).trans hcode
  · exact (Nat.le_add_left _ _).trans hcode
  · by_cases hk : args.kernelFile = none
    · rw [hk]
      exact Nat.zero_le _
    · exact (h.kernel hk).2.trans (by decide)
  · by_cases hd : args.dtbFile = none
    · rw [hd]
      exact Nat.zero_le _
    · exact (h.dtb hd).2.2.trans (by decide)

/-- Files no larger than `pmem` are not cut off, so each is written where the layout has it. -/
theorem written_eq_layout {img bios kernel dtb : Nat} {w₁ w₂ w₃ w₄ : List (Block Byte)}
    (h₁ : inputFileLoad fopen args.imgFile resetVector = some (img, w₁))
    (h₂ : inputFileLoad fopen args.biosFile (resetVector + BitVec.ofNat 32 img) = some (bios, w₂))
    (h₃ : inputFileLoad fopen args.kernelFile pmemKernel = some (kernel, w₃))
    (h₄ : inputFileLoad fopen args.dtbFile pmemDtb = some (dtb, w₄))
    (hsmall : ∀ slot ∈ slots fopen args, fileSize fopen slot.1 ≤ 0x8000000) :
    w₁ ++ w₂ ++ w₃ ++ w₄ = layout fopen args := by
  have hsi : fileSize fopen args.imgFile ≤ 0x8000000 :=
    hsmall (args.imgFile, hostOffset resetVector) (by simp [slots])
  have hsb : fileSize fopen args.biosFile ≤ 0x8000000 :=
    hsmall (args.biosFile, hostOffset resetVector + fileSize fopen args.imgFile) (by simp [slots])
  have hsk : fileSize fopen args.kernelFile ≤ 0x8000000 :=
    hsmall (args.kernelFile, hostOffset pmemKernel) (by simp [slots])
  have hsd : fileSize fopen args.dtbFile ≤ 0x8000000 :=
    hsmall (args.dtbFile, hostOffset pmemDtb) (by simp [slots])
  have hlt : 0x8000000 < 2 ^ 32 := by decide
  obtain ⟨rfl, rfl⟩ := inputFileLoad_small h₁ (hsi.trans_lt hlt)
  obtain ⟨-, rfl⟩ := inputFileLoad_small h₂ (hsb.trans_lt hlt)
  obtain ⟨-, rfl⟩ := inputFileLoad_small h₃ (hsk.trans_lt hlt)
  obtain ⟨-, rfl⟩ := inputFileLoad_small h₄ (hsd.trans_lt hlt)
  rw [hostOffset_behind hsi, layout, hostOffset_reset, Int.zero_add]

theorem loaded_nil_iff (himg : args.imgFile = none) (hbios : args.biosFile = none)
    (hkernel : args.kernelFile = none) : Loaded fopen args [] m ↔ Fits fopen args := by
  constructor
  · intro hloaded
    have hdtb : args.dtbFile = none := by
      by_contra hgiven
      obtain ⟨name, hname⟩ := Option.ne_none_iff_exists'.mp hgiven
      obtain ⟨data, -, hmem, -⟩ := hloaded.present (args.dtbFile, hostOffset pmemDtb)
        (by simp [slots]) name hname
      exact absurd hmem List.not_mem_nil
    refine ⟨fun hd => absurd hdtb hd, ?_, fun hk => absurd hkernel hk, fun hd => absurd hdtb hd⟩
    rw [himg, hbios]
    exact Nat.zero_le _
  · intro hfits
    have hdtb : args.dtbFile = none := by
      by_contra hgiven
      rcases hfits.accompanied hgiven with hf | hf | hf
      · exact hf himg
      · exact hf hbios
      · exact hf hkernel
    refine ⟨fun w hw => absurd hw List.not_mem_nil, List.Pairwise.nil, ?_⟩
    intro slot hslot name hname
    have hnone : slot.1 = none := by
      simp only [slots, List.mem_cons, List.not_mem_nil, or_false] at hslot
      rcases hslot with rfl | rfl | rfl | rfl
      · exact himg
      · exact hbios
      · exact hkernel
      · exact hdtb
    rw [hnone] at hname
    exact absurd hname (by simp)

/-! ## Main result -/

/-- The loader does its work exactly when the files fit. -/
theorem loadImg_loaded_iff (m : Int → Byte) (h : loadImg fopen args = some (n, writes)) :
    Loaded fopen args writes m ↔ Fits fopen args := by
  rcases loadImg_cases h with ⟨himg, hbios, hkernel, rfl⟩ |
    ⟨img, w₁, bios, w₂, kernel, w₃, dtb, w₄, hsome, h₁, h₂, h₃, h₄, rfl⟩
  · exact loaded_nil_iff himg hbios hkernel
  have hopen : Opened fopen args :=
    ⟨(inputFileLoad_given h₁).2, (inputFileLoad_given h₂).2, (inputFileLoad_given h₃).2,
      (inputFileLoad_given h₄).2⟩
  have hnumbers := loaded_layout_iff (m := m) hopen rfl rfl rfl rfl
  constructor
  · intro hloaded
    rw [written_eq_layout h₁ h₂ h₃ h₄ fun slot hslot => hloaded.fileSize_le hslot] at hloaded
    obtain ⟨hcode, hker, hdt⟩ := hnumbers.mp hloaded
    refine ⟨fun _ => ?_, hcode, fun hk => hker (hopen.kernel.mp hk), fun hd => hdt (hopen.dtb.mp hd)⟩
    by_contra hnone
    simp only [not_or, not_not] at hnone
    have hi : img = 0 := not_not.mp fun h => (inputFileLoad_given h₁).1.mpr h hnone.1
    have hb : bios = 0 := not_not.mp fun h => (inputFileLoad_given h₂).1.mpr h hnone.2.1
    have hk : kernel = 0 := not_not.mp fun h => (inputFileLoad_given h₃).1.mpr h hnone.2.2
    exact hsome (by rw [hi, hb, hk])
  · intro hfits
    rw [written_eq_layout h₁ h₂ h₃ h₄ fun slot hslot => hfits.fileSize_le hslot]
    exact hnumbers.mpr ⟨hfits.image, fun hk => hfits.kernel (hopen.kernel.mpr hk),
      fun hd => hfits.dtb (hopen.dtb.mpr hd)⟩

theorem loadImg_loaded_iff_kernel : ∃ n writes,
    loadImg (fun _ => some [1]) ⟨none, none, some "kernel", some "dtb"⟩ = some (n, writes) ∧
      Loaded (fun _ => some [1]) ⟨none, none, some "kernel", some "dtb"⟩ writes fun _ => 0 := by
  have hload : loadImg (fun _ => some [1]) ⟨none, none, some "kernel", some "dtb"⟩ = some (2, _) := rfl
  refine ⟨2, _, hload, (loadImg_loaded_iff (fun _ => 0) hload).mpr ⟨?_, ?_, ?_, ?_⟩⟩
  · exact fun _ => .inr (.inr (Option.some_ne_none _))
  · decide
  · exact fun _ => by decide
  · exact fun _ => by decide

/-- An image of a byte more than `pmem` runs over its end; a device tree alone is not loaded. -/
theorem loadImg_refuted :
    (∃ n writes, loadImg (fun _ => some (List.replicate 0x8000001 0)) ⟨some "image", none, none, none⟩ =
      some (n, writes) ∧ ∀ m, ¬Loaded (fun _ => some (List.replicate 0x8000001 0))
        ⟨some "image", none, none, none⟩ writes m) ∧
    ∃ n writes, loadImg (fun _ => some [1]) ⟨none, none, none, some "dtb"⟩ = some (n, writes) ∧
      ∀ m, ¬Loaded (fun _ => some [1]) ⟨none, none, none, some "dtb"⟩ writes m := by
  constructor
  · have hbig : ∀ image : List Byte, image.length = 0x8000001 →
        ∃ n writes, loadImg (fun _ => some image) ⟨some "image", none, none, none⟩ = some (n, writes) ∧
          ∀ m, ¬Loaded (fun _ => some image) ⟨some "image", none, none, none⟩ writes m := by
      intro image hlen
      have hload : loadImg (fun _ => some image) ⟨some "image", none, none, none⟩ =
          some (0x8000001, [⟨0, image.take 0x8000001⟩]) := by
        simp [loadImg, inputFileLoad, hlen, hostOffset_reset]
      refine ⟨_, _, hload, fun m hloaded => ?_⟩
      have hslot : (some "image", hostOffset resetVector) ∈
          slots (fun _ => some image) ⟨some "image", none, none, none⟩ := List.mem_cons_self ..
      have hfile : fileSize (fun _ => some image) (some "image") ≤ 0x8000000 := hloaded.fileSize_le hslot
      have hsize : fileSize (fun _ => some image) (some "image") = image.length := fileSize_of_bind rfl
      rw [hsize, hlen] at hfile
      exact absurd hfile (by decide)
    exact hbig _ List.length_replicate
  · refine ⟨4096, [], rfl, fun m hloaded => ?_⟩
    obtain ⟨data, -, hmem, -⟩ := hloaded.present (some "dtb", hostOffset pmemDtb) (by simp [slots]) "dtb" rfl
    exact absurd hmem List.not_mem_nil

end GsEmu.Monitor
