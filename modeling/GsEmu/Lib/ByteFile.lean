import GsEmu.Lib.Bytes

/-! A file as a byte array with a seek position, read into and written from a byte memory. -/

namespace GsEmu.Bytes

/-- What is at or behind `size` is not part of the file. -/
structure ByteFile where
  data : Memory
  size : Nat
  pos : Nat

namespace ByteFile

variable {f : ByteFile} {m : Memory} {a n : Nat}

@[simps] def seek (f : ByteFile) (p : Nat) : ByteFile := { f with pos := p }

def available (f : ByteFile) (n : Nat) : Nat := min n (f.size - f.pos)

def readTo (f : ByteFile) (n : Nat) (m : Memory) (a : Nat) : ByteFile × Memory :=
  (f.seek (f.pos + f.available n), fun x =>
    if a ≤ x ∧ x < a + f.available n then f.data (f.pos + (x - a)) else m x)

def writeFrom (f : ByteFile) (n : Nat) (m : Memory) (a : Nat) : ByteFile where
  data := fun x =>
    if f.pos ≤ x ∧ x < f.pos + n then m (a + (x - f.pos))
    else if f.size ≤ x ∧ x < f.pos then 0
    else f.data x
  size := max f.size (f.pos + n)
  pos := f.pos + n

theorem readTo_inside (h : f.pos + n ≤ f.size) : (f.readTo n m a).1 = f.seek (f.pos + n) ∧
    readLE (f.readTo n m a).2 a n = readLE f.data f.pos n := by
  have havail : f.available n = n := Nat.min_eq_left (by omega)
  rw [readTo, havail]
  refine ⟨rfl, readLE_shift fun i hi => ?_⟩
  dsimp only
  rw [if_pos (by omega), Nat.add_sub_cancel_left]

theorem writeFrom_inside (h : f.pos + n ≤ f.size) :
    (f.writeFrom n m a).size = f.size ∧ readLE (f.writeFrom n m a).data f.pos n = readLE m a n ∧
      ∀ x, ¬(f.pos ≤ x ∧ x < f.pos + n) → (f.writeFrom n m a).data x = f.data x := by
  refine ⟨max_eq_left h, readLE_shift fun i hi => ?_, fun x hx => ?_⟩
  · change (if _ then _ else _) = _
    rw [if_pos (by omega), Nat.add_sub_cancel_left]
  · change (if _ then _ else _) = _
    rw [if_neg hx, if_neg (by omega)]

def SameContents (f g : ByteFile) : Prop := g.size = f.size ∧ ∀ x < f.size, g.data x = f.data x

theorem sameContents_seek (f : ByteFile) (p : Nat) : SameContents f (f.seek p) := ⟨rfl, fun _ _ => rfl⟩

theorem sameContents_writeFrom_iff : SameContents f (f.writeFrom n m a) ↔
    f.pos + n ≤ f.size ∧ ∀ i < n, m (a + i) = f.data (f.pos + i) := by
  have hsize : (f.writeFrom n m a).size = max f.size (f.pos + n) := rfl
  have hat : ∀ i < n, (f.writeFrom n m a).data (f.pos + i) = m (a + i) := fun i hi => by
    change (if _ then _ else _) = _
    rw [if_pos (by omega), Nat.add_sub_cancel_left]
  constructor
  · rintro ⟨hsame, hdata⟩
    have hin : f.pos + n ≤ f.size := by omega
    exact ⟨hin, fun i hi => (hat i hi).symm.trans (hdata _ (by omega))⟩
  · rintro ⟨hin, hbytes⟩
    refine ⟨hsize.trans (max_eq_left hin), fun x hx => ?_⟩
    by_cases hw : f.pos ≤ x ∧ x < f.pos + n
    · obtain ⟨i, rfl⟩ := Nat.exists_eq_add_of_le hw.1
      rw [hat i (by omega), hbytes i (by omega)]
    · exact (writeFrom_inside hin).2.2 x hw

end ByteFile

end GsEmu.Bytes
