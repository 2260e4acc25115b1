import GsEmu.Lib.Bytes

/-! Texts as `printf` writes them. -/

namespace GsEmu.Bytes

def text (s : String) : List Byte := s.toList.map fun c => BitVec.ofNat 8 c.toNat

/-- `%0kx`. -/
def hexPadded (k n : Nat) : List Byte :=
  let digits := Nat.toDigits 16 n
  text (String.ofList (List.replicate (k - digits.length) '0' ++ digits))

/-- `%d`. -/
def dec (i : Int) : List Byte := text (toString i)

end GsEmu.Bytes
