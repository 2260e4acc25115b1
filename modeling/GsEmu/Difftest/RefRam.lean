import GsEmu.Difftest.Agreement

/-! The memory that `MiniRV32IMAStep` touches, for any size of its RAM. -/

namespace GsEmu.MiniRv32ima
open Bytes Riscv32
open Difftest (Below)

/-! ## Two images that agree on the RAM -/

/-- The images `m` and `m'` agree below `n`, and above it they are still `image` and `image'`. -/
structure Keeps (n : Nat) (image image' m m' : Memory) : Prop where
  below : Below n m m'
  left : ∀ i, n ≤ i → m i = image i
  right : ∀ i, n ≤ i → m' i = image' i

variable {n : Nat} {image image' m m' : Memory} {h : Host} {ir pc cycle : Word} {s : MiniRV32IMAState}

theorem Keeps.refl (hbelow : Below n image image') : Keeps n image image' image image' :=
  ⟨hbelow, fun _ _ => rfl, fun _ _ => rfl⟩

theorem Keeps.writeLE (hk : Keeps n image image' m m') {a len : Nat} (ha : a + len ≤ n) (v : Word) :
    Keeps n image image' (writeLE m a len v) (writeLE m' a len v) where
  below := hk.below.writeLE a len v
  left i hi := (writeLE_outside m v (by omega)).trans (hk.left i hi)
  right i hi := (writeLE_outside m' v (by omega)).trans (hk.right i hi)

inductive Outcome.Same (n : Nat) (image image' : Memory) : Outcome → Outcome → Prop
  | next {m m' : Memory} (rdid : Reg) (rval pc : Word) (s : MiniRV32IMAState) (out : List Byte) :
    Keeps n image image' m m' → Same n image image' (.next rdid rval pc s m out) (.next rdid rval pc s m' out)
  | trap {m m' : Memory} (trap rval pc : Word) (s : MiniRV32IMAState) : Keeps n image image' m m' →
    Same n image image' (.trap trap rval pc s m) (.trap trap rval pc s m')
  | ret {m m' : Memory} (code : Word) (s : MiniRV32IMAState) : Keeps n image image' m m' →
    Same n image image' (.ret code s m) (.ret code s m')

inductive Exit.Same (n : Nat) (image image' : Memory) : Exit → Exit → Prop
  | done {m m' : Memory} (pc cycle : Word) (s : MiniRV32IMAState) (out : List Byte) : Keeps n image image' m m' →
    Same n image image' (.done pc cycle s m out) (.done pc cycle s m' out)
  | trap {m m' : Memory} (trap rval pc cycle : Word) (s : MiniRV32IMAState) (out : List Byte) :
    Keeps n image image' m m' →
    Same n image image' (.trap trap rval pc cycle s m out) (.trap trap rval pc cycle s m' out)
  | ret {m m' : Memory} (code : Word) (s : MiniRV32IMAState) (out : List Byte) : Keeps n image image' m m' →
    Same n image image' (.ret code s m out) (.ret code s m' out)

theorem Exit.Same.after {e e' : Exit} (h : Exit.Same n image image' e e') (first : List Byte) :
    Exit.Same n image image' (e.after first) (e'.after first) := by
  cases h with
  | done pc cycle s out hk => exact .done _ _ _ _ hk
  | trap trap rval pc cycle s out hk => exact .trap _ _ _ _ _ _ hk
  | ret code s out hk => exact .ret _ _ _ hk

/-! ## One instruction -/

end GsEmu.MiniRv32ima
