import SimpleSSD.Lib.Units
import SimpleSSD.Util.Def

/-!
# Block I/O (bil/entry.hh)

What the drivers are given by the layer above, and the macro with which they count its units. The
identifier, the callback and the time stamp of a block I/O are left out.
-/

namespace SimpleSSD.BIL

/-- `BIO_TYPE`. -/
inductive BIOType where
  | read | write | flush | trim
  deriving DecidableEq, Repr

/-- `BIO`. -/
structure BIO where
  type : BIOType
  offset : Nat
  length : Nat
  offset_lt : offset < 2 ^ 64
  length_lt : length < 2 ^ 64

/-- `DIVCEIL(x, y)` (util/algorithm.hh:71), in 64 bits. -/
def divCeil (x y : Nat) : Nat := ((x + 2 ^ 64 - 1) % 2 ^ 64 / y + 1) % 2 ^ 64

theorem divCeil_eq {x y : Nat} (hpos : 0 < x) (hlt : x < 2 ^ 64) :
    divCeil x y = (x - 1) / y + 1 := by
  have hle : (x - 1) / y ≤ x - 1 := Nat.div_le_self _ _
  rw [divCeil, show x + 2 ^ 64 - 1 = x - 1 + 2 ^ 64 by omega, Nat.add_mod_right,
    Nat.mod_eq_of_lt (show x - 1 < 2 ^ 64 by omega), Nat.mod_eq_of_lt (by omega)]

end SimpleSSD.BIL
