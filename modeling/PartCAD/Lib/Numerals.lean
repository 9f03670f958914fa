import Mathlib.Algebra.Ring.Nat
import Mathlib.Data.Nat.Cast.Defs

/-!
# Numerals

What makes a numeral one of another type than `ℕ`, with a name: a definition that holds the numeral is the
same one in every module.
-/

namespace PartCAD.Lib

instance atLeastTwo_two : Nat.AtLeastTwo 2 := inferInstance

instance atLeastTwo_ten : Nat.AtLeastTwo 10 := inferInstance

instance atLeastTwo_halfTurn : Nat.AtLeastTwo 180 := inferInstance

instance atLeastTwo_turn : Nat.AtLeastTwo 360 := inferInstance

instance atLeastTwo_thousand : Nat.AtLeastTwo 1000 := inferInstance

instance neZero_three : NeZero 3 := inferInstance

instance neZero_ten : NeZero 10 := inferInstance

end PartCAD.Lib
