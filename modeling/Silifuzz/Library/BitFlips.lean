import Mathlib.Algebra.Ring.Parity
import Mathlib.Data.List.Count
import Mathlib.Data.Finset.Card
import Mathlib.Data.Finset.Range
import Mathlib.Data.Nat.Bitwise

/-!
# Bits that are toggled one after the other

A bit differs in the end if it has been toggled an odd number of times.
-/

namespace BitFlips

/-- Toggles the bit at each of the positions. -/
def toggleAll (v : Nat) (positions : List Nat) : Nat :=
  positions.foldl (fun v p => v ^^^ 1 <<< p) v

end BitFlips
