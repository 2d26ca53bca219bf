import Blockscript.Double.Basic

/-!
Rounding a ratio of naturals to the nearest binary64 magnitude, half to even.
Magnitudes are counted in units of 2^-1074, the least positive number; in these
units every finite magnitude is a natural. Signs are not treated here.
-/
namespace Blockscript.Double

/-- The magnitude at an index, in units of 2^-1074. At `infinityIndex` this is
    2^1024, the bound at which rounding starts to overflow. -/
def units (index : Nat) : Nat :=
  if index / Nat.pow 2 52 = 0 then index
  else (Nat.pow 2 52 + index % Nat.pow 2 52) * Nat.pow 2 (index / Nat.pow 2 52 - 1)

def indexBelow (n : Nat) : Nat :=
  if n < Nat.pow 2 53 then n
  else (n.log2 - 52) * Nat.pow 2 52 + n >>> (n.log2 - 52)

/-- The index nearest to `num / den` units. The middle of two neighbours goes to
    the even index, and all that is too large goes to infinity. -/
def nearestIndex (num den : Nat) : Nat :=
  let low := indexBelow (num / den)
  if infinityIndex ≤ low then infinityIndex
  else
    let middle := (units low + units (low + 1)) * den
    if 2 * num < middle then low
    else if middle < 2 * num then low + 1
    else low + low % 2

def ofRatio (num den : Nat) : Double := ofIndex false (nearestIndex (num * Nat.pow 2 1074) den)

end Blockscript.Double
