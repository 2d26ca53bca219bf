import Blockscript.Double.Nearest

/-!
The shortest decimal that reads back as a given magnitude. Grid `k` holds the
multiples of 10^k / 10^1074, so a coarser grid means fewer digits, and grid 0
holds every finite magnitude exactly. Infinity and NaN have no decimal.
-/
namespace Blockscript.Double

def fineness : Nat := Nat.pow 5 1074

def reading (steps : Nat) : Nat := nearestIndex steps fineness

def exact (index : Nat) : Nat := units index * fineness

def readsBack (index digits k : Nat) : Bool := reading (digits * Nat.pow 10 k) == index

/-- The multiple of `step` that reads back, if there is one. Of all that do, one is a neighbour
    of the exact place; the nearer one is taken, of two equally near the greater. -/
def neighbour (reads : Nat → Bool) (exact step : Nat) : Option Nat :=
  let low := exact / step
  match reads low, reads (low + 1) with
  | true, true => if 2 * exact < (2 * low + 1) * step then some low else some (low + 1)
  | true, false => some low
  | false, true => some (low + 1)
  | false, false => none

def onGrid (index k : Nat) : Option Nat :=
  neighbour (readsBack index · k) (exact index) (Nat.pow 10 k)

def firstHit (hit : Nat → Option Nat) (exact : Nat) : Nat → Nat × Nat
  | 0 => (exact, 0)
  | k + 1 =>
    match hit (k + 1) with
    | some digits => (digits, k + 1)
    | none => firstHit hit exact k

/-- A grid whose step is greater than the magnitude, since 2^93 < 10^28. No
    coarser grid has a hit. -/
def coarseGrid (index : Nat) : Nat := ((exact index).log2 + 1) * 28 / 93 + 1

def decimal (index : Nat) : Nat × Nat := firstHit (onGrid index) (exact index) (coarseGrid index)

end Blockscript.Double
