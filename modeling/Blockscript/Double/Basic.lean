/-!
Binary64 numbers, kept as their bit patterns. Comparison, equality and negation
are read off the pattern; the four arithmetic operations round as the hardware
does. All patterns are kept, the many NaNs and both zeros included.
-/
namespace Blockscript

structure Double where
  bits : UInt64
  deriving DecidableEq, Repr

namespace Double

def index (x : Double) : Nat := x.bits.toNat % Nat.pow 2 63

def isNegative (x : Double) : Bool := decide (Nat.pow 2 63 ≤ x.bits.toNat)

/-- The first pattern above all finite ones; the patterns after it are NaNs. -/
def infinityIndex : Nat := 0x7FF0000000000000

def quietIndex : Nat := 0x7FF8000000000000

def isNaN (x : Double) : Bool := decide (infinityIndex < x.index)

def isFinite (x : Double) : Bool := decide (x.index < infinityIndex)

def isZero (x : Double) : Bool := decide (x.index = 0)

def ofIndex (negative : Bool) (index : Nat) : Double :=
  ⟨UInt64.ofNat (if negative then Nat.pow 2 63 + index else index)⟩

/-- Position on the number line, with both zeros at the origin. -/
def place (x : Double) : Int := if x.isNegative then -x.index else x.index

/-- A NaN has no order to anything, itself included. -/
def lt (x y : Double) : Bool := !x.isNaN && !y.isNaN && decide (x.place < y.place)

def le (x y : Double) : Bool := !x.isNaN && !y.isNaN && decide (x.place ≤ y.place)

/-- Equality of IEEE 754: the zeros are equal, and a NaN differs from itself. -/
def ieeeEq (x y : Double) : Bool := !x.isNaN && !y.isNaN && decide (x.place = y.place)

def neg (x : Double) : Double := ofIndex (!x.isNegative) x.index

def toFloat (x : Double) : Float := Float.ofBits x.bits

def ofFloat (x : Float) : Double := ⟨x.toBits⟩

instance : Neg Double := ⟨neg⟩
instance : Add Double := ⟨fun x y => ofFloat (x.toFloat + y.toFloat)⟩
instance : Sub Double := ⟨fun x y => ofFloat (x.toFloat - y.toFloat)⟩
instance : Mul Double := ⟨fun x y => ofFloat (x.toFloat * y.toFloat)⟩
instance : Div Double := ⟨fun x y => ofFloat (x.toFloat / y.toFloat)⟩

theorem index_lt (x : Double) : x.index < Nat.pow 2 63 := Nat.mod_lt _ (by decide)

end Double

end Blockscript
