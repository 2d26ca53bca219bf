import Blockscript.Double.Shortest

/-!
Decimal text of numbers. Writing is always positional, with as many zeros as
needed, and never ends in a point or in `.0`. Reading takes digits with an
optional fraction; signs and exponents are not part of a numeral.
-/
namespace Blockscript.Double

def positional (digits k : Nat) : List Char :=
  let written := Nat.toDigits 10 digits
  if 1074 ≤ k then written ++ List.replicate (k - 1074) '0'
  else
    let places := 1074 - k
    let padded := List.replicate (places + 1 - written.length) '0' ++ written
    padded.take (padded.length - places) ++ '.' :: padded.drop (padded.length - places)

def magnitudeText (index : Nat) : List Char :=
  if infinityIndex < index then ['N', 'a', 'N']
  else if index = infinityIndex then ['i', 'n', 'f']
  else if index = 0 then ['0']
  else positional (decimal index).1 (decimal index).2

/-- Every NaN is written without a sign, and zero with it. -/
def text (x : Double) : String :=
  String.ofList (if x.isNegative && !x.isNaN then '-' :: magnitudeText x.index
    else magnitudeText x.index)

def digitValue (c : Char) : Nat := c.toNat - '0'.toNat

def digitsValue (digits : List Char) : Nat :=
  digits.foldl (fun n c => 10 * n + digitValue c) 0

def ofDigits (whole fraction : List Char) : Double :=
  ofRatio (digitsValue (whole ++ fraction)) (Nat.pow 10 fraction.length)

def ofNumeral (numeral : List Char) : Double :=
  ofDigits (numeral.takeWhile (· != '.')) ((numeral.dropWhile (· != '.')).drop 1)

end Blockscript.Double
