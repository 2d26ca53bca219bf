import Blockscript.Double.Decimal

/-!
Texts taken for numbers. Digits spell a number, with a point among them or beside them, a sign in
front and a power of ten behind; so do the words for infinity and NaN. Other texts spell none.
-/
namespace Blockscript.Double

def splitSign : List Char → Bool × List Char
  | '-' :: rest => (true, rest)
  | '+' :: rest => (false, rest)
  | rest => (false, rest)

def splitFraction : List Char → List Char × List Char
  | '.' :: rest => (rest.takeWhile Char.isDigit, rest.dropWhile Char.isDigit)
  | rest => ([], rest)

def exponent? : List Char → Option Int
  | [] => some 0
  | mark :: rest =>
    let (negative, digits) := splitSign rest
    if mark.toLower = 'e' && !digits.isEmpty && digits.all Char.isDigit then
      some (if negative then -digitsValue digits else digitsValue digits)
    else none

def scaled (whole fraction : List Char) (exponent : Int) : Double :=
  let power := exponent - fraction.length
  ofRatio (digitsValue (whole ++ fraction) * Nat.pow 10 power.toNat) (Nat.pow 10 (-power).toNat)

def ofUnsigned? (text : List Char) : Option Double :=
  let word := text.map Char.toLower
  if word = "inf".toList || word = "infinity".toList then some (ofIndex false infinityIndex)
  else if word = "nan".toList then some (ofIndex false quietIndex)
  else
    let whole := text.takeWhile Char.isDigit
    let (fraction, behind) := splitFraction (text.dropWhile Char.isDigit)
    if whole.isEmpty && fraction.isEmpty then none
    else (exponent? behind).map (scaled whole fraction)

/-- The number that a text spells, if it spells one. -/
def ofText? (text : List Char) : Option Double :=
  let (negative, rest) := splitSign text
  (ofUnsigned? rest).map fun x => if negative then -x else x

end Blockscript.Double
