import Blockscript.Double.Decimal

/-!
The values a program computes with, their text and their two equalities.
-/
namespace Blockscript

inductive Value where
  | nil
  | bool (b : Bool)
  | number (x : Double)
  | string (s : String)
  deriving DecidableEq, Repr

namespace Value

def text : Value → String
  | nil => "nil"
  | bool true => "true"
  | bool false => "false"
  | number x => x.text
  | string s => s

def isTruthy : Value → Bool
  | nil => false
  | bool b => b
  | _ => true

/-- Equality of the language: values of two types differ, and every NaN equals every NaN. -/
def equals : Value → Value → Bool
  | nil, nil => true
  | bool a, bool b => a == b
  | number x, number y => (x.isNaN && y.isNaN) || x.ieeeEq y
  | string s, string t => s == t
  | _, _ => false

/-- Equality of stored data: as `equals`, but a NaN differs from itself. -/
def ieeeEq : Value → Value → Bool
  | nil, nil => true
  | bool a, bool b => a == b
  | number x, number y => x.ieeeEq y
  | string s, string t => s == t
  | _, _ => false

end Value

end Blockscript
