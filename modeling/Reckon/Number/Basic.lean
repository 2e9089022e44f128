import Reckon.Number.Decimal

/-!
The numbers of the language: whole numbers of any size and doubles. A whole
number and a double can be equal without being the same number. A whole number with
too many digits can be computed with, but is neither read nor written.
-/

namespace Reckon

inductive Number where
  | int (value : Int)
  | float (value : Binary64)
  deriving DecidableEq

namespace Number

/-- The most digits that a whole number is read or written with. -/
def maxDigits : Nat := 4300

/-- Whether a whole number has few enough digits to be written. -/
def Writable (i : Int) : Prop := (Nat.toDigits 10 i.natAbs).length ≤ maxDigits

instance : DecidablePred Writable := fun _ => inferInstanceAs (Decidable (_ ≤ maxDigits))

def intText (i : Int) : String :=
  (if i < 0 then "-" else "") ++ String.ofList (Nat.toDigits 10 i.natAbs)

/-- The text of a whole number, unless it is too long. -/
def intText? (i : Int) : Option String := if Writable i then some (intText i) else none

/-- All the digits of a number. -/
def text : Number → String
  | .int i => intText i
  | .float x => x.text

/-- What is written for a number; nothing is if the text is too long. -/
def text? : Number → Option String
  | .int i => intText? i
  | .float x => some x.text

/-- The name of the kind of number. -/
def typeName : Number → String
  | .int _ => "int"
  | .float _ => "float"

def isZero : Number → Bool
  | .int i => i == 0
  | .float x => x.isZero

def isBelowZero : Number → Bool
  | .int i => i < 0
  | .float x => x.isBelowZero

/-- Exact numerical equality, across the two kinds. -/
def eq : Number → Number → Bool
  | .int i, .int j => i == j
  | .int i, .float y => y.eqInt i
  | .float x, .int j => x.eqInt j
  | .float x, .float y => x.eq y

def neg : Number → Number
  | .int i => .int (-i)
  | .float x => .float x.neg

end Number

end Reckon
