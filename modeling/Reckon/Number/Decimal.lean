import Reckon.Number.Binary64
import Reckon.Text.Integer

/-!
Decimal text of doubles. `Decimal.shortest` picks, of the decimals that read back
as the given double, one with the fewest digits, and of those the nearest;
`Binary64.text` lays it out, and `Binary64.ofText?` reads any spelling of a double.
-/

namespace Reckon

open Powers

/-- The number `digits * 10 ^ exponent`. -/
structure Decimal where
  digits : Nat
  exponent : Int
  deriving DecidableEq

namespace Decimal

/-- `num / den` divided by `10 ^ e`, as numerator and denominator. -/
def scale (num den : Nat) (e : Int) : Nat × Nat :=
  if e < 0 then (num * 10 ^ (-e).toNat, den) else (num, den * 10 ^ e.toNat)

/-- The decimal in units of `2 ^ -1074`, as numerator and denominator. -/
def units (d : Decimal) : Nat × Nat := scale (d.digits * Binary64.one) 1 (-d.exponent)

def toBinary64 (negative : Bool) (d : Decimal) : Binary64 :=
  Binary64.ofUnits negative d.units.1 d.units.2

/-- Whether the decimal is read as this count of units. -/
def readsAs (d : Decimal) (units : Nat) : Bool :=
  Binary64.nearest d.units.1 d.units.2 == units

/-- The least `k` from a given one on with `n < 10 ^ k`, after so many steps at most. -/
def digitCountFrom (n : Nat) : Nat → Nat → Nat
  | 0, k => k
  | steps + 1, k => if n < 10 ^ k then k else digitCountFrom n steps (k + 1)

/-- How many decimal digits a number has. The count starts from three digits for every
ten bits, which is never too many. -/
def digitCount (n : Nat) : Nat := digitCountFrom n (n.log2 + 1) (n.log2 * 3 / 10)

/-- The power of ten of the leading digit of a positive count of units. One unit
is above `10 ^ -324`. -/
def leading (units : Nat) : Int :=
  (digitCount (units * 10 ^ (324 : Nat) / Binary64.one) : Int) - 325

/-- Of the two multiples of `10 ^ e` next to a count of units, the one that reads
back as it; if both do, the nearer one, and of two equally near the even one. -/
def onGrid? (units : Nat) (e : Int) : Option Decimal :=
  let (num, den) := scale units Binary64.one e
  let low : Decimal := ⟨num / den, e⟩
  let high : Decimal := ⟨num / den + 1, e⟩
  match low.readsAs units, high.readsAs units with
  | true, true => some ⟨Binary64.divNearest num den, e⟩
  | true, false => some low
  | false, true => some high
  | false, false => none

/-- All the digits of a count of units. -/
def exact (units : Nat) : Decimal := ⟨units * 5 ^ (1074 : Nat), -1074⟩

/-- The coarsest of 17 grids with a decimal that reads back. -/
def shortest (units : Nat) : Decimal :=
  let top := leading units
  ((List.range 17).findSome? fun (k : Nat) => onGrid? units (top - k)).getD (exact units)

/-- The point stands after this many digits at most in positional notation. -/
def widestWhole : Int := 16

/-- This many zeros at most stand between the point and the first digit. -/
def mostLeadingZeros : Int := 3

/-- A written exponent has a sign and at least two digits. -/
def exponentText (e : Int) : List Char :=
  let digits := Nat.toDigits 10 e.natAbs
  'e' :: (if e < 0 then '-' else '+') :: (if digits.length < 2 then '0' :: digits else digits)

/-- The text of significant digits whose decimal point stands after the first
`point` of them. A whole number keeps a zero after the point. -/
def layout (digits : List Char) (point : Int) : List Char :=
  if widestWhole < point ∨ point < -mostLeadingZeros then
    let mantissa := match digits with
      | d :: e :: rest => d :: '.' :: e :: rest
      | _ => digits
    mantissa ++ exponentText (point - 1)
  else if point ≤ 0 then
    '0' :: '.' :: List.replicate (-point).toNat '0' ++ digits
  else
    let whole := point.toNat
    digits.take whole ++ List.replicate (whole - digits.length) '0' ++
      '.' :: (if digits.length ≤ whole then ['0'] else digits.drop whole)

def text (d : Decimal) : String :=
  let digits := Nat.toDigits 10 d.digits
  let significant := (digits.reverse.dropWhile (· == '0')).reverse
  String.ofList (layout significant (digits.length + d.exponent))

end Decimal

namespace Binary64

def text : Binary64 → String
  | .finite negative units _ =>
    (if negative then "-" else "") ++ if units = 0 then "0.0" else (Decimal.shortest units).text
  | .infinite negative => if negative then "-inf" else "inf"
  | .nan => "nan"

end Binary64

namespace Decimal

/-- The value of the digits before and after a point. -/
def ofDigits (whole fraction : List Char) : Decimal :=
  ⟨Nat.ofDigitChars 10 (whole ++ fraction) 0, -(fraction.length : Int)⟩

/-- A decimal this far from one is infinite or zero as a double. -/
def farExponent : Int := 400

/-- Rounds without computing the powers of ten of a decimal that is far out of range. -/
def toBinary64Clamped (negative : Bool) (d : Decimal) : Binary64 :=
  let point : Int := digitCount d.digits + d.exponent
  if d.digits = 0 ∨ point < -farExponent then Binary64.zero negative
  else if farExponent < point then .infinite negative
  else d.toBinary64 negative

end Decimal

namespace Binary64

/-- Removes a sign in front. -/
def splitSign : List Char → Bool × List Char
  | '-' :: rest => (true, rest)
  | '+' :: rest => (false, rest)
  | rest => (false, rest)

def readExponent? (cs : List Char) : Option Int :=
  let (negative, digits) := splitSign cs
  if digits.isEmpty || !digits.all Char.isDigit then none
  else
    let e : Int := Nat.ofDigitChars 10 digits 0
    some (if negative then -e else e)

/-- Digits around an optional point, then an optional exponent. -/
def readDecimal? (cs : List Char) : Option Decimal := do
  let whole := cs.takeWhile Char.isDigit
  let afterWhole := cs.dropWhile Char.isDigit
  let (fraction, rest) := match afterWhole with
    | '.' :: more => (more.takeWhile Char.isDigit, more.dropWhile Char.isDigit)
    | _ => ([], afterWhole)
  guard !(whole ++ fraction).isEmpty
  let d := Decimal.ofDigits whole fraction
  match rest with
  | [] => some d
  | c :: more =>
    guard (c == 'e' || c == 'E')
    let e ← readExponent? more
    some ⟨d.digits, d.exponent + e⟩

/-- Reads a double in any usual spelling, the names of the special values included. -/
def ofText? (s : String) : Option Binary64 := do
  let cs ← Text.joinDigits? false (Text.asciiDigits (Text.trimBoth Text.isSpace s.toList))
  let (negative, body) := splitSign cs
  match String.ofList (body.map Char.toLower) with
  | "nan" => some .nan
  | "inf" | "infinity" => some (.infinite negative)
  | _ => (readDecimal? body).map (Decimal.toBinary64Clamped negative)

end Binary64

end Reckon
