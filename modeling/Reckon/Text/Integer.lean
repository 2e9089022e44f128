import Reckon.Text.Blank
import Reckon.Text.DecimalDigit

/-!
Numbers as people type them: spaces around, a sign, digits of any script, and single
underscores between digits.
-/

namespace Reckon.Text

/-- The values of digits, with an underscore allowed before any but the first. -/
def digitValues? : List Char → Option (List Nat)
  | [] => some []
  | '_' :: c :: cs => do
    let d ← digitValue? c
    let ds ← digitValues? cs
    pure (d :: ds)
  | c :: cs => do
    let d ← digitValue? c
    let ds ← digitValues? cs
    pure (d :: ds)

/-- The longest number that is read, in digits. -/
def maxTypedDigits : Nat := 4300

def natural? (cs : List Char) : Option Nat := do
  guard (cs.head? != none && cs.head? != some '_')
  let ds ← digitValues? cs
  guard (ds.length ≤ maxTypedDigits)
  pure (ds.foldl (fun n d => 10 * n + d) 0)

def integer? (s : String) : Option Int :=
  match trimBoth isSpace s.toList with
  | '-' :: cs => (natural? cs).map fun n => -(n : Int)
  | '+' :: cs => (natural? cs).map Int.ofNat
  | cs => (natural? cs).map Int.ofNat

/-- The text with an ASCII digit for each digit of any script. -/
def asciiDigits (cs : List Char) : List Char :=
  cs.map fun c => match digitValue? c with
    | some d => Char.ofNat ('0'.toNat + d)
    | none => c

/-- The text without its underscores, which have to stand between two digits. -/
def joinDigits? (afterDigit : Bool) : List Char → Option (List Char)
  | [] => some []
  | '_' :: c :: cs =>
    if afterDigit && c.isDigit then (joinDigits? true cs).map (c :: ·) else none
  | c :: cs => if c == '_' then none else (joinDigits? c.isDigit cs).map (c :: ·)

end Reckon.Text
