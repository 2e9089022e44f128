import Reckon.Number.Basic

/-!
Arithmetic on numbers. Whole numbers stay whole under sums, products and powers
with a non-negative exponent, and these are exact; everything else is done on
doubles. A whole number that has no double near it is an overflow.
-/

namespace Reckon

open Powers

/-- Why an operation has no result. -/
inductive Fault where
  | overflow
  | zeroDivision
  | notReal
  deriving DecidableEq

namespace Binary64

def unit : Binary64 := ofRatio false 1 1

/-- Compares the magnitude of a number with one. -/
def compareOne : Binary64 → Ordering
  | .finite _ units _ => compare units one
  | _ => .gt

/-- The power of a positive base that is neither one nor infinite. -/
def positivePow (x y : Binary64) : Except Fault Binary64 :=
  let z := hardwarePow x y
  if z.isInfinite then .error .overflow else .ok z

/-- Anything to the power zero is one, and so is one to any power. A negative base
has real powers for whole exponents only, and the odd ones keep its sign. -/
def pow (x y : Binary64) : Except Fault Binary64 :=
  if y.isZero then .ok unit
  else match x, y with
  | .nan, _ => .ok .nan
  | _, .nan => .ok (if x = unit then unit else .nan)
  | _, .infinite down => .ok <| match x.compareOne with
    | .eq => unit
    | .lt => if down then .infinite false else zero false
    | .gt => if down then zero false else .infinite false
  | .infinite s, .finite down .. =>
    let negative := s && y.isOddInteger
    .ok (if down then zero negative else .infinite negative)
  | .finite s units _, .finite down .. =>
    let negative := s && y.isOddInteger
    if units = 0 then
      if down then .error .zeroDivision else .ok (zero negative)
    else if s && !y.isInteger then do
      discard <| positivePow x.abs y
      .error .notReal
    else if x.compareOne = .eq then .ok (if negative then unit.neg else unit)
    else do
      let z ← positivePow x.abs y
      .ok (if negative then z.neg else z)

end Binary64

namespace Number

def toBinary64 : Number → Except Fault Binary64
  | .int i =>
    let x := Binary64.ofInt i
    if x.isInfinite then .error .overflow else .ok x
  | .float x => .ok x

def onDoubles (f : Binary64 → Binary64 → Binary64) (l r : Number) : Except Fault Number := do
  let x ← l.toBinary64
  let y ← r.toBinary64
  return .float (f x y)

def add : Number → Number → Except Fault Number
  | .int i, .int j => .ok (.int (i + j))
  | l, r => onDoubles Binary64.add l r

def sub : Number → Number → Except Fault Number
  | .int i, .int j => .ok (.int (i - j))
  | l, r => onDoubles Binary64.sub l r

def mul : Number → Number → Except Fault Number
  | .int i, .int j => .ok (.int (i * j))
  | l, r => onDoubles Binary64.mul l r

/-- The quotient of two whole numbers is their exact ratio, rounded once. -/
def div (l r : Number) : Except Fault Number :=
  if r.isZero then .error .zeroDivision
  else match l, r with
  | .int i, .int j =>
    let x := Binary64.ofRatio ((i < 0) != (j < 0)) i.natAbs j.natAbs
    if x.isInfinite then .error .overflow else .ok (.float x)
  | l, r => onDoubles Binary64.div l r

/-- `base ^ n`, at once for the bases whose powers do not grow. -/
def intPow (base : Int) (n : Nat) : Int :=
  if base = 0 then (if n = 0 then 1 else 0)
  else if base = 1 then 1
  else if base = -1 then (if n % 2 = 0 then 1 else -1)
  else base ^ n

theorem intPow_eq (base : Int) (n : Nat) : intPow base n = base ^ n := by
  unfold intPow
  split
  · subst base
    split
    · simp_all
    · exact (Int.zero_pow (by assumption)).symm
  · split
    · subst base
      exact (Int.one_pow).symm
    · split
      · subst base
        split
        · obtain ⟨k, rfl⟩ : ∃ k, n = 2 * k := ⟨n / 2, by omega⟩
          rw [Int.pow_mul]
          exact (Int.one_pow).symm
        · obtain ⟨k, rfl⟩ : ∃ k, n = 2 * k + 1 := ⟨n / 2, by omega⟩
          rw [Int.pow_succ, Int.pow_mul]
          exact (congrArg (· * (-1)) (Int.one_pow (n := k))).symm
      · rfl

def pow : Number → Number → Except Fault Number
  | .int i, .int (.ofNat n) => .ok (.int (intPow i n))
  | l, r => do
    let x ← l.toBinary64
    let y ← r.toBinary64
    return .float (← x.pow y)

end Number

end Reckon
