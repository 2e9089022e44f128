/-!
Double-precision numbers over exact arithmetic. A finite number is a sign and a
count of units of `2 ^ -1074`, the least positive double, so every sum, product
and quotient is first an exact ratio of counts and then rounded once, to the
nearest representable count with a half going to the even neighbour.

Only `hardwarePow` leaves exact arithmetic.
-/

namespace Reckon

namespace Powers

/-- The powers that are meant here, whatever other ones are in scope. -/
scoped instance (priority := high) core {α : Type} [NatPow α] : Pow α Nat := instPowNat

end Powers

open Powers

namespace Binary64

/-- How many units make one. -/
def one : Nat := 2 ^ (1074 : Nat)

/-- The first count that is out of range, `2 ^ 1024` in units. -/
def overflow : Nat := 2 ^ (2098 : Nat)

/-- The low bits that a count of this size leaves clear: 53 bits are significant. -/
def spareBits (n : Nat) : Nat := n.log2 - 52

def Representable (n : Nat) : Prop := n < overflow ∧ 2 ^ spareBits n ∣ n

instance (n : Nat) : Decidable (Representable n) := inferInstanceAs (Decidable (_ ∧ _))

theorem overflow_pos : 0 < overflow := by
  rw [overflow]
  apply Nat.two_pow_pos

theorem representable_zero : Representable 0 := ⟨overflow_pos, Nat.dvd_zero _⟩

end Binary64

inductive Binary64 where
  | finite (negative : Bool) (units : Nat) (fits : Binary64.Representable units)
  | infinite (negative : Bool)
  | nan
  deriving DecidableEq

namespace Binary64

/-- `num / den` to the nearest integer, a half going to the even one. -/
def divNearest (num den : Nat) : Nat :=
  let q := num / den
  let r := num % den
  if 2 * r < den ∨ (2 * r = den ∧ q % 2 = 0) then q else q + 1

/-- The count nearest to `num / den` among those with 53 significant bits. -/
def nearest (num den : Nat) : Nat :=
  let spare := spareBits (num / den)
  divNearest num (den * 2 ^ spare) * 2 ^ spare

theorem divNearest_le (num den : Nat) : divNearest num den ≤ num / den + 1 := by
  unfold divNearest
  dsimp only
  split <;> omega

private theorem spare_dvd_of_le {x spare : Nat} (h : x ≤ 2 ^ (53 : Nat)) :
    2 ^ spareBits (x * 2 ^ spare) ∣ x * 2 ^ spare := by
  rcases Nat.eq_or_lt_of_le h with rfl | hlt
  · rw [← Nat.pow_add]
    apply Nat.pow_dvd_pow
    unfold spareBits
    rw [Nat.log2_two_pow]
    omega
  · refine Nat.dvd_trans (Nat.pow_dvd_pow 2 ?_) (Nat.dvd_mul_left _ _)
    unfold spareBits
    by_cases hz : x * 2 ^ spare = 0
    · simp [hz]
    · have : (x * 2 ^ spare).log2 < 53 + spare := by
        rw [Nat.log2_lt hz, Nat.pow_add]
        exact Nat.mul_lt_mul_of_pos_right hlt (Nat.two_pow_pos _)
      omega

theorem divNearest_spare_le (num den : Nat) :
    divNearest num (den * 2 ^ spareBits (num / den)) ≤ 2 ^ (53 : Nat) := by
  refine Nat.le_trans (divNearest_le _ _) ?_
  rw [← Nat.div_div_eq_div_mul]
  suffices num / den / 2 ^ spareBits (num / den) < 2 ^ (53 : Nat) by omega
  rw [Nat.div_lt_iff_lt_mul (Nat.two_pow_pos _), ← Nat.pow_add]
  refine Nat.lt_of_lt_of_le Nat.lt_log2_self (Nat.pow_le_pow_right (by decide) ?_)
  unfold spareBits
  omega

theorem spare_dvd_nearest (num den : Nat) :
    2 ^ spareBits (nearest num den) ∣ nearest num den :=
  spare_dvd_of_le (divNearest_spare_le num den)

/-- The double nearest to `num / den` units. -/
def ofUnits (negative : Bool) (num den : Nat) : Binary64 :=
  if h : nearest num den < overflow then
    .finite negative (nearest num den) ⟨h, spare_dvd_nearest num den⟩
  else .infinite negative

/-- The double nearest to the ratio `num / den`. -/
def ofRatio (negative : Bool) (num den : Nat) : Binary64 := ofUnits negative (num * one) den

def ofInt (i : Int) : Binary64 := ofRatio (i < 0) i.natAbs 1

def zero (negative : Bool) : Binary64 := .finite negative 0 representable_zero

def isInfinite : Binary64 → Bool
  | .infinite _ => true
  | _ => false

def isZero : Binary64 → Bool
  | .finite _ units _ => units == 0
  | _ => false

/-- Whether the number is below zero, which neither a zero nor `nan` is. -/
def isBelowZero : Binary64 → Bool
  | .finite negative units _ => negative && units != 0
  | .infinite negative => negative
  | .nan => false

def neg : Binary64 → Binary64
  | .finite negative units fits => .finite (!negative) units fits
  | .infinite negative => .infinite (!negative)
  | .nan => .nan

def abs : Binary64 → Binary64
  | .finite _ units fits => .finite false units fits
  | .infinite _ => .infinite false
  | .nan => .nan

/-- The count of units with its sign; the two zeros agree. -/
def signed (negative : Bool) (units : Nat) : Int := if negative then -units else units

/-- An exact zero sum is negative only if both terms are. -/
def add : Binary64 → Binary64 → Binary64
  | .finite s m _, .finite t n _ =>
    let sum := signed s m + signed t n
    if sum = 0 then zero (s && t) else ofUnits (sum < 0) sum.natAbs 1
  | .infinite s, .infinite t => if s = t then .infinite s else .nan
  | .infinite s, .finite .. => .infinite s
  | .finite .., .infinite t => .infinite t
  | .nan, _ => .nan
  | _, .nan => .nan

def sub (x y : Binary64) : Binary64 := add x y.neg

def mul : Binary64 → Binary64 → Binary64
  | .finite s m _, .finite t n _ => ofUnits (s != t) (m * n) one
  | .infinite s, .infinite t => .infinite (s != t)
  | .infinite s, .finite t n _ => if n = 0 then .nan else .infinite (s != t)
  | .finite s m _, .infinite t => if m = 0 then .nan else .infinite (s != t)
  | .nan, _ => .nan
  | _, .nan => .nan

/-- The quotient by a divisor that is not zero. -/
def div : Binary64 → Binary64 → Binary64
  | .finite s m _, .finite t n _ => ofUnits (s != t) (m * one) n
  | .infinite _, .infinite _ => .nan
  | .infinite s, .finite t _ _ => .infinite (s != t)
  | .finite s _ _, .infinite t => zero (s != t)
  | .nan, _ => .nan
  | _, .nan => .nan

/-- Numerical equality: the two zeros are equal and `nan` equals nothing. -/
def eq : Binary64 → Binary64 → Bool
  | .finite s m _, .finite t n _ => signed s m == signed t n
  | .infinite s, .infinite t => s == t
  | _, _ => false

/-- Exact comparison with an integer. -/
def eqInt : Binary64 → Int → Bool
  | .finite s m _, i => signed s m == i * one
  | _, _ => false

def isInteger : Binary64 → Bool
  | .finite _ units _ => units % one == 0
  | _ => false

def isOddInteger : Binary64 → Bool
  | .finite _ units _ => units % (2 * one) == one
  | _ => false

/-- The interchange encoding: sign, exponent field, fraction. The exponent field
counts the spare bits of a normal number from one, so the leading bit of its
significand carries into the field. -/
def toBits : Binary64 → UInt64
  | .finite s units _ =>
    let spare := spareBits units
    UInt64.ofNat ((if s then 2 ^ (63 : Nat) else 0) + spare * 2 ^ (52 : Nat) + units / 2 ^ spare)
  | .infinite s => if s then 0xFFF0000000000000 else 0x7FF0000000000000
  | .nan => 0x7FF8000000000000

def ofBits (bits : UInt64) : Binary64 :=
  let negative := bits.toNat / 2 ^ (63 : Nat) == 1
  let field := bits.toNat / 2 ^ (52 : Nat) % 2 ^ (11 : Nat)
  let fraction := bits.toNat % 2 ^ (52 : Nat)
  if field = 2047 then (if fraction = 0 then .infinite negative else .nan)
  else if field = 0 then ofUnits negative fraction 1
  else ofUnits negative ((2 ^ (52 : Nat) + fraction) * 2 ^ (field - 1)) 1

/-- The machine's power function on a positive base. -/
def hardwarePow (x y : Binary64) : Binary64 :=
  ofBits (Float.pow (Float.ofBits x.toBits) (Float.ofBits y.toBits)).toBits

end Binary64

end Reckon
