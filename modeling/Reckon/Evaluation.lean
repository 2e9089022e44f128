import Reckon.Diagnostic
import Reckon.Number.Arithmetic
import Reckon.Tree.Printer

/-!
The value of a tree. Whole results are bounded in width, and the exponent of a power
of whole numbers is bounded too, so that no power is computed only to be rejected
for its size. An error blames the node that is at fault.
-/

namespace Reckon

inductive EvalError.Cause where
  | divisionByZero
  | overflow
  /-- The limit is one that can be written. -/
  | exponentTooLarge (limit : Int) (h : Number.Writable limit)
  | notReal
  deriving DecidableEq

structure EvalError where
  cause : EvalError.Cause
  node : Tree
  deriving DecidableEq

namespace EvalError

def code (e : EvalError) : String :=
  match e.cause with
  | .divisionByZero => "R001"
  | .overflow => "R002"
  | .exponentTooLarge .. => "R003"
  | .notReal => "R004"

def message (e : EvalError) : String :=
  match e.cause with
  | .divisionByZero => "Division by zero"
  | .overflow => "Result is too large to represent"
  | .exponentTooLarge limit _ => "Integer exponent exceeds " ++ Number.intText limit
  | .notReal => "Result is not a real number"

def help? (e : EvalError) : Option String :=
  match e.cause with
  | .divisionByZero => some "The right operand evaluated to 0."
  | .overflow => none
  | .exponentTooLarge .. => some "Use a decimal base (e.g. 2.0) for a floating point result."
  | .notReal => some "A negative base cannot be raised to a fractional power."

def diagnostic (e : EvalError) : Diagnostic :=
  ⟨"RuntimeError", e.message, e.node.start, e.node.stop, e.code, e.help?⟩

end EvalError

/-- The operations on two numbers. -/
inductive Operation where
  | add
  | sub
  | mul
  | div
  | pow
  deriving DecidableEq

namespace Operation

/-- What is no other operator is taken for a power. -/
def ofTag : Tag → Operation
  | .plus => add
  | .minus => sub
  | .mul => mul
  | .div => div
  | _ => pow

/-- The node to blame, seen from the operation. -/
inductive Blame where
  | left
  | right
  | whole
  deriving DecidableEq

/-- Why an operation is refused. -/
inductive Refusal where
  | error (cause : EvalError.Cause) (blame : Blame)
  | defect (d : Tree.Defect)
  deriving DecidableEq

/-- An exponent above the limit is reported with the limit, if that can be written. -/
def Refusal.exponentAbove (limit : Int) : Refusal :=
  if h : Number.Writable limit then error (.exponentTooLarge limit h) .right
  else defect .tooManyDigits

def defaultMaxExponent : Int := 10000

/-- The widest whole result in bits. -/
def maxBits : Nat := 14284

def bitLength (i : Int) : Nat := if i = 0 then 0 else i.natAbs.log2 + 1

def refuse : Fault → Refusal
  | .overflow => .error .overflow .whole
  | .zeroDivision => .defect .zeroDivision
  | .notReal => .error .notReal .whole

/-- Refuses a power of zero with a negative exponent, and a power of whole numbers
whose exponent or result is too large. A base of `k + 1` bits is at least `2 ^ k`. -/
def checkPower (maxExponent : Int) (base exponent : Number) : Except Refusal Unit :=
  if base.isZero && exponent.isBelowZero then .error (.error .divisionByZero .left)
  else match base, exponent with
  | .int b, .int e =>
    if b.natAbs ≤ 1 then .ok ()
    else if maxExponent < e.natAbs then .error (.exponentAbove maxExponent)
    else if 0 < e ∧ maxBits ≤ (bitLength b - 1) * e.toNat then
      .error (.error .overflow .whole)
    else .ok ()
  | _, _ => .ok ()

def compute (op : Operation) (maxExponent : Int) (l r : Number) : Except Refusal Number :=
  match op with
  | .add => (l.add r).mapError refuse
  | .sub => (l.sub r).mapError refuse
  | .mul => (l.mul r).mapError refuse
  | .div =>
    if r.isZero then .error (.error .divisionByZero .right) else (l.div r).mapError refuse
  | .pow => do
    checkPower maxExponent l r
    (l.pow r).mapError refuse

/-- Whether a result is infinite or too wide. -/
def isTooLarge : Number → Bool
  | .int i => maxBits < bitLength i
  | .float x => x.isInfinite

def apply (op : Operation) (maxExponent : Int) (l r : Number) : Except Refusal Number := do
  let result ← op.compute maxExponent l r
  if isTooLarge result then .error (.error .overflow .whole) else .ok result

end Operation

namespace Tree

inductive Failure where
  | error (e : EvalError)
  | defect (d : Defect)
  deriving DecidableEq

/-- Only a minus sign changes the operand. -/
def evalUnary (op : Token) (operand : Option Number) : Except Failure (Option Number) :=
  match operand with
  | none => .error (.defect .noValue)
  | some v => .ok (some (if op.tag = .minus then v.neg else v))

def settle (left right whole : Tree) : Operation.Refusal → Failure
  | .error cause .left => .error ⟨cause, left⟩
  | .error cause .right => .error ⟨cause, right⟩
  | .error cause .whole => .error ⟨cause, whole⟩
  | .defect d => .defect d

/-- A division by zero is noticed even where the dividend is no number. -/
def evalBinary (maxExponent : Int) (left : Tree) (op : Token) (right : Tree) :
    Option Number → Option Number → Except Failure (Option Number)
  | some l, some r =>
    match (Operation.ofTag op.tag).apply maxExponent l r with
    | .ok v => .ok (some v)
    | .error refusal => .error (settle left right (.binary left op right) refusal)
  | none, some r =>
    if op.tag = .div && r.isZero then .error (.error ⟨.divisionByZero, right⟩)
    else .error (.defect .noValue)
  | _, none => .error (.defect .noValue)

/-- The value of the tree; a lone leaf may have none. -/
def evaluate (maxExponent : Int) (t : Tree) : Except Failure (Option Number) :=
  t.fold
    { number := fun token => pure token.value?
      unary := fun op _ x => evalUnary op x
      binary := fun l op r x y => evalBinary maxExponent l op r x y }
    (.error (.defect .noResult))

end Tree

end Reckon
