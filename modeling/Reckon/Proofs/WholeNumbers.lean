import Mathlib
import Reckon.Proofs.Safety
import Reckon.Proofs.Widths

/-!
Trees over whole numbers. Evaluation is exact arithmetic from the leaves up, left before right,
that stops at the first result of `2 ^ 14284` or more in magnitude or the first exponent above the
limit. This bound is below `10 ^ 4300`, the least number that cannot be written: everything that
comes out of an evaluation can be, but some results that could be written are refused.
-/

namespace Reckon

namespace Tree

/-- What an exponent above the limit comes to: an error that blames it and names the limit, or
else the limit has too many digits for that. -/
def exponentAbove (limit : Int) (exponent : Tree) : Failure :=
  if h : Number.Writable limit then .error ⟨.exponentTooLarge limit h, exponent⟩
  else .defect .tooManyDigits

theorem settle_exponentAbove (l r whole : Tree) (limit : Int) :
    settle l r whole (.exponentAbove limit) = exponentAbove limit r := by
  unfold Operation.Refusal.exponentAbove exponentAbove
  split <;> rfl

section
variable {maxExponent : Int} {l r : Tree} {op : Token} {o : ExactOp} {i j : Int}

/-- A node with an exact operation and whole operands is refused for its exponent, or for the
size of its exact result, or else has this result. -/
theorem evaluate_exact (hop : op.tag = o.tag) (hl : l.evaluate maxExponent = .ok (some (.int i)))
    (hr : r.evaluate maxExponent = .ok (some (.int j))) (hj : o = .power → 0 ≤ j) :
    (binary l op r).evaluate maxExponent =
      if o = .power ∧ 1 < |i| ∧ maxExponent < j then .error (exponentAbove maxExponent r)
      else if 2 ^ 14284 ≤ |o.result i j| then .error (.error ⟨.overflow, .binary l op r⟩)
      else .ok (some (.int (o.result i j))) := by
  rw [evaluate_binary, hl, hr]
  change evalBinary maxExponent l op r (some _) (some _) = _
  rw [evalBinary, hop, Operation.apply_int o maxExponent i hj,
    show (14284 : Nat) = Operation.maxBits from rfl]
  split_ifs
  · exact congrArg Except.error (settle_exponentAbove l r _ maxExponent)
  · rfl
  · rfl

end

/-! ### The reference -/

/-- A tree of whole numbers, signs and exact operations. -/
inductive Whole : Tree → Type where
  | number {token : Token} (i : Int) (h : token.kind = .number (.int i)) : Whole (.number token)
  | unary {op : Token} {x : Tree} (hop : Grammar.isSign op.tag) (w : Whole x) :
      Whole (.unary op x)
  | binary {l r : Tree} {op : Token} (o : ExactOp) (hop : op.tag = o.tag) (wl : Whole l)
      (wr : Whole r) : Whole (.binary l op r)

/-- The value by exact arithmetic, left before right, with a bound on exponents and one on
the magnitude of results. -/
def Whole.eval (maxExponent : Int) : {t : Tree} → Whole t → Except Failure Int
  | _, .number i _ => .ok i
  | .unary op _, .unary _ w => do
    let i ← w.eval maxExponent
    return if op.tag = .minus then -i else i
  | .binary l op r, .binary o _ wl wr => do
    let i ← wl.eval maxExponent
    let j ← wr.eval maxExponent
    if o = .power ∧ 1 < |i| ∧ maxExponent < j then .error (exponentAbove maxExponent r)
    else if 2 ^ 14284 ≤ |o.result i j| then .error (.error ⟨.overflow, .binary l op r⟩)
    else .ok (o.result i j)

section

end

/-! ### Bounds -/

theorem Proper.at? {t u : Tree} (h : Proper t) {path : List Branch}
    (hu : t.at? path = some u) : Proper u := by
  induction path generalizing t with
  | nil =>
    obtain rfl := Option.some.inj hu
    exact h
  | cons branch path ih =>
    cases h with
    | number h => cases branch <;> cases hu
    | unary hop hx =>
      cases branch with
      | operand => exact ih hx hu
      | left => cases hu
      | right => cases hu
    | binary hop hl hr =>
      cases branch with
      | operand => cases hu
      | left => exact ih hl hu
      | right => exact ih hr hu

theorem Proper.inBounds {t : Tree} (h : Proper t) {maxExponent : Int} {v : Number}
    (hv : t.evaluate maxExponent = .ok (some v)) : v.InBounds := by
  have hsettles := evaluate_settles h maxExponent
  rw [hv] at hsettles
  cases hsettles with
  | ok h =>
    obtain ⟨_, heq, hbounds⟩ := h
    obtain rfl := Option.some.inj heq
    exact hbounds

end Tree

theorem Number.abs_lt_of_inBounds {i : Int} (h : (Number.int i).InBounds) :
    |i| < 10 ^ Number.maxDigits := by
  rw [Number.inBounds_int] at h
  rw [Int.abs_eq_natAbs]
  exact_mod_cast h

/-- Whatever the limit on exponents, a whole number that a part of an expression comes to can be
written, one that is computed on the way, even if it is then refused, has at most 28570 bits, and
a double is not infinite. -/
theorem Expression.parts_in_bounds {source : Source} {limits : Limits} {t u : Tree}
    {path : List Tree.Branch} (h : parse source limits = .ok t) (hu : t.at? path = some u)
    (maxExponent : Int) :
    (∀ v : Int, u.evaluate maxExponent = .ok (some (.int v)) → |v| < 10 ^ 4300) ∧
    (∀ l op r x y (v : Int), u = .binary l op r → l.evaluate maxExponent = .ok (some x) →
      r.evaluate maxExponent = .ok (some y) →
      (Operation.ofTag op.tag).compute maxExponent x y = .ok (.int v) →
      Operation.bitLength v ≤ 28570) ∧
    ∀ x : Binary64, u.evaluate maxExponent = .ok (some (.float x)) → x.isInfinite = false := by
  have hproper := (Tree.proper_of_parse h).at? hu
  refine ⟨fun v hv => ?_, ?_, fun x hx => hproper.inBounds hx⟩
  · exact Number.abs_lt_of_inBounds (hproper.inBounds hv)
  · rintro l op r x y v rfl hl hr hv
    cases hproper with
    | binary hop hproperl hproperr =>
      exact Operation.bitLength_compute_le (hproperl.inBounds hl) (hproperr.inBounds hr) hv

section

/-- A factor of `4^7141*4^7141`, by where it starts. -/
private def widePower (n : Nat) : Tree :=
  .binary (.number (.spanning "4^7141*4^7141" (.number (.int 4)) n (n + 1)))
    (.spanning "4^7141*4^7141" .pow (n + 1) (n + 2))
    (.number (.spanning "4^7141*4^7141" (.number (.int 7141)) (n + 2) (n + 6)))

private def timesSign : Token := .spanning "4^7141*4^7141" .mul 6 7

private def squaredPower : Tree := .binary (widePower 0) timesSign (widePower 7)

private theorem evaluate_widePower (n : Nat) :
    (widePower n).evaluate 10000 = .ok (some (.int (ExactOp.power.result 4 7141))) := by
  rw [widePower, Tree.evaluate_exact (o := .power) rfl (Tree.evaluate_number _ _)
    (Tree.evaluate_number _ _) (by decide), if_neg (by decide), if_neg (by decide +kernel)]

/-- The product of the largest powers of four that pass is computed before it is refused. -/
theorem Expression.parts_in_bounds_squaredPower :
    parse "4^7141*4^7141" {} = .ok squaredPower ∧
      (∀ n, (widePower n).evaluate 10000 = .ok (some (.int (ExactOp.power.result 4 7141)))) ∧
      Operation.bitLength (ExactOp.power.result 4 7141 * ExactOp.power.result 4 7141) ≤ 28570 := by
  have hparse : parse "4^7141*4^7141" {} = .ok squaredPower := by cbv
  have hroot : squaredPower.at? [] = some squaredPower := rfl
  obtain ⟨-, hcomputed, -⟩ := parts_in_bounds hparse hroot 10000
  exact ⟨hparse, evaluate_widePower, hcomputed _ timesSign _ _ _ _ rfl (evaluate_widePower 0)
    (evaluate_widePower 7) rfl⟩

end

namespace Tree

/-- The node is refused for the size of its result. -/
def Overflows (maxExponent : Int) (t : Tree) : Prop :=
  ∃ e, t.evaluate maxExponent = .error (.error e) ∧ e.code = "R002"

section
variable {maxExponent : Int} {l r : Tree} {op : Token} {i j : Int}

/-- A sum, difference, product or power that the limit on exponents lets pass is refused exactly
from `2 ^ 14284` on, so the refusals are those of the results that cannot be written unless the
result lies between `2 ^ 14284` and `10 ^ 4300`. -/
theorem overflows_iff_wide (o : ExactOp) (hop : op.tag = o.tag)
    (hl : l.evaluate maxExponent = .ok (some (.int i)))
    (hr : r.evaluate maxExponent = .ok (some (.int j))) (hj : o = .power → 0 ≤ j)
    (hguard : ∀ e, (binary l op r).evaluate maxExponent = .error (.error e) → e.code ≠ "R003")
    (hwritten : (binary l op r).evaluate maxExponent ≠ .error (.defect .tooManyDigits)) :
    ((binary l op r).Overflows maxExponent ↔ 2 ^ 14284 ≤ |o.result i j|) ∧
    (|o.result i j| < 2 ^ 14284 →
      (binary l op r).evaluate maxExponent = .ok (some (.int (o.result i j)))) ∧
    (((binary l op r).Overflows maxExponent ↔ 10 ^ 4300 ≤ |o.result i j|) ↔
      ¬ (2 ^ 14284 ≤ |o.result i j| ∧ |o.result i j| < 10 ^ 4300)) := by
  have heval := evaluate_exact hop hl hr hj
  have hlow : ¬ (o = .power ∧ 1 < |i| ∧ maxExponent < j) := by
    intro hhigh
    rw [if_pos hhigh, exponentAbove] at heval
    split at heval
    · exact hguard _ heval rfl
    · exact hwritten heval
  rw [if_neg hlow] at heval
  have hiff : (binary l op r).Overflows maxExponent ↔ 2 ^ 14284 ≤ |o.result i j| := by
    rw [Overflows, heval]
    split_ifs with hwide
    · exact ⟨fun _ => hwide, fun _ => ⟨_, rfl, rfl⟩⟩
    · refine ⟨?_, fun h => absurd h hwide⟩
      rintro ⟨_, h, _⟩
      cases h
  refine ⟨hiff, fun hnarrow => ?_, ?_⟩
  · rw [heval, if_neg (not_le.mpr hnarrow)]
  · rw [hiff]
    have hgap : (2 : Int) ^ 14284 ≤ 10 ^ 4300 := by decide +kernel
    generalize (2 : Int) ^ 14284 = wide, (10 : Int) ^ 4300 = unwritable at *
    omega

end

/-- A leaf with half of the least number that is refused. -/
private def halfWide : Tree := .number (.spanning "" (.number (.int (2 ^ 14283))) 0 0)

private def plusSign : Token := .spanning "+" .plus 0 1

/-- The least result that is refused could be written. -/
theorem overflows_halfWide :
    halfWide.evaluate 0 = .ok (some (.int (2 ^ 14283))) ∧
      (binary halfWide plusSign halfWide).Overflows 0 ∧
      |ExactOp.sum.result (2 ^ 14283) (2 ^ 14283)| < 10 ^ 4300 := by
  have hhalf : halfWide.evaluate 0 = .ok (some (.int (2 ^ 14283))) := evaluate_number 0 _
  have hwide : (2 : Int) ^ 14284 ≤ |ExactOp.sum.result (2 ^ 14283) (2 ^ 14283)| := by
    decide +kernel
  have hsum : (binary halfWide plusSign halfWide).evaluate 0 =
      .error (.error ⟨.overflow, binary halfWide plusSign halfWide⟩) := by
    rw [evaluate_exact (o := .sum) rfl hhalf hhalf nofun, if_neg fun h => nomatch h.1]
    exact if_pos hwide
  have hguard : ∀ e, (binary halfWide plusSign halfWide).evaluate 0 = .error (.error e) →
      e.code ≠ "R003" := by
    intro e he
    obtain rfl := Failure.error.inj (Except.error.inj (hsum.symm.trans he))
    decide
  have hwritten : (binary halfWide plusSign halfWide).evaluate 0 ≠
      .error (.defect .tooManyDigits) := by
    rw [hsum]
    exact nofun
  obtain ⟨hiff, -, -⟩ := overflows_iff_wide .sum rfl hhalf hhalf nofun hguard hwritten
  exact ⟨hhalf, hiff.mpr hwide, by decide +kernel⟩

end Tree

namespace Scanner

/-- Every number that can be written is read again. -/
theorem numeralValue?_toDigits {n : Nat} (h : n < 10 ^ Number.maxDigits) :
    numeralValue? (Nat.toDigits 10 n) = some (.int n) := by
  have hpoint : '.' ∉ Nat.toDigits 10 n := by
    intro hmem
    exact absurd (Nat.isDigit_of_mem_toDigits (by decide) (by decide) hmem) (by decide)
  have hlength : (Nat.toDigits 10 n).length ≤ Number.maxDigits :=
    (Nat.length_toDigits_le_iff (by decide) (by decide)).mpr h
  have hshort :
      ¬ ((Nat.toDigits 10 n).isEmpty || Number.maxDigits < (Nat.toDigits 10 n).length) = true := by
    simp [Nat.toDigits_ne_nil, hlength]
  rw [numeralValue?_whole hpoint, if_neg hshort,
    Nat.ofDigitChars_toDigits (by decide) (by decide)]

end Scanner

namespace Expression

/-- The tree of `4^7142`. -/
private def refusedPower : Tree :=
  .binary (.number (.spanning "4^7142" (.number (.int 4)) 0 1))
    (.spanning "4^7142" .pow 1 2)
    (.number (.spanning "4^7142" (.number (.int 7142)) 2 6))

/-- The result of `4^7142` is refused, although it has no more than 4300 digits and is read
where it is written out. -/
theorem evaluate_refusedPower :
    evaluate "4^7142" {} = .error (.error (.eval ⟨.overflow, refusedPower⟩)) ∧
      (4 : Int) ^ 7142 < 10 ^ 4300 ∧
      Scanner.numeralValue? (Nat.toDigits 10 (4 ^ 7142)) = some (.int (4 ^ 7142 : Nat)) := by
  have hparse : parse "4^7142" {} = .ok refusedPower := by cbv
  have hwide : (2 : Int) ^ 14284 ≤ |ExactOp.power.result 4 7142| := by decide +kernel
  refine ⟨?_, by decide +kernel, Scanner.numeralValue?_toDigits (by decide +kernel)⟩
  rw [evaluate_of_parse hparse, evaluateTree, refusedPower,
    Tree.evaluate_exact (o := .power) rfl (Tree.evaluate_number _ _) (Tree.evaluate_number _ _)
      (by decide), if_neg (by decide), if_pos hwide]
  rfl

end Expression

end Reckon
