import Mathlib
import Reckon.Proofs.Traversal
import Reckon.Proofs.WholeNumbers

/-!
Where an error comes from. Evaluation fails at the first node, operands before the node and left
before right, whose operands have values that its operation refuses; the error is that of this
node, and it blames the operand that is at fault or else the node itself.
-/

namespace Reckon

theorem Number.isZero_iff_eq (v : Number) : v.isZero = true ↔ v.eq (.int 0) = true := by
  cases v with
  | int i => rfl
  | float x =>
    cases x with
    | finite s m fits =>
      change (m == 0) = true ↔ (Binary64.signed s m == 0 * (Binary64.one : Int)) = true
      rw [zero_mul, beq_iff_eq, beq_iff_eq, Binary64.signed]
      split <;> omega
    | infinite s => rfl
    | nan => rfl

namespace Operation

/-- Why an operation on two numbers is refused. Only a division by zero and a large exponent are
the fault of one of the operands. -/
inductive Grounds (maxExponent : Int) (x y : Number) : Operation → Refusal → Prop where
  | zeroDivisor (hy : y.isZero) : Grounds maxExponent x y .div (.error .divisionByZero .right)
  | zeroBase (hx : x.isZero) (hy : y.isBelowZero) :
      Grounds maxExponent x y .pow (.error .divisionByZero .left)
  | largeExponent {i j : Int} (hx : x = .int i) (hy : y = .int j) (hi : 1 < |i|)
      (hj : maxExponent < |j|) :
      Grounds maxExponent x y .pow (.exponentAbove maxExponent)
  | overflow (op : Operation) : Grounds maxExponent x y op (.error .overflow .whole)
  | notReal : Grounds maxExponent x y .pow (.error .notReal .whole)

variable (maxExponent : Int) (x y : Number)

theorem checkPower_grounds :
    Settles (fun _ => (x.isZero && y.isBelowZero) = false) (Grounds maxExponent x y .pow)
      (checkPower maxExponent x y) := by
  unfold checkPower
  refine .ite (fun hzero => ?_) fun hzero => ?_
  · rw [Bool.and_eq_true] at hzero
    exact .error (.zeroBase hzero.1 hzero.2)
  · rw [Bool.not_eq_true] at hzero
    split
    · next i j =>
      refine .ite (fun _ => .ok hzero) fun hi => .ite (fun hj => ?_) fun _ => ?_
      · refine .error (.largeExponent rfl rfl ?_ ?_)
        · rw [Int.abs_eq_natAbs]
          omega
        · rwa [Int.abs_eq_natAbs]
      · exact .ite (fun _ => .error (.overflow .pow)) fun _ => .ok hzero
    · exact .ok hzero

theorem compute_grounds (op : Operation) :
    Settles (fun _ => True) (Grounds maxExponent x y op) (op.compute maxExponent x y) := by
  have hoverflow : ∀ (op : Operation) f, f = .overflow → Grounds maxExponent x y op (refuse f) := by
    rintro op f rfl
    exact .overflow op
  cases op with
  | add => exact (x.add_settles y).mapError (hoverflow .add)
  | sub => exact (x.sub_settles y).mapError (hoverflow .sub)
  | mul => exact (x.mul_settles y).mapError (hoverflow .mul)
  | div =>
    refine .ite (fun hzero => .error (.zeroDivisor hzero)) fun hzero => ?_
    exact (Number.div_settles (by simpa using hzero)).mapError (hoverflow .div)
  | pow =>
    refine (checkPower_grounds maxExponent x y).bind fun _ hzero => ?_
    refine (Number.pow_settles hzero).mapError fun f hf => ?_
    cases f with
    | overflow => exact .overflow .pow
    | zeroDivision => exact absurd rfl hf
    | notReal => exact .notReal

theorem apply_grounds (op : Operation) :
    Settles (fun _ => True) (Grounds maxExponent x y op) (op.apply maxExponent x y) :=
  (compute_grounds maxExponent x y op).bind fun _ _ =>
    .ite (fun _ => .error (.overflow op)) fun _ => .ok trivial

end Operation

namespace Tree

/-- Numbers at the leaves, signs in front of operands and operators between them. -/
inductive Numeric : Tree → Prop where
  | number {token : Token} {v : Number} (h : token.kind = .number v) : Numeric (.number token)
  | unary {op : Token} {x : Tree} (hop : Grammar.isSign op.tag) (hx : Numeric x) :
      Numeric (.unary op x)
  | binary {l r : Tree} {op : Token} {c : Char} (hop : op.tag.symbol? = some c) (hl : Numeric l)
      (hr : Numeric r) : Numeric (.binary l op r)

/-- Whether evaluation of the tree by itself fails. -/
def fails (maxExponent : Int) (t : Tree) : Bool := !(t.evaluate maxExponent).isOk

/-- The node that a failure comes from: its operands have values, but its operation refuses
them. -/
inductive Origin (maxExponent : Int) (failure : Failure) : Tree → Prop where
  | refused {l r : Tree} {op : Token} {c : Char} {x y : Number} {refusal : Operation.Refusal}
      (hop : op.tag.symbol? = some c) (hl : l.evaluate maxExponent = .ok (some x))
      (hr : r.evaluate maxExponent = .ok (some y))
      (hrefusal : (Operation.ofTag op.tag).apply maxExponent x y = .error refusal)
      (hfailure : settle l r (.binary l op r) refusal = failure) :
      Origin maxExponent failure (.binary l op r)

variable {maxExponent : Int}

theorem Origin.evaluate {failure : Failure} {n : Tree} (h : Origin maxExponent failure n) :
    n.evaluate maxExponent = .error failure := by
  cases h with
  | refused hop hl hr hrefusal hfailure =>
    rw [evaluate_binary, hl, hr]
    change evalBinary maxExponent _ _ _ (some _) (some _) = _
    rw [evalBinary, hrefusal]
    exact congrArg Except.error hfailure

/-- How evaluation ends: with a value if no node fails, and otherwise as the first node that
does. -/
inductive Traced (maxExponent : Int) (t : Tree) : Prop where
  | value {v : Number} (hv : t.evaluate maxExponent = .ok (some v))
      (hnodes : t.postorder.find? (fails maxExponent) = none) : Traced maxExponent t
  | failure {failure : Failure} {n : Tree}
      (hn : t.postorder.find? (fails maxExponent) = some n)
      (horigin : Origin maxExponent failure n)
      (hfailure : t.evaluate maxExponent = .error failure) : Traced maxExponent t

theorem find?_of_value {t : Tree} {v : Number} (h : t.evaluate maxExponent = .ok (some v)) :
    [t].find? (fails maxExponent) = none := by
  simp [fails, h, Except.isOk, Except.toBool]

theorem find?_of_error {t : Tree} {failure : Failure}
    (h : t.evaluate maxExponent = .error failure) : [t].find? (fails maxExponent) = some t := by
  simp [fails, h, Except.isOk, Except.toBool]

theorem traced_binary {l r : Tree} {op : Token} {c : Char} (hop : op.tag.symbol? = some c)
    {x y : Number} (hl : l.evaluate maxExponent = .ok (some x))
    (hr : r.evaluate maxExponent = .ok (some y))
    (hnodes : (l.postorder ++ r.postorder).find? (fails maxExponent) = none) :
    Traced maxExponent (.binary l op r) := by
  have hnode : (binary l op r).evaluate maxExponent =
      evalBinary maxExponent l op r (some x) (some y) := by
    rw [evaluate_binary, hl, hr]
    rfl
  rw [evalBinary] at hnode
  cases happly : (Operation.ofTag op.tag).apply maxExponent x y with
  | ok v =>
    rw [happly] at hnode
    refine .value hnode ?_
    rw [postorder, List.find?_append, hnodes, Option.none_or]
    exact find?_of_value hnode
  | error refusal =>
    rw [happly] at hnode
    refine .failure ?_ (.refused hop hl hr happly rfl) hnode
    rw [postorder, List.find?_append, hnodes, Option.none_or]
    exact find?_of_error hnode

theorem traced_of_numeric {t : Tree} (h : t.Numeric) (maxExponent : Int) :
    Traced maxExponent t := by
  induction h with
  | @number token v h =>
    have hvalue : (number token).evaluate maxExponent = .ok (some v) := by
      rw [evaluate_number, Token.value?, h]
      rfl
    exact .value hvalue (find?_of_value hvalue)
  | @unary op x hop hx ih =>
    cases ih with
    | @value v hv hnodes =>
      have hvalue : (unary op x).evaluate maxExponent =
          .ok (some (if op.tag = .minus then v.neg else v)) := by
        rw [evaluate_unary, hv]
        rfl
      refine .value hvalue ?_
      rw [postorder, List.find?_append, hnodes, Option.none_or]
      exact find?_of_value hvalue
    | failure hn horigin he =>
      refine .failure ?_ horigin (by rw [evaluate_unary, he]; rfl)
      rw [postorder, List.find?_append, hn, Option.some_or]
  | @binary l r op c hop hl hr ihl ihr =>
    cases ihl with
    | failure hn horigin he =>
      refine .failure ?_ horigin (by rw [evaluate_binary, he]; rfl)
      rw [postorder, List.append_assoc, List.find?_append, hn, Option.some_or]
    | value hv hnodes =>
      cases ihr with
      | failure hn horigin he =>
        refine .failure ?_ horigin (by rw [evaluate_binary, hv, he]; rfl)
        rw [postorder, List.find?_append, List.find?_append, hnodes, hn, Option.none_or,
          Option.some_or]
      | value hv' hnodes' =>
        refine traced_binary hop hv hv' ?_
        rw [List.find?_append, hnodes, hnodes', Option.none_or]

/-- The node that is blamed, by the code of the error, seen from the node that it comes from. -/
inductive Blames (maxExponent : Int) (l : Tree) (op : Token) (r : Tree) (x y : Number) :
    String → Tree → Prop where
  | zeroDivisor (hop : op.tag = .div) (hy : y.eq (.int 0)) :
      Blames maxExponent l op r x y "R001" r
  | zeroBase (hop : op.tag = .pow) (hx : x.eq (.int 0)) (hy : y.isBelowZero) :
      Blames maxExponent l op r x y "R001" l
  | overflow : Blames maxExponent l op r x y "R002" (.binary l op r)
  | largeExponent {i j : Int} (hop : op.tag = .pow) (hx : x = .int i) (hy : y = .int j)
      (hi : 1 < |i|) (hj : maxExponent < |j|) : Blames maxExponent l op r x y "R003" r
  | notReal (hop : op.tag = .pow) : Blames maxExponent l op r x y "R004" (.binary l op r)

theorem tag_of_div {tag : Tag} (h : Operation.ofTag tag = .div) : tag = .div := by
  cases tag with
  | div => rfl
  | _ => cases h

theorem tag_of_pow {tag : Tag} {c : Char} (hc : tag.symbol? = some c)
    (h : Operation.ofTag tag = .pow) : tag = .pow := by
  cases tag with
  | pow => rfl
  | plus | minus | mul | div => cases h
  | number | lparen | rparen | eof => cases hc

theorem Origin.blames {failure : Failure} {n : Tree} (h : Origin maxExponent failure n) :
    ∃ l op r x y, n = .binary l op r ∧ l.evaluate maxExponent = .ok (some x) ∧
      r.evaluate maxExponent = .ok (some y) ∧
      ((∃ e, failure = .error e ∧ Blames maxExponent l op r x y e.code e.node) ∨
        (failure = .defect .tooManyDigits ∧ ¬ Number.Writable maxExponent ∧
          Blames maxExponent l op r x y "R003" r)) := by
  cases h with
  | @refused l r op c x y refusal hop hl hr hrefusal hfailure =>
    refine ⟨l, op, r, x, y, rfl, hl, hr, ?_⟩
    have hgrounds := Operation.apply_grounds maxExponent x y (.ofTag op.tag)
    rw [hrefusal] at hgrounds
    generalize ho : Operation.ofTag op.tag = o at hgrounds
    cases hgrounds with
    | error h =>
      cases h with
      | zeroDivisor hy =>
        exact .inl ⟨_, hfailure.symm, .zeroDivisor (tag_of_div ho) (y.isZero_iff_eq.mp hy)⟩
      | zeroBase hx hy =>
        exact .inl
          ⟨_, hfailure.symm, .zeroBase (tag_of_pow hop ho) (x.isZero_iff_eq.mp hx) hy⟩
      | largeExponent hx hy hi hj =>
        have hblames : Blames maxExponent l op r x y "R003" r :=
          .largeExponent (tag_of_pow hop ho) hx hy hi hj
        rw [settle_exponentAbove, exponentAbove] at hfailure
        split at hfailure
        · exact .inl ⟨_, hfailure.symm, hblames⟩
        · next hlong => exact .inr ⟨hfailure.symm, hlong, hblames⟩
      | overflow => exact .inl ⟨_, hfailure.symm, .overflow⟩
      | notReal => exact .inl ⟨_, hfailure.symm, .notReal (tag_of_pow hop ho)⟩

/-- A tree of numbers fails as its first node that fails by itself. This node is an operation
whose operands have values, and the error blames an operand that is zero, an exponent above the
limit or else the node; without such a node the tree has a value. What has no error is an exponent
above a limit with more digits than can be written. -/
theorem evaluate_error_origin {t : Tree} (h : t.Numeric) (maxExponent : Int) :
    (∀ failure, t.evaluate maxExponent = .error failure → ∃ l op r x y,
      t.nodes.find? (fails maxExponent) = some (.binary l op r) ∧
      (binary l op r).evaluate maxExponent = .error failure ∧
      l.evaluate maxExponent = .ok (some x) ∧ r.evaluate maxExponent = .ok (some y) ∧
      ((∃ e, failure = .error e ∧ Blames maxExponent l op r x y e.code e.node) ∨
        (failure = .defect .tooManyDigits ∧ ¬ Number.Writable maxExponent ∧
          Blames maxExponent l op r x y "R003" r))) ∧
    ((∃ v, t.evaluate maxExponent = .ok (some v)) ↔
      ∀ u ∈ t.nodes, u.fails maxExponent = false) := by
  rw [nodes_eq_postorder]
  cases traced_of_numeric h maxExponent with
  | @value v hv hnodes =>
    refine ⟨fun failure hfailure => ?_, fun _ u hu => ?_, fun _ => ⟨v, hv⟩⟩
    · cases hv.symm.trans hfailure
    · simpa using List.find?_eq_none.mp hnodes u hu
  | @failure failure n hn horigin he =>
    refine ⟨fun failure' hfailure => ?_, ?_, fun hnone => ?_⟩
    · obtain rfl := Except.error.inj (he.symm.trans hfailure)
      obtain ⟨l, op, r, x, y, rfl, hl, hr, hblames⟩ := horigin.blames
      exact ⟨l, op, r, x, y, hn, horigin.evaluate, hl, hr, hblames⟩
    · rintro ⟨v, hv⟩
      cases hv.symm.trans he
    · have hfails := List.find?_some hn
      rw [hnone n (List.mem_of_find?_eq_some hn)] at hfails
      cases hfails

section
private def zeroLeaf : Tree := .number (.spanning "1+0^-1" (.number (.int 0)) 2 3)
private def caretSign : Token := .spanning "1+0^-1" .pow 3 4
private def negativeOne : Tree :=
  .unary (.spanning "1+0^-1" .minus 4 5) (.number (.spanning "1+0^-1" (.number (.int 1)) 5 6))

/-- The tree of `1+0^-1`. -/
private def zeroPower : Tree :=
  .binary (.number (.spanning "1+0^-1" (.number (.int 1)) 0 1)) (.spanning "1+0^-1" .plus 1 2)
    (.binary zeroLeaf caretSign negativeOne)

/-- The zero of `1+0^-1` is blamed, as the base of a negative power. -/
theorem evaluate_error_zeroPower :
    zeroPower.Numeric ∧
    zeroPower.evaluate 10000 = .error (.error ⟨.divisionByZero, zeroLeaf⟩) ∧
    ∃ x y, zeroLeaf.evaluate 10000 = .ok (some x) ∧ negativeOne.evaluate 10000 = .ok (some y) ∧
      Blames 10000 zeroLeaf caretSign negativeOne x y "R001" zeroLeaf := by
  have hpower : (binary zeroLeaf caretSign negativeOne).Numeric :=
    .binary (c := '^') rfl (.number rfl) (.unary rfl (.number rfl))
  have hnumeric : zeroPower.Numeric := .binary (c := '+') rfl (.number rfl) hpower
  have hvalue : zeroPower.evaluate 10000 = .error (.error ⟨.divisionByZero, zeroLeaf⟩) := by cbv
  have hfirst : zeroPower.nodes.find? (fails 10000) =
      some (.binary zeroLeaf caretSign negativeOne) := by cbv
  obtain ⟨l, op, r, x, y, hn, -, hl, hr, hblames⟩ :=
    (evaluate_error_origin hnumeric 10000).1 _ hvalue
  obtain ⟨rfl, rfl, rfl⟩ := Tree.binary.inj (Option.some.inj (hfirst.symm.trans hn))
  rcases hblames with ⟨e, he, hblames⟩ | ⟨hdefect, -⟩
  · obtain rfl := Failure.error.inj he
    exact ⟨hnumeric, hvalue, x, y, hl, hr, hblames⟩
  · cases hdefect

end

end Tree

end Reckon
