import Mathlib
import Reckon.Proofs.Blame

/-!
Whole numbers and doubles as results. A tree comes to a whole number exactly if no double is
written in it and none arises on the way, by a division or by a negative power; a double anywhere
makes a double of everything above it.
-/

namespace Reckon

def Number.IsWhole (v : Number) : Prop := ∃ i, v = .int i

namespace Number

theorem not_isWhole_float (x : Binary64) : ¬ (Number.float x).IsWhole := by
  rintro ⟨i, h⟩
  cases h

theorem isWhole_neg (v : Number) : v.neg.IsWhole ↔ v.IsWhole := by
  cases v with
  | int i => exact ⟨fun _ => ⟨i, rfl⟩, fun _ => ⟨-i, rfl⟩⟩
  | float x => exact iff_of_false (not_isWhole_float x.neg) (not_isWhole_float x)

theorem not_isWhole_iff {v : Number} : ¬ v.IsWhole ↔ ∃ x, v = .float x := by
  cases v with
  | int i =>
    refine iff_of_false (fun h => h ⟨i, rfl⟩) ?_
    rintro ⟨x, h⟩
    cases h
  | float x => exact ⟨fun _ => ⟨x, rfl⟩, fun _ => not_isWhole_float x⟩

end Number

namespace Operation

variable {maxExponent : Int} {op : Operation} {x y v : Number}

theorem exists_exactOp (h : op ≠ .div) : ∃ o : ExactOp, op = ofTag o.tag := by
  cases op with
  | add => exact ⟨.sum, rfl⟩
  | sub => exact ⟨.difference, rfl⟩
  | mul => exact ⟨.product, rfl⟩
  | div => exact absurd rfl h
  | pow => exact ⟨.power, rfl⟩

/-- An operation gives a whole number for whole operands only, never by a division, and by a power
only if the exponent is not negative. -/
theorem isWhole_apply (h : op.apply maxExponent x y = .ok v) :
    v.IsWhole ↔ x.IsWhole ∧ y.IsWhole ∧ op ≠ .div ∧ (op = .pow → y.isBelowZero = false) := by
  obtain ⟨w, hw, hlarge⟩ := bind_eq_ok.mp h
  obtain rfl : w = v := by
    split at hlarge
    · cases hlarge
    · exact Except.ok.inj hlarge
  constructor
  · rintro ⟨k, rfl⟩
    obtain ⟨o, i, j, rfl, rfl, rfl, -, hpower⟩ := compute_eq_int hw
    refine ⟨⟨i, rfl⟩, ⟨j, rfl⟩, ?_, ?_⟩
    · cases o <;> exact nofun
    · intro hpow
      have ho : o = .power := by
        cases o with
        | power => rfl
        | _ => cases hpow
      obtain ⟨n, rfl, -⟩ := hpower ho
      simp [Number.isBelowZero]
  · rintro ⟨⟨i, rfl⟩, ⟨j, rfl⟩, hdiv, hpow⟩
    obtain ⟨o, rfl⟩ := exists_exactOp hdiv
    have hj : o = .power → 0 ≤ j := by
      rintro rfl
      simpa [Number.isBelowZero] using hpow rfl
    rw [apply_int o maxExponent i hj] at h
    split at h
    · cases h
    · split at h
      · cases h
      · exact ⟨_, (Except.ok.inj h).symm⟩

end Operation

namespace Tree

variable {maxExponent : Int}

/-- No double is written in the tree, nothing is divided, and no exponent is negative. -/
structure WithoutDoubles (maxExponent : Int) (t : Tree) : Prop where
  literals : ∀ token x, number token ∈ t.nodes → token.kind ≠ .number (.float x)
  divisions : ∀ l op r, binary l op r ∈ t.nodes → op.tag ≠ .div
  powers : ∀ l op r e, binary l op r ∈ t.nodes → op.tag = .pow →
    r.evaluate maxExponent = .ok (some e) → e.isBelowZero = false

/-- What a node by itself must be for a whole result. -/
def KeepsWhole (maxExponent : Int) : Tree → Prop
  | number token => ∀ x, token.kind ≠ .number (.float x)
  | unary _ _ => True
  | binary _ op r => op.tag ≠ .div ∧
      (op.tag = .pow → ∀ e, r.evaluate maxExponent = .ok (some e) → e.isBelowZero = false)

theorem withoutDoubles_iff {t : Tree} :
    t.WithoutDoubles maxExponent ↔ ∀ u ∈ t.postorder, u.KeepsWhole maxExponent := by
  rw [← nodes_eq_postorder]
  constructor
  · intro h u hu
    cases u with
    | number token => exact fun x => h.literals token x hu
    | unary op x => trivial
    | binary l op r => exact ⟨h.divisions l op r hu, fun hop e => h.powers l op r e hu hop⟩
  · intro h
    refine ⟨fun token x hu => h _ hu x, fun l op r hu => (h _ hu).1, ?_⟩
    exact fun l op r e hu hop => (h _ hu).2 hop e

theorem evaluate_unary_eq_ok {op : Token} {x : Tree} {v : Number}
    (h : (unary op x).evaluate maxExponent = .ok (some v)) :
    ∃ w, x.evaluate maxExponent = .ok (some w) ∧ v = if op.tag = .minus then w.neg else w := by
  rw [evaluate_unary] at h
  obtain ⟨a, ha, hv⟩ := Operation.bind_eq_ok.mp h
  cases a with
  | none => cases hv
  | some w => exact ⟨w, ha, (Option.some.inj (Except.ok.inj hv)).symm⟩

theorem evaluate_binary_eq_ok {l r : Tree} {op : Token} {v : Number}
    (h : (binary l op r).evaluate maxExponent = .ok (some v)) :
    ∃ x y, l.evaluate maxExponent = .ok (some x) ∧ r.evaluate maxExponent = .ok (some y) ∧
      (Operation.ofTag op.tag).apply maxExponent x y = .ok v := by
  rw [evaluate_binary] at h
  obtain ⟨a, ha, h⟩ := Operation.bind_eq_ok.mp h
  obtain ⟨b, hb, h⟩ := Operation.bind_eq_ok.mp h
  cases a with
  | none =>
    cases b with
    | none => cases h
    | some y =>
      rw [evalBinary] at h
      split at h <;> cases h
  | some x =>
    cases b with
    | none => cases h
    | some y =>
      rw [evalBinary] at h
      split at h
      · next w hw =>
        obtain rfl := Option.some.inj (Except.ok.inj h)
        exact ⟨x, y, ha, hb, hw⟩
      · cases h

theorem isWhole_evaluate {t : Tree} (h : t.Numeric) {v : Number}
    (hv : t.evaluate maxExponent = .ok (some v)) :
    v.IsWhole ↔ ∀ u ∈ t.postorder, u.KeepsWhole maxExponent := by
  induction h generalizing v with
  | @number token w h =>
    rw [evaluate_number, Token.value?, h] at hv
    obtain rfl := Option.some.inj (Except.ok.inj hv)
    rw [postorder, List.forall_mem_singleton, KeepsWhole, h]
    cases w with
    | int i => exact ⟨fun _ x hx => (by cases hx), fun _ => ⟨i, rfl⟩⟩
    | float x => exact iff_of_false (Number.not_isWhole_float x) fun hall => hall x rfl
  | @unary op x hop hx ih =>
    obtain ⟨w, hw, rfl⟩ := evaluate_unary_eq_ok hv
    have hsign : (if op.tag = .minus then w.neg else w).IsWhole ↔ w.IsWhole := by
      split
      · exact w.isWhole_neg
      · rfl
    rw [hsign, ih hw, postorder, List.forall_mem_append, List.forall_mem_singleton]
    exact (and_iff_left trivial).symm
  | @binary l r op c hop hl hr ihl ihr =>
    obtain ⟨x, y, hx, hy, happly⟩ := evaluate_binary_eq_ok hv
    rw [Operation.isWhole_apply happly, ihl hx, ihr hy, postorder, List.forall_mem_append,
      List.forall_mem_append, List.forall_mem_singleton, KeepsWhole, and_assoc]
    have hdiv : Operation.ofTag op.tag ≠ .div ↔ op.tag ≠ .div := by
      refine not_congr ⟨tag_of_div, fun h => ?_⟩
      rw [h]
      rfl
    have hpow : Operation.ofTag op.tag = .pow ↔ op.tag = .pow := by
      refine ⟨tag_of_pow hop, fun h => ?_⟩
      rw [h]
      rfl
    rw [hdiv, hpow, hy]
    simp

/-- The value of a tree is a whole number if no double is written in it, nothing is divided and no
exponent comes to a negative number, and a double otherwise. -/
theorem evaluate_kind {t : Tree} (h : t.Numeric) {v : Number}
    (hv : t.evaluate maxExponent = .ok (some v)) :
    ((∃ i, v = .int i) ↔ t.WithoutDoubles maxExponent) ∧
      ((∃ x, v = .float x) ↔ ¬ t.WithoutDoubles maxExponent) := by
  have hwhole := isWhole_evaluate h hv
  rw [← withoutDoubles_iff] at hwhole
  exact ⟨hwhole, Number.not_isWhole_iff.symm.trans (not_congr hwhole)⟩

section
private def powerBase : Tree := .number (.spanning "1^-1" (.number (.int 1)) 0 1)
private def powerSign : Token := .spanning "1^-1" .pow 1 2
private def powerExponent : Tree :=
  .unary (.spanning "1^-1" .minus 2 3) (.number (.spanning "1^-1" (.number (.int 1)) 3 4))

/-- The tree of `1^-1`. -/
private def inverseOfOne : Tree := .binary powerBase powerSign powerExponent

/-- Without a double and without a division, `1^-1` is a double, for its exponent alone. -/
theorem evaluate_kind_inverseOfOne :
    inverseOfOne.Numeric ∧
    inverseOfOne.evaluate 10000 = .ok (some (.float .unit)) ∧
    powerExponent.evaluate 10000 = .ok (some (.int (-1))) ∧
    ¬ inverseOfOne.WithoutDoubles 10000 := by
  have hnumeric : inverseOfOne.Numeric :=
    .binary (c := '^') rfl (.number rfl) (.unary rfl (.number rfl))
  have hvalue : inverseOfOne.evaluate 10000 = .ok (some (.float .unit)) := by decide +kernel
  exact ⟨hnumeric, hvalue, rfl, (evaluate_kind hnumeric hvalue).2.mp ⟨_, rfl⟩⟩

end

end Tree

end Reckon
