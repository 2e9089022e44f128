import Mathlib
import Reckon.Proofs.Bounds

/-!
The operations on whole numbers. Sums, differences, products and powers with a non-negative
exponent are exact, and refused if they are `2 ^ 14284` or more in magnitude; a power is refused
before it is computed only if it would have been refused afterwards. What is computed at all has
at most 28570 bits.
-/

namespace Reckon

/-- The operations with exact results on whole numbers. -/
inductive ExactOp where
  | sum
  | difference
  | product
  | power
  deriving DecidableEq

namespace ExactOp

def tag : ExactOp → Tag
  | sum => .plus
  | difference => .minus
  | product => .mul
  | power => .pow

/-- The exact result; the exponent of a power is meant to be non-negative. -/
def result : ExactOp → Int → Int → Int
  | sum, i, j => i + j
  | difference, i, j => i - j
  | product, i, j => i * j
  | power, i, j => i ^ j.toNat

end ExactOp

namespace Operation

/-! ### Bit lengths -/

theorem bitLength_le_iff {i : Int} {n : Nat} : bitLength i ≤ n ↔ i.natAbs < 2 ^ n := by
  unfold bitLength
  split
  · next hi => simp [hi]
  · next hi =>
    rw [Nat.add_one_le_iff]
    exact Nat.log2_lt (Int.natAbs_ne_zero.mpr hi)

theorem two_pow_le_natAbs {i : Int} (h : i ≠ 0) : 2 ^ (bitLength i - 1) ≤ i.natAbs := by
  rw [bitLength, if_neg h, Nat.add_sub_cancel]
  exact Nat.log2_self_le (Int.natAbs_ne_zero.mpr h)

theorem two_pow_le_abs {i : Int} {n : Nat} : 2 ^ n ≤ |i| ↔ 2 ^ n ≤ i.natAbs := by
  rw [Int.abs_eq_natAbs]
  exact_mod_cast Iff.rfl

theorem isTooLarge_int_iff {i : Int} : isTooLarge (.int i) = true ↔ 2 ^ maxBits ≤ |i| := by
  rw [two_pow_le_abs, isTooLarge, decide_eq_true_iff, ← not_le, bitLength_le_iff, not_lt]

/-- A power with too many bits by the bits of its base is too large. -/
theorem two_pow_le_pow {b : Int} {n : Nat} (h : maxBits ≤ (bitLength b - 1) * n) :
    2 ^ maxBits ≤ |b ^ n| := by
  have hb : b ≠ 0 := by
    rintro rfl
    simp [bitLength, maxBits] at h
  rw [two_pow_le_abs, Int.natAbs_pow]
  calc 2 ^ maxBits ≤ 2 ^ ((bitLength b - 1) * n) := Nat.pow_le_pow_right (by decide) h
    _ = (2 ^ (bitLength b - 1)) ^ n := pow_mul ..
    _ ≤ b.natAbs ^ n := Nat.pow_le_pow_left (two_pow_le_natAbs hb) n

/-- A power that is not refused beforehand has less than twice the bits of the limit. -/
theorem natAbs_pow_lt {b : Int} {n : Nat} (hb : 1 < b.natAbs)
    (h : (bitLength b - 1) * n < maxBits) : (b ^ n).natAbs < 2 ^ (2 * maxBits) := by
  have hbits : 2 ≤ bitLength b := by
    by_contra hlt
    have hle : bitLength b ≤ 1 := by omega
    rw [bitLength_le_iff] at hle
    omega
  rcases Nat.eq_zero_or_pos n with rfl | hn
  · rw [pow_zero]
    exact Nat.one_lt_two_pow (by decide)
  · rw [Int.natAbs_pow]
    calc b.natAbs ^ n < (2 ^ bitLength b) ^ n :=
          Nat.pow_lt_pow_left (bitLength_le_iff.mp le_rfl) (by omega)
      _ = 2 ^ (bitLength b * n) := (pow_mul ..).symm
      _ ≤ 2 ^ (2 * maxBits) := by
          apply Nat.pow_le_pow_right (by decide)
          obtain ⟨k, hk⟩ : ∃ k, bitLength b = k + 1 := ⟨bitLength b - 1, by omega⟩
          rw [hk, Nat.add_sub_cancel] at h
          have hkn : n ≤ k * n := Nat.le_mul_of_pos_left n (by omega)
          rw [hk, Nat.add_mul, Nat.one_mul]
          omega

/-! ### Operations that are carried out -/

theorem bind_eq_ok {ε α β : Type} {x : Except ε α} {f : α → Except ε β} {b : β} :
    x >>= f = .ok b ↔ ∃ a, x = .ok a ∧ f a = .ok b := by
  cases x with
  | error e => exact ⟨nofun, fun ⟨_, h, _⟩ => nomatch h⟩
  | ok a => exact ⟨fun h => ⟨a, rfl, h⟩, fun ⟨_, h, h'⟩ => Except.ok.inj h ▸ h'⟩

theorem mapError_eq_ok {ε ε' α : Type} {x : Except ε α} {f : ε → ε'} {a : α} :
    x.mapError f = .ok a ↔ x = .ok a := by
  cases x <;> simp [Except.mapError]

section
variable {maxExponent : Int}

-- `intPow_eq` for the power of a monoid, which the lemmas on `|·|` are about
theorem intPow_eq_pow (b : Int) (n : Nat) : Number.intPow b n = b ^ n := Number.intPow_eq b n

theorem apply_of_compute {op : Operation} {l r : Number} {v : Int}
    (h : op.compute maxExponent l r = .ok (.int v)) :
    op.apply maxExponent l r =
      if 2 ^ maxBits ≤ |v| then .error (.error .overflow .whole) else .ok (.int v) := by
  rw [apply, h]
  change (if isTooLarge (.int v) = true then _ else _) = _
  simp only [isTooLarge_int_iff]

theorem apply_of_refused {op : Operation} {l r : Number} {refusal : Refusal}
    (h : op.compute maxExponent l r = .error refusal) :
    op.apply maxExponent l r = .error refusal := by
  rw [apply, h]
  rfl

/-- The checks of a power of whole numbers with a non-negative exponent. -/
theorem checkPower_nat (maxExponent b : Int) (n : Nat) :
    checkPower maxExponent (.int b) (.int n) =
      if 1 < |b| ∧ maxExponent < n then .error (.exponentAbove maxExponent)
      else if 1 < |b| ∧ maxBits ≤ (bitLength b - 1) * n then .error (.error .overflow .whole)
      else .ok () := by
  have hbelow : Number.isBelowZero (.int n) = false := by simp [Number.isBelowZero]
  have hpos : maxBits ≤ (bitLength b - 1) * n → (0 : Int) < n := by
    intro hbits
    rcases Nat.eq_zero_or_pos n with rfl | hn
    · simp [maxBits] at hbits
    · exact_mod_cast hn
  rw [checkPower, hbelow, Bool.and_false, if_neg Bool.false_ne_true]
  by_cases hb : b.natAbs ≤ 1
  · have habs : ¬ 1 < |b| := by
      rw [Int.abs_eq_natAbs]
      omega
    simp [hb, habs]
  · have habs : 1 < |b| := by
      rw [Int.abs_eq_natAbs]
      omega
    simp only [hb, habs, true_and, if_false, Int.natAbs_natCast, Int.toNat_natCast]
    by_cases hbits : maxBits ≤ (bitLength b - 1) * n
    · simp only [hbits, hpos hbits, true_and, if_true]
    · simp only [hbits, and_false, if_false]

theorem compute_power_of_ok {b : Int} {n : Nat}
    (h : checkPower maxExponent (.int b) (.int n) = .ok ()) :
    compute .pow maxExponent (.int b) (.int n) = .ok (.int (b ^ n)) := by
  rw [compute, h, ← intPow_eq_pow]
  rfl

theorem compute_power_of_error {b e : Number} {refusal : Refusal}
    (h : checkPower maxExponent b e = .error refusal) :
    compute .pow maxExponent b e = .error refusal := by
  rw [compute, h]
  rfl

/-- An exact operation is refused for its exponent, or else for the size of its exact result,
and gives this result if it is not refused. -/
theorem apply_int (o : ExactOp) (maxExponent i : Int) {j : Int} (hj : o = .power → 0 ≤ j) :
    apply (ofTag o.tag) maxExponent (.int i) (.int j) =
      if o = .power ∧ 1 < |i| ∧ maxExponent < j then .error (.exponentAbove maxExponent)
      else if 2 ^ maxBits ≤ |o.result i j| then .error (.error .overflow .whole)
      else .ok (.int (o.result i j)) := by
  cases o with
  | sum => exact apply_of_compute rfl
  | difference => exact apply_of_compute rfl
  | product => exact apply_of_compute rfl
  | power =>
    obtain ⟨n, rfl⟩ := Int.eq_ofNat_of_zero_le (hj rfl)
    have hcheck := checkPower_nat maxExponent i n
    have hresult : ExactOp.power.result i n = i ^ n := by rw [ExactOp.result, Int.toNat_natCast]
    rw [hresult]
    simp only [true_and]
    split
    · next hguard =>
      rw [if_pos hguard] at hcheck
      exact apply_of_refused (compute_power_of_error hcheck)
    · next hguard =>
      rw [if_neg hguard] at hcheck
      split at hcheck
      · next hbits =>
        rw [if_pos (two_pow_le_pow hbits.2)]
        exact apply_of_refused (compute_power_of_error hcheck)
      · exact apply_of_compute (compute_power_of_ok hcheck)

/-! ### The size of what is computed -/

/-- Whatever is computed on doubles is no whole number. -/
theorem onDoubles_ne_int {f : Binary64 → Binary64 → Binary64} {l r : Number} {v : Int} :
    Number.onDoubles f l r ≠ .ok (.int v) := by
  unfold Number.onDoubles
  intro h
  obtain ⟨x, -, h⟩ := bind_eq_ok.mp h
  obtain ⟨y, -, h⟩ := bind_eq_ok.mp h
  cases h

/-- Sums, differences and products are whole only for whole operands. -/
theorem operands_of_int (exact : Int → Int → Int) {doubles : Binary64 → Binary64 → Binary64}
    {l r : Number} {v : Int}
    (h : (match l, r with
      | .int i, .int j => Except.ok (Number.int (exact i j))
      | l, r => Number.onDoubles doubles l r) = .ok (.int v)) :
    ∃ i j, l = .int i ∧ r = .int j ∧ v = exact i j := by
  split at h
  · next i j => exact ⟨i, j, rfl, rfl, (Number.int.inj (Except.ok.inj h)).symm⟩
  · exact absurd h onDoubles_ne_int

theorem div_ne_int {l r : Number} {v : Int} : l.div r ≠ .ok (.int v) := by
  unfold Number.div
  intro h
  split at h
  · cases h
  · split at h
    · simp only at h
      split at h <;> cases h
    · exact onDoubles_ne_int h

theorem pow_eq_int {l r : Number} {v : Int} (h : l.pow r = .ok (.int v)) :
    ∃ (i : Int) (n : Nat), l = .int i ∧ r = .int n ∧ v = i ^ n := by
  unfold Number.pow at h
  split at h
  · next i n =>
    obtain rfl := Number.int.inj (Except.ok.inj h)
    exact ⟨i, n, rfl, rfl, intPow_eq_pow i n⟩
  · obtain ⟨x, -, h⟩ := bind_eq_ok.mp h
    obtain ⟨y, -, h⟩ := bind_eq_ok.mp h
    obtain ⟨z, -, h⟩ := bind_eq_ok.mp h
    cases h

/-- A whole number comes from whole numbers by an exact operation. -/
theorem compute_eq_int {op : Operation} {l r : Number} {v : Int}
    (h : op.compute maxExponent l r = .ok (.int v)) :
    ∃ (o : ExactOp) (i j : Int), op = ofTag o.tag ∧ l = .int i ∧ r = .int j ∧
      v = o.result i j ∧
      (o = .power → ∃ n : Nat, j = n ∧ checkPower maxExponent (.int i) (.int n) = .ok ()) := by
  cases op with
  | add =>
    obtain ⟨i, j, rfl, rfl, rfl⟩ := operands_of_int (· + ·) (mapError_eq_ok.mp h)
    exact ⟨.sum, i, j, rfl, rfl, rfl, rfl, nofun⟩
  | sub =>
    obtain ⟨i, j, rfl, rfl, rfl⟩ := operands_of_int (· - ·) (mapError_eq_ok.mp h)
    exact ⟨.difference, i, j, rfl, rfl, rfl, rfl, nofun⟩
  | mul =>
    obtain ⟨i, j, rfl, rfl, rfl⟩ := operands_of_int (· * ·) (mapError_eq_ok.mp h)
    exact ⟨.product, i, j, rfl, rfl, rfl, rfl, nofun⟩
  | div =>
    unfold compute at h
    simp only at h
    split at h
    · cases h
    · exact absurd (mapError_eq_ok.mp h) div_ne_int
  | pow =>
    obtain ⟨⟨⟩, hcheck, h⟩ := bind_eq_ok.mp h
    obtain ⟨i, n, rfl, rfl, rfl⟩ := pow_eq_int (mapError_eq_ok.mp h)
    exact ⟨.power, i, n, rfl, rfl, rfl, by rw [ExactOp.result, Int.toNat_natCast],
      fun _ => ⟨n, rfl, hcheck⟩⟩

/-- No exact operation but a power goes further than a product can. -/
theorem natAbs_result_lt {o : ExactOp} (ho : o ≠ .power) {bound : Nat} (hbound : 2 ≤ bound)
    {i j : Int} (hi : i.natAbs < bound) (hj : j.natAbs < bound) :
    (o.result i j).natAbs < bound * bound := by
  have hdouble : 2 * bound ≤ bound * bound := Nat.mul_le_mul_right bound hbound
  cases o with
  | sum =>
    have hsum : (i + j).natAbs ≤ i.natAbs + j.natAbs := Int.natAbs_add_le i j
    rw [ExactOp.result]
    omega
  | difference =>
    have hdifference : (i - j).natAbs ≤ i.natAbs + j.natAbs := Int.natAbs_sub_le i j
    rw [ExactOp.result]
    omega
  | product =>
    rw [ExactOp.result, Int.natAbs_mul]
    exact Nat.mul_lt_mul'' hi hj
  | power => exact absurd rfl ho

theorem natAbs_power_lt {b : Int} {n : Nat}
    (h : checkPower maxExponent (.int b) (.int n) = .ok ()) :
    (b ^ n).natAbs < 2 ^ (2 * maxBits) := by
  by_cases hb : 1 < |b|
  · rw [checkPower_nat] at h
    split at h
    · cases h
    · split at h
      · cases h
      · next hbits =>
        have hfew : (bitLength b - 1) * n < maxBits := not_le.mp fun hle => hbits ⟨hb, hle⟩
        rw [Int.abs_eq_natAbs] at hb
        exact natAbs_pow_lt (by omega) hfew
  · have hone : b.natAbs ≤ 1 := by
      rw [Int.abs_eq_natAbs] at hb
      omega
    rw [Int.natAbs_pow]
    calc b.natAbs ^ n ≤ 1 ^ n := Nat.pow_le_pow_left hone n
      _ = 1 := one_pow n
      _ < 2 ^ (2 * maxBits) := Nat.one_lt_two_pow (by decide)

/-- Whatever the limit on exponents, what is computed from numbers in bounds has at most 28570
bits: a product has at most those of its factors together, and a power less than twice as many as
it may have. -/
theorem bitLength_compute_le {op : Operation} {l r : Number} {v : Int} (hl : l.InBounds)
    (hr : r.InBounds) (h : op.compute maxExponent l r = .ok (.int v)) : bitLength v ≤ 28570 := by
  obtain ⟨o, i, j, -, rfl, rfl, rfl, hpower⟩ := compute_eq_int h
  by_cases ho : o = .power
  · obtain ⟨n, rfl, hcheck⟩ := hpower ho
    rw [ho, ExactOp.result, Int.toNat_natCast]
    have htwice : bitLength (i ^ n) ≤ 2 * maxBits := bitLength_le_iff.mpr (natAbs_power_lt hcheck)
    exact htwice.trans (by decide)
  · rw [Number.inBounds_int] at hl hr
    rw [bitLength_le_iff]
    have htwo : 2 ≤ 10 ^ Number.maxDigits := by decide +kernel
    calc (o.result i j).natAbs < 10 ^ Number.maxDigits * 10 ^ Number.maxDigits :=
          natAbs_result_lt ho htwo hl hr
      _ ≤ 2 ^ 28570 := by decide +kernel

end

end Operation

end Reckon
