import Mathlib
import Reckon.Evaluation
import Reckon.Proofs.Numerals

/-!
Numbers stay in bounds. The numbers that are read and those that an operation gives are
whole numbers of at most 4300 digits or doubles that are not infinite. An operation that
gives no number is refused for a cause of its own: no division by zero goes unforeseen.
-/

namespace Reckon

/-- The outcome is a good value or a fair error. -/
inductive Settles {ε α : Type} (good : α → Prop) (fair : ε → Prop) : Except ε α → Prop where
  | ok {a : α} (h : good a) : Settles good fair (.ok a)
  | error {e : ε} (h : fair e) : Settles good fair (.error e)

namespace Settles

variable {ε ε' α β : Type} {good good' : α → Prop} {fair fair' : ε → Prop} {x y : Except ε α}

theorem mono (h : Settles good fair x) (hgood : ∀ a, good a → good' a)
    (hfair : ∀ e, fair e → fair' e) : Settles good' fair' x := by
  cases h with
  | ok h => exact .ok (hgood _ h)
  | error h => exact .error (hfair _ h)

theorem bind {better : β → Prop} {f : α → Except ε β} (h : Settles good fair x)
    (hf : ∀ a, good a → Settles better fair (f a)) : Settles better fair (x >>= f) := by
  cases h with
  | ok h => exact hf _ h
  | error h => exact .error h

theorem map (h : Settles good fair x) (g : α → β) :
    Settles (fun _ => True) fair (g <$> x) := by
  cases h with
  | ok h => exact .ok trivial
  | error h => exact .error h

theorem mapError {fair' : ε' → Prop} {g : ε → ε'} (h : Settles good fair x)
    (hg : ∀ e, fair e → fair' (g e)) : Settles good fair' (x.mapError g) := by
  cases h with
  | ok h => exact .ok h
  | error h => exact .error (hg _ h)

theorem ite {c : Prop} [Decidable c] (hx : c → Settles good fair x)
    (hy : ¬ c → Settles good fair y) : Settles good fair (if c then x else y) := by
  split
  · next hc => exact hx hc
  · next hc => exact hy hc

end Settles

namespace Number

theorem writable_iff {i : Int} : Writable i ↔ i.natAbs < 10 ^ maxDigits :=
  Nat.length_toDigits_le_iff (by decide) (by decide)

/-- A whole number short enough to be written, or a double that is not infinite. -/
def InBounds : Number → Prop
  | .int i => Writable i
  | .float x => x.isInfinite = false

theorem inBounds_int {i : Int} : (Number.int i).InBounds ↔ i.natAbs < 10 ^ maxDigits :=
  writable_iff

theorem InBounds.text?_eq {v : Number} (h : v.InBounds) : v.text? = some v.text := by
  cases v with
  | int i => exact if_pos h
  | float x => rfl

theorem InBounds.neg {v : Number} (h : v.InBounds) : v.neg.InBounds := by
  cases v with
  | int i =>
    rw [Number.neg, inBounds_int, Int.natAbs_neg]
    exact inBounds_int.mp h
  | float x =>
    cases x with
    | finite s m fits => rfl
    | infinite s => cases h
    | nan => rfl

/-- Only a limit far below zero is both below a number in bounds and too long. -/
theorem not_writable_of_lt {limit i : Int} (hlimit : ¬ Writable limit) (hi : Writable i)
    (hlt : limit < i.natAbs) : limit ≤ -10 ^ maxDigits := by
  rw [writable_iff] at hlimit hi
  have hcast : ((10 ^ maxDigits : Nat) : Int) = 10 ^ maxDigits := by push_cast; rfl
  rw [← hcast]
  omega

end Number

namespace Scanner

theorem ofDigitChars_lt {run : List Char} (h : Digits run) :
    Nat.ofDigitChars 10 run 0 < 10 ^ run.length := by
  induction run with
  | nil => simp
  | cons c run ih =>
    obtain ⟨hc, hrun⟩ := digits_cons.mp h
    have hdigit : c.toNat - '0'.toNat ≤ 9 := by
      have := (Char.isDigit_iff_toNat.mp hc).2
      simp only [Char.reduceToNat] at this ⊢
      omega
    rw [Nat.ofDigitChars_cons, Nat.ofDigitChars_eq_ofDigitChars_zero, List.length_cons, pow_succ]
    have hrest := ih hrun
    nlinarith [Nat.zero_le (10 ^ run.length)]

/-- A number that is read is in bounds, a whole one because of its length. -/
theorem inBounds_of_numeralValue? {run : List Char} {v : Number}
    (hrun : ∀ c ∈ run, isNumeral c) (h : numeralValue? run = some v) : v.InBounds := by
  by_cases hpoint : '.' ∈ run
  · rw [numeralValue?_point hpoint] at h
    split at h
    · cases h
    · next hfinite =>
      obtain rfl := Option.some.inj h
      simpa [Number.InBounds] using hfinite
  · rw [numeralValue?_whole hpoint] at h
    split at h
    · cases h
    · next hshort =>
      obtain rfl := Option.some.inj h
      have hdigits : Digits run := fun c hc =>
        (isNumeral_iff.mp (hrun c hc)).resolve_right fun heq => hpoint (heq ▸ hc)
      have hlen : run.length ≤ Number.maxDigits := by
        simp only [Bool.or_eq_true, decide_eq_true_eq, not_or] at hshort
        omega
      rw [Number.inBounds_int]
      calc Nat.ofDigitChars 10 run 0 < 10 ^ run.length := ofDigitChars_lt hdigits
        _ ≤ 10 ^ Number.maxDigits := Nat.pow_le_pow_right (by decide) hlen

end Scanner

namespace Binary64

/-- Rounding does not take a positive count of units to zero. -/
theorem nearest_pos {n : Nat} (h : 0 < n) : 0 < nearest n 1 := by
  have hpow : 2 ^ spareBits n ≤ n := by
    calc 2 ^ spareBits n ≤ 2 ^ n.log2 := Nat.pow_le_pow_right (by decide) (Nat.sub_le _ _)
      _ ≤ n := Nat.log2_self_le (by omega)
  have hquotient : 0 < n / 2 ^ spareBits n := Nat.div_pos hpow (Nat.two_pow_pos _)
  have hnearest : n / 2 ^ spareBits n ≤ divNearest n (2 ^ spareBits n) := by
    unfold divNearest
    dsimp only
    split <;> omega
  simp only [nearest, Nat.div_one, Nat.one_mul]
  exact Nat.mul_pos (by omega) (Nat.two_pow_pos _)

theorem ofInt_isZero {i : Int} (h : (ofInt i).isZero = true) : i = 0 := by
  by_contra hne
  have hone : 0 < one := by
    rw [one]
    apply Nat.two_pow_pos
  have hpos : 0 < nearest (i.natAbs * one) 1 := nearest_pos (Nat.mul_pos (by omega) hone)
  unfold ofInt ofRatio ofUnits at h
  split at h
  · simp only [isZero, beq_iff_eq] at h
    omega
  · cases h

theorem ofInt_isBelowZero {i : Int} (h : (ofInt i).isBelowZero = true) : i < 0 := by
  unfold ofInt ofRatio ofUnits at h
  split at h
  · simp only [isBelowZero, Bool.and_eq_true, decide_eq_true_eq] at h
    exact h.1
  · simpa [isBelowZero] using h

theorem positivePow_settles (x y : Binary64) :
    Settles (fun _ => True) (· ≠ .zeroDivision) (positivePow x y) := by
  unfold positivePow
  exact .ite (fun _ => .error Fault.noConfusion) fun _ => .ok trivial

/-- A power divides by zero only if it is a negative power of zero. -/
theorem pow_settles {x y : Binary64} (h : (x.isZero && y.isBelowZero) = false) :
    Settles (fun _ => True) (· ≠ .zeroDivision) (x.pow y) := by
  unfold pow
  refine .ite (fun _ => .ok trivial) fun hy => ?_
  split
  case h_5 s m _ down n _ =>
    refine .ite (fun hm => .ite (fun hdown => ?_) fun _ => .ok trivial) fun _ => ?_
    · simp [isZero, isBelowZero, hm, hdown] at h hy
      exact absurd h hy
    · refine .ite (fun _ => ?_) fun _ => .ite (fun _ => .ok trivial) fun _ => ?_
      · exact ((positivePow_settles _ _).map _).bind fun _ _ => .error Fault.noConfusion
      · exact (positivePow_settles _ _).bind fun _ _ => .ok trivial
  all_goals exact .ok trivial

end Binary64

namespace Number

section
variable (l r : Number)

/-- The double of a number is zero or below zero only if the number is. -/
theorem toBinary64_settles :
    Settles (fun x => (x.isZero = true → l.isZero = true) ∧
      (x.isBelowZero = true → l.isBelowZero = true)) (· = .overflow) l.toBinary64 := by
  cases l with
  | int i =>
    unfold toBinary64
    refine .ite (fun _ => .error rfl) fun _ => .ok ⟨fun hzero => ?_, fun hbelow => ?_⟩
    · simpa [isZero] using Binary64.ofInt_isZero hzero
    · simpa [isBelowZero] using Binary64.ofInt_isBelowZero hbelow
  | float x => exact .ok ⟨id, id⟩

theorem onDoubles_settles (f : Binary64 → Binary64 → Binary64) :
    Settles (fun _ => True) (· = .overflow) (onDoubles f l r) :=
  l.toBinary64_settles.bind fun _ _ => r.toBinary64_settles.bind fun _ _ => .ok trivial

theorem add_settles : Settles (fun _ => True) (· = .overflow) (l.add r) := by
  unfold add
  split
  · exact .ok trivial
  · exact onDoubles_settles _ _ _

theorem sub_settles : Settles (fun _ => True) (· = .overflow) (l.sub r) := by
  unfold sub
  split
  · exact .ok trivial
  · exact onDoubles_settles _ _ _

theorem mul_settles : Settles (fun _ => True) (· = .overflow) (l.mul r) := by
  unfold mul
  split
  · exact .ok trivial
  · exact onDoubles_settles _ _ _

variable {l r}

theorem div_settles (h : r.isZero = false) :
    Settles (fun _ => True) (· = .overflow) (l.div r) := by
  unfold div
  rw [h]
  refine .ite (fun hzero => absurd hzero Bool.false_ne_true) fun _ => ?_
  split
  · exact .ite (fun _ => .error rfl) fun _ => .ok trivial
  · exact onDoubles_settles _ _ _

theorem pow_settles (h : (l.isZero && r.isBelowZero) = false) :
    Settles (fun _ => True) (· ≠ .zeroDivision) (l.pow r) := by
  have hdouble : ∀ v : Number, Settles (fun x => (x.isZero = true → v.isZero = true) ∧
      (x.isBelowZero = true → v.isBelowZero = true)) (· ≠ .zeroDivision) v.toBinary64 :=
    fun v => v.toBinary64_settles.mono (fun _ => id) fun f hf => hf ▸ Fault.noConfusion
  unfold pow
  split
  · exact .ok trivial
  · refine (hdouble _).bind fun x hx => (hdouble _).bind fun y hy => ?_
    refine (Binary64.pow_settles ?_).bind fun _ _ => .ok trivial
    rw [Bool.and_eq_false_iff, ← Bool.not_eq_true, ← Bool.not_eq_true] at h ⊢
    exact h.imp (mt hx.1) (mt hy.2)

end

end Number

namespace Operation

/-- The refusal is an error of the expression, and it names no limit but the one given; or
else that limit cannot be written. -/
def Refusal.Own (maxExponent : Int) : Refusal → Prop
  | .error cause _ => ∀ limit h, cause = .exponentTooLarge limit h → limit = maxExponent
  | .defect d => d = .tooManyDigits ∧ maxExponent ≤ -10 ^ Number.maxDigits

theorem refuse_own {f : Fault} (h : f ≠ .zeroDivision) (maxExponent : Int) :
    (refuse f).Own maxExponent := by
  cases f with
  | overflow => exact nofun
  | zeroDivision => exact absurd rfl h
  | notReal => exact nofun

theorem Refusal.exponentAbove_own {maxExponent e : Int} (he : (Number.int e).InBounds)
    (habove : maxExponent < e.natAbs) : (exponentAbove maxExponent).Own maxExponent := by
  unfold exponentAbove
  split
  · rintro limit h ⟨⟩
    rfl
  · next hlong => exact ⟨rfl, Number.not_writable_of_lt hlong he habove⟩

section
variable (maxExponent : Int)

theorem checkPower_settles (base : Number) {exponent : Number} (hexponent : exponent.InBounds) :
    Settles (fun _ => (base.isZero && exponent.isBelowZero) = false) (Refusal.Own maxExponent)
      (checkPower maxExponent base exponent) := by
  unfold checkPower
  refine .ite (fun _ => .error nofun) fun hzero => ?_
  rw [Bool.not_eq_true] at hzero
  split
  · refine .ite (fun _ => .ok hzero) fun _ => .ite (fun habove => .error ?_) fun _ => ?_
    · exact Refusal.exponentAbove_own hexponent habove
    · exact .ite (fun _ => .error nofun) fun _ => .ok hzero
  · exact .ok hzero

/-- The divisions by zero are found before anything is divided. -/
theorem compute_settles (op : Operation) (l : Number) {r : Number} (hr : r.InBounds) :
    Settles (fun _ => True) (Refusal.Own maxExponent) (op.compute maxExponent l r) := by
  have hoverflow : ∀ f, f = .overflow → (refuse f).Own maxExponent :=
    fun f hf => refuse_own (hf ▸ Fault.noConfusion) maxExponent
  cases op with
  | add => exact (l.add_settles r).mapError hoverflow
  | sub => exact (l.sub_settles r).mapError hoverflow
  | mul => exact (l.mul_settles r).mapError hoverflow
  | div =>
    refine .ite (fun _ => .error nofun) fun hzero => ?_
    exact (Number.div_settles (by simpa using hzero)).mapError hoverflow
  | pow =>
    refine (checkPower_settles maxExponent l hr).bind fun _ hzero => ?_
    exact (Number.pow_settles hzero).mapError fun f hf => refuse_own hf maxExponent

theorem inBounds_of_not_isTooLarge {v : Number} (h : isTooLarge v = false) : v.InBounds := by
  cases v with
  | float x => exact h
  | int i =>
    have hbits : bitLength i ≤ maxBits := by simpa [isTooLarge] using h
    rw [Number.inBounds_int]
    calc i.natAbs < 2 ^ bitLength i := by
          unfold bitLength
          split
          · next hi => simp [hi]
          · exact Nat.lt_log2_self
      _ ≤ 2 ^ maxBits := Nat.pow_le_pow_right (by decide) hbits
      _ ≤ 10 ^ Number.maxDigits := by decide +kernel

theorem apply_settles (op : Operation) (l : Number) {r : Number} (hr : r.InBounds) :
    Settles Number.InBounds (Refusal.Own maxExponent) (op.apply maxExponent l r) := by
  refine (compute_settles maxExponent op l hr).bind fun v _ => ?_
  refine .ite (fun _ => .error nofun) fun hsmall => .ok ?_
  exact inBounds_of_not_isTooLarge (by simpa using hsmall)

end

end Operation

end Reckon
