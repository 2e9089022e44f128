import Mathlib.Algebra.Order.Field.Rat
import Mathlib.Tactic.FieldSimp
import Mathlib.Tactic.Linarith
import Mathlib.Tactic.Positivity
import Mathlib.Tactic.Ring
import Reckon.Number.Binary64

/-!
Rounding is to the nearest: among all counts of units with 53 significant bits, however
large, `nearest` gives the one closest to a ratio, and of two equally close the even one.
A ratio rounds out of range from `2 ^ 1024 - 2 ^ 970` on, which is halfway from the
largest double to what would come next.
-/

namespace Reckon.Binary64

private theorem core_pow_eq (b n : Nat) :
    @HPow.hPow Nat Nat Nat (@instHPow Nat Nat Powers.core) b n = b ^ n := rfl

theorem one_eq : one = 2 ^ 1074 := core_pow_eq 2 1074

theorem overflow_eq : overflow = 2 ^ 2098 := core_pow_eq 2 2098

/-- At most 53 bits are significant. -/
def Short (n : Nat) : Prop := 2 ^ spareBits n ∣ n

/-- The count `u` is what `q` units round to, if the exponent may be as large as it needs. -/
structure Rounded (q : ℚ) (u : Nat) : Prop where
  short : Short u
  closest : ∀ v : Nat, Short v → |q - u| ≤ |q - v|
  even : ∀ v : Nat, Short v → v ≠ u → |q - u| = |q - v| → 2 ^ (spareBits u + 1) ∣ u

section
variable {num den : Nat}

/-- A quotient and its remainder, as a part of the divisor. -/
private theorem ratio_eq (hden : 0 < den) (b : Nat) :
    (num / den : ℚ) = (num / (den * b) : Nat) * b + (num % (den * b) : Nat) / den := by
  have hq : (num : ℚ) = den * b * (num / (den * b) : Nat) + (num % (den * b) : Nat) := by
    exact_mod_cast (Nat.div_add_mod num (den * b)).symm
  rw [hq]
  field_simp

/-- Rounding to multiples of `b` errs by half of `b` at most; if by half, it goes to an even
multiple. -/
theorem divNearest_error (num : Nat) (hden : 0 < den) {b : Nat} (hb : 0 < b) :
    |(num / den : ℚ) - divNearest num (den * b) * b| ≤ b / 2 ∧
      (|(num / den : ℚ) - divNearest num (den * b) * b| = b / 2 →
        2 ∣ divNearest num (den * b)) := by
  have hlt : num % (den * b) < den * b := Nat.mod_lt _ (by positivity)
  rw [ratio_eq hden b, divNearest]
  generalize num / (den * b) = q at *
  generalize num % (den * b) = r at *
  -- the remainder `t` lies between two multiples of `b`
  have hden' : (0 : ℚ) < den := by exact_mod_cast hden
  obtain ⟨t, ht⟩ : ∃ t : ℚ, t = r / den := ⟨_, rfl⟩
  have hr : (r : ℚ) = t * den := by rw [ht]; field_simp
  have ht0 : 0 ≤ t := by rw [ht]; positivity
  rw [← ht]
  split
  · next hcase =>
    have hle : t ≤ b / 2 := by
      have : (2 * r : ℚ) ≤ den * b := by exact_mod_cast (show 2 * r ≤ den * b by omega)
      rw [hr] at this
      nlinarith
    have habs : |q * b + t - q * b| = t := by
      rw [add_sub_cancel_left, abs_of_nonneg ht0]
    rw [habs]
    refine ⟨hle, fun htie => ?_⟩
    have : (2 * r : ℚ) = den * b := by rw [hr, htie]; ring
    have : 2 * r = den * b := by exact_mod_cast this
    omega
  · next hcase =>
    have hge : b / 2 ≤ t := by
      have : (den * b : ℚ) ≤ 2 * r := by exact_mod_cast (show den * b ≤ 2 * r by omega)
      rw [hr] at this
      nlinarith
    have htb : t < b := by
      have : (r : ℚ) < den * b := by exact_mod_cast hlt
      rw [hr] at this
      nlinarith
    have habs : |q * b + t - ((q + 1 : Nat) : ℚ) * b| = b - t := by
      push_cast
      rw [show q * b + t - (q + 1) * (b : ℚ) = -(b - t) by ring, abs_neg,
        abs_of_nonneg (by linarith)]
    rw [habs]
    refine ⟨by linarith, fun htie => ?_⟩
    have : (2 * r : ℚ) = den * b := by rw [hr, show t = b / 2 by linarith]; ring
    have : 2 * r = den * b := by exact_mod_cast this
    omega

/-- No multiple of the unit of rounding is closer. -/
private theorem closest_multiple (num : Nat) (hden : 0 < den) {b : Nat} (hb : 0 < b) (w : Nat) :
    |(num / den : ℚ) - divNearest num (den * b) * b| ≤ |(num / den : ℚ) - w * b| ∧
      (w ≠ divNearest num (den * b) →
        |(num / den : ℚ) - divNearest num (den * b) * b| = |(num / den : ℚ) - w * b| →
          2 ∣ divNearest num (den * b)) := by
  obtain ⟨herr, heven⟩ := divNearest_error num hden hb
  generalize divNearest num (den * b) = m at *
  generalize (num / den : ℚ) = q at *
  have hb' : (0 : ℚ) < b := by exact_mod_cast hb
  by_cases hw : w = m
  · subst hw
    exact ⟨le_rfl, fun hne => absurd rfl hne⟩
  · have hgap : (b : ℚ) ≤ |(m : ℚ) * b - w * b| := by
      have hint : (1 : ℚ) ≤ |(m : ℚ) - w| := by
        have : (1 : ℤ) ≤ |(m : ℤ) - w| := Int.one_le_abs (by omega)
        exact_mod_cast this
      rw [← sub_mul, abs_mul, abs_of_pos hb']
      nlinarith
    have htri := abs_sub_le ((m : ℚ) * b) q (w * b)
    rw [abs_sub_comm (m * b : ℚ) q] at htri
    refine ⟨by linarith, fun _ hsame => heven ?_⟩
    linarith

private theorem closest_of_dvd (hden : 0 < den) {v : Nat}
    (hv : 2 ^ spareBits (num / den) ∣ v) :
    |(num / den : ℚ) - nearest num den| ≤ |(num / den : ℚ) - v| ∧
      (v ≠ nearest num den → |(num / den : ℚ) - nearest num den| = |(num / den : ℚ) - v| →
        2 ^ (spareBits (num / den) + 1) ∣ nearest num den) := by
  obtain ⟨w, rfl⟩ := hv
  obtain ⟨hclose, heven⟩ :=
    closest_multiple num hden (Nat.two_pow_pos (spareBits (num / den))) w
  rw [Nat.mul_comm (2 ^ _) w]
  simp only [nearest, Nat.cast_mul]
  refine ⟨hclose, fun hne hsame => ?_⟩
  rw [Nat.pow_succ, Nat.mul_comm (2 ^ _) 2]
  exact Nat.mul_dvd_mul_right (heven (fun h => hne (by rw [h])) hsame) _

/-- A count too small for the unit of rounding is further off than the power of two below
the ratio. -/
private theorem farther_of_not_dvd (hden : 0 < den) {v : Nat} (hv : Short v)
    (hnd : ¬ 2 ^ spareBits (num / den) ∣ v) :
    |(num / den : ℚ) - nearest num den| < |(num / den : ℚ) - v| := by
  have hspare : spareBits v < spareBits (num / den) := by
    by_contra hle
    exact hnd ((Nat.pow_dvd_pow 2 (by omega)).trans hv)
  have hlog : v.log2 < (num / den).log2 := by
    unfold spareBits at hspare
    omega
  have hne : num / den ≠ 0 := by
    intro h0
    simp [h0] at hlog
  have hbelow : v < 2 ^ (num / den).log2 :=
    lt_of_lt_of_le Nat.lt_log2_self (Nat.pow_le_pow_right (by decide) hlog)
  have hself : ((2 ^ (num / den).log2 : Nat) : ℚ) ≤ num / den := by
    rw [le_div_iff₀ (by exact_mod_cast hden)]
    exact_mod_cast (Nat.le_div_iff_mul_le hden).mp (Nat.log2_self_le hne)
  have hclose := (closest_of_dvd hden (v := 2 ^ (num / den).log2)
    (Nat.pow_dvd_pow 2 (Nat.sub_le _ _))).1
  have hbelow' : (v : ℚ) < (2 ^ (num / den).log2 : Nat) := by exact_mod_cast hbelow
  rw [abs_of_nonneg (sub_nonneg.mpr hself)] at hclose
  rw [abs_of_nonneg (sub_nonneg.mpr (hbelow'.le.trans hself))]
  linarith

/-- The unit of the rounded count is that of the ratio, unless it rounds up to the next
power of two, which is even for any unit. -/
private theorem spareBits_nearest_succ_dvd
    (h : 2 ^ (spareBits (num / den) + 1) ∣ nearest num den) :
    2 ^ (spareBits (nearest num den) + 1) ∣ nearest num den := by
  have hle : nearest num den ≤ 2 ^ (53 + spareBits (num / den)) := by
    rw [Nat.pow_add]
    exact Nat.mul_le_mul_right _ (divNearest_spare_le num den)
  rcases Nat.eq_or_lt_of_le hle with heq | hlt
  · rw [heq]
    apply Nat.pow_dvd_pow
    unfold spareBits
    rw [Nat.log2_two_pow]
    omega
  · refine (Nat.pow_dvd_pow 2 ?_).trans h
    by_cases hz : nearest num den = 0
    · simp [hz, spareBits]
    · have := (Nat.log2_lt hz).mpr hlt
      simp only [spareBits] at *
      omega

theorem nearest_rounded (num : Nat) (hden : 0 < den) : Rounded (num / den) (nearest num den) where
  short := spare_dvd_nearest num den
  closest v hv := by
    by_cases hdvd : 2 ^ spareBits (num / den) ∣ v
    · exact (closest_of_dvd hden hdvd).1
    · exact (farther_of_not_dvd hden hv hdvd).le
  even v hv hne hsame := by
    by_cases hdvd : 2 ^ spareBits (num / den) ∣ v
    · exact spareBits_nearest_succ_dvd ((closest_of_dvd hden hdvd).2 hne hsame)
    · exact absurd hsame (farther_of_not_dvd hden hv hdvd).ne

end

/-! ### The end of the range -/

section
variable {k : Nat}

private theorem log2_eq_of_le {n : Nat} (hlo : 2 ^ k ≤ n) (hhi : n < 2 ^ (k + 1)) :
    n.log2 = k := by
  have hpos := Nat.two_pow_pos k
  exact (Nat.log2_eq_iff (by omega)).mpr ⟨hlo, hhi⟩

/-- The last count below a power of two has all its 53 bits set. -/
theorem spareBits_last (k : Nat) : spareBits ((2 ^ 53 - 1) * 2 ^ k) = k := by
  have hlo : 2 ^ (52 + k) ≤ (2 ^ 53 - 1) * 2 ^ k := by
    rw [Nat.pow_add]
    exact Nat.mul_le_mul_right _ (by decide)
  have hhi : (2 ^ 53 - 1) * 2 ^ k < 2 ^ (52 + k + 1) := by
    rw [show 52 + k + 1 = 53 + k by omega, Nat.pow_add]
    exact Nat.mul_lt_mul_of_pos_right (by decide) (Nat.two_pow_pos _)
  rw [spareBits, log2_eq_of_le hlo hhi]
  omega

theorem short_last (k : Nat) : Short ((2 ^ 53 - 1) * 2 ^ k) := by
  rw [Short, spareBits_last]
  exact Nat.dvd_mul_left _ _

theorem short_two_pow (k : Nat) : Short (2 ^ k) := by
  rw [Short, spareBits, Nat.log2_two_pow]
  exact Nat.pow_dvd_pow 2 (Nat.sub_le _ _)

theorem Short.le_last {u : Nat} (hu : Short u) (hlt : u < 2 ^ (53 + k)) :
    u ≤ (2 ^ 53 - 1) * 2 ^ k := by
  rcases Nat.lt_or_ge u (2 ^ (52 + k)) with hsmall | hbig
  · refine hsmall.le.trans ?_
    rw [Nat.pow_add]
    exact Nat.mul_le_mul_right _ (by decide)
  · obtain ⟨w, rfl⟩ : 2 ^ k ∣ u := by
      rw [Short, spareBits, log2_eq_of_le hbig (by rwa [show 52 + k + 1 = 53 + k by omega]),
        Nat.add_sub_cancel_left] at hu
      exact hu
    rw [Nat.pow_add, Nat.mul_comm] at hlt
    have hw := Nat.lt_of_mul_lt_mul_right hlt
    rw [Nat.mul_comm]
    exact Nat.mul_le_mul_right _ (by omega)

/-- What rounds to a power of two or beyond is at least halfway there from the last count
before it. The last count is odd, so halfway is enough. -/
theorem Rounded.lt_two_pow_iff {q : ℚ} {u : Nat} (h : Rounded q u) :
    u < 2 ^ (54 + k) ↔ q < 2 ^ (54 + k) - 2 ^ k := by
  obtain ⟨half, hhalf⟩ : ∃ b : ℚ, b = 2 ^ k := ⟨_, rfl⟩
  have hpos : 0 < half := by rw [hhalf]; positivity
  have hnext : ((2 ^ (54 + k) : Nat) : ℚ) = 2 ^ 54 * half := by
    push_cast
    rw [hhalf, pow_add]
  have hlast : (((2 ^ 53 - 1) * 2 ^ (k + 1) : Nat) : ℚ) = (2 ^ 54 - 2) * half := by
    rw [hhalf, Nat.cast_mul]
    push_cast
    norm_num
    ring
  rw [show (2 : ℚ) ^ (54 + k) - 2 ^ k = (2 ^ 54 - 1) * half by rw [hhalf, pow_add]; ring]
  have hcloseLast := h.closest _ (short_last (k + 1))
  have hcloseNext := h.closest _ (short_two_pow (54 + k))
  rw [hlast] at hcloseLast
  rw [hnext] at hcloseNext
  constructor
  · intro hlt
    by_contra hge
    have hge := not_lt.mp hge
    have hle : u ≤ (2 ^ 53 - 1) * 2 ^ (k + 1) :=
      h.short.le_last (by rwa [show 53 + (k + 1) = 54 + k by omega])
    have hle' : (u : ℚ) ≤ (2 ^ 54 - 2) * half := by
      rw [← hlast]
      exact_mod_cast hle
    rw [abs_of_nonneg (show 0 ≤ q - u by linarith)] at hcloseNext
    rcases le_total (2 ^ 54 * half) q with hq | hq
    · rw [abs_of_nonneg (sub_nonneg.mpr hq)] at hcloseNext
      linarith
    · -- halfway: the two neighbours tie, and the lower one is odd
      rw [abs_of_nonpos (sub_nonpos.mpr hq)] at hcloseNext
      have hu : (u : ℚ) = ((2 ^ 53 - 1) * 2 ^ (k + 1) : Nat) := by
        rw [hlast]
        linarith
      have hu' : u = (2 ^ 53 - 1) * 2 ^ (k + 1) := by exact_mod_cast hu
      have heven := h.even (2 ^ (54 + k)) (short_two_pow _) (by omega) (by
        rw [hnext, abs_of_nonneg (show 0 ≤ q - u by linarith), abs_of_nonpos (sub_nonpos.mpr hq)]
        linarith)
      rw [hu', spareBits_last, Nat.pow_succ, Nat.mul_comm] at heven
      exact absurd (Nat.dvd_of_mul_dvd_mul_right (Nat.two_pow_pos _) heven) (by decide)
  · intro hlt
    by_contra hge
    have hge' : 2 ^ 54 * half ≤ u := by
      rw [← hnext]
      exact_mod_cast not_lt.mp hge
    rw [abs_of_nonpos (show q - u ≤ 0 by linarith)] at hcloseLast
    rcases le_total ((2 ^ 54 - 2) * half) q with hq | hq
    · rw [abs_of_nonneg (sub_nonneg.mpr hq)] at hcloseLast
      linarith
    · rw [abs_of_nonpos (sub_nonpos.mpr hq)] at hcloseLast
      linarith

end

/-- A ratio of units is in range up to halfway between the largest double and `2 ^ 1024`. -/
theorem ofUnits_isInfinite_iff {num den : Nat} (hden : 0 < den) (negative : Bool) :
    (ofUnits negative num den).isInfinite = true ↔
      (2 ^ 2098 - 2 ^ 2044 : ℚ) ≤ num / den := by
  have hiff := (nearest_rounded num hden).lt_two_pow_iff (k := 2044)
  rw [show 54 + 2044 = 2098 from rfl] at hiff
  rw [← not_lt, ← hiff, ← overflow_eq, ofUnits]
  split
  · next hlt => exact ⟨fun h => Bool.noConfusion h, fun h => absurd hlt h⟩
  · next hge => exact ⟨fun _ => hge, fun _ => rfl⟩

theorem ofUnits_rounded {num den : Nat} (hden : 0 < den) (negative : Bool)
    (h : (ofUnits negative num den).isInfinite = false) :
    ∃ units fits, ofUnits negative num den = .finite negative units fits ∧
      Rounded (num / den) units := by
  by_cases hlt : nearest num den < overflow
  · exact ⟨_, ⟨hlt, spare_dvd_nearest num den⟩, dif_pos hlt, nearest_rounded num hden⟩
  · rw [ofUnits, dif_neg hlt] at h
    cases h

end Reckon.Binary64
