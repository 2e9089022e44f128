import Reckon.Proofs.Pieces
import Reckon.Proofs.Rounding

/-!
Runs of digits and points. A run is a number if it has a digit, at most one point and a
value in range; a second point is reported before anything else about the run.
-/

namespace Reckon.Scanner

def Digits (cs : List Char) : Prop := ∀ c ∈ cs, c.isDigit

def wholeDigits (run : List Char) : List Char := run.takeWhile (· != '.')

def fractionDigits (run : List Char) : List Char := (run.dropWhile (· != '.')).tail

/-- The value of a run before it is rounded. -/
def exactValue (run : List Char) : ℚ :=
  Nat.ofDigitChars 10 (wholeDigits run ++ fractionDigits run) 0 / 10 ^ (fractionDigits run).length

/-- Whole numbers are bounded in length, numbers with a point by the largest double. -/
structure InRange (run : List Char) : Prop where
  short : '.' ∉ run → run.length ≤ 4300
  finite : '.' ∈ run → exactValue run < 2 ^ 1024 - 2 ^ 970

structure LegalRun (run : List Char) : Prop where
  digit : ∃ c ∈ run, c.isDigit
  points : run.count '.' ≤ 1
  range : InRange run

/-- A whole number stands for itself, a number with a point for the nearest double. -/
inductive Denotes (run : List Char) : Number → Prop where
  | whole (hpoint : '.' ∉ run) : Denotes run (.int (Nat.ofDigitChars 10 run 0))
  | decimal {units : Nat} (fits : Binary64.Representable units) (hpoint : '.' ∈ run)
      (hrounded : Binary64.Rounded (exactValue run * 2 ^ 1074) units) :
      Denotes run (.float (.finite false units fits))

theorem isNumeral_iff {c : Char} : isNumeral c ↔ c.isDigit ∨ c = '.' := by
  simp [isNumeral]

theorem Digits.not_point {cs : List Char} (h : Digits cs) : '.' ∉ cs :=
  fun hmem => absurd (h '.' hmem) (by decide)

theorem digits_cons {c : Char} {cs : List Char} : Digits (c :: cs) ↔ c.isDigit ∧ Digits cs := by
  simp [Digits]

/-- Up to its first point a run is made of digits. -/
theorem first_point (run : List Char) (hrun : ∀ c ∈ run, isNumeral c) :
    Digits run ∨ ∃ a b, Digits a ∧ run = a ++ '.' :: b := by
  induction run with
  | nil => exact .inl (by simp [Digits])
  | cons c run ih =>
    rcases isNumeral_iff.mp (hrun c (by simp)) with hc | rfl
    · rcases ih (fun d hd => hrun d (by simp [hd])) with h | ⟨a, b, ha, rfl⟩
      · exact .inl (digits_cons.mpr ⟨hc, h⟩)
      · exact .inr ⟨c :: a, b, digits_cons.mpr ⟨hc, ha⟩, rfl⟩
    · exact .inr ⟨[], run, by simp [Digits], rfl⟩

theorem second_point {run : List Char} (hrun : ∀ c ∈ run, isNumeral c)
    (hcount : 1 < run.count '.') :
    ∃ a b c, Digits a ∧ Digits b ∧ run = (a ++ '.' :: b) ++ '.' :: c := by
  rcases first_point run hrun with h | ⟨a, b, ha, rfl⟩
  · rw [List.count_eq_zero.mpr h.not_point] at hcount
    omega
  · rcases first_point b (fun c hc => hrun c (by simp [hc])) with hb | ⟨b, c, hb, rfl⟩
    · simp [List.count_eq_zero.mpr ha.not_point, List.count_eq_zero.mpr hb.not_point] at hcount
    · exact ⟨a, b, c, ha, hb, by simp⟩

theorem lone_point {run : List Char} (hrun : ∀ c ∈ run, isNumeral c) (hne : run ≠ [])
    (hdigit : ¬ ∃ c ∈ run, c.isDigit) (hcount : run.count '.' ≤ 1) : run = ['.'] := by
  have hpoint : ∀ c ∈ run, c = '.' := fun c hc =>
    (isNumeral_iff.mp (hrun c hc)).resolve_left fun h => hdigit ⟨c, hc, h⟩
  have heq := List.eq_replicate_of_mem hpoint
  rw [heq, List.count_replicate_self] at hcount
  have hlen : run.length = 1 := by
    have := List.length_pos_iff.mpr hne
    omega
  rw [heq, hlen]
  rfl

section
variable {run rest : List Char}

theorem numeralRun_bounded (hrest : Bounded rest) (seen : Bool) : numeralRun seen rest = [] := by
  cases rest with
  | nil => rfl
  | cons c cs =>
    have hc := bounded_cons.mp hrest
    simp only [isNumeral, Bool.or_eq_false_iff] at hc
    simp [numeralRun, hc.1, hc.2]

theorem numeralRun_digits {a : List Char} (ha : Digits a) (seen : Bool) (cs : List Char) :
    numeralRun seen (a ++ cs) = a ++ numeralRun seen cs := by
  induction a with
  | nil => rfl
  | cons c a ih =>
    obtain ⟨hc, ha⟩ := digits_cons.mp ha
    simp [numeralRun, hc, ih ha]

/-- Without a second point the whole run is read. -/
theorem numeralRun_eq (hrun : ∀ c ∈ run, isNumeral c) (hcount : run.count '.' ≤ 1)
    (hrest : Bounded rest) : numeralRun false (run ++ rest) = run := by
  rcases first_point run hrun with h | ⟨a, b, ha, rfl⟩
  · rw [numeralRun_digits h, numeralRun_bounded hrest, List.append_nil]
  · have hb : Digits b := by
      rcases first_point b (fun c hc => hrun c (by simp [hc])) with hb | ⟨b, c, -, rfl⟩
      · exact hb
      · simp only [List.count_append, List.count_cons_self] at hcount
        omega
    rw [List.append_assoc, numeralRun_digits ha, List.cons_append, numeralRun]
    simp [numeralRun_digits hb, numeralRun_bounded hrest]

theorem numeralRun_secondPoint {a b : List Char} (ha : Digits a) (hb : Digits b)
    (cs : List Char) : numeralRun false ((a ++ '.' :: b) ++ '.' :: cs) = a ++ '.' :: b := by
  rw [List.append_assoc, numeralRun_digits ha, List.cons_append, numeralRun]
  simp [numeralRun_digits hb, numeralRun]

theorem units_ofDigits (whole fraction : List Char) :
    (Decimal.ofDigits whole fraction).units =
      (Nat.ofDigitChars 10 (whole ++ fraction) 0 * Binary64.one, 10 ^ fraction.length) := by
  simp only [Decimal.units, Decimal.ofDigits, Decimal.scale, Int.neg_neg, Int.toNat_natCast]
  rw [if_neg (by omega), Nat.one_mul]

/-- The double that a run with a point is read as, unless it is infinite. -/
def readDouble (run : List Char) : Binary64 :=
  (Decimal.ofDigits (wholeDigits run) (fractionDigits run)).toBinary64 false

theorem units_exactValue (run : List Char) :
    ((Nat.ofDigitChars 10 (wholeDigits run ++ fractionDigits run) 0 * Binary64.one : Nat) : ℚ) /
      (10 ^ (fractionDigits run).length : Nat) = exactValue run * 2 ^ 1074 := by
  rw [exactValue, Nat.cast_mul, Binary64.one_eq, Nat.cast_pow, Nat.cast_pow, Nat.cast_ofNat,
    Nat.cast_ofNat, mul_div_right_comm]

theorem readDouble_eq (run : List Char) :
    readDouble run = Binary64.ofUnits false
      (Nat.ofDigitChars 10 (wholeDigits run ++ fractionDigits run) 0 * Binary64.one)
      (10 ^ (fractionDigits run).length) := by
  rw [readDouble, Decimal.toBinary64, units_ofDigits]

theorem readDouble_isInfinite_iff (run : List Char) :
    (readDouble run).isInfinite = true ↔ (2 ^ 1024 - 2 ^ 970 : ℚ) ≤ exactValue run := by
  rw [readDouble_eq, Binary64.ofUnits_isInfinite_iff (Nat.pow_pos (by decide)), units_exactValue]
  have hpos : (0 : ℚ) < 2 ^ 1074 := by positivity
  rw [← mul_le_mul_iff_of_pos_right hpos (b := (2 ^ 1024 - 2 ^ 970 : ℚ)), sub_mul, ← pow_add,
    ← pow_add]

theorem readDouble_rounded (run : List Char) (h : (readDouble run).isInfinite = false) :
    ∃ units fits, readDouble run = .finite false units fits ∧
      Binary64.Rounded (exactValue run * 2 ^ 1074) units := by
  rw [readDouble_eq] at h ⊢
  rw [← units_exactValue]
  exact Binary64.ofUnits_rounded (Nat.pow_pos (by decide)) false h

theorem numeralValue?_point (hpoint : '.' ∈ run) :
    numeralValue? run =
      if (readDouble run).isInfinite then none else some (.float (readDouble run)) := by
  rw [numeralValue?, if_pos (List.contains_iff_mem.mpr hpoint)]
  unfold readDouble wholeDigits fractionDigits
  rfl

theorem numeralValue?_whole (hpoint : '.' ∉ run) :
    numeralValue? run =
      if run.isEmpty || Number.maxDigits < run.length then none
      else some (.int (Nat.ofDigitChars 10 run 0)) := by
  simp [numeralValue?, hpoint]

theorem denotes_of_numeralValue? {v : Number} (h : numeralValue? run = some v) :
    Denotes run v := by
  by_cases hpoint : '.' ∈ run
  · rw [numeralValue?_point hpoint] at h
    split at h
    · cases h
    · next hfinite =>
      obtain ⟨units, fits, heq, hrounded⟩ := readDouble_rounded run (by simpa using hfinite)
      obtain rfl := Option.some.inj h
      rw [heq]
      exact .decimal fits hpoint hrounded
  · rw [numeralValue?_whole hpoint] at h
    split at h
    · cases h
    · obtain rfl := Option.some.inj h
      exact .whole hpoint

theorem numeralValue?_isSome_iff (hne : run ≠ []) :
    (∃ v, numeralValue? run = some v) ↔ InRange run := by
  by_cases hpoint : '.' ∈ run
  · have hiff := readDouble_isInfinite_iff run
    rw [numeralValue?_point hpoint]
    split
    · next hinf =>
      exact ⟨fun ⟨_, h⟩ => (by cases h), fun h => absurd (hiff.mp hinf) (h.finite hpoint).not_ge⟩
    · next hfin =>
      rw [hiff, not_le] at hfin
      exact ⟨fun _ => ⟨fun h => absurd hpoint h, fun _ => hfin⟩, fun _ => ⟨_, rfl⟩⟩
  · rw [numeralValue?_whole hpoint]
    split
    · next hlong =>
      simp only [List.isEmpty_iff, hne, Bool.or_eq_true, decide_eq_true_eq, false_or] at hlong
      exact ⟨fun ⟨_, h⟩ => (by cases h), fun h => absurd (h.short hpoint) (not_le.mpr hlong)⟩
    · next hshort =>
      simp only [List.isEmpty_iff, hne, Bool.or_eq_true, decide_eq_true_eq, false_or] at hshort
      exact ⟨fun _ => ⟨fun _ => not_lt.mp hshort, fun h => absurd h hpoint⟩, fun _ => ⟨_, rfl⟩⟩

end

end Reckon.Scanner
