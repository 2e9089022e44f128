import Mathlib.Data.List.DropRight
import Reckon.Number.Basic
import Reckon.Proofs.Numerals

/-!
The text of a number says which number it is. The decimal that is picked for a double is read as
that double again, and so is its text in each of the three layouts; whole numbers are told from
doubles by the lack of a point and an exponent.
-/

namespace Reckon

open Scanner (Digits)

namespace Binary64

/-! ### Rounding a ratio in any terms -/

section
variable {num den num' den' : Nat}

theorem divNearest_mul_left {k : Nat} (hk : 0 < k) :
    divNearest (k * num) (k * den) = divNearest num den := by
  have hlt : 2 * (k * (num % den)) < k * den ↔ 2 * (num % den) < den := by
    rw [Nat.mul_left_comm, Nat.mul_lt_mul_left hk]
  have heq : 2 * (k * (num % den)) = k * den ↔ 2 * (num % den) = den := by
    rw [Nat.mul_left_comm, Nat.mul_right_inj hk.ne']
  simp only [divNearest, Nat.mul_div_mul_left _ _ hk, Nat.mul_mod_mul_left, hlt, heq]

theorem nearest_mul_left {k : Nat} (hk : 0 < k) :
    nearest (k * num) (k * den) = nearest num den := by
  simp only [nearest, Nat.mul_div_mul_left _ _ hk, Nat.mul_assoc, divNearest_mul_left hk]

/-- Only the ratio counts. -/
theorem nearest_congr (hden : 0 < den) (hden' : 0 < den') (h : (num / den : ℚ) = num' / den') :
    nearest num den = nearest num' den' := by
  have hcross : den' * num = den * num' := by
    rw [div_eq_div_iff (by exact_mod_cast hden.ne') (by exact_mod_cast hden'.ne'),
      mul_comm (num : ℚ), mul_comm (num' : ℚ)] at h
    exact_mod_cast h
  rw [← nearest_mul_left hden', hcross, Nat.mul_comm den' den, nearest_mul_left hden]

end

theorem divNearest_cancel_left {b : Nat} (hb : 0 < b) (w : Nat) : divNearest (b * w) b = w := by
  simp [divNearest, Nat.mul_div_cancel_left w hb, hb]

/-- A count that needs no rounding is kept. -/
theorem nearest_of_short {units : Nat} (h : Short units) : nearest units 1 = units := by
  obtain ⟨w, hw⟩ := h
  simp only [nearest, Nat.div_one, Nat.one_mul]
  generalize spareBits units = spare at hw ⊢
  rw [hw, divNearest_cancel_left (Nat.two_pow_pos spare), Nat.mul_comm]

end Binary64

namespace Decimal

/-- The number itself, before it is rounded. -/
def value (d : Decimal) : ℚ := d.digits * 10 ^ d.exponent

theorem scale_pos (num : Nat) {den : Nat} (hden : 0 < den) (e : Int) :
    0 < (scale num den e).2 := by
  unfold scale
  split
  · exact hden
  · exact Nat.mul_pos hden (Nat.pow_pos (by decide))

theorem scale_ratio (num den : Nat) (e : Int) :
    ((scale num den e).1 / (scale num den e).2 : ℚ) = num / den / 10 ^ e := by
  rw [scale]
  split
  · next hneg =>
    obtain ⟨n, rfl⟩ : ∃ n : Nat, e = -n := ⟨(-e).toNat, by omega⟩
    rw [Int.neg_neg, Int.toNat_natCast, zpow_neg, zpow_natCast, div_inv_eq_mul]
    push_cast
    ring
  · next hpos =>
    obtain ⟨n, rfl⟩ : ∃ n : Nat, e = n := ⟨e.toNat, by omega⟩
    rw [Int.toNat_natCast, zpow_natCast, div_div]
    push_cast
    rfl

theorem units_pos (d : Decimal) : 0 < d.units.2 := scale_pos _ Nat.one_pos _

theorem units_ratio (d : Decimal) : (d.units.1 / d.units.2 : ℚ) = d.value * Binary64.one := by
  rw [units, scale_ratio, value, zpow_neg, div_inv_eq_mul]
  push_cast
  ring

theorem readsAs_congr {d d' : Decimal} (h : d.value = d'.value) (n : Nat) :
    d.readsAs n = d'.readsAs n := by
  have hnearest : Binary64.nearest d.units.1 d.units.2 = Binary64.nearest d'.units.1 d'.units.2 :=
    Binary64.nearest_congr d.units_pos d'.units_pos (by rw [units_ratio, units_ratio, h])
  rw [readsAs, readsAs, hnearest]

/-! ### The decimal of a double -/

theorem readsAs_of_onGrid? {n : Nat} {e : Int} {d : Decimal} (h : onGrid? n e = some d) :
    d.readsAs n := by
  unfold onGrid? at h
  generalize scale n Binary64.one e = ratio at h
  obtain ⟨num, den⟩ := ratio
  dsimp only at h
  split at h
  · next hlow hhigh =>
    obtain rfl := Option.some.inj h
    unfold Binary64.divNearest
    dsimp only
    split
    · exact hlow
    · exact hhigh
  · next hlow _ =>
    obtain rfl := Option.some.inj h
    exact hlow
  · next _ hhigh =>
    obtain rfl := Option.some.inj h
    exact hhigh
  · cases h

theorem value_exact (n : Nat) : (exact n).value * Binary64.one = n := by
  have hpowers : ∀ k : Nat, (n * 5 ^ k : ℚ) * 10 ^ (-k : Int) * 2 ^ k = n := by
    intro k
    rw [zpow_neg, zpow_natCast, show (10 : ℚ) = 5 * 2 by norm_num, mul_pow]
    field_simp
  rw [value, exact, Binary64.one_eq, Nat.cast_mul, Nat.cast_pow, Nat.cast_pow]
  exact hpowers 1074

theorem readsAs_exact {n : Nat} (h : Binary64.Short n) : (exact n).readsAs n := by
  have hratio : ((exact n).units.1 / (exact n).units.2 : ℚ) = n / (1 : Nat) := by
    rw [units_ratio, value_exact, Nat.cast_one, div_one]
  have hnearest : Binary64.nearest (exact n).units.1 (exact n).units.2 = n :=
    (Binary64.nearest_congr (units_pos _) Nat.one_pos hratio).trans (Binary64.nearest_of_short h)
  rw [readsAs, hnearest, beq_self_eq_true]

/-- Whichever grid it is on, the decimal that is picked is read as the count again. -/
theorem readsAs_shortest {n : Nat} (h : Binary64.Short n) : (shortest n).readsAs n := by
  rw [shortest]
  cases hfind : (List.range 17).findSome? fun (k : Nat) => onGrid? n (leading n - k) with
  | none =>
    -- no short decimal is needed here: all the digits do as well
    exact readsAs_exact h
  | some d =>
    obtain ⟨k, -, hk⟩ := List.exists_of_findSome?_eq_some hfind
    exact readsAs_of_onGrid? hk

/-! ### Spellings of a decimal -/

/-- The ways to write a decimal: with a point, with a point and an exponent, or with an exponent. -/
inductive Spells : Decimal → List Char → Prop where
  | positional {whole fraction : List Char} (hwhole : Digits whole) (hne : whole ≠ [])
      (hfraction : Digits fraction) :
      Spells (ofDigits whole fraction) (whole ++ '.' :: fraction)
  | scientific {whole fraction : List Char} (hwhole : Digits whole) (hne : whole ≠ [])
      (hfraction : Digits fraction) (e : Int) :
      Spells ⟨(ofDigits whole fraction).digits, (ofDigits whole fraction).exponent + e⟩
        (whole ++ '.' :: (fraction ++ exponentText e))
  | power {whole : List Char} (hwhole : Digits whole) (hne : whole ≠ []) (e : Int) :
      Spells ⟨(ofDigits whole []).digits, (ofDigits whole []).exponent + e⟩
        (whole ++ exponentText e)

theorem digits_toDigits (n : Nat) : Digits (Nat.toDigits 10 n) :=
  fun _ hc => Nat.isDigit_of_mem_toDigits (by decide) (by decide) hc

theorem digits_zeros (n : Nat) : Digits (List.replicate n '0') := by
  intro c hc
  rw [List.eq_of_mem_replicate hc]
  rfl

section
variable {digits rest : List Char}

theorem takeWhile_digits (h : Digits digits) (hrest : ∀ c ∈ rest.head?, c.isDigit = false) :
    (digits ++ rest).takeWhile Char.isDigit = digits := by
  rw [List.takeWhile_append_of_pos h]
  cases rest with
  | nil => exact List.append_nil digits
  | cons c rest => rw [List.takeWhile_cons_of_neg (by simp [hrest c rfl]), List.append_nil]

theorem dropWhile_digits (h : Digits digits) (hrest : ∀ c ∈ rest.head?, c.isDigit = false) :
    (digits ++ rest).dropWhile Char.isDigit = rest := by
  rw [List.dropWhile_append_of_pos h]
  cases rest with
  | nil => rfl
  | cons c rest => exact List.dropWhile_cons_of_neg (by simp [hrest c rfl])

end

/-- An exponent is written with its sign, and read back. -/
theorem exponentText_eq (e : Int) :
    ∃ sign digits, exponentText e = 'e' :: sign :: digits ∧ (sign = '-' ∨ sign = '+') ∧
      Digits digits ∧ Binary64.readExponent? (sign :: digits) = some e := by
  obtain ⟨digits, hpadded⟩ : ∃ digits, digits = if (Nat.toDigits 10 e.natAbs).length < 2 then
      '0' :: Nat.toDigits 10 e.natAbs else Nat.toDigits 10 e.natAbs := ⟨_, rfl⟩
  have hdigits : Digits digits := by
    rw [hpadded]
    split
    · exact Scanner.digits_cons.mpr ⟨rfl, digits_toDigits _⟩
    · exact digits_toDigits _
  have hne : digits ≠ [] := by
    rw [hpadded]
    split
    · exact List.cons_ne_nil _ _
    · exact Nat.toDigits_ne_nil
  have hvalue : Nat.ofDigitChars 10 digits 0 = e.natAbs := by
    rw [hpadded]
    split
    · exact Nat.ofDigitChars_ten_toDigits
    · exact Nat.ofDigitChars_ten_toDigits
  refine ⟨if e < 0 then '-' else '+', digits, by rw [exponentText, hpadded], ?_, hdigits, ?_⟩
  · split
    · exact .inl rfl
    · exact .inr rfl
  · by_cases he : e < 0
    · simp [he, Binary64.readExponent?, Binary64.splitSign, hne, List.all_eq_true.mpr hdigits,
        hvalue, abs_of_neg he]
    · simp [he, Binary64.readExponent?, Binary64.splitSign, hne, List.all_eq_true.mpr hdigits,
        hvalue, abs_of_nonneg (not_lt.mp he)]

theorem Spells.readDecimal? {d : Decimal} {cs : List Char} (h : Spells d cs) :
    Binary64.readDecimal? cs = some d := by
  cases h with
  | @positional whole fraction hwhole hne hfraction =>
    have hpoint : ∀ c ∈ ('.' :: fraction).head?, c.isDigit = false := by simp
    have htake : (fraction ++ []).takeWhile Char.isDigit = fraction :=
      takeWhile_digits hfraction (by simp)
    have hdrop : (fraction ++ []).dropWhile Char.isDigit = [] :=
      dropWhile_digits hfraction (by simp)
    rw [List.append_nil] at htake hdrop
    simp [Binary64.readDecimal?, takeWhile_digits hwhole hpoint, dropWhile_digits hwhole hpoint,
      htake, hdrop, hne]
  | @scientific whole fraction hwhole hne hfraction e =>
    obtain ⟨sign, digits, htext, -, -, hread⟩ := exponentText_eq e
    have hmark : ∀ c ∈ ('e' :: sign :: digits).head?, c.isDigit = false := by simp
    have hpoint : ∀ c ∈ ('.' :: (fraction ++ 'e' :: sign :: digits)).head?, c.isDigit = false := by
      simp
    simp [Binary64.readDecimal?, htext, takeWhile_digits hwhole hpoint,
      dropWhile_digits hwhole hpoint, takeWhile_digits hfraction hmark,
      dropWhile_digits hfraction hmark, hne, hread]
  | @power whole hwhole hne e =>
    obtain ⟨sign, digits, htext, -, -, hread⟩ := exponentText_eq e
    have hmark : ∀ c ∈ ('e' :: sign :: digits).head?, c.isDigit = false := by simp
    simp [Binary64.readDecimal?, htext, takeWhile_digits hwhole hmark,
      dropWhile_digits hwhole hmark, hne, hread]

theorem value_ofDigits (whole fraction : List Char) :
    (ofDigits whole fraction).value =
      Nat.ofDigitChars 10 (whole ++ fraction) 0 * 10 ^ (-(fraction.length : Int)) :=
  rfl

section
variable {digits : List Char} (h : Digits digits)
include h

/-- The exponent is that of the first digit. -/
theorem spells_exponent (hne : digits ≠ []) {point : Int}
    (hfar : widestWhole < point ∨ point < -mostLeadingZeros) :
    ∃ d, Spells d (layout digits point) ∧
      d.value = Nat.ofDigitChars 10 digits 0 * 10 ^ (point - digits.length) := by
  unfold layout
  rw [if_pos hfar]
  match digits, h, hne with
  | [c], h, hne =>
    refine ⟨_, .power h hne (point - 1), ?_⟩
    simp [value, ofDigits]
  | c :: c' :: rest, h, _ =>
    obtain ⟨hc, hrest⟩ := Scanner.digits_cons.mp h
    have hfirst : Digits [c] := by simpa [Digits] using hc
    refine ⟨_, .scientific hfirst (by simp) hrest (point - 1), ?_⟩
    simp only [value, ofDigits, List.singleton_append, List.length_cons]
    congr 2
    push_cast
    ring

theorem spells_fraction (zeros : Nat) :
    ∃ d, Spells d ('0' :: '.' :: List.replicate zeros '0' ++ digits) ∧
      d.value = Nat.ofDigitChars 10 digits 0 * 10 ^ (-(zeros : Int) - digits.length) := by
  have hfraction : Digits (List.replicate zeros '0' ++ digits) :=
    List.forall_mem_append.mpr ⟨digits_zeros zeros, h⟩
  refine ⟨ofDigits ['0'] (List.replicate zeros '0' ++ digits),
    .positional (digits_zeros 1) (by simp) hfraction, ?_⟩
  have hvalue : Nat.ofDigitChars 10 (['0'] ++ (List.replicate zeros '0' ++ digits)) 0 =
      Nat.ofDigitChars 10 digits 0 := by
    simp [Nat.ofDigitChars_append, Nat.ofDigitChars_cons]
  rw [value_ofDigits, hvalue, List.length_append, List.length_replicate]
  congr 2
  push_cast
  ring

theorem spells_whole (hne : digits ≠ []) (zeros : Nat) :
    ∃ d, Spells d (digits ++ List.replicate zeros '0' ++ '.' :: ['0']) ∧
      d.value = Nat.ofDigitChars 10 digits 0 * 10 ^ (zeros : Int) := by
  have hwhole : Digits (digits ++ List.replicate zeros '0') :=
    List.forall_mem_append.mpr ⟨h, digits_zeros zeros⟩
  refine ⟨_, .positional hwhole (by simp [hne]) (digits_zeros 1), ?_⟩
  have hvalue : Nat.ofDigitChars 10 (digits ++ List.replicate zeros '0' ++ ['0']) 0 =
      Nat.ofDigitChars 10 digits 0 * 10 ^ (zeros + 1) := by
    rw [List.append_assoc, ← List.replicate_succ', Nat.ofDigitChars_append,
      Nat.ofDigitChars_replicate_zero, Nat.mul_comm]
  rw [value_ofDigits, hvalue, Nat.cast_mul, mul_assoc, Nat.cast_pow, Nat.cast_ofNat,
    ← zpow_natCast, ← zpow_add₀ (by norm_num), List.length_singleton]
  congr 2
  push_cast
  ring

theorem spells_split {point : Nat} (hpos : 0 < point) (hpoint : point ≤ digits.length) :
    ∃ d, Spells d (digits.take point ++ '.' :: digits.drop point) ∧
      d.value = Nat.ofDigitChars 10 digits 0 * 10 ^ ((point : Int) - digits.length) := by
  have hwhole : digits.take point ≠ [] := by
    rw [← List.length_pos_iff, List.length_take]
    omega
  refine ⟨_, .positional (fun c hc => h c (List.mem_of_mem_take hc)) hwhole
    (fun c hc => h c (List.mem_of_mem_drop hc)), ?_⟩
  rw [value_ofDigits, List.take_append_drop, List.length_drop]
  congr 2
  omega

/-- Digits with a point in any place have the value that goes with the place. -/
theorem layout_spells (hne : digits ≠ []) (point : Int) :
    ∃ d, Spells d (layout digits point) ∧
      d.value = Nat.ofDigitChars 10 digits 0 * 10 ^ (point - digits.length) := by
  by_cases hfar : widestWhole < point ∨ point < -mostLeadingZeros
  · exact spells_exponent h hne hfar
  · unfold layout
    rw [if_neg hfar]
    split
    · obtain ⟨zeros, rfl⟩ : ∃ zeros : Nat, point = -zeros := ⟨(-point).toNat, by omega⟩
      rw [Int.neg_neg, Int.toNat_natCast]
      exact spells_fraction h zeros
    · obtain ⟨whole, rfl⟩ : ∃ whole : Nat, point = whole := ⟨point.toNat, by omega⟩
      dsimp only
      rw [Int.toNat_natCast]
      split
      · next hwhole =>
        obtain ⟨zeros, rfl⟩ := Nat.exists_eq_add_of_le hwhole
        rw [List.take_of_length_le hwhole, Nat.add_sub_cancel_left, Nat.cast_add,
          add_sub_cancel_left]
        exact spells_whole h hne zeros
      · next hsplit =>
        rw [Nat.sub_eq_zero_of_le (by omega), List.replicate_zero, List.append_nil]
        exact spells_split h (by omega) (by omega)

end

/-- The digits without the zeros at their end. -/
def significant (d : Decimal) : List Char := (Nat.toDigits 10 d.digits).rdropWhile (· == '0')

theorem toDigits_eq_significant (d : Decimal) :
    ∃ zeros, Nat.toDigits 10 d.digits = d.significant ++ List.replicate zeros '0' := by
  refine ⟨((Nat.toDigits 10 d.digits).rtakeWhile (· == '0')).length, ?_⟩
  have hzeros : ∀ c ∈ (Nat.toDigits 10 d.digits).rtakeWhile (· == '0'), c = '0' := by
    intro c hc
    simpa using List.mem_rtakeWhile_imp hc
  rw [← List.eq_replicate_of_mem hzeros, significant, List.rdropWhile_append_rtakeWhile]

theorem digits_significant (d : Decimal) : Digits d.significant := by
  intro c hc
  obtain ⟨zeros, hzeros⟩ := d.toDigits_eq_significant
  have hmem : c ∈ Nat.toDigits 10 d.digits := hzeros ▸ List.mem_append_left _ hc
  exact digits_toDigits _ c hmem

/-- The zeros at the end of the digits are left out of the text. -/
theorem text_spells {d : Decimal} (hd : 0 < d.digits) :
    ∃ d', Spells d' d.text.toList ∧ d'.value = d.value := by
  obtain ⟨zeros, hzeros⟩ := d.toDigits_eq_significant
  have hvalue : d.digits = Nat.ofDigitChars 10 d.significant 0 * 10 ^ zeros := by
    rw [← Nat.ofDigitChars_ten_toDigits (n := d.digits), hzeros, Nat.ofDigitChars_append,
      Nat.ofDigitChars_replicate_zero, Nat.mul_comm]
  have hne : d.significant ≠ [] := by
    intro hnil
    rw [hvalue, hnil, Nat.ofDigitChars_nil, Nat.zero_mul] at hd
    exact absurd hd (Nat.lt_irrefl 0)
  obtain ⟨d', hspells, hd'⟩ :=
    layout_spells d.digits_significant hne ((Nat.toDigits 10 d.digits).length + d.exponent)
  refine ⟨d', ?_, ?_⟩
  · rw [text, String.toList_ofList]
    exact hspells
  · rw [hd', value, hzeros, List.length_append, List.length_replicate, hvalue, Nat.cast_mul,
      Nat.cast_pow, Nat.cast_ofNat, mul_assoc, ← zpow_natCast, ← zpow_add₀ (by norm_num)]
    congr 2
    push_cast
    ring

/-- The characters of which a spelling is made. -/
def isPart (c : Char) : Bool := c.isDigit || c == '.' || c == 'e' || c == '-' || c == '+'

theorem isPart_of_isDigit {c : Char} (h : c.isDigit) : isPart c := by simp [isPart, h]

theorem isPart_of_mem_exponentText {e : Int} {c : Char} (hc : c ∈ exponentText e) : isPart c := by
  obtain ⟨sign, digits, htext, hsign, hdigits, -⟩ := exponentText_eq e
  simp only [htext, List.mem_cons] at hc
  rcases hc with rfl | rfl | hc
  · rfl
  · rcases hsign with rfl | rfl <;> rfl
  · exact isPart_of_isDigit (hdigits c hc)

namespace Spells

variable {d : Decimal} {cs : List Char}

theorem head_isDigit (h : Spells d cs) : ∃ c ∈ cs.head?, c.isDigit := by
  have hhead : ∀ {whole : List Char} (rest : List Char), Digits whole → whole ≠ [] →
      ∃ c ∈ (whole ++ rest).head?, c.isDigit := by
    intro whole rest hwhole hne
    obtain ⟨c, whole, rfl⟩ := List.exists_cons_of_ne_nil hne
    exact ⟨c, rfl, hwhole c (by simp)⟩
  cases h with
  | positional hwhole hne _ => exact hhead _ hwhole hne
  | scientific hwhole hne _ e => exact hhead _ hwhole hne
  | power hwhole hne e => exact hhead _ hwhole hne

theorem isPart_of_mem (h : Spells d cs) : ∀ c ∈ cs, isPart c := by
  intro c hc
  cases h with
  | positional hwhole _ hfraction =>
    simp only [List.mem_append, List.mem_cons] at hc
    rcases hc with hc | rfl | hc
    · exact isPart_of_isDigit (hwhole c hc)
    · rfl
    · exact isPart_of_isDigit (hfraction c hc)
  | scientific hwhole _ hfraction e =>
    simp only [List.mem_append, List.mem_cons] at hc
    rcases hc with hc | rfl | hc | hc
    · exact isPart_of_isDigit (hwhole c hc)
    · rfl
    · exact isPart_of_isDigit (hfraction c hc)
    · exact isPart_of_mem_exponentText hc
  | power hwhole _ e =>
    rcases List.mem_append.mp hc with hc | hc
    · exact isPart_of_isDigit (hwhole c hc)
    · exact isPart_of_mem_exponentText hc

theorem not_digits (h : Spells d cs) : ¬ Digits cs := by
  intro hdigits
  cases h with
  | positional _ _ _ => exact absurd (hdigits '.' (by simp)) (by decide)
  | scientific _ _ _ e => exact absurd (hdigits '.' (by simp)) (by decide)
  | power _ _ e => exact absurd (hdigits 'e' (by simp [exponentText])) (by decide)

end Spells

theorem readsAs_zero {d : Decimal} (h : d.value = 0) : d.readsAs 0 := by
  have hzero : (exact 0).value = 0 := by
    rw [value, exact, Nat.zero_mul, Nat.cast_zero, zero_mul]
  rw [readsAs_congr (h.trans hzero.symm)]
  exact readsAs_exact (dvd_zero _)

theorem digits_pos_of_readsAs {d : Decimal} {n : Nat} (h : d.readsAs n) (hn : 0 < n) :
    0 < d.digits := by
  rw [Nat.pos_iff_ne_zero]
  intro hzero
  have hreads := readsAs_zero (d := d) (by rw [value, hzero, Nat.cast_zero, zero_mul])
  have : n = 0 := (beq_iff_eq.mp h).symm.trans (beq_iff_eq.mp hreads)
  omega

end Decimal

namespace Binary64

variable {units units' : Nat}

/-- The text of a double is read as the double again. -/
theorem text_spells (fits : Representable units) :
    ∃ d, Decimal.Spells d (finite false units fits).text.toList ∧ d.readsAs units := by
  by_cases hzero : units = 0
  · subst hzero
    have htext : (finite false 0 fits).text.toList = ['0'] ++ '.' :: ['0'] := by simp [text]
    have hdigits : Digits ['0'] := Decimal.digits_zeros 1
    have hvalue : (Decimal.ofDigits ['0'] ['0']).value = 0 := by
      rw [Decimal.value_ofDigits, show Nat.ofDigitChars 10 (['0'] ++ ['0']) 0 = 0 from rfl,
        Nat.cast_zero, zero_mul]
    rw [htext]
    exact ⟨_, .positional hdigits (by simp) hdigits, Decimal.readsAs_zero hvalue⟩
  · have hreads := Decimal.readsAs_shortest fits.2
    obtain ⟨d, hspells, hvalue⟩ :=
      Decimal.text_spells (Decimal.digits_pos_of_readsAs hreads (Nat.pos_of_ne_zero hzero))
    refine ⟨d, ?_, by rwa [Decimal.readsAs_congr hvalue]⟩
    rwa [text, if_neg Bool.false_ne_true, if_neg hzero, String.empty_append]

theorem text_inj (fits : Representable units) (fits' : Representable units')
    (h : (finite false units fits).text = (finite false units' fits').text) : units = units' := by
  obtain ⟨d, hspells, hreads⟩ := text_spells fits
  obtain ⟨d', hspells', hreads'⟩ := text_spells fits'
  rw [← h] at hspells'
  obtain rfl := Option.some.inj (hspells.readDecimal?.symm.trans hspells'.readDecimal?)
  exact (beq_iff_eq.mp hreads).symm.trans (beq_iff_eq.mp hreads')

end Binary64

namespace Number

/-- A whole number or a finite double without a sign. -/
inductive Unsigned : Number → Prop where
  | int (n : Nat) : Unsigned (.int n)
  | float {units : Nat} (fits : Binary64.Representable units) :
      Unsigned (.float (.finite false units fits))

theorem toList_intText (n : Nat) : (intText n).toList = Nat.toDigits 10 n := by
  simp [intText]

theorem digits_intText (n : Nat) : Digits (intText n).toList := by
  rw [toList_intText]
  exact Decimal.digits_toDigits n

namespace Unsigned

variable {v w : Number}

theorem text_head (h : Unsigned v) : ∃ c ∈ v.text.toList.head?, c.isDigit := by
  cases h with
  | int n =>
    have hne : (intText n).toList ≠ [] := by
      rw [toList_intText]
      exact Nat.toDigits_ne_nil
    obtain ⟨c, hc⟩ := Option.ne_none_iff_exists'.mp (mt List.head?_eq_none_iff.mp hne)
    exact ⟨c, hc, digits_intText n c (List.mem_of_head? hc)⟩
  | float fits =>
    obtain ⟨d, hspells, -⟩ := Binary64.text_spells fits
    exact hspells.head_isDigit

theorem text_chars (h : Unsigned v) : ∀ c ∈ v.text.toList, Decimal.isPart c := by
  cases h with
  | int n => exact fun c hc => Decimal.isPart_of_isDigit (digits_intText n c hc)
  | float fits =>
    obtain ⟨d, hspells, -⟩ := Binary64.text_spells fits
    exact hspells.isPart_of_mem

/-- No two numbers have the same text, even if they are equal as a whole number and a double. -/
theorem text_inj (hv : Unsigned v) (hw : Unsigned w) (h : v.text = w.text) : v = w := by
  have hapart : ∀ (n : Nat) {units : Nat} (fits : Binary64.Representable units),
      intText n ≠ (Binary64.finite false units fits).text := by
    intro n units fits heq
    obtain ⟨d, hspells, -⟩ := Binary64.text_spells fits
    exact hspells.not_digits (heq ▸ digits_intText n)
  cases hv with
  | int n =>
    cases hw with
    | int m =>
      have hdigits : Nat.toDigits 10 n = Nat.toDigits 10 m := by
        rw [← toList_intText, ← toList_intText]
        exact congrArg String.toList h
      have heq : n = m := by
        rw [← Nat.ofDigitChars_ten_toDigits (n := n), hdigits, Nat.ofDigitChars_ten_toDigits]
      rw [heq]
    | float fits => exact absurd h (hapart n fits)
  | float fits =>
    cases hw with
    | int m => exact absurd h.symm (hapart m fits)
    | float fits' =>
      obtain rfl := Binary64.text_inj fits fits' h
      rfl

end Unsigned

end Number

end Reckon
