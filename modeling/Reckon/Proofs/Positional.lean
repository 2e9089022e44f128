import Reckon.Proofs.DecimalText
import Reckon.Proofs.Rendering
import Reckon.Proofs.WholeNumbers

/-!
Numbers that are written as they would be typed. The decimals that are picked for doubles are in
the order of the doubles, so the doubles that are written without an exponent are those from the one
written `0.0001` up to, and without, the one written `1e+16`. The text of such a double, and that of
a whole number, is a numeral with the same value.
-/

namespace Reckon

/-- A token that is the whole of a text. -/
def Token.ofText (kind : Kind) (text : String) : Token :=
  ⟨kind, .start text, (Position.start text).advanceAll text.toList⟩

@[simp] theorem Token.lexeme_ofText (kind : Kind) (text : String) :
    (ofText kind text).lexeme = text := by
  have hrest : (Position.start text).rest = text.toList ++ [] := by simp
  rw [ofText, lexeme_advanceAll hrest, String.ofList_toList]

open Scanner (Digits LegalRun isNumeral numeralValue?)

namespace Binary64

/-- A larger ratio does not round to a smaller count. -/
theorem Rounded.mono {q r : ℚ} {u v : Nat} (hu : Rounded q u) (hv : Rounded r v) (h : q < r) :
    u ≤ v := by
  by_contra hgt
  have hlt : (v : ℚ) < u := by exact_mod_cast not_le.mp hgt
  -- crossing over would bring both ratios closer to their counts
  have hq : (q - u) ^ 2 ≤ (q - v) ^ 2 := sq_le_sq.mpr (hu.closest v hv.short)
  have hr : (r - v) ^ 2 ≤ (r - u) ^ 2 := sq_le_sq.mpr (hv.closest u hu.short)
  have hcross : 0 < (r - q) * (u - v) := mul_pos (sub_pos.mpr h) (sub_pos.mpr hlt)
  linarith

end Binary64

namespace Decimal

theorem rounded_of_readsAs {d : Decimal} {n : Nat} (h : d.readsAs n) :
    Binary64.Rounded (d.value * Binary64.one) n := by
  rw [← units_ratio, ← beq_iff_eq.mp h]
  exact Binary64.nearest_rounded _ d.units_pos

theorem value_lt_of_readsAs {d d' : Decimal} {m n : Nat} (h : d.readsAs m) (h' : d'.readsAs n)
    (hlt : m < n) : d.value < d'.value := by
  by_contra hge
  rcases (not_lt.mp hge).eq_or_lt with heq | hgt
  · rw [readsAs_congr heq] at h'
    have : m = n := (beq_iff_eq.mp h).symm.trans (beq_iff_eq.mp h')
    omega
  · have hone : (0 : ℚ) < Binary64.one := by
      rw [Binary64.one_eq]
      positivity
    have := (rounded_of_readsAs h').mono (rounded_of_readsAs h) (mul_lt_mul_of_pos_right hgt hone)
    omega

/-- The decimals that are picked are in the order of what they are picked for. -/
theorem shortest_value_lt_iff {m n : Nat} (hm : Binary64.Short m) (hn : Binary64.Short n) :
    (shortest m).value < (shortest n).value ↔ m < n := by
  constructor
  · intro h
    by_contra hge
    rcases (not_lt.mp hge).eq_or_lt with rfl | hgt
    · exact lt_irrefl _ h
    · exact lt_asymm h (value_lt_of_readsAs (readsAs_shortest hn) (readsAs_shortest hm) hgt)
  · exact value_lt_of_readsAs (readsAs_shortest hm) (readsAs_shortest hn)

/-! ### The layouts -/

theorem mem_layout_iff {digits : List Char} (h : Digits digits) (point : Int) :
    'e' ∈ layout digits point ↔ widestWhole < point ∨ point < -mostLeadingZeros := by
  have hdigits : 'e' ∉ digits := fun hmem => absurd (h 'e' hmem) (by decide)
  constructor
  · contrapose
    intro hnear
    have htake : 'e' ∉ digits.take point.toNat := fun hmem => hdigits (List.mem_of_mem_take hmem)
    have hdrop : 'e' ∉ digits.drop point.toNat := fun hmem => hdigits (List.mem_of_mem_drop hmem)
    unfold layout
    rw [if_neg hnear]
    split
    · simp [hdigits]
    · dsimp only
      split <;> simp [htake, hdrop]
  · intro hfar
    unfold layout
    rw [if_pos hfar]
    simp [exponentText]

/-- The digits in front of the point show how large a decimal is. -/
theorem lt_point_iff {d : Decimal} (hd : 0 < d.digits) (k : Int) :
    k < (Nat.toDigits 10 d.digits).length + d.exponent ↔ (10 : ℚ) ^ k ≤ d.value := by
  have hten : (0 : ℚ) < 10 ^ d.exponent := by positivity
  rw [value, show k = (k - d.exponent) + d.exponent by ring, zpow_add₀ (by norm_num),
    mul_le_mul_iff_of_pos_right hten, add_lt_add_iff_right]
  generalize k - d.exponent = j
  rcases le_or_gt j 0 with hle | hpos
  · have hlength := List.length_pos_iff.mpr (Nat.toDigits_ne_nil (b := 10) (n := d.digits))
    refine ⟨fun _ => ?_, fun _ => by omega⟩
    calc (10 : ℚ) ^ j ≤ 10 ^ (0 : Int) := zpow_le_zpow_right₀ (by norm_num) hle
      _ ≤ d.digits := by
        rw [zpow_zero]
        exact_mod_cast hd
  · obtain ⟨n, rfl⟩ := Int.eq_ofNat_of_zero_le hpos.le
    have hlength := Nat.length_toDigits_le_iff (b := 10) (n := d.digits) (by decide)
      (by exact_mod_cast hpos : 0 < n)
    rw [zpow_natCast, Nat.cast_lt, ← not_le, hlength, not_lt]
    exact_mod_cast Iff.rfl

theorem mem_text_iff {d : Decimal} (hd : 0 < d.digits) :
    'e' ∈ d.text.toList ↔ (10 : ℚ) ^ (16 : Int) ≤ d.value ∨ d.value < 10 ^ (-4 : Int) := by
  rw [← not_le, ← lt_point_iff hd, ← lt_point_iff hd, text, String.toList_ofList]
  have hlayout := mem_layout_iff d.digits_significant
    ((Nat.toDigits 10 d.digits).length + d.exponent)
  refine hlayout.trans (or_congr_right ?_)
  rw [mostLeadingZeros]
  omega

end Decimal

namespace Binary64

variable {units : Nat}

/-- Zero, or at least `10 ^ -4` and below `10 ^ 16`. -/
def Moderate (units : Nat) : Prop :=
  units = 0 ∨ one ≤ 10 ^ 4 * units ∧ units < 10 ^ 16 * one

/-- No double lies between `10 ^ -4` and the one nearest to it. -/
theorem lt_nearest_iff (h : Short units) :
    units < nearest one (10 ^ 4) ↔ 10 ^ 4 * units < one := by
  have habove : one < 10 ^ 4 * nearest one (10 ^ 4) := by decide +kernel
  have hrounded := nearest_rounded one (show 0 < 10 ^ 4 by decide)
  generalize nearest one (10 ^ 4) = least at *
  constructor
  · intro hlt
    by_contra hge
    have hlt : (units : ℚ) < least := by exact_mod_cast hlt
    have hratio : (one / (10 ^ 4 : Nat) : ℚ) ≤ units := by
      rw [div_le_iff₀ (by norm_num), mul_comm]
      exact_mod_cast not_lt.mp hge
    have hclosest := hrounded.closest units h
    rw [abs_of_nonpos (by linarith), abs_of_nonpos (by linarith)] at hclosest
    linarith
  · intro hlt
    omega

theorem mem_text_iff (fits : Representable units) :
    'e' ∈ (finite false units fits).text.toList ↔ ¬ Moderate units := by
  rw [text, if_neg Bool.false_ne_true, String.empty_append]
  by_cases hzero : units = 0
  · simp [hzero, Moderate]
  · have hshort : Short units := fits.2
    have hdigits := Decimal.digits_pos_of_readsAs (Decimal.readsAs_shortest hshort)
      (Nat.pos_of_ne_zero hzero)
    -- the decimals at which the layout changes are picked for doubles of their own
    have hsmall : (Decimal.shortest (nearest one (10 ^ 4))).value = 10 ^ (-4 : Int) := by
      rw [show Decimal.shortest (nearest one (10 ^ 4)) = ⟨1, -4⟩ by decide +kernel, Decimal.value]
      norm_num
    have hlarge : (Decimal.shortest (10 ^ 16 * one)).value = 10 ^ (16 : Int) := by
      rw [show Decimal.shortest (10 ^ 16 * one) = ⟨1, 16⟩ by decide +kernel, Decimal.value]
      norm_num
    have hlargeShort : Short (10 ^ 16 * one) := by
      unfold Short
      decide +kernel
    rw [if_neg hzero, Decimal.mem_text_iff hdigits, ← hsmall, ← hlarge, ← not_lt,
      Decimal.shortest_value_lt_iff hshort hlargeShort,
      Decimal.shortest_value_lt_iff hshort (spare_dvd_nearest _ _), lt_nearest_iff hshort, Moderate,
      not_or, not_and_or, not_le]
    exact ⟨fun h => ⟨hzero, h.symm⟩, fun h => h.2.symm⟩

/-- The text of a moderate double is a numeral with a point, which is read as the double. -/
theorem text_of_moderate (fits : Representable units) (h : Moderate units) :
    ∃ whole fraction, Digits whole ∧ Digits fraction ∧
      (finite false units fits).text.toList = whole ++ '.' :: fraction ∧
      (Decimal.ofDigits whole fraction).readsAs units := by
  obtain ⟨d, hspells, hreads⟩ := text_spells fits
  have hplain : 'e' ∉ (finite false units fits).text.toList := by
    rw [mem_text_iff]
    exact not_not.mpr h
  generalize (finite false units fits).text.toList = cs at *
  cases hspells with
  | positional hwhole _ hfraction => exact ⟨_, _, hwhole, hfraction, rfl, hreads⟩
  | scientific _ _ _ e => exact absurd (by simp [Decimal.exponentText]) hplain
  | power _ _ e => exact absurd (by simp [Decimal.exponentText]) hplain

end Binary64

theorem Scanner.numeralValue?_of_readsAs {whole fraction : List Char} (hwhole : Digits whole)
    {units : Nat} (fits : Binary64.Representable units)
    (h : (Decimal.ofDigits whole fraction).readsAs units) :
    numeralValue? (whole ++ '.' :: fraction) = some (.float (.finite false units fits)) := by
  have hstop : ∀ c ∈ whole, (c != '.') = true := by
    intro c hc
    simp only [bne_iff_ne]
    rintro rfl
    exact hwhole.not_point hc
  have hread : readDouble (whole ++ '.' :: fraction) = .finite false units fits := by
    have hnearest := beq_iff_eq.mp h
    rw [readDouble, wholeDigits, fractionDigits, List.takeWhile_append_of_pos hstop,
      List.dropWhile_append_of_pos hstop]
    simp [Decimal.toBinary64, Binary64.ofUnits, hnearest, fits.1]
  rw [numeralValue?_point (by simp), hread]
  rfl

namespace Number

/-- A whole number of at most 4300 digits or a moderate double, without a sign. -/
inductive Plain : Number → Prop where
  | int {n : Nat} (hn : n < 10 ^ Number.maxDigits) : Plain (.int n)
  | float {units : Nat} (fits : Binary64.Representable units) (h : Binary64.Moderate units) :
      Plain (.float (.finite false units fits))

namespace Plain

variable {v : Number}

theorem unsigned (h : Plain v) : Unsigned v := by
  cases h with
  | int _ => exact .int _
  | float fits _ => exact .float fits

theorem numeral (h : Plain v) : ∀ c ∈ v.text.toList, isNumeral c := by
  intro c hc
  rw [Scanner.isNumeral_iff]
  cases h with
  | int _ => exact .inl (digits_intText _ c hc)
  | float fits h =>
    obtain ⟨whole, fraction, hwhole, hfraction, htext, -⟩ := Binary64.text_of_moderate fits h
    rw [text, htext, List.mem_append, List.mem_cons] at hc
    rcases hc with hc | rfl | hc
    · exact .inl (hwhole c hc)
    · exact .inr rfl
    · exact .inl (hfraction c hc)

theorem points (h : Plain v) : v.text.toList.count '.' ≤ 1 := by
  cases h with
  | int _ => rw [text, List.count_eq_zero.mpr (digits_intText _).not_point]; omega
  | float fits h =>
    obtain ⟨whole, fraction, hwhole, hfraction, htext, -⟩ := Binary64.text_of_moderate fits h
    simp [text, htext, List.count_eq_zero.mpr hwhole.not_point,
      List.count_eq_zero.mpr hfraction.not_point]

/-- The number is read from its own text. -/
theorem numeralValue?_text (h : Plain v) : numeralValue? v.text.toList = some v := by
  cases h with
  | int hn =>
    rw [text, toList_intText]
    exact Scanner.numeralValue?_toDigits hn
  | float fits h =>
    obtain ⟨whole, fraction, hwhole, -, htext, hreads⟩ := Binary64.text_of_moderate fits h
    rw [text, htext]
    exact Scanner.numeralValue?_of_readsAs hwhole fits hreads

theorem legal (h : Plain v) : LegalRun v.text.toList := by
  obtain ⟨c, hc, hdigit⟩ := h.unsigned.text_head
  have hmem := List.mem_of_head? hc
  refine ⟨⟨c, hmem, hdigit⟩, h.points, ?_⟩
  exact (Scanner.numeralValue?_isSome_iff (List.ne_nil_of_mem hmem)).mp ⟨v, h.numeralValue?_text⟩

theorem genuine (h : Plain v) {t : Token} (hkind : t.kind = .number v) (htext : t.lexeme = v.text) :
    t.Genuine v.text.toList v :=
  ⟨h.numeral, h.legal, h.numeralValue?_text, hkind, by rw [htext, String.ofList_toList]⟩

end Plain

end Number

end Reckon
