import Mathlib
import Reckon.Proofs.Positional
import Reckon.Proofs.Unambiguous

/-!
Trees made by hand, whose leaves have values but no text of their own. The text of such a tree is
read as a tree with the same representation exactly if every number in it is written as it would be
typed. A double with an exponent is not: the text of a tree with one is not even split into tokens.
A zero with a minus sign is read as a sign and a zero.
-/

namespace Reckon

open Scanner Grammar

namespace Number

/-- A whole number of at most 4300 digits or a finite double that is not below zero. Zero is not,
even with a minus sign. -/
inductive Nonnegative : Number → Prop where
  | int {n : Nat} (hn : n < 10 ^ 4300) : Nonnegative (.int n)
  | float {negative : Bool} {units : Nat} (fits : Binary64.Representable units)
      (h : negative = true → units = 0) : Nonnegative (.float (.finite negative units fits))

variable {v : Number}

/-- What is not written as it would be typed has an exponent or a sign. -/
theorem Nonnegative.plain_or (h : Nonnegative v) :
    Plain v ∨ 'e' ∈ v.text.toList ∨ '-' ∈ v.text.toList := by
  cases h with
  | int hn => exact .inl (.int (by rwa [Number.maxDigits]))
  | @float negative units fits _ =>
    cases negative with
    | false =>
      by_cases hmoderate : Binary64.Moderate units
      · exact .inl (.float fits hmoderate)
      · exact .inr (.inl ((Binary64.mem_text_iff fits).mpr hmoderate))
    | true => exact .inr (.inr (by simp [text, Binary64.text]))

theorem Nonnegative.inBounds (h : Nonnegative v) : v.InBounds := by
  cases h with
  | int hn =>
    rw [inBounds_int, maxDigits]
    exact hn
  | float => rfl

/-- The only sign in a number without one is that of an exponent. -/
theorem Unsigned.exponent_of_minus (h : Unsigned v) (hminus : '-' ∈ v.text.toList) :
    'e' ∈ v.text.toList := by
  have hnot : ∀ {digits : List Char}, Digits digits → '-' ∉ digits := by
    intro digits hdigits hmem
    exact absurd (hdigits '-' hmem) (by decide)
  cases h with
  | int n => exact absurd hminus (hnot (digits_intText n))
  | float fits =>
    obtain ⟨d, hspells, -⟩ := Binary64.text_spells fits
    rw [text] at hminus ⊢
    generalize (Binary64.finite false _ fits).text.toList = cs at *
    cases hspells with
    | positional hwhole _ hfraction =>
      simp [hnot hwhole, hnot hfraction] at hminus
    | scientific _ _ _ e => simp [Decimal.exponentText]
    | power _ _ e => simp [Decimal.exponentText]

end Number

namespace Tree

/-- The tokens at the leaves, from left to right. -/
def leaves : Tree → List Token
  | number t => [t]
  | unary _ x => x.leaves
  | binary l _ r => l.leaves ++ r.leaves

/-- Numbers without a text stand at the leaves, signs in front of operands and operators between
them. -/
inductive Handmade : Tree → Prop where
  | number {t : Token} {v : Number} (hkind : t.kind = .number v) (hlexeme : t.lexeme = "")
      (hv : v.Nonnegative) : Handmade (.number t)
  | unary {op : Token} {x : Tree} (hop : isSign op.tag) (hx : Handmade x) : Handmade (.unary op x)
  | binary {l r : Tree} {op : Token} {c : Char} (hop : op.tag.symbol? = some c) (hl : Handmade l)
      (hr : Handmade r) : Handmade (.binary l op r)

/-- The numbers at the leaves are written as they would be typed. -/
def Typable (t : Tree) : Prop := ∀ leaf ∈ t.leaves, ∀ v ∈ leaf.value?, v.Plain

/-- The tree with the text of its value at every leaf. -/
def spelled : Tree → Tree
  | number t => number (.ofText t.kind t.valueText)
  | unary op x => unary op x.spelled
  | binary l op r => binary l.spelled op r.spelled

theorem depth_spelled (t : Tree) : t.spelled.depth = t.depth := by
  induction t with
  | number t => rfl
  | unary op x ih => rw [spelled, depth, depth, ih]
  | binary l op r ihl ihr => rw [spelled, depth, depth, ihl, ihr]

theorem represent_spelled (t : Tree) : t.spelled.represent = t.represent := by
  have hmatches : t.Matches Token.SameKind Token.SameKind t.spelled := by
    induction t with
    | number t => exact .number rfl
    | unary op x ih => exact .unary rfl ih
    | binary l op r ihl ihr => exact .binary rfl ihl ihr
  exact hmatches.represent_eq.symm

section
variable {t : Tree} (h : t.Handmade)
include h

theorem Handmade.legible : t.Legible := by
  induction h with
  | number hkind _ hv => exact .number (Token.legible_of_kind hkind hv.inBounds)
  | unary hop _ ih =>
    obtain ⟨c, hc⟩ := symbol_of_joins (l := .sum) hop
    exact .unary hc ih
  | binary hop _ _ ihl ihr => exact .binary hop ihl ihr

theorem Handmade.toSource_eq : t.toSource = .ok t.spelled.source := by
  rw [toSource, fold_eq_collapse]
  induction h with
  | number hkind hlexeme hv =>
    simp [collapse, spelled, source, pieces, Piece.chars, hlexeme,
      (Token.legible_of_kind hkind hv.inBounds).leafText_eq]
  | unary hop hx ih =>
    obtain ⟨c, hc⟩ := symbol_of_joins (l := .sum) hop
    rw [collapse, ih]
    simp only [symbolOf_eq hc, pure, Except.pure, bind, Except.bind, Except.ok.injEq]
    rw [← String.toList_inj]
    simp [spelled, source, pieces, enclose, Piece.chars]
  | binary hop hl hr ihl ihr =>
    rw [collapse, ihl, ihr]
    simp only [symbolOf_eq hop, pure, Except.pure, bind, Except.bind, Except.ok.injEq]
    rw [← String.toList_inj]
    simp [spelled, source, pieces, enclose, Piece.chars]

theorem Handmade.value_of_mem {leaf : Token} (hleaf : leaf ∈ t.leaves) :
    ∃ v, leaf.value? = some v ∧ leaf.valueText = v.text ∧ v.Nonnegative := by
  induction h with
  | @number token v hkind hlexeme hv =>
    obtain rfl := List.mem_singleton.mp hleaf
    exact ⟨v, Token.value?_of_kind hkind, Token.valueText_of_kind hkind, hv⟩
  | unary hop hx ih => exact ih hleaf
  | binary hop hl hr ihl ihr => exact (List.mem_append.mp hleaf).elim ihl ihr

theorem Handmade.proper_spelled (htypable : t.Typable) : t.spelled.Proper := by
  induction h with
  | @number token v hkind hlexeme hv =>
    have hplain : v.Plain := htypable token (by simp [leaves]) v (Token.value?_of_kind hkind)
    exact .number (hplain.genuine hkind
      ((Token.lexeme_ofText _ _).trans (Token.valueText_of_kind hkind)))
  | unary hop hx ih => exact .unary hop (ih htypable)
  | binary hop hl hr ihl ihr =>
    refine .binary hop (ihl fun leaf hleaf => htypable leaf ?_)
      (ihr fun leaf hleaf => htypable leaf ?_)
    · exact List.mem_append_left _ hleaf
    · exact List.mem_append_right _ hleaf

end

/-! ### Characters of the leaves -/

theorem mem_source_of_mem {t : Tree} {leaf : Token} (hleaf : leaf ∈ t.leaves) {c : Char}
    (hc : c ∈ leaf.valueText.toList) : c ∈ t.spelled.source.toList := by
  rw [source, String.toList_ofList]
  induction t with
  | number token =>
    obtain rfl := List.mem_singleton.mp hleaf
    simpa [spelled, pieces, Piece.chars] using hc
  | unary op x ih => simp [spelled, pieces, enclose, Piece.chars, ih hleaf]
  | binary l op r ihl ihr =>
    rcases List.mem_append.mp hleaf with hleft | hright
    · simp [spelled, pieces, enclose, Piece.chars, ihl hleft]
    · simp [spelled, pieces, enclose, Piece.chars, ihr hright]

section
variable {c : Char} (hc : Decimal.isPart c)
include hc

theorem ne_punctuation : c ≠ '(' ∧ c ≠ ')' ∧ c ≠ ',' ∧ c ≠ ' ' := by
  refine ⟨?_, ?_, ?_, ?_⟩ <;> rintro rfl <;> cases hc

theorem not_mem_name (op : Token) : c ∉ op.tag.name.toList := by
  intro hmem
  have hupper := op.name_isUpper c hmem
  simp only [Decimal.isPart, Bool.or_eq_true, beq_iff_eq] at hc
  rcases hc with (((hdigit | rfl) | rfl) | rfl) | rfl
  · rw [not_isUpper_of_isDigit hdigit] at hupper
    cases hupper
  all_goals cases hupper

theorem mem_written_unary {op : Token} {x : Tree} : c ∈ (unary op x).written ↔ c ∈ x.written := by
  simp [written, not_mem_name hc op, ne_punctuation hc]

theorem mem_written_binary {op : Token} {l r : Tree} :
    c ∈ (binary l op r).written ↔ c ∈ l.written ∨ c ∈ r.written := by
  simp [written, not_mem_name hc op, ne_punctuation hc]

end

theorem Handmade.mem_written_iff {t : Tree} (h : t.Handmade) {c : Char} (hc : Decimal.isPart c) :
    c ∈ t.written ↔ ∃ leaf ∈ t.leaves, c ∈ leaf.valueText.toList := by
  induction h with
  | number hkind hlexeme hv => simp [written, leaves]
  | unary hop hx ih =>
    rw [mem_written_unary hc, ih, leaves]
  | binary hop hl hr ihl ihr =>
    rw [mem_written_binary hc, ihl, ihr, leaves]
    simp [or_and_right, exists_or]

/-- A tree that was read has no sign in its numbers but that of an exponent. -/
theorem Proper.exponent_of_minus {t : Tree} (h : t.Proper) (hminus : '-' ∈ t.written) :
    'e' ∈ t.written := by
  induction h with
  | number hgenuine =>
    rw [written, hgenuine.valueText_eq] at hminus ⊢
    exact hgenuine.unsigned.exponent_of_minus hminus
  | unary hop hx ih =>
    rw [mem_written_unary rfl] at hminus ⊢
    exact ih hminus
  | binary hop hl hr ihl ihr =>
    rw [mem_written_binary rfl] at hminus ⊢
    exact hminus.imp ihl ihr

end Tree

/-- A character that is neither a digit nor a point is a piece by itself. -/
theorem Scanner.Splits.single_mem {cs : List Char} {ps : List Piece} (h : Splits cs ps) {c : Char}
    (hc : c ∈ cs) (hsingle : isNumeral c = false) : Piece.single c ∈ ps := by
  induction h with
  | nil => cases hc
  | single _ _ ih =>
    rcases List.mem_cons.mp hc with rfl | hc
    · exact List.mem_cons_self
    · exact List.mem_cons_of_mem _ (ih hc)
  | numeral _ hrun _ hcs _ ih =>
    subst hcs
    rcases List.mem_append.mp hc with hrun' | hrest
    · rw [hrun c hrun'] at hsingle
      cases hsingle
    · exact List.mem_cons_of_mem _ (ih hrest)

namespace Expression

theorem parse_of_exponent {source : Source} (h : 'e' ∈ source.text.toList) :
    ∃ e, ∀ limits, parse source limits = .error (.error (.lex e)) := by
  rcases parse_source source with herror | ⟨ps, eof, hps, hlegal, -, -⟩
  · exact herror
  · exact absurd (hlegal _ (hps.single_mem h rfl)) id

/-- If the representation comes back, every number was written as it would be typed: an exponent
would have kept the text from being parsed, and a sign would have become an operator. -/
theorem typable_of_parse {t t' : Tree} (h : t.Handmade) {name : String} {limits : Limits}
    (hparse : parse ⟨name, t.spelled.source⟩ limits = .ok t') (hsame : t'.written = t.written) :
    t.Typable := by
  have hexponent : ∀ leaf ∈ t.leaves, 'e' ∉ leaf.valueText.toList := by
    intro leaf hleaf hmem
    have hsource : 'e' ∈ (Source.text ⟨name, t.spelled.source⟩).toList :=
      Tree.mem_source_of_mem hleaf hmem
    obtain ⟨e, he⟩ := parse_of_exponent hsource
    cases (he limits).symm.trans hparse
  intro leaf hleaf v hv
  obtain ⟨w, hw, htext, hnonnegative⟩ := h.value_of_mem hleaf
  obtain rfl := Option.some.inj (hw.symm.trans hv)
  rcases hnonnegative.plain_or with hplain | he | hminus
  · exact hplain
  · exact absurd (htext ▸ he) (hexponent leaf hleaf)
  · have hwritten : '-' ∈ t.written := (h.mem_written_iff rfl).mpr ⟨leaf, hleaf, htext ▸ hminus⟩
    have he := (Tree.proper_of_parse hparse).exponent_of_minus (hsame ▸ hwritten)
    obtain ⟨leaf', hleaf', he'⟩ := (h.mem_written_iff rfl).mp (hsame ▸ he)
    exact absurd he' (hexponent leaf' hleaf')

/-- A tree without texts at its leaves is written and read again as a tree with the same
representation exactly if all its numbers are whole or moderate and without a sign, under any name
and every limit that its depth respects. If a double is not moderate, the text is not read under any
limit. -/
theorem parse_toSource_handmade {t : Tree} (h : t.Handmade) :
    ∃ s r, t.toSource = .ok s ∧ t.represent = .ok r ∧ ∀ name : String,
      (∀ limits : Limits, (∃ t', parse ⟨name, s⟩ limits = .ok t' ∧ t'.represent = .ok r) ↔
        t.Typable ∧ (t.depth : Int) ≤ limits.deepest) ∧
      ∀ leaf ∈ t.leaves, ∀ units fits, leaf.value? = some (.float (.finite false units fits)) →
        ¬ Binary64.Moderate units →
          ∃ e, ∀ limits, parse ⟨name, s⟩ limits = .error (.error (.lex e)) := by
  refine ⟨_, _, h.toSource_eq, h.legible.represent_eq, fun name => ⟨fun limits => ⟨?_, ?_⟩, ?_⟩⟩
  · rintro ⟨t', hparse, hrepresent⟩
    have hrepresent' := (Tree.proper_of_parse hparse).legible.represent_eq
    have hsame : t'.written = t.written :=
      String.ofList_injective (Except.ok.inj (hrepresent'.symm.trans hrepresent))
    have htypable := typable_of_parse h hparse hsame
    obtain ⟨_, -, hiff⟩ := (h.proper_spelled htypable).parse_source name
    exact ⟨htypable, t.depth_spelled ▸ ((hiff limits t').mp hparse).1⟩
  · rintro ⟨htypable, hlimit⟩
    obtain ⟨t', halike, hiff⟩ := (h.proper_spelled htypable).parse_source name
    refine ⟨t', (hiff limits t').mpr ⟨t.depth_spelled.symm ▸ hlimit, rfl⟩, ?_⟩
    rw [← halike.toSameKind.represent_eq, Tree.represent_spelled, h.legible.represent_eq]
  · intro leaf hleaf units fits hvalue hfar
    refine parse_of_exponent (Tree.mem_source_of_mem hleaf ?_)
    rw [Token.valueText, hvalue]
    exact (Binary64.mem_text_iff fits).mpr hfar

section
open Binary64 (one nearest)

/-- A leaf with a double and without a text. -/
private def bareDouble (units : Nat) (fits : Binary64.Representable units) : Tree :=
  .number (.ofText (.number (.float (.finite false units fits))) "")

/-- The tree of `9999999999999998.0 ^ -0.0001`, of the largest and the least double that are
written without an exponent. -/
private def moderatePower : Tree :=
  .binary (bareDouble (9999999999999998 * one) (by decide +kernel)) (.ofText .pow "")
    (.unary (.ofText .minus "") (bareDouble (nearest one 10000) (by decide +kernel)))

theorem parse_toSource_handmade_moderate :
    moderatePower.Handmade ∧ moderatePower.Typable ∧ moderatePower.depth = 5 ∧
      moderatePower.toSource = .ok "(9999999999999998.0 ^ (-0.0001))" ∧
      (∃ t', parse "(9999999999999998.0 ^ (-0.0001))" { depth := 5 } = .ok t' ∧
        t'.represent = .ok "(9999999999999998.0, POW, (MINUS, 0.0001))") ∧
      ¬ ∃ t', parse "(9999999999999998.0 ^ (-0.0001))" { depth := 4 } = .ok t' ∧
        t'.represent = .ok "(9999999999999998.0, POW, (MINUS, 0.0001))" := by
  have hmade : moderatePower.Handmade :=
    .binary (c := '^') rfl (.number rfl rfl (.float _ nofun))
      (.unary rfl (.number rfl rfl (.float _ nofun)))
  have htypable : moderatePower.Typable := by
    intro leaf hleaf v hv
    rcases List.mem_pair.mp hleaf with rfl | rfl
    · obtain rfl := Option.some.inj hv
      exact .float _ (.inr (by decide +kernel))
    · obtain rfl := Option.some.inj hv
      exact .float _ (.inr (by decide +kernel))
  have hsource : moderatePower.toSource = .ok "(9999999999999998.0 ^ (-0.0001))" := by
    decide +kernel
  have hrepresent :
      moderatePower.represent = .ok "(9999999999999998.0, POW, (MINUS, 0.0001))" := by
    decide +kernel
  obtain ⟨s, r, hs, hr, hread⟩ := parse_toSource_handmade hmade
  have hiff := (hread "<stdin>").1
  obtain rfl := Except.ok.inj (hs.symm.trans hsource)
  obtain rfl := Except.ok.inj (hr.symm.trans hrepresent)
  refine ⟨hmade, htypable, rfl, hsource, (hiff _).mpr ⟨htypable, by decide⟩, fun hparse => ?_⟩
  exact absurd ((hiff _).mp hparse).2 (by decide)

/-- The leaf of the least double that is written with an exponent. -/
private def tenToSixteen : Tree := bareDouble (10 ^ 16 * one) (by decide +kernel)

/-- The text of the double `10 ^ 16` is reported for its `e`, whatever the limits. -/
theorem parse_toSource_tenToSixteen :
    tenToSixteen.Handmade ∧ tenToSixteen.toSource = .ok "1e+16" ∧
      tenToSixteen.represent = .ok "1e+16" ∧ ∀ limits, parse "1e+16" limits = .error (.error
        (.lex ⟨.illegalCharacter, "e", ⟨1, 0, 1, "1e+16"⟩, ⟨2, 0, 2, "1e+16"⟩⟩)) := by
  refine ⟨.number rfl rfl (.float _ nofun), by decide +kernel, by decide +kernel, fun limits => ?_⟩
  have htokens : tokens "1e+16" = .error (.error
      (.lex ⟨.illegalCharacter, "e", ⟨1, 0, 1, "1e+16"⟩, ⟨2, 0, 2, "1e+16"⟩⟩)) := by cbv
  rw [parse, htokens]
  rfl

end

end Expression

end Reckon
