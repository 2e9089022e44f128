import Mathlib
import Reckon.Proofs.Lockstep
import Reckon.Proofs.Safety

/-!
The layout of an expression makes no difference. A text is its tokens with spacing around
them, and may be spaced otherwise as long as no two numbers run into each other; whatever
has tokens of the same kinds comes to the same tree and the same value, or fails at the same
place.
-/

namespace Reckon

namespace Scanner

/-- The spacing in front of a text, and its tokens, each with the spacing after it. Two
numbers have to be kept apart. -/
structure Layout where
  before : List Char
  words : List (Token × List Char)
  spacing_before : ∀ c ∈ before, isSpacing c
  spacing_after : ∀ w ∈ words, ∀ c ∈ w.2, isSpacing c
  apart : words.IsChain fun w w' => w.1.tag = .number → w'.1.tag = .number → w.2 ≠ []

/-- The tokens and the spacing after each of them, one after the other. -/
def written (words : List (Token × List Char)) : List Char :=
  words.flatMap fun w => w.1.lexeme.toList ++ w.2

namespace Layout

def tokens (l : Layout) : List Token := l.words.map Prod.fst

def chars (l : Layout) : List Char := l.before ++ written l.words

end Layout

theorem not_isNumeral_of_isSpacing {c : Char} (h : isSpacing c) : isNumeral c = false := by
  by_contra hc
  rw [isSpacing_of_isNumeral (by simpa using hc)] at h
  cases h

theorem not_isNumeral_of_ofChar? {c : Char} {kind : Kind} (h : Kind.ofChar? c = some kind) :
    isNumeral c = false := by
  unfold Kind.ofChar? at h
  split at h
  case h_8 => cases h
  all_goals rfl

section
variable {gap cs : List Char} {ps : List Piece}

theorem splits_spacing (hgap : ∀ c ∈ gap, isSpacing c) (h : Splits cs ps) :
    Splits (gap ++ cs) (gap.map .spacing ++ ps) := by
  induction gap with
  | nil => exact h
  | cons c gap ih =>
    have hc : isSpacing c := hgap c (by simp)
    have hsingle : Piece.single c = .spacing c := by simp [Piece.single, hc]
    rw [List.cons_append, List.map_cons, List.cons_append, ← hsingle]
    exact .single (not_isNumeral_of_isSpacing hc) (ih fun d hd => hgap d (by simp [hd]))

theorem tokensFrom_spacings (p : Position) (gap : List Char) (ps : List Piece) :
    tokensFrom p (gap.map .spacing ++ ps) = tokensFrom (p.advanceAll gap) ps := by
  induction gap generalizing p with
  | nil => rfl
  | cons c gap ih => rw [List.map_cons, List.cons_append, tokensFrom_spacing, ih]; rfl

theorem legal_spacings (hps : ∀ piece ∈ ps, piece.Legal) :
    ∀ piece ∈ gap.map .spacing ++ ps, piece.Legal := by
  intro piece hpiece
  rcases List.mem_append.mp hpiece with hgap | hrest
  · obtain ⟨c, -, rfl⟩ := List.mem_map.mp hgap
    trivial
  · exact hps piece hrest

theorem bounded_spacing (hgap : ∀ c ∈ gap, isSpacing c) (h : gap = [] → Bounded cs) :
    Bounded (gap ++ cs) := by
  cases gap with
  | nil => exact h rfl
  | cons c gap => exact bounded_cons.mpr (not_isNumeral_of_isSpacing (hgap c (by simp)))

end

end Scanner

namespace Token.From

open Scanner

variable {t : Token} {piece : Piece}

theorem chars (h : t.From piece) : t.lexeme.toList = piece.chars := by
  cases h with
  | operator _ hlexeme => rw [hlexeme, String.toList_ofList, Piece.chars]
  | numeral h => rw [h.lexeme, String.toList_ofList, Piece.chars]

theorem legal (h : t.From piece) : piece.Legal := by
  cases h with
  | operator => trivial
  | numeral h => exact h.legal

/-- Wherever a piece stands, its token has the same kind and text. -/
theorem token? (h : t.From piece) {p : Position} {cs : List Char}
    (hp : p.rest = piece.chars ++ cs) : ∃ t', piece.token? p = some t' ∧ t.SameText t' := by
  have hkind : piece.kind? = some t.kind := by
    cases h with
    | operator hkind _ => exact hkind
    | numeral h => rw [Piece.kind?, h.value, h.kind]; rfl
  refine ⟨⟨t.kind, p, p.advanceAll piece.chars⟩, ?_, rfl, ?_⟩
  · rw [Piece.token?, hkind]
    rfl
  · rw [Token.lexeme_advanceAll hp, ← h.chars, String.ofList_toList]

/-- What starts with a token would go on with a number exactly if the token is one. -/
theorem bounded_iff (h : t.From piece) (cs : List Char) :
    Bounded (t.lexeme.toList ++ cs) ↔ t.tag ≠ .number := by
  cases h with
  | operator hkind hlexeme =>
    rw [hlexeme, String.toList_ofList]
    simp [bounded_cons, not_isNumeral_of_ofChar? hkind, Token.tag, (ofChar?_tag hkind).1]
  | numeral h =>
    obtain ⟨d, hd, -⟩ := h.legal.digit
    obtain ⟨c, run, rfl, hc, -⟩ := numeral_head h.numeral (List.ne_nil_of_mem hd)
    rw [h.lexeme, String.toList_ofList]
    simp [bounded_cons, hc, Token.tag, h.kind, Kind.tag]

theorem splits (h : t.From piece) {cs : List Char} {ps : List Piece}
    (hcs : t.tag = .number → Bounded cs) (hps : Splits cs ps) :
    Splits (t.lexeme.toList ++ cs) (piece :: ps) := by
  cases h with
  | operator hkind hlexeme =>
    rw [hlexeme, String.toList_ofList]
    exact .operator hkind hps
  | numeral h =>
    obtain ⟨c, hc, -⟩ := h.legal.digit
    have htag : t.tag = .number := by rw [Token.tag, h.kind]; rfl
    rw [h.lexeme, String.toList_ofList]
    exact .numeral (List.ne_nil_of_mem hc) h.numeral (hcs htag) rfl hps

end Token.From

namespace Scanner

/-- Tokens that are laid out are read again, with the same kinds and texts. -/
theorem exists_splits_written {words : List (Token × List Char)}
    (hfrom : ∀ w ∈ words, ∃ piece, w.1.From piece)
    (hafter : ∀ w ∈ words, ∀ c ∈ w.2, isSpacing c)
    (hapart : words.IsChain fun w w' => w.1.tag = .number → w'.1.tag = .number → w.2 ≠ []) :
    ∃ ps, Splits (written words) ps ∧ (∀ piece ∈ ps, piece.Legal) ∧
      ∀ p : Position, p.rest = written words →
        List.Forall₂ Token.SameText (words.map Prod.fst) (tokensFrom p ps) := by
  induction words with
  | nil => exact ⟨[], .nil, by simp, fun p _ => .nil⟩
  | cons w words ih =>
    obtain ⟨t, gap⟩ := w
    obtain ⟨ps, hps, hlegal, htokens⟩ := ih (fun w hw => hfrom w (by simp [hw]))
      (fun w hw => hafter w (by simp [hw])) hapart.tail
    obtain ⟨piece, hpiece⟩ := hfrom (t, gap) (by simp)
    have hgap : ∀ c ∈ gap, isSpacing c := hafter (t, gap) (by simp)
    -- after a number comes spacing, an operator or the end
    have hbounded : t.tag = .number → Bounded (gap ++ written words) := by
      intro htag
      refine bounded_spacing hgap fun hnil => ?_
      cases words with
      | nil => exact bounded_nil
      | cons w' words =>
        obtain ⟨piece', hpiece'⟩ := hfrom w' (by simp)
        have htag' : w'.1.tag ≠ .number := fun hnumber =>
          (List.isChain_cons_cons.mp hapart).1 htag hnumber hnil
        simpa [written] using (hpiece'.bounded_iff (w'.2 ++ written words)).mpr htag'
    have hwritten : written ((t, gap) :: words) = t.lexeme.toList ++ (gap ++ written words) := by
      simp [written]
    rw [hwritten]
    refine ⟨piece :: (gap.map .spacing ++ ps), ?_, ?_, fun p hp => ?_⟩
    · exact hpiece.splits hbounded (splits_spacing hgap hps)
    · rw [List.forall_mem_cons]
      exact ⟨hpiece.legal, legal_spacings hlegal⟩
    · rw [hpiece.chars] at hp
      obtain ⟨t', ht', hsame⟩ := hpiece.token? hp
      rw [tokensFrom, ht', tokensFrom_spacings]
      exact .cons hsame (htokens _ (Position.rest_advanceAll (Position.rest_advanceAll hp)))

namespace Layout

/-- One token more in front. -/
def cons (t : Token) (l : Layout)
    (h : t.tag = .number → ∀ w ∈ l.words.head?, w.1.tag = .number → l.before ≠ []) : Layout where
  before := []
  words := (t, l.before) :: l.words
  spacing_before := by simp
  spacing_after := by
    rw [List.forall_mem_cons]
    exact ⟨l.spacing_before, l.spacing_after⟩
  apart := List.isChain_cons.mpr ⟨fun w hw htag => h htag w hw, l.apart⟩

@[simp] theorem tokens_cons (t : Token) (l : Layout) (h) : (cons t l h).tokens = t :: l.tokens :=
  rfl

@[simp] theorem chars_cons (t : Token) (l : Layout) (h) :
    (cons t l h).chars = t.lexeme.toList ++ l.chars := by
  simp [cons, chars, written]

end Layout

/-- A text with a legal split is its own layout. -/
theorem exists_layout {cs : List Char} {ps : List Piece} (h : Splits cs ps)
    (hlegal : ∀ piece ∈ ps, piece.Legal) {p : Position} (hp : p.rest = cs) :
    ∃ l : Layout, l.tokens = tokensFrom p ps ∧ l.chars = cs := by
  induction h generalizing p with
  | nil => exact ⟨⟨[], [], by simp, by simp, .nil⟩, rfl, rfl⟩
  | @single c cs ps hc h ih =>
    obtain ⟨l, htokens, hchars⟩ := ih (fun q hq => hlegal q (by simp [hq]))
      (Position.rest_advance hp)
    rcases Piece.single_cases c with ⟨hs, heq⟩ | ⟨-, kind, hk, heq⟩ | ⟨-, -, heq⟩
    · refine ⟨⟨c :: l.before, l.words, ?_, l.spacing_after, l.apart⟩, ?_, ?_⟩
      · rw [List.forall_mem_cons]
        exact ⟨hs, l.spacing_before⟩
      · rw [heq]
        exact htokens
      · exact congrArg (c :: ·) hchars
    · refine ⟨.cons ⟨kind, p, p.advance c⟩ l ?_, ?_, ?_⟩
      · exact fun htag => absurd htag (ofChar?_tag hk).1
      · rw [heq, Layout.tokens_cons, htokens, tokensFrom, Piece.token?, Piece.kind?, hk]
        rfl
      · rw [Layout.chars_cons, hchars, Token.lexeme_advance hp, String.toList_singleton]
        rfl
    · have hother := hlegal (.single c) (by simp)
      rw [heq] at hother
      cases hother
  | @numeral run cs rest ps hne hrun hrest hcs h ih =>
    have hlegal' : ∀ piece ∈ ps, piece.Legal := fun q hq => hlegal q (by simp [hq])
    have hp' := Position.rest_advanceAll (hp.trans hcs)
    obtain ⟨l, htokens, hchars⟩ := ih hlegal' hp'
    have hlegalRun : LegalRun run := hlegal (.numeral run) (by simp)
    obtain ⟨v, hv⟩ := (numeralValue?_isSome_iff hne).mpr hlegalRun.range
    refine ⟨.cons ⟨.number v, p, p.advanceAll run⟩ l ?_, ?_, ?_⟩
    · -- without spacing the next number would have been read as a part of this one
      intro _ w hw htag hbefore
      obtain ⟨words, hwords⟩ := List.head?_eq_some_iff.mp hw
      have hmem : w.1 ∈ tokensFrom (p.advanceAll run) ps := by
        rw [← htokens, Layout.tokens, hwords]
        simp
      obtain ⟨piece, hpiece⟩ := from_of_mem h hlegal' hp' hmem
      have hstart : rest = w.1.lexeme.toList ++ (w.2 ++ written words) := by
        rw [← hchars, Layout.chars, hbefore, hwords]
        simp [written]
      rw [hstart, hpiece.bounded_iff] at hrest
      exact hrest htag
    · rw [Layout.tokens_cons, htokens, tokensFrom, Piece.token?, Piece.kind?, hv]
      rfl
    · rw [Layout.chars_cons, hchars, Token.lexeme_advanceAll (hp.trans hcs),
        String.toList_ofList, hcs]

/-- What the tokens of a text are, apart from the end of input. -/
theorem tokens_of_tokenize {source : Source} {ts : List Token} (h : tokenize source = .ok ts) :
    ∃ ps, Splits source.text.toList ps ∧ (∀ piece ∈ ps, piece.Legal) ∧
      Grammar.beforeEof ts = tokensFrom (.start source) ps ∧
      ∃ eof : Token, eof.kind = .eof ∧ eof.lexeme = "" ∧
        ts = tokensFrom (.start source) ps ++ [eof] := by
  obtain ⟨ps, hps⟩ := exists_splits source.text.toList
  have hlegal := legal_of_tokenize hps h
  obtain rfl := Except.ok.inj (h.symm.trans (tokenize_of_legal hps hlegal))
  exact ⟨ps, hps, hlegal, Grammar.beforeEof_append tokensFrom_not_isEof rfl, _, rfl,
    Token.lexeme_empty _ _, rfl⟩

/-- Every layout of the tokens of a text is read as these tokens. -/
theorem tokenize_layout {a b : Source} {ts : List Token} (h : tokenize a = .ok ts) (l : Layout)
    (htokens : l.tokens = Grammar.beforeEof ts) (hchars : l.chars = b.text.toList) :
    ∃ ts', tokenize b = .ok ts' ∧ List.Forall₂ Token.SameText ts ts' := by
  obtain ⟨ps, hps, hlegal, hbefore, eof, hkind, hlexeme, rfl⟩ := tokens_of_tokenize h
  rw [hbefore] at htokens
  have hfrom : ∀ w ∈ l.words, ∃ piece, w.1.From piece := by
    intro w hw
    refine from_of_mem hps hlegal (Position.rest_start a) ?_
    rw [← htokens]
    exact List.mem_map_of_mem hw
  obtain ⟨qs, hqs, hlegal', hsame⟩ := exists_splits_written hfrom l.spacing_after l.apart
  have hsplits : Splits b.text.toList (l.before.map .spacing ++ qs) :=
    hchars ▸ splits_spacing l.spacing_before hqs
  refine ⟨_, tokenize_of_legal hsplits (legal_spacings hlegal'), ?_⟩
  rw [tokensFrom_spacings, ← htokens]
  have hend : Token.SameText eof ⟨.eof, atEnd b, atEnd b⟩ :=
    ⟨hkind, hlexeme.trans (Token.lexeme_empty _ _).symm⟩
  have hrest : (Position.start b).rest = l.before ++ written l.words := hchars.symm
  exact List.rel_append (hsame _ (Position.rest_advanceAll hrest)) (.cons hend .nil)

end Scanner

theorem sameKind_iff {ts ts' : List Token} :
    List.Forall₂ Token.SameKind ts ts' ↔ ts.map Token.kind = ts'.map Token.kind := by
  rw [← List.forall₂_eq_eq_eq, List.forall₂_map_left_iff, List.forall₂_map_right_iff]
  rfl

theorem sameText_iff {ts ts' : List Token} :
    List.Forall₂ Token.SameText ts ts' ↔
      ts.map Token.kind = ts'.map Token.kind ∧ ts.map Token.lexeme = ts'.map Token.lexeme := by
  constructor
  · intro h
    induction h with
    | nil => exact ⟨rfl, rfl⟩
    | cons hsame _ ih =>
      simp only [List.map_cons, ih.1, ih.2, hsame.lexeme, and_true, List.cons.injEq]
      exact hsame.kind
  · rintro ⟨hkinds, hlexemes⟩
    rw [← sameKind_iff] at hkinds
    induction hkinds with
    | nil => exact .nil
    | cons hkind _ ih =>
      obtain ⟨hlexeme, hrest⟩ := List.cons.inj hlexemes
      exact .cons ⟨hkind, hlexeme⟩ (ih hrest)

namespace Expression

theorem evaluateTree_concurs {t t' : Tree} (hproper : t.Proper)
    (h : t.Matches Token.SameKind Token.SameKind t') (limits : Limits) :
    (∃ v, evaluateTree t limits = .ok v ∧ evaluateTree t' limits = .ok v) ∨
      (∃ e e' path, evaluateTree t limits = .error (.error (.eval e)) ∧
        evaluateTree t' limits = .error (.error (.eval e')) ∧ e.cause = e'.cause ∧
        t.at? path = some e.node ∧ t'.at? path = some e'.node) ∨
      (evaluateTree t limits = .error (.defect .tooManyDigits) ∧
        evaluateTree t' limits = .error (.defect .tooManyDigits) ∧
        limits.exponent ≤ -10 ^ Number.maxDigits) := by
  have hconcurs := Tree.evaluate_concurs limits.exponent h
  have hsettles := Tree.evaluate_settles hproper limits.exponent
  unfold evaluateTree
  generalize t.evaluate limits.exponent = x, t'.evaluate limits.exponent = y at hconcurs hsettles
  cases hconcurs with
  | ok a =>
    cases hsettles with
    | ok h =>
      obtain ⟨v, rfl, -⟩ := h
      exact .inl ⟨v, rfl, rfl⟩
  | error h =>
    cases h with
    | error path hnode hnode' => exact .inr (.inl ⟨_, _, path, rfl, rfl, rfl, hnode, hnode'⟩)
    | defect d =>
      cases hsettles with
      | error h =>
        obtain ⟨rfl, hlimit⟩ := h
        exact .inr (.inr ⟨rfl, rfl, hlimit⟩)

/-- Texts with corresponding tokens are parsed alike. -/
theorem parse_lockstep_of_tokenize {ρ : Token → Token → Prop} (hρ : Grammar.Discerning ρ)
    {a b : Source} {ts ts' : List Token} (hts : tokenize a = .ok ts)
    (hts' : tokenize b = .ok ts') (h : List.Forall₂ ρ ts ts') (limits : Limits) :
    (∃ t t', parse a limits = .ok t ∧ parse b limits = .ok t' ∧ t.Matches ρ ρ t') ∨
      (∃ (e e' : ParseError) (k : Nat), parse a limits = .error (.error (.parse e)) ∧
        parse b limits = .error (.error (.parse e')) ∧ e.cause = e'.cause ∧
        ts[k]? = some e.token ∧ ts'[k]? = some e'.token) ∨
      (parse a limits = .error (.defect .tooManyDigits) ∧
        parse b limits = .error (.defect .tooManyDigits) ∧
        ¬ Number.Writable limits.deepest) := by
  obtain ⟨p, hp, -, hparse⟩ := parse_of_tokenize hts limits
  obtain ⟨p', hp', -, hparse'⟩ := parse_of_tokenize hts' limits
  rcases Grammar.parse_lockstep hρ h hp hp' with
    ⟨t, t', ht, ht', hmatches⟩ | ⟨m, m', k, hm, hm', hcause, hk, hk'⟩
  · exact .inl ⟨t, t', by rw [hparse, ht]; rfl, by rw [hparse', ht']; rfl, hmatches⟩
  · rw [hm] at hparse
    rw [hm'] at hparse'
    have hmessage := Grammar.message?_isSome_iff
      ((Scanner.made_of_tokenize hts).2.1 _ (List.mem_of_getElem? hk))
    have hmessage' := Grammar.message?_isSome_iff
      ((Scanner.made_of_tokenize hts').2.1 _ (List.mem_of_getElem? hk'))
    rw [← hcause, ← hmessage] at hmessage'
    by_cases hsome : m.message?.isSome
    · rw [Parser.Failure.ofMisfit, dif_pos hsome] at hparse
      rw [Parser.Failure.ofMisfit, dif_pos (hmessage'.mpr hsome)] at hparse'
      exact .inr (.inl ⟨_, _, k, hparse, hparse', hcause, hk, hk'⟩)
    · rw [Parser.Failure.ofMisfit, dif_neg hsome] at hparse
      rw [Parser.Failure.ofMisfit, dif_neg (mt hmessage'.mp hsome)] at hparse'
      rcases parse_failure_cases hts hparse with ⟨e, he, -⟩ | ⟨-, hlong⟩
      · cases he
      · exact .inr (.inr ⟨hparse, hparse', hlong⟩)

theorem toSource_of_same_texts {a b : Source} {ts ts' : List Token}
    (hts : tokenize a = .ok ts) (hts' : tokenize b = .ok ts')
    (h : List.Forall₂ Token.SameText ts ts') {limits : Limits} {t t' : Tree}
    (ht : parse a limits = .ok t) (ht' : parse b limits = .ok t') :
    t.toSource = t'.toSource := by
  rcases parse_lockstep_of_tokenize (fun _ _ hsame => hsame.kind) hts hts' h limits with
    ⟨u, u', hu, hu', hmatches⟩ | ⟨e, -, -, he, -⟩ | ⟨he, -⟩
  · obtain rfl := Except.ok.inj (ht.symm.trans hu)
    obtain rfl := Except.ok.inj (ht'.symm.trans hu')
    exact (hmatches.mono (fun _ _ hsame => hsame) fun _ _ hsame => hsame.kind).toSource_eq
  · cases ht.symm.trans he
  · cases ht.symm.trans he

/-- A text is a layout of its tokens, and any other layout of them, in a source of whatever
name, has the same tokens up to where they stand. Sources whose tokens have the same kinds
have trees that are written alike and the same value, or an error of the same cause at the
same token or node, unless it is for a limit that has more digits than can be written. -/
theorem evaluate_of_same_kinds {a b : Source} {ts : List Token} (h : tokenize a = .ok ts) :
    (∃ l : Scanner.Layout, l.tokens = Grammar.beforeEof ts ∧ l.chars = a.text.toList) ∧
    (∀ l : Scanner.Layout, l.tokens = Grammar.beforeEof ts → l.chars = b.text.toList →
      ∃ ts', tokenize b = .ok ts' ∧ ts.map Token.kind = ts'.map Token.kind ∧
        ts.map Token.lexeme = ts'.map Token.lexeme) ∧
    ∀ ts', tokenize b = .ok ts' → ts.map Token.kind = ts'.map Token.kind →
      ∀ limits : Limits,
      (∃ t t' r, parse a limits = .ok t ∧ parse b limits = .ok t' ∧
        t.represent = .ok r ∧ t'.represent = .ok r ∧
        (ts.map Token.lexeme = ts'.map Token.lexeme →
          ∃ s, t.toSource = .ok s ∧ t'.toSource = .ok s) ∧
        ((∃ v, evaluate a limits = .ok v ∧ evaluate b limits = .ok v) ∨
          (∃ e e' path, evaluate a limits = .error (.error (.eval e)) ∧
            evaluate b limits = .error (.error (.eval e')) ∧ e.cause = e'.cause ∧
            t.at? path = some e.node ∧ t'.at? path = some e'.node) ∨
          (evaluate a limits = .error (.defect .tooManyDigits) ∧
            evaluate b limits = .error (.defect .tooManyDigits) ∧
            limits.exponent ≤ -10 ^ Number.maxDigits))) ∨
      (∃ (e e' : ParseError) (k : Nat), parse a limits = .error (.error (.parse e)) ∧
        parse b limits = .error (.error (.parse e')) ∧ e.cause = e'.cause ∧
        ts[k]? = some e.token ∧ ts'[k]? = some e'.token) ∨
      (parse a limits = .error (.defect .tooManyDigits) ∧
        parse b limits = .error (.defect .tooManyDigits) ∧
        ¬ Number.Writable limits.deepest) := by
  refine ⟨?_, fun l htokens hchars => ?_, fun ts' h' hkinds limits => ?_⟩
  · obtain ⟨ps, hps, hlegal, hbefore, -⟩ := Scanner.tokens_of_tokenize h
    rw [hbefore]
    exact Scanner.exists_layout hps hlegal (Position.rest_start a)
  · obtain ⟨ts', h', hsame⟩ := Scanner.tokenize_layout h l htokens hchars
    exact ⟨ts', h', sameText_iff.mp hsame⟩
  · have hparses := parse_lockstep_of_tokenize (fun _ _ hkind => hkind) h h'
      (sameKind_iff.mpr hkinds) limits
    rcases hparses with ⟨t, t', ht, ht', hmatches⟩ | herror
    · have hproper := Tree.proper_of_parse ht
      have hr := hproper.legible.represent_eq
      refine .inl ⟨t, t', _, ht, ht', hr, hmatches.represent_eq ▸ hr, fun hlexemes => ?_, ?_⟩
      · have hs := Tree.toSource_eq hproper
        have hsame := sameText_iff.mpr ⟨hkinds, hlexemes⟩
        exact ⟨t.source, hs, toSource_of_same_texts h h' hsame ht ht' ▸ hs⟩
      · rw [evaluate_of_parse ht, evaluate_of_parse ht']
        exact evaluateTree_concurs hproper hmatches limits
    · exact .inr herror

section
private def quotient : Source := ⟨"one", "2/0"⟩
private def dividend : Token := .spanning quotient (.number (.int 2)) 0 1
private def slash : Token := .spanning quotient .div 1 2
private def divisor : Token := .spanning quotient (.number (.int 0)) 2 3
private def endOfQuotient : Token := .spanning quotient .eof 3 3

/-- `2/0` over two lines. -/
private def brokenQuotient : Scanner.Layout where
  before := [' ']
  words := [(dividend, []), (slash, ['\n']), (divisor, [])]
  spacing_before := by simp [Scanner.isSpacing]
  spacing_after := by simp [Scanner.isSpacing]
  apart := by decide

private def otherQuotient : Source := ⟨"other", " 2/\n0"⟩

/-- On one line or on two and in one source or another, `2/0` fails for the same node. -/
theorem evaluate_of_same_kinds_quotient :
    tokenize quotient = .ok [dividend, slash, divisor, endOfQuotient] ∧
    brokenQuotient.chars = otherQuotient.text.toList ∧
    ∃ t t' e e' path, parse quotient {} = .ok t ∧ parse otherQuotient {} = .ok t' ∧
      evaluate quotient {} = .error (.error (.eval e)) ∧
      evaluate otherQuotient {} = .error (.error (.eval e')) ∧ e.cause = e'.cause ∧
      t.at? path = some e.node ∧ t'.at? path = some e'.node := by
  have hts : tokenize quotient = .ok [dividend, slash, divisor, endOfQuotient] := by cbv
  have hchars : brokenQuotient.chars = otherQuotient.text.toList := by cbv
  have hvalue : evaluate quotient {} =
      .error (.error (.eval ⟨.divisionByZero, .number divisor⟩)) := by cbv
  refine ⟨hts, hchars, ?_⟩
  obtain ⟨-, hlayout, hsame⟩ := evaluate_of_same_kinds (b := otherQuotient) hts
  obtain ⟨ts', hts', hkinds, -⟩ := hlayout brokenQuotient rfl hchars
  rcases hsame ts' hts' hkinds {} with
    ⟨t, t', r, ht, ht', -, -, -, hvalues⟩ | ⟨e, -, -, he, -⟩ | ⟨-, -, hlong⟩
  · rcases hvalues with ⟨v, hv, -⟩ | ⟨e, e', path, hplace⟩ | ⟨hv, -⟩
    · cases hvalue.symm.trans hv
    · exact ⟨t, t', e, e', path, ht, ht', hplace⟩
    · cases hvalue.symm.trans hv
  · rw [evaluate, he] at hvalue
    cases hvalue
  · exact absurd (by decide) hlong

end

end Expression

end Reckon
