import Mathlib
import Reckon.Proofs.Layout

/-!
Expressions put together from expressions. Two texts in parentheses with an operator between them
are read as the operation on their trees, and come to what the operation makes of their values; the
same holds of a sign in front of a text in parentheses.
-/

namespace Reckon

open Scanner Grammar

namespace Scanner

/-- Pieces that stand elsewhere have tokens of the same kinds. -/
theorem tokensFrom_sameKind (p q : Position) (ps : List Piece) :
    List.Forall₂ Token.SameKind (tokensFrom p ps) (tokensFrom q ps) := by
  induction ps generalizing p q with
  | nil => exact .nil
  | cons piece ps ih =>
    refine List.rel_append ?_ (ih _ _)
    unfold Piece.token?
    cases piece.kind? with
    | none => exact .nil
    | some kind => exact .cons rfl .nil

theorem splits_enclose {cs ds : List Char} {ps qs : List Piece} (h : Splits cs ps)
    (h' : Splits ds qs) : Splits ('(' :: (cs ++ ')' :: ds)) (Tree.enclose ps ++ qs) := by
  rw [Tree.enclose, List.cons_append, List.append_assoc]
  exact .operator rfl (h.append (.operator rfl h') (bounded_cons.mpr rfl))

theorem legal_enclose {ps : List Piece} (h : ∀ piece ∈ ps, piece.Legal) :
    ∀ piece ∈ Tree.enclose ps, piece.Legal := by
  simpa [Tree.enclose, or_imp, forall_and, Piece.Legal] using h

end Scanner

namespace Grammar

/-- Corresponding tokens have corresponding trees. -/
theorem outcome_lockstep {ρ : Token → Token → Prop} (hρ : Discerning ρ) {w w' : List Token}
    {eof : Token} (heof : ρ eof eof) (h : List.Forall₂ ρ w w') {limit : Int} {t : Tree}
    (ht : outcome limit w eof = .ok t) :
    ∃ t', outcome limit w' eof = .ok t' ∧ t.Matches ρ ρ t' := by
  have hruns := lockstep_whole hρ limit (framesPerLevel * limit.toNat + 3) ⟨w, eof, 0, 0⟩
    ⟨w', eof, 0, 0⟩ ⟨h, heof, rfl, rfl⟩
  obtain ⟨s, hs⟩ := report_eq_ok_iff.mp ht
  rw [hs] at hruns
  unfold outcome
  generalize (Parser.whole limit _).run ⟨w', eof, 0, 0⟩ = result at hruns
  cases hruns with
  | ok hmatches _ => exact ⟨_, rfl, hmatches⟩

end Grammar

/-! ### Codes -/

/-- The code of the error, if the failure is one. -/
def Failure.code? : Failure → Option String
  | .error (.lex e) => some e.code
  | .error (.parse e) => some e.code
  | .error (.eval e) => some e.code
  | .defect _ | .unterminated => none

/-- The code of the error that a refusal leads to. -/
def Operation.Refusal.code? : Refusal → Option String
  | .error .divisionByZero _ => some "R001"
  | .error .overflow _ => some "R002"
  | .error (.exponentTooLarge ..) _ => some "R003"
  | .error .notReal _ => some "R004"
  | .defect _ => none

theorem Failure.code?_settle (l r whole : Tree) (refusal : Operation.Refusal) :
    (Failure.ofTree (Tree.settle l r whole refusal)).code? = refusal.code? := by
  cases refusal with
  | defect d => rfl
  | error cause blame => cases blame <;> cases cause <;> rfl

namespace Expression

/-- A text that is parsed is an atom in parentheses, wherever they stand. -/
theorem exists_atom_of_parse {source : Source} {limits : Limits} {t : Tree}
    (h : parse source limits = .ok t) :
    ∃ ps, Splits source.text.toList ps ∧ (∀ piece ∈ ps, piece.Legal) ∧ ∀ p : Position,
      ∃ d : Derivation (.rule .atom), d.yield = tokensFrom p (Tree.enclose ps) ∧
        (d.nesting : Int) ≤ limits.deepest ∧ t.Matches Token.SameKind Token.SameKind d.tree := by
  rcases parse_source source with ⟨e, herror⟩ | ⟨ps, eof, hps, hlegal, heof, hparse⟩
  · cases h.symm.trans (herror limits)
  · refine ⟨ps, hps, hlegal, fun p => ?_⟩
    rw [hparse] at h
    obtain ⟨t', ht', hmatches⟩ := outcome_lockstep (fun _ _ hkind => hkind) rfl
      (tokensFrom_sameKind (.start source) (p.advanceAll ['(']) ps) h
    obtain ⟨inner, hinner, hlimit, rfl⟩ := (outcome_eq_ok_iff heof tokensFrom_not_isEof).mp ht'
    obtain ⟨d, hyield, htree, hnesting⟩ := Tree.exists_enclosed p ps inner hinner
    exact ⟨d, hyield, hnesting ▸ hlimit, htree ▸ hmatches⟩

/-- A text with a derivation within the limit is parsed as the tree of that derivation. -/
theorem parse_of_derivation {source : Source} {ps : List Piece}
    (hps : Splits source.text.toList ps) (hlegal : ∀ piece ∈ ps, piece.Legal)
    {d : Derivation (.rule .expr)} (hyield : d.yield = tokensFrom (.start source) ps)
    {limits : Limits} (hnesting : (d.nesting : Int) ≤ limits.deepest) :
    parse source limits = .ok d.tree :=
  (parse_eq_ok_iff hps hlegal hyield).mpr ⟨hnesting, rfl⟩

theorem kind_of_symbol {tag : Tag} {c : Char} (hc : tag.symbol? = some c) :
    ∃ kind, Kind.ofChar? c = some kind ∧ kind.tag = tag := by
  cases tag <;> cases hc <;> exact ⟨_, rfl, rfl⟩

/-- Two texts in parentheses with a character between them. -/
def joined (a : String) (c : Char) (b : String) : String :=
  "(" ++ a ++ ")" ++ String.singleton c ++ "(" ++ b ++ ")"

/-- A text in parentheses with a character in front. -/
def signed (c : Char) (a : String) : String := String.singleton c ++ "(" ++ a ++ ")"

section
variable {a b : Source} {limits limits' : Limits} {ta tb : Tree} {tag : Tag} {c : Char}

theorem parse_joined (name : String) (ha : parse a limits = .ok ta) (hb : parse b limits = .ok tb)
    (hdeep : limits.deepest + 2 ≤ limits'.deepest) (hc : tag.symbol? = some c) :
    ∃ (op : Token) (l r : Tree),
      parse ⟨name, joined a.text c b.text⟩ limits' = .ok (.binary l op r) ∧ op.tag = tag ∧
      ta.Matches Token.SameKind Token.SameKind l ∧ tb.Matches Token.SameKind Token.SameKind r := by
  obtain ⟨ps, hps, hlegal, hatom⟩ := exists_atom_of_parse ha
  obtain ⟨qs, hqs, hlegal', hatom'⟩ := exists_atom_of_parse hb
  obtain ⟨kind, hkind, rfl⟩ := kind_of_symbol hc
  let whole : Source := ⟨name, joined a.text c b.text⟩
  have hsplits : Splits whole.text.toList
      (Tree.enclose ps ++ .operator c :: Tree.enclose qs) := by
    have henclose := splits_enclose hqs .nil
    rw [List.append_nil] at henclose
    simpa [whole, joined] using splits_enclose hps (.operator hkind henclose)
  have hall : ∀ piece ∈ Tree.enclose ps ++ .operator c :: Tree.enclose qs, piece.Legal := by
    rw [List.forall_mem_append, List.forall_mem_cons]
    exact ⟨legal_enclose hlegal, trivial, legal_enclose hlegal'⟩
  obtain ⟨op, hop, htokens⟩ := tokensFrom_operator
    ((Position.start whole).advanceAll ((Tree.enclose ps).flatMap Piece.chars)) hkind
    (Tree.enclose qs)
  obtain ⟨dl, hl, hlnesting, hlmatches⟩ := hatom (.start whole)
  obtain ⟨dr, hr, hrnesting, hrmatches⟩ := hatom' _
  have htag : op.tag = kind.tag := by rw [Token.tag, hop]
  obtain ⟨d, hyield, htree, hnesting⟩ := Derivation.exists_joined dl dr op (htag ▸ hc)
  refine ⟨op, dl.tree, dr.tree, ?_, htag, hlmatches, hrmatches⟩
  rw [← htree]
  refine parse_of_derivation hsplits hall ?_ ?_
  · rw [hyield, hl, hr, tokensFrom_append, htokens]
  · rw [hnesting]
    split <;> omega

theorem parse_signed (name : String) (ha : parse a limits = .ok ta)
    (hdeep : limits.deepest + 2 ≤ limits'.deepest) (hc : tag.symbol? = some c)
    (hsign : isSign tag) :
    ∃ (op : Token) (x : Tree),
      parse ⟨name, signed c a.text⟩ limits' = .ok (.unary op x) ∧ op.tag = tag ∧
      ta.Matches Token.SameKind Token.SameKind x := by
  obtain ⟨ps, hps, hlegal, hatom⟩ := exists_atom_of_parse ha
  obtain ⟨kind, hkind, rfl⟩ := kind_of_symbol hc
  let whole : Source := ⟨name, signed c a.text⟩
  have hsplits : Splits whole.text.toList (.operator c :: Tree.enclose ps) := by
    have henclose := splits_enclose hps .nil
    rw [List.append_nil] at henclose
    simpa [whole, signed] using henclose.operator hkind
  have hall : ∀ piece ∈ .operator c :: Tree.enclose ps, piece.Legal := by
    rw [List.forall_mem_cons]
    exact ⟨trivial, legal_enclose hlegal⟩
  obtain ⟨op, hop, htokens⟩ := tokensFrom_operator (.start whole) hkind (Tree.enclose ps)
  obtain ⟨d, hd, hnesting, hmatches⟩ := hatom _
  have htag : op.tag = kind.tag := by rw [Token.tag, hop]
  refine ⟨op, d.tree, ?_, htag, hmatches⟩
  refine parse_of_derivation (d := .ofTerm (.ofFactor (.signed op (htag ▸ hsign) (.ofAtom d))))
    hsplits hall ?_ ?_
  · rw [htokens, ← hd]
    simp [Derivation.ofTerm, Derivation.ofFactor, Derivation.ofAtom, Derivation.yield]
  · simp only [Derivation.ofTerm, Derivation.ofFactor, Derivation.ofAtom, Derivation.nesting]
    omega

end

/-- What a text comes to: its value, or the code of its error. -/
def verdict (source : Source) (limits : Limits) : Except (Option String) Number :=
  (evaluate source limits).mapError Failure.code?

theorem verdict_of_parse {source : Source} {limits : Limits} {t : Tree}
    (h : parse source limits = .ok t) :
    verdict source limits = (evaluateTree t limits).mapError Failure.code? := by
  rw [verdict, evaluate_of_parse h]

/-- An error without a code is one that would have to name too long a limit. -/
theorem exponent_of_verdict {source : Source} {limits : Limits} {t : Tree}
    (h : parse source limits = .ok t) (hverdict : verdict source limits = .error none) :
    limits.exponent ≤ -10 ^ Number.maxDigits := by
  rw [verdict_of_parse h] at hverdict
  rcases evaluateTree_cases (Tree.proper_of_parse h) limits with
    ⟨e, he, -⟩ | ⟨-, hlong⟩ | ⟨v, hv, -⟩
  · rw [he] at hverdict
    cases hverdict
  · exact hlong
  · rw [hv] at hverdict
    cases hverdict

section
variable {limits limits' : Limits} {t t' : Tree}

/-- Where a tree stands makes no difference to its value or to the code of its error. -/
theorem evaluateTree_of_matches (h : t.Matches Token.SameKind Token.SameKind t')
    (hexponent : limits'.exponent = limits.exponent) :
    (evaluateTree t' limits').mapError Failure.code? =
      (evaluateTree t limits).mapError Failure.code? := by
  have hconcurs := Tree.evaluate_concurs limits.exponent h
  unfold evaluateTree
  rw [hexponent]
  generalize t.evaluate limits.exponent = x, t'.evaluate limits.exponent = y at hconcurs
  cases hconcurs with
  | ok a => cases a <;> rfl
  | error h => cases h <;> rfl

theorem evaluateTree_unary (op : Token) (x : Tree) (limits : Limits) :
    (evaluateTree (.unary op x) limits).mapError Failure.code? = do
      let v ← (evaluateTree x limits).mapError Failure.code?
      return if op.tag = .minus then v.neg else v := by
  unfold evaluateTree
  rw [Tree.evaluate_unary]
  rcases x.evaluate limits.exponent with failure | _ | v <;> rfl

theorem evaluateTree_binary {l r : Tree} (hl : l.Proper) (hr : r.Proper) (op : Token)
    (limits : Limits) :
    (evaluateTree (.binary l op r) limits).mapError Failure.code? = (do
      let x ← (evaluateTree l limits).mapError Failure.code?
      let y ← (evaluateTree r limits).mapError Failure.code?
      ((Operation.ofTag op.tag).apply limits.exponent x y).mapError Operation.Refusal.code?) := by
  have hsettles := Tree.evaluate_settles hl limits.exponent
  have hsettles' := Tree.evaluate_settles hr limits.exponent
  have hnode := Tree.evaluate_binary limits.exponent l op r
  unfold evaluateTree
  generalize l.evaluate limits.exponent = a, r.evaluate limits.exponent = b
    at hsettles hsettles' hnode
  rw [hnode]
  cases hsettles with
  | error h => rfl
  | ok h =>
    obtain ⟨x, rfl, -⟩ := h
    cases hsettles' with
    | error h => rfl
    | ok h =>
      obtain ⟨y, rfl, -⟩ := h
      simp only [Tree.evalBinary, bind, Except.bind, Except.mapError]
      cases (Operation.ofTag op.tag).apply limits.exponent x y with
      | ok v => rfl
      | error refusal => exact congrArg Except.error (Failure.code?_settle l r _ refusal)

end

/-- Two expressions in parentheses with an operator between them are parsed, under any name, two
levels further down at most, as the operation on their trees. What they come to is the error of
the first one, or else that of the second, or else what the operation makes of their values; a sign
in front of an expression in parentheses likewise changes its value. Only a limit that cannot be
written leaves an error without a code. -/
theorem evaluate_composed {a b : Source} (name : String) {limits limits' : Limits} {ta tb : Tree}
    (ha : parse a limits = .ok ta) (hb : parse b limits = .ok tb)
    (hdeep : limits.deepest + 2 ≤ limits'.deepest)
    (hexponent : limits'.exponent = limits.exponent) {tag : Tag} {c : Char}
    (hc : tag.symbol? = some c) :
    ∃ ra rb, ta.represent = .ok ra ∧ tb.represent = .ok rb ∧
      ((∃ t, parse ⟨name, joined a.text c b.text⟩ limits' = .ok t ∧
          t.represent = .ok ("(" ++ ra ++ ", " ++ tag.name ++ ", " ++ rb ++ ")")) ∧
        (verdict ⟨name, joined a.text c b.text⟩ limits' = .error none →
          limits.exponent ≤ -10 ^ Number.maxDigits) ∧
        verdict ⟨name, joined a.text c b.text⟩ limits' = do
          let x ← verdict a limits
          let y ← verdict b limits
          ((Operation.ofTag tag).apply limits.exponent x y).mapError Operation.Refusal.code?) ∧
      (isSign tag →
        (∃ t, parse ⟨name, signed c a.text⟩ limits' = .ok t ∧
          t.represent = .ok ("(" ++ tag.name ++ ", " ++ ra ++ ")")) ∧
        (verdict ⟨name, signed c a.text⟩ limits' = .error none →
          limits.exponent ≤ -10 ^ Number.maxDigits) ∧
        verdict ⟨name, signed c a.text⟩ limits' = do
          let x ← verdict a limits
          return if tag = .minus then x.neg else x) := by
  have hra := (Tree.proper_of_parse ha).legible.represent_eq
  have hrb := (Tree.proper_of_parse hb).legible.represent_eq
  refine ⟨_, _, hra, hrb, ?_, fun hsign => ?_⟩
  · obtain ⟨op, l, r, hparse, rfl, hl, hr⟩ := parse_joined name ha hb hdeep hc
    refine ⟨⟨_, hparse, ?_⟩, fun hverdict => hexponent ▸ exponent_of_verdict hparse hverdict, ?_⟩
    · exact Tree.represent_binary hc (hl.represent_eq ▸ hra) (hr.represent_eq ▸ hrb)
    · cases Tree.proper_of_parse hparse with
      | binary hop hproperl hproperr =>
        rw [verdict_of_parse hparse, verdict_of_parse ha, verdict_of_parse hb,
          evaluateTree_binary hproperl hproperr, evaluateTree_of_matches hl hexponent,
          evaluateTree_of_matches hr hexponent, hexponent]
  · obtain ⟨op, x, hparse, rfl, hx⟩ := parse_signed name ha hdeep hc hsign
    refine ⟨⟨_, hparse, ?_⟩, fun hverdict => hexponent ▸ exponent_of_verdict hparse hverdict, ?_⟩
    · exact Tree.represent_unary hc (hx.represent_eq ▸ hra)
    · rw [verdict_of_parse hparse, verdict_of_parse ha, evaluateTree_unary,
        evaluateTree_of_matches hx hexponent]

section
private def composedBase : Tree := .number (.spanning "2" (.number (.int 2)) 0 1)

/-- The tree of `1-2`. -/
private def composedExponent : Tree :=
  .binary (.number (.spanning "1-2" (.number (.int 1)) 0 1))
    (.spanning "1-2" .minus 1 2)
    (.number (.spanning "1-2" (.number (.int 2)) 2 3))

/-- The limit that lets `2` and `1-2` pass has to rise by two for `(2)^(1-2)`. -/
theorem evaluate_composed_power :
    parse "2" { depth := 1, exponent := 0 } = .ok composedBase ∧
    parse "1-2" { depth := 1, exponent := 0 } = .ok composedExponent ∧
    (∃ t, parse "(2)^(1-2)" { depth := 3, exponent := 0 } = .ok t ∧
      t.represent = .ok "(2, POW, (1, MINUS, 2))") ∧
    verdict "(2)^(1-2)" { depth := 3, exponent := 0 } = .error (some "R003") ∧
    (∃ e, parse "(2)^(1-2)" { depth := 2, exponent := 0 } = .error (.error (.parse e)) ∧
      e.code = "P004") := by
  have ha : parse "2" { depth := 1, exponent := 0 } = .ok composedBase := by cbv
  have hb : parse "1-2" { depth := 1, exponent := 0 } = .ok composedExponent := by cbv
  obtain ⟨ra, rb, hra, hrb, ⟨htree, -, hverdict⟩, -⟩ := evaluate_composed "<stdin>" ha hb
    (show Limits.deepest { depth := 1, exponent := 0 } + 2 ≤
      Limits.deepest { depth := 3, exponent := 0 } by decide) rfl
    (show Tag.symbol? .pow = some '^' by rfl)
  have hra' : composedBase.represent = .ok "2" := by cbv
  have hrb' : composedExponent.represent = .ok "(1, MINUS, 2)" := by cbv
  obtain rfl := Except.ok.inj (hra.symm.trans hra')
  obtain rfl := Except.ok.inj (hrb.symm.trans hrb')
  have htext : joined (Source.text "2") '^' (Source.text "1-2") = "(2)^(1-2)" := by decide
  rw [htext] at htree hverdict
  refine ⟨ha, hb, htree, hverdict.trans (by cbv), ?_⟩
  exact ⟨_, by cbv, rfl⟩

end

end Expression

end Reckon
