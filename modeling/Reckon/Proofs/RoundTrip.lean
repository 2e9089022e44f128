import Mathlib
import Reckon.Proofs.Matching
import Reckon.Proofs.Parsing
import Reckon.Proofs.Rendering

/-!
Writing a tree and reading it again. The text of a tree has a derivation with the same
tree, up to where its tokens stand, and `Tree.depth` is how deep that derivation nests.
-/

namespace Reckon

open Scanner Grammar

namespace Tree

/-- How deep the text of a tree nests. -/
def depth : Tree → Nat
  | number _ => 1
  | unary _ x => 2 + x.depth
  | binary l op r =>
    if op.tag = .pow then 1 + max l.depth (1 + r.depth) else 1 + max l.depth r.depth

/-- The same shape, with tokens of the same kind and text. -/
abbrev Alike : Tree → Tree → Prop := Matches Token.SameText Token.SameKind

theorem Alike.toSameKind {t t' : Tree} (h : Alike t t') :
    t.Matches Token.SameKind Token.SameKind t' :=
  h.mono (fun _ _ hsame => hsame.kind) fun _ _ hkind => hkind

end Tree

namespace Grammar.Derivation

/-- An atom by itself, as a factor. -/
def ofAtom (d : Derivation (.rule .atom)) : Derivation (.rule .factor) := .unsigned (.lone d)

def ofFactor (d : Derivation (.rule .factor)) : Derivation (.rule .term) :=
  .term d (.done .product)

def ofTerm (d : Derivation (.rule .term)) : Derivation (.rule .expr) := .expr d (.done .sum)

/-- Two atoms joined by an operator, by whichever rule that operator belongs to. -/
theorem exists_joined (l r : Derivation (.rule .atom)) (op : Token) {c : Char}
    (hop : op.tag.symbol? = some c) :
    ∃ d : Derivation (.rule .expr), d.yield = l.yield ++ op :: r.yield ∧
      d.tree = .binary l.tree op r.tree ∧
      d.nesting = if op.tag = .pow then max (l.nesting + 1) (r.nesting + 2)
        else max (l.nesting + 1) (r.nesting + 1) := by
  by_cases hpow : op.tag = .pow
  · refine ⟨ofTerm (ofFactor (.unsigned (.power l op hpow (ofAtom r)))), ?_, rfl, ?_⟩
    · simp [ofTerm, ofFactor, ofAtom, yield]
    · simp only [ofTerm, ofFactor, ofAtom, nesting, hpow, if_true]
      omega
  · by_cases hsign : isSign op.tag
    · refine ⟨.expr (ofFactor (ofAtom l)) (.more .sum op hsign (ofFactor (ofAtom r)) (.done _)),
        ?_, rfl, ?_⟩
      · simp [ofFactor, ofAtom, yield]
      · simp only [ofFactor, ofAtom, nesting, hpow, if_false]
        omega
    · have hscaling : isScaling op.tag := by
        cases htag : op.tag <;> simp_all [isSign, isScaling, Tag.symbol?]
      refine ⟨ofTerm (.term (ofAtom l) (.more .product op hscaling (ofAtom r) (.done _))),
        ?_, rfl, ?_⟩
      · simp [ofTerm, ofAtom, yield]
      · simp only [ofTerm, ofAtom, nesting, hpow, if_false]
        omega

end Grammar.Derivation

namespace Tree

theorem exists_enclosed (p : Position) (ps : List Piece) (inner : Derivation (.rule .expr))
    (h : inner.yield = tokensFrom (p.advanceAll ['(']) ps) :
    ∃ d : Derivation (.rule .atom), d.yield = tokensFrom p (enclose ps) ∧ d.tree = inner.tree ∧
      d.nesting = inner.nesting := by
  obtain ⟨left, hleft, hopen⟩ := tokensFrom_operator p (c := '(') rfl (ps ++ [.operator ')'])
  obtain ⟨right, hright, hclose⟩ := tokensFrom_operator
    ((p.advanceAll ['(']).advanceAll (ps.flatMap Piece.chars)) (c := ')') rfl []
  refine ⟨.parens left (by rw [Token.tag, hleft]; rfl) inner right (by rw [Token.tag, hright]; rfl),
    ?_, rfl, rfl⟩
  rw [enclose, hopen, tokensFrom_append, hclose, ← h]
  rfl

/-- The number tokens of a text have the values that their text is read as. -/
theorem genuine_of_mem {cs : List Char} {ps : List Piece} (h : Splits cs ps)
    (hlegal : ∀ piece ∈ ps, piece.Legal) {p : Position} (hp : p.rest = cs) {t : Token}
    (ht : t ∈ tokensFrom p ps) (htag : t.tag = .number) : ∃ run v, t.Genuine run v := by
  obtain ⟨piece, hpiece⟩ := from_of_mem h hlegal hp ht
  cases hpiece with
  | operator hkind _ => exact absurd htag (ofChar?_tag hkind).1
  | numeral hgenuine => exact ⟨_, _, hgenuine⟩

/-- What a part means is proper, if what it extends is. -/
def ProperMeaning : (p : Part) → p.Meaning → Prop
  | .rule _, t => Proper t
  | .further _, extend => ∀ left, Proper left → Proper (extend left)

/-- Only the leaves depend on the text; a derivation puts operators where they belong. -/
theorem proper_of_derivation {p : Part} (d : Derivation p)
    (h : ∀ t ∈ d.yield, t.tag = .number → ∃ run v, t.Genuine run v) :
    ProperMeaning p d.tree := by
  induction d with
  | number t ht =>
    obtain ⟨run, v, hgenuine⟩ := h t (by simp [Derivation.yield]) ht
    exact .number hgenuine
  | parens l hl inner r hr ih => exact ih fun t ht => h t (by simp [Derivation.yield, ht])
  | lone base ih => exact ih h
  | power base op hop exponent ihb ihe =>
    refine .binary (c := '^') (by rw [hop]; rfl) (ihb fun t ht => ?_) (ihe fun t ht => ?_)
    · exact h t (by simp [Derivation.yield, ht])
    · exact h t (by simp [Derivation.yield, ht])
  | signed op hop operand ih =>
    exact .unary hop (ih fun t ht => h t (by simp [Derivation.yield, ht]))
  | unsigned body ih => exact ih h
  | term first rest ihf ihr =>
    refine ihr (fun t ht => h t ?_) _ (ihf fun t ht => h t ?_)
    · simp [Derivation.yield, ht]
    · simp [Derivation.yield, ht]
  | expr first rest ihf ihr =>
    refine ihr (fun t ht => h t ?_) _ (ihf fun t ht => h t ?_)
    · simp [Derivation.yield, ht]
    · simp [Derivation.yield, ht]
  | done l => exact fun left hleft => hleft
  | more l op hop operand rest iho ihr =>
    intro left hleft
    obtain ⟨c, hc⟩ := symbol_of_joins hop
    refine ihr (fun t ht => h t ?_) _ (.binary hc hleft (iho fun t ht => h t ?_))
    · simp [Derivation.yield, ht]
    · simp [Derivation.yield, ht]

/-- The text of a tree, wherever it stands, is an atom with that tree. -/
theorem exists_atom {t : Tree} (h : Proper t) {p : Position} {cs : List Char}
    (hp : p.rest = t.pieces.flatMap Piece.chars ++ cs) :
    ∃ d : Derivation (.rule .atom), d.yield = tokensFrom p t.pieces ∧ Alike t d.tree ∧
      d.nesting + 1 = t.depth := by
  -- a number is an atom, and so is any operation, since it stands in parentheses
  induction h generalizing p cs with
  | @number t run v h =>
    refine ⟨.number ⟨.number v, p, p.advanceAll run⟩ rfl, ?_, ?_, rfl⟩
    · simp [pieces, h.lexeme, tokensFrom, Piece.token?, Piece.kind?, h.value, Piece.chars,
        Derivation.yield]
    · rw [pieces, h.lexeme, String.toList_ofList, List.flatMap_singleton, Piece.chars] at hp
      exact .number ⟨h.kind, h.lexeme.trans (Token.lexeme_advanceAll hp _).symm⟩
  | @unary op x hop hx ih =>
    obtain ⟨c, hc⟩ := symbol_of_joins (l := .sum) hop
    obtain ⟨o, ho, hmark⟩ := tokensFrom_operator (p.advanceAll ['(']) (ofChar?_mark hc) x.pieces
    have hoperand : p.rest =
        ['('] ++ ([mark op] ++ (x.pieces.flatMap Piece.chars ++ ')' :: cs)) := by
      rw [hp]
      simp [pieces, enclose, Piece.chars]
    obtain ⟨d, hd, halike, hdepth⟩ :=
      ih (Position.rest_advanceAll (Position.rest_advanceAll hoperand))
    have hsign : isSign o.tag := by rwa [Token.tag, ho]
    let inner : Derivation (.rule .expr) := .ofTerm (.ofFactor (.signed o hsign (.ofAtom d)))
    obtain ⟨d', hyield, htree, hnesting⟩ := exists_enclosed p _ inner (by
      rw [hmark, ← hd]
      simp [inner, Derivation.ofTerm, Derivation.ofFactor, Derivation.ofAtom, Derivation.yield])
    refine ⟨d', hyield, ?_, ?_⟩
    · rw [htree]
      exact .unary ho.symm halike
    · simp only [hnesting, inner, Derivation.ofTerm, Derivation.ofFactor, Derivation.ofAtom,
        Derivation.nesting, depth]
      omega
  | @binary l r op c hop hl hr ihl ihr =>
    obtain ⟨o, ho, hmark⟩ := tokensFrom_joined (p.advanceAll ['(']) (ofChar?_mark hop)
      l.pieces r.pieces
    have hleft : p.rest = ['('] ++ (l.pieces.flatMap Piece.chars ++
        ([' ', mark op, ' '] ++ (r.pieces.flatMap Piece.chars ++ ')' :: cs))) := by
      rw [hp]
      simp [pieces, enclose, Piece.chars]
    have hinside := Position.rest_advanceAll hleft
    obtain ⟨dl, hdl, halikel, hdepthl⟩ := ihl hinside
    obtain ⟨dr, hdr, haliker, hdepthr⟩ :=
      ihr (Position.rest_advanceAll (hinside.trans (List.append_assoc _ _ _).symm))
    have htag : o.tag = op.tag := by rw [Token.tag, ho, Token.tag]
    obtain ⟨inner, hinner, htree, hnesting⟩ := Derivation.exists_joined dl dr o (htag ▸ hop)
    obtain ⟨d, hyield, htree', hnesting'⟩ := exists_enclosed p _ inner (by
      rw [hinner, hdl, hdr, ← hmark])
    refine ⟨d, hyield, ?_, ?_⟩
    · rw [htree', htree]
      exact .binary ho.symm halikel haliker
    · rw [hnesting', hnesting, htag, depth]
      split <;> omega

theorem exists_expr {t : Tree} (h : Proper t) (name : String) :
    ∃ d : Derivation (.rule .expr), d.yield = tokensFrom (.start ⟨name, t.source⟩) t.pieces ∧
      Alike t d.tree ∧ d.nesting = t.depth := by
  have htext : (Position.start ⟨name, t.source⟩).rest = t.pieces.flatMap Piece.chars ++ [] := by
    simp [source]
  obtain ⟨d, hyield, halike, hdepth⟩ := exists_atom h htext
  refine ⟨.ofTerm (.ofFactor (.ofAtom d)), ?_, halike, ?_⟩
  · simp [Derivation.ofTerm, Derivation.ofFactor, Derivation.ofAtom, Derivation.yield, hyield]
  · simp only [Derivation.ofTerm, Derivation.ofFactor, Derivation.ofAtom, Derivation.nesting]
    omega

/-- The text of a tree is read as a tree like it, if the limit lets it pass. -/
theorem Proper.parse_source {t : Tree} (h : Proper t) (name : String) :
    ∃ t', Alike t t' ∧ ∀ limits u, Expression.parse ⟨name, t.source⟩ limits = .ok u ↔
      (t.depth : Int) ≤ limits.deepest ∧ t' = u := by
  obtain ⟨d, hyield, halike, hdepth⟩ := exists_expr h name
  refine ⟨d.tree, halike, fun limits u => ?_⟩
  have hsplits : Splits (Source.mk name t.source).text.toList t.pieces := splits_source h
  rw [parse_eq_ok_iff hsplits (legal_pieces h) hyield, hdepth]

theorem proper_of_parse {source : Source} {limits : Limits} {t : Tree}
    (h : Expression.parse source limits = .ok t) : Proper t := by
  rcases Grammar.parse_source source with ⟨e, herror⟩ | ⟨ps, eof, hps, hlegal, heof, hparse⟩
  · rw [herror] at h
    cases h
  · rw [hparse, outcome_eq_ok_iff heof tokensFrom_not_isEof] at h
    obtain ⟨d, hyield, -, rfl⟩ := h
    exact proper_of_derivation d fun t ht => genuine_of_mem hps hlegal rfl (hyield ▸ ht)

end Tree

section

end

end Reckon
