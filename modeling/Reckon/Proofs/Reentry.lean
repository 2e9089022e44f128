import Mathlib
import Reckon.Proofs.Positional
import Reckon.Proofs.Unambiguous

/-!
Numbers that are typed in again. A whole number that an expression comes to, or that stands in one,
has at most 4300 digits, so its text is read. A minus sign in front of the digits is read as an
operator, which takes one level more.
-/

namespace Reckon

open Scanner Grammar

namespace Tree

theorem Proper.parse_negated {t : Tree} (h : Proper t) (name : String) {limits : Limits}
    (hdeep : (t.depth : Int) + 1 ≤ limits.deepest) :
    ∃ op t', Expression.parse ⟨name, "-" ++ t.source⟩ limits = .ok (.unary op t') ∧
      op.tag = .minus ∧ Alike t t' := by
  have hminus : Kind.ofChar? '-' = some .minus := rfl
  let start : Position := .start ⟨name, "-" ++ t.source⟩
  have hrest : start.rest = ['-'] ++ (t.pieces.flatMap Piece.chars ++ []) := by
    simp [start, source]
  obtain ⟨op, hop, htokens⟩ := tokensFrom_operator start hminus t.pieces
  obtain ⟨d, hd, halike, hnesting⟩ := exists_atom h (Position.rest_advanceAll hrest)
  have htag : op.tag = .minus := by
    rw [Token.tag, hop]
    rfl
  let signed : Derivation (.rule .expr) :=
    .ofTerm (.ofFactor (.signed op (by rw [htag]; rfl) (.ofAtom d)))
  have hyield : signed.yield = tokensFrom start (.operator '-' :: t.pieces) := by
    rw [htokens, ← hd]
    simp [signed, Derivation.ofTerm, Derivation.ofFactor, Derivation.ofAtom, Derivation.yield]
  have hsplits : Splits ("-" ++ t.source).toList (.operator '-' :: t.pieces) := by
    simpa using (splits_source h).operator hminus
  have hlegal : ∀ piece ∈ .operator '-' :: t.pieces, piece.Legal :=
    List.forall_mem_cons.mpr ⟨trivial, legal_pieces h⟩
  refine ⟨op, d.tree, (parse_eq_ok_iff hsplits hlegal hyield).mpr ⟨?_, rfl⟩, htag, halike⟩
  simp only [signed, Derivation.ofTerm, Derivation.ofFactor, Derivation.ofAtom, Derivation.nesting]
  omega

/-- A whole number at a leaf, with its own text. -/
def wholeLeaf (n : Nat) : Tree := .number (.ofText (.number (.int n)) (Number.intText n))

section
variable {n : Nat} {t : Tree}

theorem proper_wholeLeaf (hn : n < 10 ^ Number.maxDigits) : (wholeLeaf n).Proper :=
  .number ((Number.Plain.int hn).genuine rfl (Token.lexeme_ofText _ _))

theorem source_wholeLeaf (n : Nat) : (wholeLeaf n).source = Number.intText n := by
  simp [wholeLeaf, source, pieces, Piece.chars]

theorem Alike.wholeLeaf (h : Alike (wholeLeaf n) t) :
    ∃ token, t = .number token ∧ token.value? = some (.int n) := by
  cases h with
  | @number _ token hsame => exact ⟨token, rfl, by rw [Token.value?, ← hsame.kind]; rfl⟩

end

end Tree

theorem Number.intText_negSucc (n : Nat) :
    intText (.negSucc n) = "-" ++ intText (n + 1 : Nat) := by
  have hsign : ¬ ((n + 1 : Nat) : Int) < 0 := by omega
  rw [intText, intText, if_pos (Int.negSucc_lt_zero n), if_neg hsign, String.empty_append,
    Int.natAbs_negSucc, Int.natAbs_natCast]

namespace Expression

section
variable {n : Nat} {limits : Limits}

theorem parse_intText (name : String) (hn : n < 10 ^ Number.maxDigits)
    (hdeep : 1 ≤ limits.deepest) :
    ∃ token, parse ⟨name, Number.intText n⟩ limits = .ok (.number token) ∧
      token.value? = some (.int n) := by
  obtain ⟨t, halike, hparse⟩ := (Tree.proper_wholeLeaf hn).parse_source name
  obtain ⟨token, rfl, hvalue⟩ := halike.wholeLeaf
  rw [Tree.source_wholeLeaf] at hparse
  exact ⟨token, (hparse limits _).mpr ⟨hdeep, rfl⟩, hvalue⟩

theorem parse_intText_negSucc (name : String) (hn : n + 1 < 10 ^ Number.maxDigits)
    (hdeep : 2 ≤ limits.deepest) :
    ∃ op token,
      parse ⟨name, Number.intText (.negSucc n)⟩ limits = .ok (.unary op (.number token)) ∧
      op.tag = .minus ∧ token.value? = some (.int (n + 1 : Nat)) := by
  obtain ⟨op, t, hparse, htag, halike⟩ := (Tree.proper_wholeLeaf hn).parse_negated name hdeep
  obtain ⟨token, rfl, hvalue⟩ := halike.wholeLeaf
  rw [Tree.source_wholeLeaf, ← Number.intText_negSucc] at hparse
  exact ⟨op, token, hparse, htag, hvalue⟩

end

theorem evaluate_intText {i : Int} (hi : (Number.int i).InBounds) (name : String)
    {limits : Limits} (hdeep : 2 ≤ limits.deepest) :
    evaluate ⟨name, Number.intText i⟩ limits = .ok (.int i) := by
  rw [Number.inBounds_int] at hi
  cases i with
  | ofNat n =>
    have hleast : 1 ≤ limits.deepest := by omega
    obtain ⟨token, hparse, hvalue⟩ := parse_intText (n := n) name hi hleast
    rw [Int.ofNat_eq_natCast, evaluate_of_parse hparse, evaluateTree, Tree.evaluate_number, hvalue]
  | negSucc n =>
    obtain ⟨op, token, hparse, htag, hvalue⟩ := parse_intText_negSucc (n := n) name hi hdeep
    have hnegated : Tree.evalUnary op (some (.int (n + 1 : Nat))) =
        .ok (some (.int (.negSucc n))) := by
      rw [Tree.evalUnary, if_pos htag]
      rfl
    have heval : (Tree.unary op (.number token)).evaluate limits.exponent =
        .ok (some (.int (.negSucc n))) := by
      rw [Tree.evaluate_unary, Tree.evaluate_number, hvalue]
      exact hnegated
    rw [evaluate_of_parse hparse, evaluateTree, heval]

theorem bounded_of_evaluate {source : Source} {limits : Limits} {v : Number}
    (h : evaluate source limits = .ok v) : v.InBounds := by
  cases hparse : parse source limits with
  | error failure =>
    rw [evaluate, hparse] at h
    cases h
  | ok t =>
    rw [evaluate_of_parse hparse] at h
    rcases evaluateTree_cases (Tree.proper_of_parse hparse) limits with
      ⟨e, he, -⟩ | ⟨he, -⟩ | ⟨w, hw, hbounds⟩
    · cases h.symm.trans he
    · cases h.symm.trans he
    · obtain rfl := Except.ok.inj (h.symm.trans hw)
      exact hbounds

/-- A whole number in an expression has no sign of its own and can be written. -/
theorem exists_nat_of_leaf {source : Source} {limits : Limits} {t : Tree}
    (h : parse source limits = .ok t) {path : List Tree.Branch} {token : Token}
    (hat : t.at? path = some (.number token)) {v : Int} (hv : token.value? = some (.int v)) :
    ∃ n : Nat, v = n ∧ n < 10 ^ Number.maxDigits := by
  cases (Tree.proper_of_parse h).at? hat with
  | @number _ run w hgenuine =>
    rw [Token.value?_of_kind hgenuine.kind] at hv
    obtain rfl := Option.some.inj hv
    have hin := inBounds_of_numeralValue? hgenuine.numeral hgenuine.value
    rw [Number.inBounds_int] at hin
    cases hgenuine.unsigned with
    | int n => exact ⟨n, rfl, hin⟩

/-- A whole number that an expression comes to is the value of its own text, and a whole number in
an expression is a number by itself again, under any name and whatever limits as long as they leave
room for the digits and a sign. -/
theorem evaluate_printed :
    (∀ (source : Source) (limits : Limits) (v : Int), evaluate source limits = .ok (.int v) →
      ∃ s, Number.text? (.int v) = some s ∧ ∀ (name : String) (limits' : Limits),
        2 ≤ limits'.deepest → evaluate ⟨name, s⟩ limits' = .ok (.int v)) ∧
    ∀ (source : Source) (limits : Limits) (t : Tree) (path : List Tree.Branch) (token : Token)
      (v : Int), parse source limits = .ok t → t.at? path = some (.number token) →
      token.value? = some (.int v) → ∃ s, (Tree.number token).represent = .ok s ∧
        ∀ (name : String) (limits' : Limits), 1 ≤ limits'.deepest → ∃ token',
          parse ⟨name, s⟩ limits' = .ok (.number token') ∧ token'.value? = some (.int v) := by
  refine ⟨?_, ?_⟩
  · intro source limits v hv
    have hbounds := bounded_of_evaluate hv
    exact ⟨_, hbounds.text?_eq, fun name limits' hdeep => evaluate_intText hbounds name hdeep⟩
  · intro source limits t path token v hparse hat hv
    obtain ⟨n, rfl, hn⟩ := exists_nat_of_leaf hparse hat hv
    have hrepresent : (Tree.number token).represent = .ok (Number.intText n) := by
      rw [((Tree.proper_of_parse hparse).at? hat).legible.represent_eq, Tree.written,
        String.ofList_toList, Token.valueText, hv]
      rfl
    exact ⟨_, hrepresent, fun name limits' hdeep => parse_intText name hn hdeep⟩

section
private def paddedSeven : Token := .spanning "007-10^3" (.number (.int 7)) 0 3

/-- The tree of `007-10^3`. -/
private def paddedDifference : Tree :=
  .binary (.number paddedSeven) (.spanning "007-10^3" .minus 3 4)
    (.binary (.number (.spanning "007-10^3" (.number (.int 10)) 4 6))
      (.spanning "007-10^3" .pow 6 7)
      (.number (.spanning "007-10^3" (.number (.int 3)) 7 8)))

/-- A negative result, and a number that was typed with zeros in front. -/
theorem evaluate_printed_difference :
    evaluate "007-10^3" {} = .ok (.int (-993)) ∧
      evaluate "-993" { depth := 2, exponent := 0 } = .ok (.int (-993)) ∧
      ∃ token, parse "7" { depth := 1 } = .ok (.number token) ∧ token.value? = some (.int 7) := by
  have hvalue : evaluate "007-10^3" {} = .ok (.int (-993)) := by decide +kernel
  have hparse : parse "007-10^3" {} = .ok paddedDifference := by cbv
  obtain ⟨hresult, hleaf⟩ := evaluate_printed
  have htext : Number.text? (.int (-993)) = some "-993" := by decide
  obtain ⟨s, hs, hagain⟩ := hleaf _ _ _ [.left] paddedSeven 7 hparse rfl rfl
  have hshown : (Tree.number paddedSeven).represent = .ok "7" := by cbv
  obtain rfl := Except.ok.inj (hs.symm.trans hshown)
  obtain ⟨printed, hprinted, hback⟩ := hresult _ _ _ hvalue
  obtain rfl := Option.some.inj (hprinted.symm.trans htext)
  exact ⟨hvalue, hback _ _ (by decide), hagain _ { depth := 1 } (by decide)⟩

end

end Expression

end Reckon
