import Mathlib
import Reckon.Proofs.Parsing

/-!
Parsing keeps the tokens. The tokens of the tree, from left to right, are the tokens read,
each of them once and in order; only parentheses are left out, and these are balanced.
-/

namespace Reckon

def Token.isParen (t : Token) : Bool := t.tag == .lparen || t.tag == .rparen

/-- The tokens of a tree from left to right. -/
def Tree.inOrder : Tree → List Token
  | number t => [t]
  | unary op x => op :: x.inOrder
  | binary l op r => l.inOrder ++ op :: r.inOrder

namespace Grammar

/-- By how much a token changes the number of open parentheses. -/
def opening (t : Token) : Int :=
  if t.tag = .lparen then 1 else if t.tag = .rparen then -1 else 0

/-- How many parentheses are open after some tokens. -/
def openAfter (ts : List Token) : Int := (ts.map opening).sum

/-- Nothing is closed that was not opened before, and nothing stays open. -/
structure Balanced (ts : List Token) : Prop where
  opened : ∀ k, 0 ≤ openAfter (ts.take k)
  closed : openAfter ts = 0

@[simp] theorem openAfter_nil : openAfter [] = 0 := rfl

@[simp] theorem openAfter_cons (t : Token) (ts : List Token) :
    openAfter (t :: ts) = opening t + openAfter ts := rfl

@[simp] theorem openAfter_append (ts us : List Token) :
    openAfter (ts ++ us) = openAfter ts + openAfter us := by
  simp [openAfter]

namespace Balanced

theorem nil : Balanced [] := ⟨fun k => by simp, rfl⟩

theorem append {ts us : List Token} (h : Balanced ts) (h' : Balanced us) :
    Balanced (ts ++ us) := by
  refine ⟨fun k => ?_, by simp [h.closed, h'.closed]⟩
  rw [List.take_append, openAfter_append]
  exact Int.add_nonneg (h.opened k) (h'.opened _)

theorem enclose {ts : List Token} (h : Balanced ts) {l r : Token} (hl : l.tag = .lparen)
    (hr : r.tag = .rparen) : Balanced (l :: (ts ++ [r])) := by
  have hopen : opening l = 1 := by simp [opening, hl]
  have hclose : opening r = -1 := by simp [opening, hr]
  refine ⟨fun k => ?_, by simp [hopen, hclose, h.closed]⟩
  cases k with
  | zero => simp
  | succ k =>
    rw [List.take_succ_cons, openAfter_cons, hopen, List.take_append, openAfter_append]
    -- the parenthesis opened first makes up for the one that may have been closed last
    have hlast : -1 ≤ openAfter ([r].take (k - ts.length)) := by
      cases k - ts.length <;> simp [hclose]
    have hinside := h.opened k
    omega

end Balanced

theorem not_isParen_of_joins {l : Level} {op : Token} (hop : l.joins op.tag) :
    op.isParen = false := by
  cases l <;> cases htag : op.tag <;>
    simp_all [Token.isParen, Level.joins, isSign, isScaling]

/-- What the tokens of a part are to its meaning: those of its tree, or those that it adds
to the tree on its left. -/
def Lists : (p : Part) → p.Meaning → List Token → Prop
  | .rule _, t, ts => t.inOrder = ts
  | .further _, extend, ts => ∀ left, (extend left).inOrder = left.inOrder ++ ts

namespace Derivation

theorem lists_yield {p : Part} (d : Derivation p) :
    Lists p d.tree (d.yield.filter (!·.isParen)) := by
  induction d with
  | number t ht => simp [Lists, tree, yield, Tree.inOrder, Token.isParen, ht]
  | parens l hl inner r hr ih => simpa [Lists, tree, yield, Token.isParen, hl, hr] using ih
  | lone base ih => exact ih
  | power base op hop exponent ihb ihe =>
    simp only [Lists] at ihb ihe
    simp [Lists, tree, yield, Tree.inOrder, Token.isParen, hop, ihb, ihe]
  | signed op hop operand ih =>
    simp only [Lists] at ih
    have hparen := not_isParen_of_joins (l := .sum) hop
    simp [Lists, tree, yield, Tree.inOrder, hparen, ih]
  | unsigned body ih => exact ih
  | term first rest ihf ihr =>
    simp only [Lists] at ihf ihr
    simp [Lists, tree, yield, ihf, ihr]
  | expr first rest ihf ihr =>
    simp only [Lists] at ihf ihr
    simp [Lists, tree, yield, ihf, ihr]
  | done l => simp [Lists, tree, yield]
  | more l op hop operand rest iho ihr =>
    -- the tree on the left has grown by the operator and its operand
    simp only [Lists] at iho ihr
    intro left
    simp [tree, yield, Tree.inOrder, not_isParen_of_joins hop, iho, ihr]

theorem balanced_yield {p : Part} (d : Derivation p) : Balanced (d.yield.filter (·.isParen)) := by
  induction d with
  | number t ht => simpa [yield, Token.isParen, ht] using Balanced.nil
  | parens l hl inner r hr ih => simpa [yield, Token.isParen, hl, hr] using ih.enclose hl hr
  | lone base ih => exact ih
  | power base op hop exponent ihb ihe => simpa [yield, Token.isParen, hop] using ihb.append ihe
  | signed op hop operand ih => simpa [yield, not_isParen_of_joins (l := .sum) hop] using ih
  | unsigned body ih => exact ih
  | term first rest ihf ihr => simpa [yield] using ihf.append ihr
  | expr first rest ihf ihr => simpa [yield] using ihf.append ihr
  | done l => exact .nil
  | more l op hop operand rest iho ihr =>
    simpa [yield, not_isParen_of_joins hop] using iho.append ihr

end Derivation

/-- The tree has every token that was read, once and in its place, but for the
parentheses. -/
theorem parseTokens_inOrder {tokens : List Token} (h : Terminated tokens) {limits : Limits}
    {t : Tree} (hparse : Expression.parseTokens tokens limits = .ok t) :
    t.inOrder = (beforeEof tokens).filter (!·.isParen) ∧
      Balanced ((beforeEof tokens).filter (·.isParen)) := by
  obtain ⟨eof, heof, houtcome⟩ := parseTokens_eq_outcome h
  rw [houtcome, outcome_eq_ok_iff heof fun t => beforeEof_not_isEof] at hparse
  obtain ⟨d, hyield, -, rfl⟩ := hparse
  rw [← hyield]
  exact ⟨d.lists_yield, d.balanced_yield⟩

section
private def leftParen : Token := .spanning "(7-0.)*-4" .lparen 0 1
private def seven : Token := .spanning "(7-0.)*-4" (.number (.int 7)) 1 2
private def dash : Token := .spanning "(7-0.)*-4" .minus 2 3
private def nought : Token := .spanning "(7-0.)*-4" (.number (.float (.zero false))) 3 5
private def rightParen : Token := .spanning "(7-0.)*-4" .rparen 5 6
private def star : Token := .spanning "(7-0.)*-4" .mul 6 7
private def sign : Token := .spanning "(7-0.)*-4" .minus 7 8
private def four : Token := .spanning "(7-0.)*-4" (.number (.int 4)) 8 9
private def finish : Token := .spanning "(7-0.)*-4" .eof 9 9

/-- The tokens of `(7-0.)*-4`. -/
private def scaledDifference : List Token :=
  [leftParen, seven, dash, nought, rightParen, star, sign, four, finish]

private def scaledDifferenceTree : Tree :=
  .binary (.binary (.number seven) dash (.number nought)) star (.unary sign (.number four))

theorem parseTokens_inOrder_scaledDifference :
    Terminated scaledDifference ∧
    Expression.parseTokens scaledDifference {} = .ok scaledDifferenceTree ∧
    [seven, dash, nought, star, sign, four] = (beforeEof scaledDifference).filter (!·.isParen) ∧
    Balanced ((beforeEof scaledDifference).filter (·.isParen)) := by
  have hend : Terminated scaledDifference := ⟨finish, rfl, rfl⟩
  have hparse : Expression.parseTokens scaledDifference {} = .ok scaledDifferenceTree := by cbv
  exact ⟨hend, hparse, parseTokens_inOrder hend hparse⟩

end

end Grammar

end Reckon
