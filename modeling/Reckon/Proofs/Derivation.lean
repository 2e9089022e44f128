import Reckon.Grammar.Parser

/-!
The grammar as a definition of its own. A `Derivation` is the concrete syntax of a part
of an expression: its `yield` is the tokens it stands for, its `tree` what they mean and
its `nesting` the most factors that lie inside one another. `Derivation.unique` says that
tokens have at most one derivation, whatever follows them, as long as that does not go on
with the part derived.
-/

namespace Reckon.Grammar

/-- The two kinds of chain, terms joined by signs and factors joined by `*` and `/`. -/
inductive Level where
  | sum
  | product

namespace Level

def operand : Level → Rule
  | sum => .term
  | product => .factor

/-- The operators of the chain. -/
def joins : Level → Tag → Bool
  | sum => isSign
  | product => isScaling

end Level

/-- What is derived: a rule, or the operands of a chain after the first one. -/
inductive Part where
  | rule (r : Rule)
  | further (l : Level)

namespace Part

/-- Further operands mean nothing by themselves; they extend the tree to their left. -/
abbrev Meaning : Part → Type
  | rule _ => Tree
  | further _ => Tree → Tree

/-- The operators with which the part, or the last thing in it, could go on. -/
def continuedBy : Part → Tag → Bool
  | rule .atom, _ => false
  | rule .power, t | rule .factor, t => t == .pow
  | rule .term, t | further .product, t => t == .pow || isScaling t
  | rule .expr, t | further .sum, t => t == .pow || isScaling t || isSign t

end Part

/-- The tokens that follow do not go on with the part. -/
def Ends (p : Part) (rest : List Token) : Prop :=
  ∀ t ∈ rest.head?, p.continuedBy t.tag = false

theorem ends_nil (p : Part) : Ends p [] := by
  intro t ht
  simp at ht

theorem ends_cons {p : Part} {t : Token} {rest : List Token} :
    Ends p (t :: rest) ↔ p.continuedBy t.tag = false := by
  simp [Ends]

/-- An atom is complete, whatever follows it. -/
theorem ends_atom (rest : List Token) : Ends (.rule .atom) rest := fun _ _ => rfl

theorem ends_rparen {p : Part} {t : Token} (ht : t.tag = .rparen) {rest : List Token} :
    Ends p (t :: rest) := by
  rw [ends_cons, ht]
  cases p with
  | rule r => cases r <;> rfl
  | further l => cases l <;> rfl

/-- What ends a chain ends its last operand too. -/
theorem Ends.operand {l : Level} {rest : List Token} (h : Ends (.further l) rest) :
    Ends (.rule l.operand) rest := by
  intro t ht
  have := h t ht
  cases l <;> simp_all [Part.continuedBy, Level.operand]

/-- An operator of a chain does not go on with the operand before it. -/
theorem ends_operand_of_joins {l : Level} {op : Token} (hop : l.joins op.tag)
    (rest : List Token) : Ends (.rule l.operand) (op :: rest) := by
  rw [ends_cons]
  cases l <;> cases h : op.tag <;>
    simp_all [Part.continuedBy, Level.operand, Level.joins, isSign, isScaling]

theorem not_ends_of_joins {l : Level} {op : Token} (hop : l.joins op.tag) (rest : List Token) :
    ¬ Ends (.further l) (op :: rest) := by
  rw [ends_cons]
  cases l <;> simp_all [Part.continuedBy, Level.joins]

inductive Derivation : Part → Type where
  | number (t : Token) (ht : t.tag = .number) : Derivation (.rule .atom)
  | parens (l : Token) (hl : l.tag = .lparen) (inner : Derivation (.rule .expr))
      (r : Token) (hr : r.tag = .rparen) : Derivation (.rule .atom)
  | lone (base : Derivation (.rule .atom)) : Derivation (.rule .power)
  | power (base : Derivation (.rule .atom)) (op : Token) (hop : op.tag = .pow)
      (exponent : Derivation (.rule .factor)) : Derivation (.rule .power)
  | signed (op : Token) (hop : isSign op.tag) (operand : Derivation (.rule .factor)) :
      Derivation (.rule .factor)
  | unsigned (body : Derivation (.rule .power)) : Derivation (.rule .factor)
  | term (first : Derivation (.rule .factor)) (rest : Derivation (.further .product)) :
      Derivation (.rule .term)
  | expr (first : Derivation (.rule .term)) (rest : Derivation (.further .sum)) :
      Derivation (.rule .expr)
  | done (l : Level) : Derivation (.further l)
  | more (l : Level) (op : Token) (hop : l.joins op.tag)
      (operand : Derivation (.rule l.operand)) (rest : Derivation (.further l)) :
      Derivation (.further l)

namespace Derivation

/-- The tokens derived, in order. -/
def yield : {p : Part} → Derivation p → List Token
  | _, number t _ => [t]
  | _, parens l _ inner r _ => l :: (inner.yield ++ [r])
  | _, lone base => base.yield
  | _, power base op _ exponent => base.yield ++ op :: exponent.yield
  | _, signed op _ operand => op :: operand.yield
  | _, unsigned body => body.yield
  | _, term first rest => first.yield ++ rest.yield
  | _, expr first rest => first.yield ++ rest.yield
  | _, done _ => []
  | _, more _ op _ operand rest => op :: (operand.yield ++ rest.yield)

/-- Chains group to the left and powers to the right, a sign takes the whole power, and
parentheses leave nothing behind. -/
def tree : {p : Part} → Derivation p → p.Meaning
  | _, number t _ => .number t
  | _, parens _ _ inner _ _ => inner.tree
  | _, lone base => base.tree
  | _, power base op _ exponent => .binary base.tree op exponent.tree
  | _, signed op _ operand => .unary op operand.tree
  | _, unsigned body => body.tree
  | _, term first rest => rest.tree first.tree
  | _, expr first rest => rest.tree first.tree
  | _, done _ => fun left => left
  | _, more _ op _ operand rest => fun left => rest.tree (.binary left op operand.tree)

/-- Counts the factors on a path, the most on any one; the operands of a chain lie side
by side. -/
def nesting : {p : Part} → Derivation p → Nat
  | _, number _ _ => 0
  | _, parens _ _ inner _ _ => inner.nesting
  | _, lone base => base.nesting
  | _, power base _ _ exponent => max base.nesting exponent.nesting
  | _, signed _ _ operand => operand.nesting + 1
  | _, unsigned body => body.nesting + 1
  | _, term first rest => max first.nesting rest.nesting
  | _, expr first rest => max first.nesting rest.nesting
  | _, done _ => 0
  | _, more _ _ _ operand rest => max operand.nesting rest.nesting

theorem atom_head (d : Derivation (.rule .atom)) :
    ∃ t w, d.yield = t :: w ∧ (t.tag = .number ∨ t.tag = .lparen) := by
  cases d with
  | number t ht => exact ⟨t, [], rfl, .inl ht⟩
  | parens l hl inner r hr => exact ⟨l, _, rfl, .inr hl⟩

theorem power_head (d : Derivation (.rule .power)) :
    ∃ t w, d.yield = t :: w ∧ (t.tag = .number ∨ t.tag = .lparen) := by
  cases d with
  | lone base => exact base.atom_head
  | power base op hop exponent =>
    obtain ⟨t, w, hw, ht⟩ := base.atom_head
    exact ⟨t, w ++ op :: exponent.yield, by simp [yield, hw], ht⟩

/-- A factor is a level of its own, and so is what consists of factors. -/
theorem factor_pos (d : Derivation (.rule .factor)) : 0 < d.nesting ∧ d.yield ≠ [] := by
  cases d with
  | signed op hop operand => exact ⟨Nat.succ_pos _, List.cons_ne_nil _ _⟩
  | unsigned body =>
    obtain ⟨t, w, hw, -⟩ := body.power_head
    exact ⟨Nat.succ_pos _, by simp [yield, hw]⟩

theorem expr_pos (d : Derivation (.rule .expr)) : 0 < d.nesting ∧ d.yield ≠ [] := by
  cases d with
  | expr first rest =>
    cases first with
    | term first more =>
      have hpos := first.factor_pos
      exact ⟨by simp only [nesting]; omega, by simp [yield, hpos.2]⟩

/-- Further operands end the one in front of them. -/
theorem ends_operand {l : Level} (d : Derivation (.further l)) {rest : List Token}
    (h : Ends (.further l) rest) : Ends (.rule l.operand) (d.yield ++ rest) := by
  cases d with
  | done => exact h.operand
  | more _ op hop operand d => exact ends_operand_of_joins hop _

theorem power_ne_signed (d : Derivation (.rule .power)) {op : Token}
    (hop : isSign op.tag) (w rest : List Token) : d.yield ++ rest ≠ op :: w := by
  intro h
  obtain ⟨t, w', hw, ht⟩ := d.power_head
  rw [hw] at h
  obtain ⟨rfl, -⟩ := List.cons.inj h
  rcases ht with ht | ht <;> simp [ht, isSign] at hop

/-- Derivations of one part in front of tokens that end it are the same if all the tokens
are. -/
theorem unique {p : Part} (d d' : Derivation p) {rest rest' : List Token}
    (h : d.yield ++ rest = d'.yield ++ rest') (hr : Ends p rest) (hr' : Ends p rest') :
    d = d' ∧ rest = rest' := by
  induction d generalizing rest rest' with
  | number t ht =>
    cases d' with
    | number t' ht' => simpa [yield] using h
    | parens l hl inner r hr =>
      obtain ⟨rfl, -⟩ := List.cons.inj h
      simp [ht] at hl
  | parens l hl inner c hc ih =>
    cases d' with
    | number t' ht' =>
      obtain ⟨rfl, -⟩ := List.cons.inj h
      simp [ht'] at hl
    | parens l' hl' inner' c' hc' =>
      simp only [yield, List.cons_append, List.append_assoc, List.cons.injEq] at h
      obtain ⟨rfl, h⟩ := h
      obtain ⟨rfl, hrest⟩ := ih inner' h (ends_rparen hc) (ends_rparen hc')
      simpa using hrest
  | lone base ih =>
    cases d' with
    | lone base' =>
      obtain ⟨rfl, hrest⟩ := ih base' h (ends_atom _) (ends_atom _)
      exact ⟨rfl, hrest⟩
    | power base' op' hop' exponent' =>
      simp only [yield, List.append_assoc, List.cons_append] at h
      obtain ⟨-, rfl⟩ := ih base' h (ends_atom _) (ends_atom _)
      simp [ends_cons, hop', Part.continuedBy] at hr
  | power base op hop exponent ihb ihe =>
    cases d' with
    | lone base' =>
      simp only [yield, List.append_assoc, List.cons_append] at h
      obtain ⟨-, rfl⟩ := ihb base' h (ends_atom _) (ends_atom _)
      simp [ends_cons, hop, Part.continuedBy] at hr'
    | power base' op' hop' exponent' =>
      simp only [yield, List.append_assoc, List.cons_append] at h
      obtain ⟨rfl, htail⟩ := ihb base' h (ends_atom _) (ends_atom _)
      obtain ⟨rfl, hexp⟩ := List.cons.inj htail
      obtain ⟨rfl, hrest⟩ := ihe exponent' hexp hr hr'
      exact ⟨rfl, hrest⟩
  | signed op hop operand ih =>
    cases d' with
    | signed op' hop' operand' =>
      obtain ⟨rfl, htail⟩ := List.cons.inj h
      obtain ⟨rfl, hrest⟩ := ih operand' htail hr hr'
      exact ⟨rfl, hrest⟩
    | unsigned body' => exact absurd h.symm (power_ne_signed body' hop _ _)
  | unsigned body ih =>
    cases d' with
    | signed op' hop' operand' => exact absurd h (power_ne_signed body hop' _ _)
    | unsigned body' =>
      obtain ⟨rfl, hrest⟩ := ih body' h hr hr'
      exact ⟨rfl, hrest⟩
  | term first more ihf ihm =>
    cases d' with
    | term first' more' =>
      simp only [yield, List.append_assoc] at h
      obtain ⟨rfl, htail⟩ := ihf first' h (more.ends_operand hr) (more'.ends_operand hr')
      obtain ⟨rfl, hrest⟩ := ihm more' htail hr hr'
      exact ⟨rfl, hrest⟩
  | expr first more ihf ihm =>
    cases d' with
    | expr first' more' =>
      simp only [yield, List.append_assoc] at h
      obtain ⟨rfl, htail⟩ := ihf first' h (more.ends_operand hr) (more'.ends_operand hr')
      obtain ⟨rfl, hrest⟩ := ihm more' htail hr hr'
      exact ⟨rfl, hrest⟩
  | done l =>
    cases d' with
    | done => exact ⟨rfl, h⟩
    | more _ op' hop' operand' more' =>
      obtain rfl : rest = _ := h
      exact absurd hr (not_ends_of_joins hop' _)
  | more l op hop operand more iho ihm =>
    cases d' with
    | done =>
      obtain rfl : _ = rest' := h
      exact absurd hr' (not_ends_of_joins hop _)
    | more _ op' hop' operand' more' =>
      simp only [yield, List.cons_append, List.append_assoc, List.cons.injEq] at h
      obtain ⟨rfl, h⟩ := h
      obtain ⟨rfl, htail⟩ := iho operand' h (more.ends_operand hr) (more'.ends_operand hr')
      obtain ⟨rfl, hrest⟩ := ihm more' htail hr hr'
      exact ⟨rfl, hrest⟩

theorem eq_of_yield_eq {p : Part} {d d' : Derivation p} (h : d.yield = d'.yield) : d = d' :=
  (unique d d' (congrArg (· ++ []) h) (ends_nil p) (ends_nil p)).1

end Derivation

end Reckon.Grammar
