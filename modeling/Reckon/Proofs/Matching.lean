import Reckon.Evaluation
import Reckon.Proofs.Folding

/-!
Trees of the same shape whose tokens correspond. Trees with tokens of the same kinds have
the same value, or fail for the same cause at the same place; where a tree stands in a text
makes no difference to that.
-/

namespace Reckon

def Token.SameKind (t t' : Token) : Prop := t.kind = t'.kind

structure Token.SameText (t t' : Token) : Prop where
  kind : t.SameKind t'
  lexeme : t.lexeme = t'.lexeme

/-- The same value, or errors that correspond. -/
inductive Concurs {ε α : Type} (errors : ε → ε → Prop) : Except ε α → Except ε α → Prop where
  | ok (a : α) : Concurs errors (.ok a) (.ok a)
  | error {e e' : ε} (h : errors e e') : Concurs errors (.error e) (.error e')

namespace Concurs

variable {ε α β : Type} {errors errors' : ε → ε → Prop} {x y : Except ε α}

theorem mono (h : Concurs errors x y) (herrors : ∀ e e', errors e e' → errors' e e') :
    Concurs errors' x y := by
  cases h with
  | ok a => exact .ok a
  | error h => exact .error (herrors _ _ h)

theorem bind {f g : α → Except ε β} (h : Concurs errors x y)
    (hfg : ∀ a, Concurs errors (f a) (g a)) : Concurs errors (x >>= f) (y >>= g) := by
  cases h with
  | ok a => exact hfg a
  | error h => exact .error h

end Concurs

namespace Tree

/-! ### Evaluation by nodes -/

theorem evaluate_number (maxExponent : Int) (token : Token) :
    (number token).evaluate maxExponent = .ok token.value? := by
  rw [evaluate, fold_eq_collapse]
  rfl

theorem evaluate_unary (maxExponent : Int) (op : Token) (x : Tree) :
    (unary op x).evaluate maxExponent = x.evaluate maxExponent >>= evalUnary op := by
  simp only [evaluate, fold_eq_collapse]
  rfl

theorem evaluate_binary (maxExponent : Int) (l : Tree) (op : Token) (r : Tree) :
    (binary l op r).evaluate maxExponent =
      l.evaluate maxExponent >>= fun x => r.evaluate maxExponent >>= fun y =>
        evalBinary maxExponent l op r x y := by
  simp only [evaluate, fold_eq_collapse]
  rfl

/-! ### Trees that match -/

/-- The same shape, with corresponding tokens at the leaves and at the other nodes. -/
inductive Matches (leaf node : Token → Token → Prop) : Tree → Tree → Prop where
  | number {t t' : Token} (h : leaf t t') : Matches leaf node (.number t) (.number t')
  | unary {op op' : Token} {x x' : Tree} (hop : node op op') (hx : Matches leaf node x x') :
      Matches leaf node (.unary op x) (.unary op' x')
  | binary {op op' : Token} {l l' r r' : Tree} (hop : node op op')
      (hl : Matches leaf node l l') (hr : Matches leaf node r r') :
      Matches leaf node (.binary l op r) (.binary l' op' r')

/-- A way down from a node. -/
inductive Branch where
  | operand
  | left
  | right
  deriving DecidableEq

/-- The node at a place, given by the way to it from the root. -/
def at? : List Branch → Tree → Option Tree
  | [], t => some t
  | .operand :: path, unary _ x => x.at? path
  | .left :: path, binary l _ _ => l.at? path
  | .right :: path, binary _ _ r => r.at? path
  | _, _ => none

/-- The same defect, or the same cause for nodes at the same place of two trees. -/
inductive Failure.Concurs (t t' : Tree) : Failure → Failure → Prop where
  | error {cause : EvalError.Cause} {node node' : Tree} (path : List Branch)
      (h : t.at? path = some node) (h' : t'.at? path = some node') :
      Concurs t t' (.error ⟨cause, node⟩) (.error ⟨cause, node'⟩)
  | defect (d : Defect) : Concurs t t' (.defect d) (.defect d)

namespace Matches

variable {leaf node leaf' node' : Token → Token → Prop} {t t' : Tree}

theorem mono (h : Matches leaf node t t') (hleaf : ∀ u u', leaf u u' → leaf' u u')
    (hnode : ∀ u u', node u u' → node' u u') : Matches leaf' node' t t' := by
  induction h with
  | number h => exact .number (hleaf _ _ h)
  | unary hop _ ih => exact .unary (hnode _ _ hop) ih
  | binary hop _ _ ihl ihr => exact .binary (hnode _ _ hop) ihl ihr

/-- A fold that cannot tell corresponding tokens apart cannot tell the trees apart. -/
theorem collapse_eq {m : Type → Type} {α : Type} [Monad m] (f : Algebra m α)
    (h : Matches leaf node t t')
    (hnumber : ∀ u u', leaf u u' → f.number u = f.number u')
    (hunary : ∀ op op' x x', node op op' → f.unary op x = f.unary op' x')
    (hbinary : ∀ op op' l l' r r', node op op' → f.binary l op r = f.binary l' op' r') :
    collapse f t = collapse f t' := by
  induction h with
  | number h => exact hnumber _ _ h
  | unary hop _ ih => rw [collapse, collapse, ih, hunary _ _ _ _ hop]
  | binary hop _ _ ihl ihr => rw [collapse, collapse, ihl, ihr, hbinary _ _ _ _ _ _ hop]

theorem represent_eq (h : Matches Token.SameKind Token.SameKind t t') :
    t.represent = t'.represent := by
  have hname : ∀ op op' : Token, op.SameKind op' → op.represent? = op'.represent? := by
    intro op op' hkind
    rw [Token.represent?, Token.represent?, hkind]
  rw [represent, represent, fold_eq_collapse, fold_eq_collapse]
  refine h.collapse_eq _ ?_ ?_ ?_
  · intro u u' hkind
    simp only [leafText, Token.value?, show u.kind = u'.kind from hkind]
  · intro op op' x x' hkind
    simp only [hname op op' hkind]
  · intro op op' l l' r r' hkind
    simp only [hname op op' hkind]

theorem toSource_eq (h : Matches Token.SameText Token.SameKind t t') :
    t.toSource = t'.toSource := by
  have hsymbol : ∀ op op' : Token, op.SameKind op' → symbolOf op = symbolOf op' := by
    intro op op' hkind
    rw [symbolOf, symbolOf, Token.tag, Token.tag, hkind]
  rw [toSource, toSource, fold_eq_collapse, fold_eq_collapse]
  refine h.collapse_eq _ ?_ ?_ ?_
  · intro u u' hsame
    simp only [leafText, Token.value?, show u.kind = u'.kind from hsame.kind, hsame.lexeme]
  · intro op op' x x' hkind
    simp only [hsymbol op op' hkind]
  · intro op op' l l' r r' hkind
    simp only [hsymbol op op' hkind]

end Matches

/-- A place in an operand is a place in the whole, one branch further down. -/
theorem Failure.Concurs.below {t t' u u' : Tree} {failure failure' : Failure}
    (h : Concurs t t' failure failure') (branch : Branch)
    (hu : ∀ path, u.at? (branch :: path) = t.at? path)
    (hu' : ∀ path, u'.at? (branch :: path) = t'.at? path) : Concurs u u' failure failure' := by
  cases h with
  | error path h h' => exact .error (branch :: path) ((hu path).trans h) ((hu' path).trans h')
  | defect d => exact .defect d

theorem settle_concurs (l l' r r' : Tree) (op op' : Token) (refusal : Operation.Refusal) :
    Failure.Concurs (.binary l op r) (.binary l' op' r')
      (settle l r (.binary l op r) refusal) (settle l' r' (.binary l' op' r') refusal) := by
  cases refusal with
  | defect d => exact .defect d
  | error cause blame =>
    cases blame with
    | left => exact .error [.left] rfl rfl
    | right => exact .error [.right] rfl rfl
    | whole => exact .error [] rfl rfl

theorem evalBinary_concurs (maxExponent : Int) (l l' r r' : Tree) {op op' : Token}
    (hop : op.SameKind op') (x y : Option Number) :
    Concurs (Failure.Concurs (.binary l op r) (.binary l' op' r'))
      (evalBinary maxExponent l op r x y) (evalBinary maxExponent l' op' r' x y) := by
  have htag : op'.tag = op.tag := by rw [Token.tag, Token.tag, hop]
  cases y with
  | none => cases x <;> exact .error (.defect _)
  | some v =>
    cases x with
    | none =>
      simp only [evalBinary, htag]
      split
      · exact .error (.error [.right] rfl rfl)
      · exact .error (.defect _)
    | some u =>
      simp only [evalBinary, htag]
      split
      · exact .ok _
      · exact .error (settle_concurs l l' r r' op op' _)

/-- Evaluation goes by the kinds of the tokens alone. -/
theorem evaluate_concurs (maxExponent : Int) {t t' : Tree}
    (h : Matches Token.SameKind Token.SameKind t t') :
    Concurs (Failure.Concurs t t') (t.evaluate maxExponent) (t'.evaluate maxExponent) := by
  rw [evaluate, evaluate, fold_eq_collapse, fold_eq_collapse]
  induction h with
  | @number u u' h =>
    have hvalue : u.value? = u'.value? := by rw [Token.value?, Token.value?, h]
    simp only [collapse, hvalue]
    exact .ok _
  | @unary op op' x x' hop _ ih =>
    refine (ih.mono fun _ _ h => h.below .operand (fun _ => rfl) fun _ => rfl).bind fun a => ?_
    have htag : op.tag = op'.tag := by rw [Token.tag, Token.tag, hop]
    cases a with
    | none => exact .error (.defect _)
    | some v =>
      simp only [evalUnary, htag]
      exact .ok _
  | @binary op op' l l' r r' hop _ _ ihl ihr =>
    refine (ihl.mono fun _ _ h => h.below .left (fun _ => rfl) fun _ => rfl).bind fun a => ?_
    refine (ihr.mono fun _ _ h => h.below .right (fun _ => rfl) fun _ => rfl).bind fun b => ?_
    exact evalBinary_concurs maxExponent l l' r r' hop a b

end Tree

end Reckon
