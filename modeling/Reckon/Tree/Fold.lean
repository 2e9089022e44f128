import Reckon.Tree.Basic

/-!
Folding a tree from its leaves up, with effects. `Tree.fold` is a loop over a list
of nodes still to be done and a stack of results, so it needs no more of the call
stack for a deep tree than for a flat one.
-/

namespace Reckon.Tree

universe u v

/-- What to do at each kind of node, given the results of its operands. -/
structure Algebra (m : Type u → Type v) (α : Type u) where
  number : Token → m α
  unary : (op : Token) → (operand : Tree) → α → m α
  binary : (left : Tree) → (op : Token) → (right : Tree) → α → α → m α

variable {m : Type u → Type v} {α : Type u} [Monad m]

/-- The last result, if there is one. -/
def popResult (noResult : m α) : List α → m α
  | [] => noResult
  | a :: _ => pure a

/-- Does at most `n` steps. A node other than a leaf comes up twice: the first time
its operands are put in front of it, and the second time their results are at hand,
the last one on top. -/
def foldSteps (f : Algebra m α) (noResult : m α) :
    Nat → List (Tree × Bool) → List α → m α
  | 0, _, results => popResult noResult results
  | _ + 1, [], results => popResult noResult results
  | n + 1, (number t, _) :: pending, results => do
    let a ← f.number t
    foldSteps f noResult n pending (a :: results)
  | n + 1, (unary op x, false) :: pending, results =>
    foldSteps f noResult n ((x, false) :: (unary op x, true) :: pending) results
  | n + 1, (unary op x, true) :: pending, results =>
    match results with
    | a :: rest => do
      let b ← f.unary op x a
      foldSteps f noResult n pending (b :: rest)
    | _ => noResult
  | n + 1, (binary l op r, false) :: pending, results =>
    foldSteps f noResult n
      ((l, false) :: (r, false) :: (binary l op r, true) :: pending) results
  | n + 1, (binary l op r, true) :: pending, results =>
    match results with
    | b :: a :: rest => do
      let c ← f.binary l op r a b
      foldSteps f noResult n pending (c :: rest)
    | _ => noResult

/-- `noResult` is the outcome if a result is missing from the stack. -/
def fold (f : Algebra m α) (noResult : m α) (t : Tree) : m α :=
  foldSteps f noResult (2 * t.size) [(t, false)] []

end Reckon.Tree
