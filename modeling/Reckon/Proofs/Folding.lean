import Reckon.Tree.Fold

/-!
Folding by a loop is folding by recursion: the steps that `Tree.fold` allows are enough,
and no result is ever missing from the stack.
-/

namespace Reckon.Tree

universe u v

variable {m : Type u → Type v} {α : Type u} [Monad m]

/-- Folds by recursion on the tree, the left operand first. -/
def collapse (f : Algebra m α) : Tree → m α
  | number t => f.number t
  | unary op x => do
    let a ← collapse f x
    f.unary op x a
  | binary l op r => do
    let a ← collapse f l
    let b ← collapse f r
    f.binary l op r a b

/-- How many steps the loop takes for a tree. -/
def steps : Tree → Nat
  | number _ => 1
  | unary _ x => x.steps + 2
  | binary l _ r => l.steps + r.steps + 2

theorem steps_lt (t : Tree) : t.steps < 2 * t.size := by
  induction t with
  | number t => simp [steps, size]
  | unary op x ih => simp only [steps, size]; omega
  | binary l op r ihl ihr => simp only [steps, size]; omega

section
variable [LawfulMonad m] (f : Algebra m α) (noResult : m α)

/-- The steps for a tree put its result on the stack and leave everything else alone. -/
theorem foldSteps_tree (t : Tree) (n : Nat) (pending : List (Tree × Bool)) (results : List α) :
    foldSteps f noResult (n + t.steps) ((t, false) :: pending) results =
      collapse f t >>= fun a => foldSteps f noResult n pending (a :: results) := by
  induction t generalizing n pending results with
  | number t => rfl
  | unary op x ih =>
    rw [steps, show n + (x.steps + 2) = n + 1 + x.steps + 1 by omega, foldSteps, ih, collapse]
    simp [foldSteps]
  | binary l op r ihl ihr =>
    rw [steps, show n + (l.steps + r.steps + 2) = n + 1 + r.steps + l.steps + 1 by omega,
      foldSteps, ihl, collapse]
    simp [foldSteps, ihr]

theorem fold_eq_collapse (t : Tree) : fold f noResult t = collapse f t := by
  obtain ⟨n, hn⟩ := Nat.exists_eq_add_of_lt t.steps_lt
  have hpop : ∀ k a, foldSteps f noResult k [] [a] = pure a := by
    intro k a
    cases k <;> rfl
  rw [fold, hn, show t.steps + n + 1 = n + 1 + t.steps by omega, foldSteps_tree]
  simp [hpop]

end

end Reckon.Tree
