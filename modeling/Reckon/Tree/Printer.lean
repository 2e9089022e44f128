import Reckon.Tree.Fold

/-!
Two ways to write a tree: `represent` names its operators, and `toSource` writes an
expression with every operation in parentheses.
-/

namespace Reckon.Tree

/-- What keeps a tree made up by hand from being printed or evaluated, and an error from
being reported. -/
inductive Defect where
  /-- A token that is no operator stands as one. -/
  | noSymbol
  /-- A leaf is no number. -/
  | noValue
  /-- A division by zero that was not foreseen. -/
  | zeroDivision
  /-- The result of an operand is missing. -/
  | noResult
  /-- A number is too long to be written. -/
  | tooManyDigits
  deriving DecidableEq

/-- What is written, if anything is. -/
def writing : Option String → Except Defect String
  | some s => .ok s
  | none => .error .tooManyDigits

/-- A leaf as its value. -/
def leafText (t : Token) : Except Defect String := writing (Number.textOrNone? t.value?)

def represent (t : Tree) : Except Defect String :=
  t.fold
    { number := leafText
      unary := fun op _ x => return "(" ++ (← writing op.represent?) ++ ", " ++ x ++ ")"
      binary := fun _ op _ l r =>
        return "(" ++ l ++ ", " ++ (← writing op.represent?) ++ ", " ++ r ++ ")" }
    (.error .noResult)

def symbolOf (op : Token) : Except Defect String :=
  match op.tag.symbol? with
  | some c => .ok (String.singleton c)
  | none => .error .noSymbol

/-- A leaf is written as it was read, or else as its value. -/
def toSource (t : Tree) : Except Defect String :=
  t.fold
    { number := fun t => if t.lexeme = "" then leafText t else pure t.lexeme
      unary := fun op _ x => return "(" ++ (← symbolOf op) ++ x ++ ")"
      binary := fun _ op _ l r => return "(" ++ l ++ " " ++ (← symbolOf op) ++ " " ++ r ++ ")" }
    (.error .noResult)

/-- The nodes in the order in which a fold comes to them. -/
def nodes (t : Tree) : List Tree :=
  let note (t : Tree) : StateM (List Tree) Unit := modify (t :: ·)
  let walk := t.fold
    { number := fun token => note (number token)
      unary := fun op x _ => note (unary op x)
      binary := fun l op r _ _ => note (binary l op r) }
    (pure ())
  (walk.run []).2.reverse

/-- A leaf as its value, any other node as its operator. -/
def label : Tree → Except Defect String
  | number t => leafText t
  | unary op _ => pure op.tag.name
  | binary _ op _ => pure op.tag.name

end Reckon.Tree
