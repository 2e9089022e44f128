import Reckon.Token.Basic

/-!
Expression trees. Any token can stand at a node; the trees of the grammar have
number tokens at their leaves and operators elsewhere.
-/

namespace Reckon

inductive Tree where
  | number (token : Token)
  | unary (op : Token) (operand : Tree)
  | binary (left : Tree) (op : Token) (right : Tree)
  deriving DecidableEq

namespace Tree

/-- Where the first token of the tree starts. -/
def start : Tree → Position
  | number t => t.start
  | unary op _ => op.start
  | binary left _ _ => left.start

/-- Where the last token of the tree stops. -/
def stop : Tree → Position
  | number t => t.stop
  | unary _ operand => operand.stop
  | binary _ _ right => right.stop

def size : Tree → Nat
  | number _ => 1
  | unary _ operand => operand.size + 1
  | binary left _ right => left.size + right.size + 1

/-- The same shape with tokens that agree. -/
def eq : Tree → Tree → Bool
  | number t, number u => t.eq u
  | unary op x, unary op' x' => op.eq op' && x.eq x'
  | binary l op r, binary l' op' r' => l.eq l' && op.eq op' && r.eq r'
  | _, _ => false

end Tree

end Reckon
