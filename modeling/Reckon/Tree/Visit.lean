import Reckon.Tree.Basic

/-!
Visiting a tree from its root down. A visitor may have nothing to do for some kinds
of node; coming to one of them ends the visit.
-/

namespace Reckon

/-- The three kinds of node. -/
inductive NodeKind where
  | number
  | unary
  | binary
  deriving DecidableEq

namespace NodeKind

def all : List NodeKind := [number, unary, binary]

def name : NodeKind → String
  | number => "NumberNode"
  | unary => "UnaryOpNode"
  | binary => "BinOpNode"

def ofName? (s : String) : Option NodeKind := all.find? (·.name == s)

end NodeKind

namespace Tree

universe u v

def nodeKind : Tree → NodeKind
  | number _ => .number
  | unary .. => .unary
  | binary .. => .binary

/-- What a visitor does at the nodes. It is given the visits of the operands, and
runs them when it comes to it. -/
structure Visitor (m : Type u → Type v) (α : Type u) where
  number : Option (Token → m α)
  unary : Option (Token → m α → m α)
  binary : Option (Token → m α → m α → m α)
  unhandled : NodeKind → m α

variable {m : Type u → Type v} {α : Type u}

def accept (visitor : Visitor m α) : Tree → m α
  | number t => match visitor.number with
    | some visit => visit t
    | none => visitor.unhandled .number
  | unary op x => match visitor.unary with
    | some visit => visit op (x.accept visitor)
    | none => visitor.unhandled .unary
  | binary l op r => match visitor.binary with
    | some visit => visit op (l.accept visitor) (r.accept visitor)
    | none => visitor.unhandled .binary

/-- How a missing part of a visitor is reported. -/
def unhandledMessage (visitor : String) (kind : NodeKind) : String :=
  visitor ++ " has no visit_" ++ kind.name ++ " method"

end Tree

end Reckon
