import Reckon.Number.Basic
import Reckon.Text.Position

/-!
Tokens. A number token, and no other, carries a value: `Kind` has it by its form,
and `Kind.ofTag` refuses what does not have it.
-/

namespace Reckon

/-- The names of the kinds of token. -/
inductive Tag where
  | number
  | plus
  | minus
  | mul
  | div
  | pow
  | lparen
  | rparen
  | eof
  deriving DecidableEq

namespace Tag

def all : List Tag := [number, plus, minus, mul, div, pow, lparen, rparen, eof]

def name : Tag → String
  | number => "NUMBER"
  | plus => "PLUS"
  | minus => "MINUS"
  | mul => "MUL"
  | div => "DIV"
  | pow => "POW"
  | lparen => "LPAREN"
  | rparen => "RPAREN"
  | eof => "EOF"

def ofName? (s : String) : Option Tag := all.find? (·.name == s)

/-- The sign with which an operator is written. -/
def symbol? : Tag → Option Char
  | plus => some '+'
  | minus => some '-'
  | mul => some '*'
  | div => some '/'
  | pow => some '^'
  | _ => none

end Tag

inductive Kind where
  | number (value : Number)
  | plus
  | minus
  | mul
  | div
  | pow
  | lparen
  | rparen
  | eof
  deriving DecidableEq

namespace Kind

def tag : Kind → Tag
  | number _ => .number
  | plus => .plus
  | minus => .minus
  | mul => .mul
  | div => .div
  | pow => .pow
  | lparen => .lparen
  | rparen => .rparen
  | eof => .eof

def value? : Kind → Option Number
  | number v => some v
  | _ => none

/-- The kind written as a single character. -/
def ofChar? : Char → Option Kind
  | '+' => some plus
  | '-' => some minus
  | '*' => some mul
  | '/' => some div
  | '^' => some pow
  | '(' => some lparen
  | ')' => some rparen
  | _ => none

/-- A tag and a value that do not go together. -/
structure Mismatch where
  tag : Tag
  value : Option Number
  deriving DecidableEq

def ofTag : Tag → Option Number → Except Mismatch Kind
  | .number, some v => .ok (number v)
  | .plus, none => .ok plus
  | .minus, none => .ok minus
  | .mul, none => .ok mul
  | .div, none => .ok div
  | .pow, none => .ok pow
  | .lparen, none => .ok lparen
  | .rparen, none => .ok rparen
  | .eof, none => .ok eof
  | tag, value => .error ⟨tag, value⟩

end Kind

/-- What is written for a value that may be missing. -/
def Number.textOrNone? : Option Number → Option String
  | some v => v.text?
  | none => some "None"

def Kind.Mismatch.message? (m : Kind.Mismatch) : Option String :=
  (Number.textOrNone? m.value).map (m.tag.name ++ " token cannot carry value " ++ ·)

/-- A unit of the language, with the span of the text that it was read from. -/
structure Token where
  kind : Kind
  start : Position
  stop : Position
  deriving DecidableEq

namespace Token

def tag (t : Token) : Tag := t.kind.tag

def value? (t : Token) : Option Number := t.kind.value?

/-- The text of the span. -/
def lexeme (t : Token) : String := t.start.source.slice t.start.index t.stop.index

def isEof (t : Token) : Bool := t.kind == .eof

/-- The name of the kind and the value; nothing if the value cannot be written. -/
def represent? (t : Token) : Option String :=
  match t.kind with
  | .number v => v.text?.map (Tag.number.name ++ ":" ++ ·)
  | k => some k.tag.name

/-- How an error message names the token. -/
def describe? (t : Token) : Option String :=
  if t.isEof then some "end of input"
  else if t.lexeme = "" then t.represent?
  else some ("'" ++ t.lexeme ++ "'")

/-- The same kind, numerically equal values and the same span. -/
def eq (t u : Token) : Bool :=
  t.start.eq u.start && t.stop.eq u.stop &&
    match t.kind, u.kind with
    | .number v, .number w => v.eq w
    | k, l => k == l

/-- The same number of tokens, which agree one by one. -/
def eqAll : List Token → List Token → Bool
  | [], [] => true
  | t :: ts, u :: us => t.eq u && eqAll ts us
  | _, _ => false

/-- A token of the given kind over a span of a text. -/
def spanning (source : Source) (kind : Kind) (start stop : Nat) : Token :=
  ⟨kind, source.position start, source.position stop⟩

end Token

end Reckon
