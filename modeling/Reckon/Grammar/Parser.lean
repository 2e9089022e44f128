import Reckon.Grammar.ParseError
import Reckon.Tree.Basic

/-!
The grammar, from the loosest rule to the tightest:

    expr   := term (('+' | '-') term)*
    term   := factor (('*' | '/') factor)*
    factor := ('+' | '-') factor | power
    power  := atom ('^' factor)?
    atom   := NUMBER | '(' expr ')'

A power is right-associative, since its exponent is a factor, and a sign applies to
the whole power. Every factor inside a factor is one level deeper; `Rule.read` stops
at a depth limit, and also when it runs out of frames, one of which each rule in
progress takes up.
-/

namespace Reckon

namespace Grammar

/-- Tokens still to be read, up to the first end of input. -/
structure State where
  ahead : List Token
  eof : Token
  /-- How many tokens were read. -/
  taken : Nat
  /-- How many factors are being read, which is none to begin with and never less. -/
  depth : Nat
  deriving DecidableEq

inductive Halt where
  | error (m : Misfit)
  | outOfFrames
  deriving DecidableEq

abbrev Read := EStateM Halt State

namespace State

/-- The next token; the end of input is never read past. -/
def next (s : State) : Token := s.ahead.headD s.eof

def advance (s : State) : State :=
  match s.ahead with
  | [] => s
  | _ :: rest => { s with ahead := rest, taken := s.taken + 1 }

end State

def peek : Read Token := fun s => .ok s.next s

def advance : Read Token := fun s => .ok s.next s.advance

/-- Stops at the next token; the error is made once all the rules have come to an end. -/
def fail (cause : ParseError.Cause) : Read Tree := fun s => .error (.error ⟨cause, s.next⟩) s

def failUnexpected (expected : String) : Read Tree := fun s =>
  .error (.error (.unexpected expected s.next)) s

/-- Reads one level deeper, and comes back to the same level whatever happens. -/
def nested (limit : Int) (body : Read Tree) : Read Tree := fun s =>
  let inside := { s with depth := s.depth + 1 }
  let result := if limit < inside.depth then fail (.nestedTooDeep limit) inside else body inside
  match result with
  | .ok t s => .ok t { s with depth := s.depth - 1 }
  | .error e s => .error e { s with depth := s.depth - 1 }

/-- Reads up to `n` further operands, grouping to the left. -/
def chain (isOperator : Tag → Bool) (operand : Read Tree) : Nat → Tree → Read Tree
  | 0, left => pure left
  | n + 1, left => do
    if isOperator (← peek).tag then
      let op ← advance
      let right ← operand
      chain isOperator operand n (.binary left op right)
    else pure left

/-- Operands joined by operators, as many as there are. -/
def chained (isOperator : Tag → Bool) (operand : Read Tree) : Read Tree := do
  let left ← operand
  chain isOperator operand (← get).ahead.length left

def isSign (t : Tag) : Bool := t == .plus || t == .minus

def isScaling (t : Tag) : Bool := t == .mul || t == .div

def operandText : String := "a number, '+', '-' or '('"

end Grammar

open Grammar

inductive Rule where
  | expr
  | term
  | factor
  | power
  | atom
  deriving DecidableEq

/-- Reads by a rule, with as many frames as given. -/
def Rule.read (limit : Int) : Nat → Rule → Read Tree
  | 0, _ => throw .outOfFrames
  | n + 1, .expr => chained isSign (Rule.read limit n .term)
  | n + 1, .term => chained isScaling (Rule.read limit n .factor)
  | n + 1, .factor => nested limit do
    if isSign (← peek).tag then
      let op ← advance
      let operand ← Rule.read limit n .factor
      pure (.unary op operand)
    else Rule.read limit n .power
  | n + 1, .power => do
    let base ← Rule.read limit n .atom
    if (← peek).tag = .pow then
      let op ← advance
      let exponent ← Rule.read limit n .factor
      pure (.binary base op exponent)
    else pure base
  | n + 1, .atom => do
    match (← peek).kind with
    | .number _ =>
      let token ← advance
      pure (.number token)
    | .lparen =>
      discard advance
      let inner ← Rule.read limit n .expr
      if (← peek).tag = .rparen then
        discard advance
        pure inner
      else fail .missingParen
    | _ => failUnexpected operandText

/-- Frames that a level of nesting takes up, one for each rule. -/
def framesPerLevel : Nat := 5

/-- Frames kept for the callers of the grammar. -/
def frameReserve : Int := 200

/-- The deepest nesting for a call stack of so many frames. -/
def supportedDepth (frames : Int) : Int :=
  max 1 ((frames - frameReserve).fdiv framesPerLevel)

def defaultDepth : Int := 100

/-- A place in a list of tokens, and how deep an expression may nest. -/
structure Parser where
  start : Grammar.State
  limit : Int
  state : Grammar.State

namespace Parser

/-- The state in front of all the tokens, which have to end with the end of input. -/
def initialState? (tokens : List Token) : Option Grammar.State := do
  let last ← tokens.getLast?
  guard last.isEof
  let eof ← tokens.find? Token.isEof
  pure ⟨tokens.takeWhile (!·.isEof), eof, 0, 0⟩

/-- A depth limit above what the call stack supports is lowered to that. -/
def ofTokens? (tokens : List Token) (limit supported : Int) : Option Parser := do
  let state ← initialState? tokens
  pure ⟨state, min limit supported, state⟩

def peek (p : Parser) : Token := p.state.next

def advance (p : Parser) : Token × Parser := (p.peek, { p with state := p.state.advance })

/-- Enough frames for an expression within the depth limit. -/
def frames (p : Parser) : Nat := framesPerLevel * p.limit.toNat + 3

inductive Failure where
  | error (e : ParseError)
  /-- There is something to report, but what would be said cannot be written. -/
  | unwritable
  deriving DecidableEq

def Failure.ofMisfit (m : Misfit) : Failure :=
  if h : m.message?.isSome then error ⟨m, h⟩ else unwritable

/-- Running out of frames is reported as nesting beyond the limit. -/
def run (p : Parser) (read : Read Tree) : Except Failure Tree × Parser :=
  match read p.state with
  | .ok t s => (.ok t, { p with state := s })
  | .error (.error m) s => (.error (.ofMisfit m), { p with state := s })
  | .error .outOfFrames s =>
    (.error (.ofMisfit ⟨.nestedTooDeep p.limit, s.next⟩), { p with state := s })

/-- Reads by a rule from where the parser is. A tight rule may come to all the others
before the first level is counted, so there are frames for one level more. -/
def read (p : Parser) (rule : Rule) : Except Failure Tree × Parser :=
  p.run (rule.read p.limit (p.frames + framesPerLevel))

/-- One expression and then the end of input. -/
def whole (limit : Int) (frames : Nat) : Read Tree := do
  if (← Grammar.peek).isEof then failUnexpected "an expression"
  else
    let t ← Rule.expr.read limit frames
    if (← Grammar.peek).isEof then pure t else fail .trailingInput

/-- Parses all the tokens from the first one on, with so many frames. -/
def parseWithin (p : Parser) (frames : Nat) : Except Failure Tree × Parser :=
  { p with state := p.start }.run (whole p.limit frames)

def parse (p : Parser) : Except Failure Tree × Parser := p.parseWithin p.frames

end Parser

end Reckon
