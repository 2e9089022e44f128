import Reckon.Evaluation
import Reckon.Grammar.Parser
import Reckon.Token.Scanner

/-!
From the text of an expression to its tree and its value.
-/

namespace Reckon

/-- An error in an expression, by the stage that finds it. -/
inductive Error where
  | lex (e : LexError)
  | parse (e : ParseError)
  | eval (e : EvalError)
  deriving DecidableEq

namespace Error

def diagnostic : Error → Diagnostic
  | lex e => e.diagnostic
  | parse e => e.diagnostic
  | eval e => e.diagnostic

def render (e : Error) : String := e.diagnostic.render

/-- The name of the kind of error. -/
def name : Error → String
  | lex _ => "LexError"
  | parse _ => "ParseError"
  | eval _ => "EvaluationError"

end Error

/-- How an expression comes to nothing: by an error of its own, or else by a defect of
tokens, trees or limits. Only an error is reported. -/
inductive Failure where
  | error (e : Error)
  | defect (d : Tree.Defect)
  | unterminated
  deriving DecidableEq

namespace Failure

def unterminatedMessage : String := "token list must end with an EOF token"

def ofParser : Parser.Failure → Failure
  | .error e => error (.parse e)
  | .unwritable => defect .tooManyDigits

def ofTree : Tree.Failure → Failure
  | .error e => error (.eval e)
  | .defect d => defect d

end Failure

/-- The size of the call stack unless another one is given. -/
def defaultStack : Int := 1000

structure Limits where
  depth : Int := defaultDepth
  exponent : Int := Operation.defaultMaxExponent
  stack : Int := defaultStack
  deriving DecidableEq

namespace Expression

def tokens (source : Source) : Except Failure (List Token) :=
  (tokenize source).mapError fun e => .error (.lex e)

def parser (tokens : List Token) (limits : Limits) : Except Failure Parser :=
  match Parser.ofTokens? tokens limits.depth (supportedDepth limits.stack) with
  | some p => .ok p
  | none => .error .unterminated

def parseTokens (tokens : List Token) (limits : Limits) : Except Failure Tree := do
  let p ← parser tokens limits
  p.parse.1.mapError .ofParser

def parse (source : Source) (limits : Limits) : Except Failure Tree := do
  parseTokens (← tokens source) limits

def evaluateTree (t : Tree) (limits : Limits) : Except Failure Number :=
  match t.evaluate limits.exponent with
  | .ok (some v) => .ok v
  | .ok none => .error (.defect .noValue)
  | .error failure => .error (.ofTree failure)

def evaluate (source : Source) (limits : Limits) : Except Failure Number := do
  evaluateTree (← parse source limits) limits

end Expression

end Reckon
