import Reckon.Diagnostic
import Reckon.Token.Basic

/-!
Faults in the order of the tokens. Each is reported at the token that does not fit. What
is said about it may name a number that is too long to be written, and then there is no
error to report: a `ParseError` is a `Misfit` with a message.
-/

namespace Reckon

inductive ParseError.Cause where
  | unexpectedToken (expected : String)
  | missingParen
  | trailingInput
  | nestedTooDeep (limit : Int)
  | endOfInput (expected : String)
  deriving DecidableEq

/-- A token that does not fit, and in what way. -/
structure Misfit where
  cause : ParseError.Cause
  token : Token
  deriving DecidableEq

namespace Misfit

/-- A token other than the expected one, the end of input in particular. -/
def unexpected (expected : String) (found : Token) : Misfit :=
  ⟨if found.isEof then .endOfInput expected else .unexpectedToken expected, found⟩

def code (m : Misfit) : String :=
  match m.cause with
  | .unexpectedToken _ => "P001"
  | .missingParen => "P002"
  | .trailingInput => "P003"
  | .nestedTooDeep _ => "P004"
  | .endOfInput _ => "P010"

/-- What is said about the token. -/
def message? (m : Misfit) : Option String :=
  match m.cause with
  | .unexpectedToken expected =>
    m.token.describe?.map ("Expected " ++ expected ++ ", found " ++ ·)
  | .missingParen => m.token.describe?.map ("Expected ')', found " ++ ·)
  | .trailingInput => m.token.describe?.map ("Expected '+', '-', '*', '/' or '^', found " ++ ·)
  | .nestedTooDeep limit =>
    (Number.intText? limit).map ("Expression nested more than " ++ · ++ " levels deep")
  | .endOfInput expected => some ("Unexpected end of input, expected " ++ expected)

def help (m : Misfit) : String :=
  match m.cause with
  | .unexpectedToken expected =>
    "The parser expected to see " ++ expected ++ " at this position."
  | .missingParen => "Add a closing parenthesis ')'."
  | .trailingInput =>
    "An operator is missing, or the input has extra text after the expression."
  | .nestedTooDeep _ => "Simplify the expression or raise the maximum nesting depth."
  | .endOfInput expected =>
    "The parser reached the end of the input while expecting " ++ expected ++ "."

end Misfit

structure ParseError extends Misfit where
  hasMessage : toMisfit.message?.isSome
  deriving DecidableEq

namespace ParseError

def message (e : ParseError) : String := e.message?.get e.hasMessage

def diagnostic (e : ParseError) : Diagnostic :=
  ⟨"UnexpectedToken", e.message, e.token.start, e.token.stop, e.code, e.help⟩

end ParseError

end Reckon
