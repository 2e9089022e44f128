import Reckon.Expression
import Reckon.Text.Blank

/-!
Answers to expressions. `Session.answer` works on one expression, and
`Session.converse` on the lines typed at the prompt, each of them by itself. What is
written to the two output channels is a `Transcript`.
-/

namespace Reckon

/-- Text for the output channel and for the error channel. -/
structure Transcript where
  out : String := ""
  err : String := ""
  deriving DecidableEq

namespace Transcript

instance : Append Transcript := ⟨fun t u => ⟨t.out ++ u.out, t.err ++ u.err⟩⟩

def printed (line : String) : Transcript := { out := line ++ "\n" }

end Transcript

/-- What is shown of an expression. -/
inductive View where
  | value
  | tree
  | tokens
  deriving DecidableEq

/-- How expressions are answered. -/
structure Session where
  /-- What expressions are reported under. -/
  name : String
  view : View
  limits : Limits
  verbose : Bool
  deriving DecidableEq

/-- Work that writes as it goes; what was written before a failure stays. -/
abbrev Work := EStateM Failure Transcript

namespace Work

def write (t : Transcript) : Work Unit := modify (· ++ t)

def ofExcept {α : Type} : Except Failure α → Work α
  | .ok a => pure a
  | .error e => throw e

def ofWriting {α : Type} (x : Except Tree.Defect α) : Work α := ofExcept (x.mapError .defect)

end Work

namespace Session

def source (s : Session) (text : String) : Source := ⟨s.name, text⟩

/-- A line about the progress of the work, if such lines are wanted. -/
def logLine (s : Session) (origin message : String) : Transcript :=
  if s.verbose then { err := "DEBUG arithexpr." ++ origin ++ ": " ++ message ++ "\n" } else {}

def log (s : Session) (origin message : String) : Work Unit := Work.write (s.logLine origin message)

def count (tokens : List Token) (name : String) : String :=
  toString tokens.length ++ " tokens from " ++ name

/-- The name of the source that the first token is from. -/
def nameOf (tokens : List Token) : String :=
  (tokens.head?.map (·.start.source.name)).getD ""

def lex (s : Session) (text : String) : Work (List Token) := do
  let tokens ← Work.ofExcept (Expression.tokens (s.source text))
  s.log "lexer.lexer" ("lexed " ++ count tokens s.name)
  return tokens

def parse (s : Session) (tokens : List Token) : Work Tree := do
  let tree ← Work.ofExcept (Expression.parseTokens tokens s.limits)
  s.log "parser.parser" ("parsed " ++ count tokens (nameOf tokens))
  return tree

def evaluate (s : Session) (tree : Tree) : Work Number := do
  let v ← Work.ofExcept (Expression.evaluateTree tree s.limits)
  s.log "interpreter.interpreter"
    ("evaluated tree at " ++ tree.start.locate ++ " to a " ++ v.typeName)
  return v

/-- The line that the view shows of an expression. -/
def shown (s : Session) (text : String) : Work String := do
  let tokens ← s.lex text
  match s.view with
  | .tokens =>
    return String.intercalate " " (← Work.ofWriting (tokens.mapM (Tree.writing ·.represent?)))
  | .tree => Work.ofWriting (← s.parse tokens).represent
  | .value => Work.ofWriting (Tree.writing (← s.evaluate (← s.parse tokens)).text?)

/-- All that is written for an expression, and how it failed if it did. -/
def answer (s : Session) (text : String) : Transcript × Option Failure :=
  match (s.shown text).run {} with
  | .ok line t => (t ++ .printed line, none)
  | .error e t => (t, some e)

/-- What the prompt makes of a line. -/
inductive Line where
  | blank
  | leave
  | expression (text : String)
  deriving DecidableEq

def Line.ofText (line : String) : Line :=
  let text := Text.strip line
  if text = "" then blank
  else if text = "exit" ∨ text = "quit" then leave
  else expression text

/-- The lines of a text after the start of one, which is given backwards. -/
def linesFrom (begun : List Char) : List Char → List String
  | [] => if begun.isEmpty then [] else [String.ofList begun.reverse]
  | c :: cs =>
    if c = '\n' then String.ofList begun.reverse :: linesFrom [] cs
    else linesFrom (c :: begun) cs

/-- The lines of a text, without the line feed that ends all but perhaps the last. -/
def linesOf (text : String) : List String := linesFrom [] text.toList

def prompt : Transcript := { out := "arithexpr > " }

/-- What is written for a line, and the failure if it cannot be reported. -/
def reply (s : Session) : Line → Transcript × Option Failure
  | .expression text =>
    match s.answer text with
    | (said, some (.error e)) => (said ++ { err := e.render }, none)
    | answer => answer
  | _ => ({}, none)

/-- Everything written in a conversation. It goes on after an error, up to a line that
leaves it or to the end of the lines; only a failure that cannot be reported breaks it
off. -/
def converse (s : Session) : List Line → Transcript × Option Failure
  | [] => (prompt ++ .printed "", none)
  | .leave :: _ => (prompt, none)
  | line :: rest =>
    match s.reply line with
    | (said, some failure) => (prompt ++ said, some failure)
    | (said, none) =>
      let (more, failure) := s.converse rest
      (prompt ++ said ++ more, failure)

def converseOver (s : Session) (input : String) : Transcript × Option Failure :=
  s.converse ((linesOf input).map Line.ofText)

end Session

end Reckon
