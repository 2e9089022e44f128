import Reckon.CommandLine.Arguments
import Reckon.CommandLine.Usage
import Reckon.Session
import Reckon.Settings.Basic
import Reckon.Text.Document

/-!
From the words of the command line to a task, and from the task to what the command
writes and how it ends.
-/

namespace Reckon.CommandLine

inductive Ending where
  | status (code : Nat)
  /-- The text of a file cannot be decoded, and the command breaks off. -/
  | undecodable
  /-- The name of a file cannot be one, and the command breaks off. -/
  | unusableName
  /-- A failure that cannot be reported breaks the command off. -/
  | broken (failure : Failure)
  /-- There are no settings, and the reason cannot be reported. -/
  | unsettled (fault : Settings.Fault)
  deriving DecidableEq

structure Outcome where
  ending : Ending
  said : Transcript
  deriving DecidableEq

namespace Outcome

def done (said : Transcript) : Outcome := ⟨.status 0, said⟩

def failed (said : Transcript) : Outcome := ⟨.status 1, said⟩

/-- The command was not used as it should be, or its file cannot be read. -/
def misused (message : String) : Outcome := ⟨.status 2, { err := message }⟩

end Outcome

/-- What is left to do once the command line is understood. -/
inductive Task where
  | finished (outcome : Outcome)
  | prompt (session : Session)
  | expression (session : Session) (text : String)
  | file (session : Session) (path : String)

def Depth.value : Depth → Settings.Value
  | limit i => .int i
  | empty => .emptyList

namespace Arguments

/-- The file to read; an empty name is none. -/
def path? (a : Arguments) : Option String := a.file.filter (· != "")

def view (a : Arguments) : View :=
  if a.ast then .tree else if a.tokens then .tokens else .value

/-- What the expression is reported under. -/
def sourceName (a : Arguments) : String :=
  match a.path?, a.expression with
  | some path, _ => path
  | none, some _ => "<argv>"
  | none, none => "<stdin>"

/-- The settings that the command line gives. -/
def given (a : Arguments) : List (String × Settings.Value) :=
  [(Settings.Field.filename.name, .text a.sourceName),
    (Settings.Field.maxDepth.name, (a.maxDepth.map Depth.value).getD .absent)]

def session (a : Arguments) (settings : Settings) (stack : Int) : Session :=
  ⟨settings.filename, a.view, settings.limits stack, a.verbose⟩

end Arguments

namespace Task

def misused (message : String) : Task := finished (.misused (usageError message))

def ofStop : Stop → Task
  | .help => finished (.done { out := help })
  | .version => finished (.done { out := versionText })
  | .error message => misused message

def ofSession (a : Arguments) (session : Session) : Task :=
  match a.path?, a.expression with
  | some path, _ => file session path
  | none, some text => expression session text
  | none, none => prompt session

/-- A refusal is told in the words of the library, if it has any. -/
def ofFault : Settings.Fault → Task
  | .refused (.invalid _ report) | .refused (.unusable report) => misused report
  | fault => finished ⟨.unsettled fault, {}⟩

def ofArguments (library : Settings.Library) (stack : Int) (env : List (String × String))
    (a : Arguments) : Task :=
  if a.expression.isSome && a.path?.isSome then
    misused "give either an expression or --file, not both"
  else match Settings.make library stack a.given env with
    | .error fault => ofFault fault
    | .ok settings => ofSession a (a.session settings stack)

/-- The task that the words of a command line set, in an environment. -/
def ofTexts (library : Settings.Library) (stack : Int) (env : List (String × String))
    (words : List String) : Task :=
  match Arguments.ofTexts words with
  | .error stop => ofStop stop
  | .ok a => ofArguments library stack env a

/-- Answers one expression, which ends the command. -/
def answer (session : Session) (text : String) : Outcome :=
  match session.answer text with
  | (said, none) => .done said
  | (said, some (.error e)) =>
    let log := session.logLine "cli" (e.name ++ " raised for " ++ session.name)
    .failed (said ++ log ++ { err := e.render })
  | (said, some failure) => ⟨.broken failure, said⟩

/-- Holds the conversation about all that will be typed. -/
def converse (session : Session) (input : String) : Outcome :=
  match session.converseOver input with
  | (said, none) => .done said
  | (said, some failure) => ⟨.broken failure, said⟩

/-- Answers the expression in a file of which the bytes are given, if it has any. -/
def answerFile (session : Session) (path : String) :
    Except Text.FileFault ByteArray → Outcome
  | .error .zeroInName => ⟨.unusableName, {}⟩
  | .error fault =>
    .misused (programName ++ ": cannot read " ++ path ++ ": " ++ fault.reason ++ "\n")
  | .ok bytes =>
    match Text.decode? bytes with
    | some text => answer session text
    | none => ⟨.undecodable, {}⟩

/-- Does the task, given how files are read and all that will be typed. -/
def perform (read : String → Except Text.FileFault ByteArray) (input : String) : Task → Outcome
  | finished outcome => outcome
  | prompt session => converse session input
  | expression session text => answer session text
  | file session path => answerFile session path (read path)

end Task

end Reckon.CommandLine
