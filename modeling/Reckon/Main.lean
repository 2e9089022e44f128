import Reckon.CommandLine.Task

/-!
The command, for the library that its settings come from.
-/

namespace Reckon.CommandLine

def emit (said : Transcript) : IO Unit := do
  let out ← IO.getStdout
  out.putStr said.out
  out.flush
  IO.eprint said.err

/-- The variables that settings are taken from, in upper or in lower case. -/
def environment (stack : Int) : IO (List (String × String)) := do
  let names := Settings.Field.all.map fun f => (Settings.declaration stack).start ++ f.name
  let found ← (names.map String.toUpper ++ names.map String.toLower).mapM fun name => do
    return (← IO.getEnv name).map (name, ·)
  return found.filterMap id

def faultOf : IO.Error → Text.FileFault
  | .noFileOrDirectory .. => .missing
  | .inappropriateType _ _ details => .other details
  | .permissionDenied _ _ details => .other details
  | e => .other e.toString

def readFile (path : String) : IO (Except Text.FileFault ByteArray) := do
  if path.toList.contains '\x00' then return .error .zeroInName
  match ← (IO.FS.readBinFile path).toBaseIO with
  | .ok bytes => return .ok bytes
  | .error e => return .error (faultOf e)

/-- The status of a command that ends in some way. -/
def Ending.code : Ending → UInt32
  | .status code => code.toUInt32
  | .undecodable | .unusableName | .broken _ | .unsettled _ => 1

/-- Answers the lines that are typed, as they come. -/
partial def converse (session : Session) : IO Ending := do
  emit Session.prompt
  let line ← (← IO.getStdin).getLine
  if line = "" then
    emit (.printed "")
    return .status 0
  match Session.Line.ofText line with
  | .leave => return .status 0
  | reading =>
    let (said, failure) := session.reply reading
    emit said
    match failure with
    | some failure => return .broken failure
    | none => converse session

def finish (outcome : Outcome) : IO UInt32 := do
  emit outcome.said
  return outcome.ending.code

/-- Runs the command on its words, with a call stack of the usual size. -/
def run (library : Settings.Library) (words : List String) : IO UInt32 := do
  match Task.ofTexts library defaultStack (← environment defaultStack) words with
  | .finished outcome => finish outcome
  | .prompt session => return (← converse session).code
  | .expression session text => finish (Task.answer session text)
  | .file session path => finish (Task.answerFile session path (← readFile path))

end Reckon.CommandLine
