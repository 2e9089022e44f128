import Reckon.Text.Integer
import Reckon.Text.Quoted

/-!
The words of the command line. Each word is first taken by itself, for an option or
for an argument; then they are worked off from left to right. The first argument is
the expression, and whatever is left over is reported at the end.
-/

namespace Reckon.CommandLine

inductive Flag where
  | help
  | file
  | ast
  | tokens
  | maxDepth
  | verbose
  | version
  deriving DecidableEq

namespace Flag

/-- All the ways to write a flag. -/
def spellings : List (String × Flag) :=
  [("-h", help), ("--help", help), ("-f", file), ("--file", file), ("--ast", ast),
   ("--tokens", tokens), ("--max-depth", maxDepth), ("-v", verbose), ("--verbose", verbose),
   ("--version", version)]

def ofSpelling? (s : String) : Option Flag := spellings.lookup s

def takesValue : Flag → Bool
  | file | maxDepth => true
  | _ => false

/-- The spellings of the flag, as an error message names it. -/
def title (f : Flag) : String :=
  String.intercalate "/" ((spellings.filter (·.2 == f)).map (·.1))

end Flag

inductive Word where
  /-- A flag, with one dash or with two, and text that is joined to it. -/
  | flag (f : Flag) (short : Bool) (joined : Option (List Char))
  | unknownFlag (text : String)
  | argument (text : String)
  /-- The word after which there are no flags. -/
  | separator

namespace Word

/-- The word as it was given. -/
def separatorText : String := "--"

def isDigit (c : Char) : Bool := (Text.digitValue? c).isSome

/-- Digits, with a point before the last of them or none; a line feed may follow. -/
def isNegativeNumber : List Char → Bool
  | '-' :: cs =>
    let body := if cs.getLast? = some '\n' then cs.dropLast else cs
    match body.dropWhile isDigit with
    | [] => !body.isEmpty
    | '.' :: fraction => !fraction.isEmpty && fraction.all isDigit
    | _ => false
  | _ => false

/-- Splits at the first equals sign. -/
def splitEquals (cs : List Char) : List Char × Option (List Char) :=
  let before := cs.takeWhile (· != '=')
  match cs.dropWhile (· != '=') with
  | _ :: after => (before, some after)
  | [] => (before, none)

/-- The spellings that a word with two dashes may abbreviate. -/
def abbreviated (cs : List Char) : List (String × Flag) :=
  let stem := (splitEquals cs).1
  Flag.spellings.filter fun entry => stem.isPrefixOf entry.1.toList

def ambiguous (word : String) (candidates : List (String × Flag)) : String :=
  "ambiguous option: " ++ word ++ " could match " ++
    String.intercalate ", " (candidates.map (·.1))

/-- What is no flag but might be meant for one. -/
def other (word : String) : Word :=
  if isNegativeNumber word.toList || word.toList.contains ' ' then .argument word
  else .unknownFlag word

/-- A word that starts with a dash and is not itself a spelling. -/
def ofDashed (word : String) : Except String Word :=
  let (before, after) := splitEquals word.toList
  match Flag.ofSpelling? (String.ofList before), after with
  | some f, some joined => .ok (.flag f (word.toList[1]? != some '-') (some joined))
  | _, _ =>
    match word.toList with
    | '-' :: '-' :: _ =>
      match abbreviated word.toList with
      | [] => .ok (other word)
      | [(_, f)] => .ok (.flag f false after)
      | candidates => .error (ambiguous word candidates)
    | '-' :: c :: rest =>
      match Flag.ofSpelling? (String.ofList ['-', c]) with
      | some f => .ok (.flag f true (some rest))
      | none => .ok (other word)
    | _ => .ok (.argument word)

def ofText (word : String) : Except String Word :=
  match word.toList with
  | '-' :: rest =>
    match Flag.ofSpelling? word with
    | some f => .ok (.flag f (rest.head? != some '-') none)
    | none => if rest.isEmpty then .ok (.argument word) else ofDashed word
  | _ => .ok (.argument word)

/-- All the words; those after a separator are arguments. -/
def ofTexts : List String → Except String (List Word)
  | [] => .ok []
  | word :: rest =>
    if word = separatorText then .ok (.separator :: rest.map .argument)
    else do
      let first ← ofText word
      let others ← ofTexts rest
      pure (first :: others)

end Word

/-- What is said of the depth. -/
inductive Depth where
  | limit (i : Int)
  | empty

structure Arguments where
  expression : Option String := none
  /-- Whether the place of the expression is taken. -/
  placed : Bool := false
  file : Option String := none
  ast : Bool := false
  tokens : Bool := false
  maxDepth : Option Depth := none
  verbose : Bool := false
  /-- What was not understood. -/
  extras : List String := []

/-- Why the command does not go on. -/
inductive Stop where
  | help
  | version
  | error (message : String)

namespace Arguments

def flagError (f : Flag) (message : String) : Stop :=
  .error ("argument " ++ f.title ++ ": " ++ message)

def notAllowed (f other : Flag) : Stop := flagError f ("not allowed with argument " ++ other.title)

def readDepth (value : String) : Except Stop Depth :=
  if value = Word.separatorText then .ok .empty
  else match Text.integer? value with
  | some i => .ok (.limit i)
  | none => .error (flagError .maxDepth ("invalid int value: " ++ Text.quoted value))

/-- Does what a flag says. A separator for a value is as good as none. -/
def act (a : Arguments) (f : Flag) (value : String) : Except Stop Arguments :=
  match f with
  | .help => .error .help
  | .version => .error .version
  | .verbose => .ok { a with verbose := true }
  | .file => .ok { a with file := if value = Word.separatorText then none else some value }
  | .ast => if a.tokens then .error (notAllowed .ast .tokens) else .ok { a with ast := true }
  | .tokens => if a.ast then .error (notAllowed .tokens .ast) else .ok { a with tokens := true }
  | .maxDepth => do pure { a with maxDepth := some (← readDepth value) }

/-- A word of flags, taken apart: complete flags, each with its value if it has one,
and a last flag whose value is the next word. -/
structure Bundle where
  flags : List (Flag × String) := []
  waiting : Option Flag := none

def Bundle.complete (b : Bundle) (f : Flag) (value : String) : Bundle :=
  { b with flags := b.flags ++ [(f, value)] }

/-- Adds a flag that nothing is joined to. -/
def Bundle.add (b : Bundle) (f : Flag) : Bundle :=
  if f.takesValue then { b with waiting := some f } else b.complete f ""

def ignored (f : Flag) (text : List Char) : Stop :=
  flagError f ("ignored explicit argument " ++ Text.quoted (String.ofList text))

/-- Adds a flag of one dash with text joined to it, which is its value or else further
flags. -/
def Bundle.addRun (b : Bundle) (f : Flag) : List Char → Except Stop Bundle
  | [] => if f.takesValue then .ok (b.complete f "") else .error (ignored f [])
  | c :: rest =>
    if f.takesValue then .ok (b.complete f (String.ofList (c :: rest)))
    else match Flag.ofSpelling? (String.ofList ['-', c]), rest with
    | none, rest => .error (ignored f (c :: rest))
    | some g, [] => .ok ((b.add f).add g)
    | some g, rest => (b.add f).addRun g rest

def Bundle.ofFlag (f : Flag) (short : Bool) : Option (List Char) → Except Stop Bundle
  | none => .ok (Bundle.add {} f)
  | some joined =>
    if short then Bundle.addRun {} f joined
    else if f.takesValue then .ok (Bundle.complete {} f (String.ofList joined))
    else .error (ignored f joined)

def actAll (a : Arguments) : List (Flag × String) → Except Stop Arguments
  | [] => .ok a
  | (f, value) :: rest => do (← a.act f value).actAll rest

def addExtra (a : Arguments) (text : String) : Arguments := { a with extras := a.extras ++ [text] }

/-- Takes an argument for the expression, or leaves it over. -/
def place (a : Arguments) (text : String) : Arguments :=
  if a.placed then a.addExtra text else { a with expression := some text, placed := true }

/-- A separator next to the expression goes with it. -/
def separate (a : Arguments) : Arguments :=
  if a.placed then a.addExtra Word.separatorText else a

/-- Works off the words, with flags that wait for the value of the last of them. -/
def read (a : Arguments) : Option (List (Flag × String) × Flag) → List Word → Except Stop Arguments
  | none, [] => .ok a
  | some (flags, f), .argument value :: rest => do
    (← a.actAll (flags ++ [(f, value)])).read none rest
  | some (_, f), _ => .error (flagError f "expected one argument")
  | none, .flag f short joined :: rest => do
    let b ← Bundle.ofFlag f short joined
    match b.waiting with
    | none => (← a.actAll b.flags).read none rest
    | some g => a.read (some (b.flags, g)) rest
  | none, .unknownFlag text :: rest => (a.addExtra text).read none rest
  | none, .argument text :: .separator :: rest =>
    if a.placed then ((a.place text).separate).read none rest else (a.place text).read none rest
  | none, .argument text :: rest => (a.place text).read none rest
  | none, .separator :: rest => a.separate.read none rest

def ofTexts (words : List String) : Except Stop Arguments := do
  let words ← (Word.ofTexts words).mapError Stop.error
  let a ← read {} none words
  if a.extras.isEmpty then .ok a
  else .error (.error ("unrecognized arguments: " ++ String.intercalate " " a.extras))

end Arguments

end Reckon.CommandLine
