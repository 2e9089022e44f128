import Reckon.Text.Position
import Reckon.Text.Uppercase

/-!
Error reports. A report quotes the line on which its span starts, with carets under
the span; a span that goes on to another line is marked up to the end of its first.
-/

namespace Reckon

structure Diagnostic where
  kind : String
  message : String
  start : Position
  stop : Position
  code : Option String
  help : Option String
  deriving DecidableEq

namespace Diagnostic

/-- The kind in words: a space before every upper-case letter but a first one. -/
def titleOf : List Char → List Char
  | [] => []
  | first :: rest => first :: rest.flatMap fun c => if Text.isUppercase c then [' ', c] else [c]

def title (d : Diagnostic) : String := String.ofList (titleOf d.kind.toList)

def severity (_ : Diagnostic) : String := "error"

/-- The line that the span starts on. -/
def row (d : Diagnostic) : String := d.start.lineText

/-- The column after the last marked one. -/
def markedTo (d : Diagnostic) : Nat :=
  if d.stop.line = d.start.line then d.stop.column else d.row.length

/-- At least one caret, even under an empty span. -/
def carets (d : Diagnostic) : String :=
  String.ofList (List.replicate d.start.column ' ' ++
    List.replicate (max (d.markedTo - d.start.column) 1) '^')

def pointer (d : Diagnostic) : String := d.row ++ "\n" ++ d.carets

/-- A part that is missing or empty is left out. -/
def optionalPart (before : String) (part : Option String) (after : String) : String :=
  match part with
  | none | some "" => ""
  | some s => before ++ s ++ after

def render (d : Diagnostic) : String :=
  d.title ++ ": " ++ d.message ++ optionalPart " [" d.code "]" ++ "\n" ++
    "  --> " ++ d.start.locate ++ "\n" ++
    "    " ++ d.row ++ "\n" ++
    "    " ++ d.carets ++ "\n" ++
    optionalPart "  help: " d.help "\n"

end Diagnostic

end Reckon
