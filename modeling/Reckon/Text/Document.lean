/-!
Text read from a file: strict UTF-8, with every kind of line end turned into a
line feed.
-/

namespace Reckon.Text

/-- Why the bytes of a file cannot be had. -/
inductive FileFault where
  | missing
  | directory
  | notDirectory
  | nameTooLong
  /-- The name has a zero character in it. -/
  | zeroInName
  | other (reason : String)
  deriving DecidableEq

def FileFault.reason : FileFault → String
  | missing => "No such file or directory"
  | directory => "Is a directory"
  | notDirectory => "Not a directory"
  | nameTooLong => "File name too long"
  | zeroInName => "embedded null byte"
  | other reason => reason

/-- Carriage returns, alone or before a line feed, become line feeds. -/
def unifyLineEnds : List Char → List Char
  | [] => []
  | '\r' :: '\n' :: cs => '\n' :: unifyLineEnds cs
  | '\r' :: cs => '\n' :: unifyLineEnds cs
  | c :: cs => c :: unifyLineEnds cs

/-- The text of a file's bytes, unless they are not valid UTF-8. -/
def decode? (bytes : ByteArray) : Option String :=
  (String.fromUTF8? bytes).map fun s => String.ofList (unifyLineEnds s.toList)

end Reckon.Text
