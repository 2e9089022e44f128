import Reckon.Text.Quoted

/-!
Places in a text. A `Source` is a text with the name it is reported under; a `Position` counts
characters, lines and columns of a source from zero.
-/

namespace Reckon

structure Source where
  name : String := "<stdin>"
  text : String := ""
  deriving DecidableEq

instance : Coe String Source := ⟨fun text => { text }⟩

namespace Source

/-- The characters of line `n`; none past the last line. -/
def lineOf : List Char → Nat → List Char
  | cs, 0 => cs.takeWhile (· != '\n')
  | cs, n + 1 => lineOf ((cs.dropWhile (· != '\n')).drop 1) n

def line (s : Source) (n : Nat) : String := String.ofList (lineOf s.text.toList n)

/-- The text between two indices, clipped to what there is. -/
def slice (s : Source) (start stop : Nat) : String :=
  String.ofList ((s.text.toList.take stop).drop start)

end Source

structure Position where
  index : Nat
  line : Nat
  column : Nat
  source : Source := {}
  deriving DecidableEq

namespace Position

/-- The position of the first character. -/
def start (source : Source) : Position := ⟨0, 0, 0, source⟩

def nextColumn (p : Position) : Position :=
  { p with index := p.index + 1, column := p.column + 1 }

def nextLine (p : Position) : Position :=
  { p with index := p.index + 1, line := p.line + 1, column := 0 }

/-- The position after a character. -/
def advance (p : Position) (c : Char) : Position :=
  if c = '\n' then p.nextLine else p.nextColumn

/-- The position after a piece of text taken as one step; only a lone line feed
starts a line. -/
def advanceOver (p : Position) (piece : String) : Position :=
  if piece = "\n" then p.nextLine else p.nextColumn

/-- The position after all of some characters. -/
def advanceAll (p : Position) (cs : List Char) : Position := cs.foldl advance p

/-- The position `n` characters on, where past the end of the text columns are
counted. -/
def seek (p : Position) : List Char → Nat → Position
  | _, 0 => p
  | [], n + 1 => seek p.nextColumn [] n
  | c :: cs, n + 1 => seek (p.advance c) cs n

/-- The same place under the same name, whatever the text. -/
def eq (p q : Position) : Bool :=
  p.index == q.index && p.line == q.line && p.column == q.column &&
    p.source.name == q.source.name

/-- All of the line that the position is on. -/
def lineText (p : Position) : String := p.source.line p.line

/-- Name, line and column as people count them, from one. -/
def locate (p : Position) : String :=
  p.source.name ++ ":" ++ toString (p.line + 1) ++ ":" ++ toString (p.column + 1)

/-- All the parts of a position but the text, by name. -/
def written (p : Position) : String :=
  "Position(index=" ++ toString p.index ++ ", line=" ++ toString p.line ++ ", column=" ++
    toString p.column ++ ", filename=" ++ Text.quoted p.source.name ++ ")"

end Position

/-- The position of a character of the text. -/
def Source.position (s : Source) (index : Nat) : Position :=
  (Position.start s).seek s.text.toList index

end Reckon
