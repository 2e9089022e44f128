import Reckon.Token.Basic
import Reckon.Token.LexError

/-!
Reading tokens. A `Cursor` walks over the text one character at a time; `number`
reads a numeral at the cursor and `scan` reads all that is left. A `Scanner` is a
text with a cursor and the tokens found so far, which both outlive a fault.
-/

namespace Reckon

/-- A place in a text and the text from there on. Before the first step there is
no current character. -/
structure Cursor where
  position : Position
  rest : List Char
  started : Bool
  deriving DecidableEq

namespace Cursor

def current (c : Cursor) : Option Char := if c.started then c.rest.head? else none

def advance (c : Cursor) : Cursor where
  position := match c.current with
    | some ch => c.position.advance ch
    | none => c.position.nextColumn
  rest := c.rest.tail
  started := true

/-- Moves over characters that stand at the cursor. -/
def skip (c : Cursor) (cs : List Char) : Cursor :=
  { c with position := c.position.advanceAll cs, rest := c.rest.drop cs.length }

end Cursor

namespace Scanner

def isSpacing (c : Char) : Bool := c == ' ' || c == '\t' || c == '\r' || c == '\n'

def isNumeral (c : Char) : Bool := c.isDigit || c == '.'

/-- The digits and points at the start of a text, up to a point after an earlier one. -/
def numeralRun (pointSeen : Bool) : List Char → List Char
  | [] => []
  | c :: cs =>
    if c.isDigit then c :: numeralRun pointSeen cs
    else if c == '.' && !pointSeen then c :: numeralRun true cs
    else []

/-- The value of a run of digits with at most one point, unless it is out of range. -/
def numeralValue? (run : List Char) : Option Number :=
  if run.contains '.' then
    let whole := run.takeWhile (· != '.')
    let fraction := (run.dropWhile (· != '.')).tail
    let x := (Decimal.ofDigits whole fraction).toBinary64 false
    if x.isInfinite then none else some (.float x)
  else if run.isEmpty || Number.maxDigits < run.length then none
  else some (.int (Nat.ofDigitChars 10 run 0))

/-- Reads the numeral at the cursor. The cursor ends up after its last character, or
on the point that one number cannot have. -/
def number (c : Cursor) : Except LexError Token × Cursor :=
  let run := if c.started then numeralRun false c.rest else []
  let after := c.skip run
  if after.current = some '.' then
    (.error (.malformedNumber "." after.position LexError.secondPoint), after)
  else if run = ['.'] then
    (.error (.malformedNumber "." c.position LexError.lonePoint), after)
  else match numeralValue? run with
    | none => (.error (.numberTooLarge c.position after.position), after)
    | some v => (.ok ⟨.number v, c.position, after.position⟩, after)

/-- Reads tokens up to the end of the text or the first fault, at most `n` of them
with the spacing counted in. The tokens found are added in front, the last one first. -/
def scan : Nat → Cursor → List Token → Except LexError Unit × Cursor × List Token
  | 0, c, found => (.ok (), c, found)
  | n + 1, c, found =>
    match c.current with
    | none => (.ok (), c, found)
    | some ch =>
      if isSpacing ch then scan n c.advance found
      else if isNumeral ch then
        match number c with
        | (.ok t, after) => scan n after (t :: found)
        | (.error e, after) => (.error e, after, found)
      else match Kind.ofChar? ch with
        | none => (.error (.illegalCharacter (String.singleton ch) c.position), c, found)
        | some kind => scan n c.advance (⟨kind, c.position, c.advance.position⟩ :: found)

end Scanner

structure Scanner where
  source : Source
  cursor : Cursor
  tokens : List Token
  deriving DecidableEq

namespace Scanner

def start (source : Source) : Scanner :=
  ⟨source, ⟨.start source, source.text.toList, false⟩, []⟩

def advance (s : Scanner) : Scanner := { s with cursor := s.cursor.advance }

/-- Reads a numeral without keeping its token. -/
def readNumber (s : Scanner) : Except LexError Token × Scanner :=
  let (result, cursor) := number s.cursor
  (result, { s with cursor })

/-- Reads the whole text from its start, and then the end of input. -/
def readAll (s : Scanner) : Except LexError (List Token) × Scanner :=
  let text := s.source.text.toList
  match scan text.length ⟨.start s.source, text, true⟩ [] with
  | (.error e, cursor, found) => (.error e, ⟨s.source, cursor, found.reverse⟩)
  | (.ok (), cursor, found) =>
    let eof : Token := ⟨.eof, cursor.position, cursor.position⟩
    let tokens := (eof :: found).reverse
    (.ok tokens, ⟨s.source, cursor, tokens⟩)

end Scanner

/-- The tokens of a text, the last of which is the end of input. -/
def tokenize (source : Source) : Except LexError (List Token) := (Scanner.start source).readAll.1

end Reckon
