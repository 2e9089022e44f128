import Reckon.Diagnostic
import Reckon.Text.Quoted

/-!
Faults in the text of an expression: a character outside the language, a number
that is not well formed, and a number that is out of range.
-/

namespace Reckon

inductive LexError.Cause where
  | illegalCharacter
  | malformedNumber (reason : String)
  | numberTooLarge
  deriving DecidableEq

structure LexError where
  cause : LexError.Cause
  /-- The text at fault, a single character when it comes from a scan. -/
  piece : String
  start : Position
  stop : Position
  deriving DecidableEq

namespace LexError

def illegalCharacter (piece : String) (start : Position) : LexError :=
  ⟨.illegalCharacter, piece, start, start.advanceOver piece⟩

/-- Several characters are reported together only if they can be printed. -/
def illegalPiece? (piece : String) (start : Position) : Option LexError :=
  if piece.length ≤ 1 || piece.toList.all Text.isPrintable then some (illegalCharacter piece start)
  else none

def malformedNumber (piece : String) (start : Position) (reason : String) : LexError :=
  ⟨.malformedNumber reason, piece, start, start.advanceOver piece⟩

/-- Only the first character is named. -/
def numberTooLarge (start stop : Position) : LexError :=
  ⟨.numberTooLarge, start.source.slice start.index (start.index + 1), start, stop⟩

def secondPoint : String := "A number literal can contain at most one decimal point."

def lonePoint : String := "A decimal point must be preceded or followed by at least one digit."

/-- A code point as `U+0041`. -/
def codePoint (c : Char) : String :=
  "U+" ++ String.ofList ((Text.hexDigits 4 c.toNat).map Char.toUpper)

/-- What cannot be printed is reported by its code point. -/
def illegalHelp (piece : String) : String :=
  match piece.toList.find? (!Text.isPrintable ·) with
  | none => "Only digits, '.', '+', '-', '*', '/', '^', '(' and ')' are allowed."
  | some c => "Non-printable character (" ++ codePoint c ++ ") is not allowed."

def code (e : LexError) : String :=
  match e.cause with
  | .illegalCharacter => "L001"
  | .malformedNumber _ => "L002"
  | .numberTooLarge => "L003"

def message (e : LexError) : String :=
  match e.cause with
  | .illegalCharacter => "Unexpected character '" ++ e.piece ++ "'"
  | .malformedNumber _ => "Unexpected character '" ++ e.piece ++ "' in number literal"
  | .numberTooLarge => "Number literal is too large"

def help (e : LexError) : String :=
  match e.cause with
  | .illegalCharacter => illegalHelp e.piece
  | .malformedNumber reason => reason
  | .numberTooLarge =>
    "Integer literals are limited to 4300 digits; float literals must stay below 1.8e308."

def diagnostic (e : LexError) : Diagnostic :=
  ⟨"IllegalCharacter", e.message, e.start, e.stop, e.code, e.help⟩

end LexError

end Reckon
