import Reckon.Number.Basic
import Reckon.Text.Lowercase

/-!
The library that settings come from. It is told which fields there are, and makes them from given
values and from the environment. How it does so is not a part of this program: what the program
relies on is `Library.Lawful`.
-/

namespace Reckon.Settings

/-- A value given for a setting. -/
inductive Value where
  | text (s : String)
  | int (i : Int)
  | float (x : Binary64)
  | bool (b : Bool)
  /-- No value, said expressly. -/
  | absent
  | emptyList
  deriving DecidableEq

inductive FieldType where
  | text
  /-- Whole numbers from the least one on. -/
  | integer (least : Int)
  deriving DecidableEq

namespace FieldType

def Carrier : FieldType → Type
  | text => String
  | integer _ => Int

def toValue : (t : FieldType) → t.Carrier → Value
  | text, s => .text s
  | integer _, i => .int i

def Admits : (t : FieldType) → t.Carrier → Prop
  | text, _ => True
  | integer least, i => least ≤ i

end FieldType

/-- What the library is told: the fields in order, and how variables for them are named. -/
structure Declaration where
  Field : Type
  fields : List Field
  complete : ∀ f, f ∈ fields
  name : Field → String
  distinct : ∀ f g, name f = name g → f = g
  notHidden : ∀ f, (name f).toList.head? ≠ some '_'
  type : Field → FieldType
  default : (f : Field) → (type f).Carrier
  /-- A further check of a value. A refusal says why, if that can be written. -/
  validate : (f : Field) → (type f).Carrier → Except (Option String) Unit
  /-- What the names of variables start with. -/
  start : String
  exactCase : Bool

namespace Declaration

variable (d : Declaration)

/-- A value for every field. -/
def Record : Type := (f : d.Field) → (d.type f).Carrier

/-- Whether a variable is one for the field; its case counts only if it has to be exact. -/
def isVariable (f : d.Field) (variableName : String) : Bool :=
  if d.exactCase then variableName == d.start ++ d.name f
  else Text.lower variableName == Text.lower (d.start ++ d.name f)

/-- Where the value of a field is taken from. Nothing is said about a field that two variables
are for. -/
inductive Selects (given : List (String × Value)) (env : List (String × String)) (f : d.Field) :
    Value → Prop where
  /-- A given value comes before all others. -/
  | given {v : Value} (hgiven : (d.name f, v) ∈ given) : Selects given env f v
  /-- Next comes the variable for the field. -/
  | environment {variableName text : String} (hgiven : ∀ v, (d.name f, v) ∉ given)
      (hmem : (variableName, text) ∈ env) (hname : d.isVariable f variableName)
      (hunique : ∀ other ∈ env, d.isVariable f other.1 → other = (variableName, text)) :
      Selects given env f (.text text)
  /-- What is not set anywhere has its default. -/
  | default (hgiven : ∀ v, (d.name f, v) ∉ given)
      (hnone : ∀ entry ∈ env, d.isVariable f entry.1 = false) :
      Selects given env f ((d.type f).toValue (d.default f))

/-- The value is within the bounds of its type and passes the check of its field. -/
structure Admits (f : d.Field) (x : (d.type f).Carrier) : Prop where
  bounds : (d.type f).Admits x
  validated : d.validate f x = .ok ()

end Declaration

/-- What is wrong with one of the values. -/
structure Problem where
  field : String
  code : String
  message : String
  deriving DecidableEq

/-- How the library refuses to make settings. -/
inductive Refusal where
  /-- Values are not acceptable: what is wrong with them, one by one, and all of it in words. -/
  | invalid (problems : List Problem) (report : String)
  /-- What was asked of the library itself cannot be done, in words. -/
  | unusable (report : String)
  /-- The library was not called as it should be. -/
  | misuse
  deriving DecidableEq

structure Library where
  /-- Names under which something is asked of the library itself. -/
  options : List String
  /-- A value taken for a text, if it can be. -/
  text : Value → Option String
  /-- A value taken for a whole number, if it can be. -/
  integer : Value → Option Int
  construct : (d : Declaration) → List (String × Value) → List (String × String) →
    Except Refusal d.Record

namespace Library

/-- A value as one of a type, whatever its bounds. -/
def coerce (l : Library) : (t : FieldType) → Value → Option t.Carrier
  | .text, v => l.text v
  | .integer _, v => l.integer v

/-- No name is given twice, and nothing is asked of the library itself. -/
structure Ordinary (l : Library) (given : List (String × Value)) : Prop where
  distinct : (given.map Prod.fst).Nodup
  noOption : ∀ entry ∈ given, entry.1 ∉ l.options

/-- What is documented of the library, and all that is used of it. -/
structure Lawful (l : Library) : Prop where
  /-- Options start with an underscore, which no field does. -/
  underscored : ∀ name ∈ l.options, name.toList.head? = some '_'
  text_text : ∀ s, l.text (.text s) = some s
  integer_int : ∀ i, l.integer (.int i) = some i
  /-- A field has the value that is selected for it, as one of its type. -/
  selected : ∀ {d given env r f v}, l.Ordinary given → l.construct d given env = .ok r →
    d.Selects given env f v → l.coerce (d.type f) v = some (r f)
  /-- Every value is checked, a default like any other. -/
  checked : ∀ {d given env r}, l.Ordinary given → l.construct d given env = .ok r →
    ∀ f, d.Admits f (r f)
  /-- Nothing but fields may be given. -/
  known : ∀ {d given env r}, l.Ordinary given → l.construct d given env = .ok r →
    ∀ entry ∈ given, ∃ f, d.name f = entry.1
  /-- No more is asked of the values. -/
  accepts : ∀ {d given env}, l.Ordinary given → (∀ entry ∈ given, ∃ f, d.name f = entry.1) →
    (∀ f, ∃ v x, d.Selects given env f v ∧ l.coerce (d.type f) v = some x ∧ d.Admits f x) →
    ∃ r, l.construct d given env = .ok r
  /-- Where values are refused, they are listed. -/
  invalid : ∀ {d given env e}, l.Ordinary given → l.construct d given env = .error e →
    ∃ problems report, e = .invalid problems report
  listed : ∀ {d given env f v problems report}, l.Ordinary given →
    l.construct d given env = .error (.invalid problems report) → d.Selects given env f v →
    (∀ x, l.coerce (d.type f) v = some x → ¬ d.Admits f x) →
    ∃ p ∈ problems, p.field = d.name f

end Library

end Reckon.Settings
