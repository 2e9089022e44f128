import Reckon.Expression
import Reckon.Settings.Library

/-!
The settings of the command. A given value hides the one in the environment, valid or not; what
neither gives has a default. The depth has to be one that the call stack supports.
-/

namespace Reckon

structure Settings where
  filename : String
  maxDepth : Int
  maxIntExponent : Int
  deriving DecidableEq

namespace Settings

inductive Field where
  | filename
  | maxDepth
  | maxIntExponent
  deriving DecidableEq

namespace Field

def all : List Field := [filename, maxDepth, maxIntExponent]

def name : Field → String
  | filename => "filename"
  | maxDepth => "max_depth"
  | maxIntExponent => "max_int_exponent"

def type : Field → FieldType
  | filename => .text
  | maxDepth => .integer 1
  | maxIntExponent => .integer 0

def default : (f : Field) → f.type.Carrier
  | filename => "<stdin>"
  | maxDepth => defaultDepth
  | maxIntExponent => Operation.defaultMaxExponent

end Field

/-- Refuses a depth that a call stack of so many frames does not support. -/
def fitsCallStack (stack depth : Int) : Except (Option String) Unit :=
  let ceiling := supportedDepth stack
  if ceiling < depth then
    .error ((Number.intText? ceiling).map
      ("max_depth must be at most " ++ · ++ " at the current recursion limit"))
  else .ok ()

/-- The check of a field, beyond the bounds of its type. -/
def validate (stack : Int) : (f : Field) → f.type.Carrier → Except (Option String) Unit
  | .maxDepth, depth => fitsCallStack stack depth
  | .filename, _ | .maxIntExponent, _ => .ok ()

def declaration (stack : Int) : Declaration where
  Field := Field
  fields := Field.all
  complete f := by cases f <;> decide
  name := Field.name
  distinct f g h := by cases f <;> cases g <;> simp_all [Field.name]
  notHidden f := by cases f <;> decide
  type := Field.type
  default := Field.default
  validate := validate stack
  start := "ARITHEXPR_"
  exactCase := false

def ofRecord {stack : Int} (r : (declaration stack).Record) : Settings :=
  ⟨r .filename, r .maxDepth, r .maxIntExponent⟩

/-- Why there are no settings. -/
inductive Fault where
  /-- The name of a value stands for something else. -/
  | reservedName
  | refused (r : Refusal)
  deriving DecidableEq

/-- Values given as absent are taken as not given. -/
def present (given : List (String × Value)) : List (String × Value) :=
  given.filter fun entry => entry.2 != .absent

/-- The settings from given values and the environment, on a call stack of so many frames. -/
def make (library : Library) (stack : Int) (given : List (String × Value))
    (env : List (String × String)) : Except Fault Settings :=
  if given.any (·.1 == "cls") then .error .reservedName
  else match library.construct (declaration stack) (present given) env with
    | .ok r => .ok (ofRecord r)
    | .error refusal => .error (.refused refusal)

def limits (s : Settings) (stack : Int) : Limits := ⟨s.maxDepth, s.maxIntExponent, stack⟩

end Settings

end Reckon
