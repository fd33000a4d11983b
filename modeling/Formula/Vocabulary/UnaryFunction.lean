import Formula.Vocabulary.Table

/-!
# Functions of one argument

The functions that a formula may call, by name.

## Main definitions

* `UnaryFunction`, `UnaryFunction.table` — the functions, their order in every listing and their
  names.
* `UnaryFunction.ofName?` — the function that a name denotes; names are case sensitive.
* `UnaryFunction.apply` — the value at an argument.
-/

namespace Formula

inductive UnaryFunction where
  | abs | sin | cos | atan | exp | sqrt | tan | sign
  deriving DecidableEq, Repr

namespace UnaryFunction

def name : UnaryFunction → String
  | .abs => "abs"
  | .sin => "sin"
  | .cos => "cos"
  | .atan => "atan"
  | .exp => "exp"
  | .sqrt => "sqrt"
  | .tan => "tg"
  | .sign => "sign"

def table : Table UnaryFunction where
  entries := [.abs, .sin, .cos, .atan, .exp, .sqrt, .tan, .sign]
  spelling := name
  mem_entries f := by cases f <;> decide
  nodup_spellings := by decide

/-- The function called `text`. -/
def ofName? (text : String) : Option UnaryFunction :=
  table.find? text

/-- The sign of a number as `1` or `-1`; a zero of either sign, and what is not a number, stay as
they are. -/
def signum (x : Float) : Float :=
  if x > 0 then 1 else if x < 0 then -1 else x

def apply : UnaryFunction → Float → Float
  | .abs => Float.abs
  | .sin => Float.sin
  | .cos => Float.cos
  | .atan => Float.atan
  | .exp => Float.exp
  | .sqrt => Float.sqrt
  | .tan => Float.tan
  | .sign => signum

end UnaryFunction

end Formula
