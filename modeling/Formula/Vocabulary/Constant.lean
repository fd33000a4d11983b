import Formula.Vocabulary.Table

/-!
# Constants

The numbers that a formula may use by name.

## Main definitions

* `Constant`, `Constant.table` — the constants, their order in every listing and their names.
* `Constant.ofName?` — the constant that a name denotes; names are case sensitive.
* `Constant.value` — the number.
-/

namespace Formula

inductive Constant where
  | pi | euler | gravity
  deriving DecidableEq, Repr

namespace Constant

def name : Constant → String
  | .pi => "PI"
  | .euler => "E"
  | .gravity => "G"

def table : Table Constant where
  entries := [.pi, .euler, .gravity]
  spelling := name
  mem_entries c := by cases c <;> decide
  nodup_spellings := by decide

/-- The constant called `text`. -/
def ofName? (text : String) : Option Constant :=
  table.find? text

/-- The value of a constant; gravity is the acceleration at the equator in metres per second
squared. -/
def value : Constant → Float
  | .pi => 3.141592653589793
  | .euler => 2.718281828459045
  | .gravity => 9.78033

end Constant

end Formula
