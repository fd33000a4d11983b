import Formula.Vocabulary.Table

/-!
# Operators

The five arithmetic operators, their spelling, how tightly each binds on either side, and what it
computes. An operator takes a left operand and a right one; `+` and `-` may also stand in front of
a single operand.

## Main definitions

* `Operator`, `Operator.table` — the operators, their order in every listing and their spelling.
* `Operator.ofSymbol?` — the operator that a text spells.
* `Operator.leftPriority`, `Operator.rightPriority` — the binding strengths.
* `Operator.apply` — the value for given operands, refused where a needed left one is absent.
-/

namespace Formula

inductive Operator where
  | add | sub | mul | div | pow
  deriving DecidableEq, Repr

namespace Operator

/-! ## Spelling -/

/-- The one character that spells an operator. -/
def char : Operator → Char
  | .add => '+'
  | .sub => '-'
  | .mul => '*'
  | .div => '/'
  | .pow => '^'

def symbol (o : Operator) : String :=
  o.char.toString

def table : Table Operator where
  entries := [.add, .sub, .mul, .div, .pow]
  spelling := symbol
  mem_entries o := by cases o <;> decide
  nodup_spellings := by decide

/-- The operator that `text` spells. -/
def ofSymbol? (text : String) : Option Operator :=
  table.find? text

@[simp] theorem ofSymbol?_symbol (o : Operator) : ofSymbol? o.symbol = some o :=
  table.find?_spelling o

theorem ofSymbol?_eq_some_iff {text : String} {o : Operator} :
    ofSymbol? text = some o ↔ o.symbol = text :=
  table.find?_eq_some_iff

/-! ## Binding strength -/

/-- The strength of everything that is not an operator: below that of every operator, so that no
operator reaches across a bracket. -/
def noPriority : Int := -1

/-- How tightly an operator draws what stands on its left. -/
def leftPriority : Operator → Int
  | .add | .sub => 0
  | .mul | .div => 1
  | .pow => 3

/-- How tightly an operator holds what stands on its right. For `^` it is below the left one, which
makes `^` group to the right. -/
def rightPriority : Operator → Int
  | .add | .sub => 0
  | .mul | .div => 1
  | .pow => 2

theorem noPriority_lt_leftPriority (o : Operator) : noPriority < o.leftPriority := by
  cases o <;> decide

/-- Whether the operator may stand in front of a single operand. -/
def isSign : Operator → Bool
  | .add | .sub => true
  | .mul | .div | .pow => false

/-! ## Values -/

def combine : Operator → Float → Float → Float
  | .add => fun x y => x + y
  | .sub => fun x y => x - y
  | .mul => fun x y => x * y
  | .div => fun x y => x / y
  | .pow => Float.pow

/-- The value of an operator on its operands. An absent left operand counts as zero for a sign and
is refused for every other operator. -/
def apply (o : Operator) (left : Option Float) (right : Float) : Option Float :=
  match left with
  | some x => some (o.combine x right)
  | none => if o.isSign then some (o.combine 0 right) else none

end Operator

end Formula
