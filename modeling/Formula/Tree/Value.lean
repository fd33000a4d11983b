import Formula.Decimal.Literal
import Formula.Error
import Formula.Tree

/-!
# The value of a tree

A tree is evaluated from left to right under bindings for its variables; the first failure stops
it. Values in between may be infinite or not a number, but the value of the whole tree has to be a
number.

## Main definitions

* `Bindings` — which variables are bound, and to what.
* `Tree.value` — the value of any part of a tree.
* `Tree.evaluate` — the value of a whole tree.
-/

namespace Formula

/-- The values of variables. A name without a value is undefined. -/
abbrev Bindings := String → Option Float

/-- Bindings from a list in which a name may be bound to nothing, as if it were absent. -/
def Bindings.ofList (bound : List (String × Option Float)) : Bindings :=
  fun name => (bound.lookup name).join

namespace Tree

/-- The value of a part of a tree. What is absent has no value; the report names the node that
needs it, and a group that holds nothing is written as a pair of parentheses. -/
def value (bindings : Bindings) : Tree → Except EvalError Float
  | .nil => .error (.missingOperand "()")
  | .node left n right =>
    match n.label with
    | .number s =>
      match Decimal.read? s with
      | some x => .ok x
      | none => .error (.invalidNumber s)
    | .var name =>
      match bindings name with
      | some x => .ok x
      | none => .error (.undefinedVariable name)
    | .constant name =>
      match Constant.ofName? name with
      | some c => .ok c.value
      | none => .error (.undefinedConstant name)
    | .group => right.value bindings
    | .operator s =>
      match Operator.ofSymbol? s with
      | none => .error (.undefinedOperator s)
      | some o => do
        let x ← if left.isNil then pure none else some <$> left.value bindings
        let y ← if right.isNil then throw (.missingOperand s) else right.value bindings
        match o.apply x y with
        | some z => pure z
        | none => throw (.missingOperand s)
    | .call name _ =>
      match UnaryFunction.ofName? name with
      | none => .error (.undefinedFunction name)
      | some f =>
        if right.isNil then .error (.missingOperand name) else f.apply <$> right.value bindings

/-- The value of a whole tree, which has to be a number. -/
def evaluate (t : Tree) (bindings : Bindings) : Except EvalError Float := do
  let x ← t.value bindings
  if x.isNaN then throw .notANumber else pure x

/-- The values of a whole tree under several bindings, in their order. -/
def evaluateAll (t : Tree) (contexts : List Bindings) : List (Except EvalError Float) :=
  contexts.map t.evaluate

end Tree

end Formula
