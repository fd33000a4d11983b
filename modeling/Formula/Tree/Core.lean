import Formula.Tree

/-!
# The core of a tree

What is left of a tree when its groups give way to what they hold and its nodes lose their serial
numbers: the operators, calls and leaves in their places. Two trees with the same core differ in
redundant parentheses only.

## Main definitions

* `Core` — a tree without groups.
* `Tree.core` — the core of a tree.
-/

namespace Formula

inductive Core where
  | nil
  | number (literal : String)
  | var (name : String)
  | constant (name : String)
  | operator (left : Core) (symbol : String) (right : Core)
  | call (function : String) (argument : Core)
  deriving DecidableEq, Repr

/-- The core of a tree. -/
def Tree.core : Tree → Core
  | .nil => .nil
  | .node left n right =>
    match n.label with
    | .number s => .number s
    | .var s => .var s
    | .constant s => .constant s
    | .operator s => .operator left.core s right.core
    | .group => right.core
    | .call f _ => .call f right.core

end Formula
