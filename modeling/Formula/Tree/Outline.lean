import Formula.Tree.Core

/-!
# Outlines

What the written form of a tree shows of it: its core, and of every call whether an operator that it
holds shares the parentheses of the call. An operator that stands in a group of its own does not.

## Main definitions

* `Outline`, `Tree.outline` — the outline of a tree.
* `Outline.core` — the core that an outline shows.
* `Outline.render` — the written form of an outline.
-/

namespace Formula

inductive Outline where
  | nil
  | leaf (label : Label)
  | operator (left : Outline) (symbol : String) (right : Outline)
  /-- A call; `shared` if an operator in it has no other parentheses than those of the call. -/
  | call (function : String) (shared : Bool) (argument : Outline)
  deriving DecidableEq, Repr

/-- The outline of a tree. -/
def Tree.outline : Tree → Outline
  | .nil => .nil
  | .node left n right =>
    match n.label with
    | .number _ | .var _ | .constant _ => .leaf n.label
    | .operator s => .operator left.outline s right.outline
    | .group => right.outline
    | .call f _ => .call f right.isOperator right.outline

/-- A leaf by itself. -/
def Core.ofLabel : Label → Core
  | .number s => .number s
  | .var s => .var s
  | .constant s => .constant s
  | .operator _ | .group | .call _ _ => .nil

namespace Outline

def isNil : Outline → Bool
  | .nil => true
  | .leaf _ | .operator _ _ _ | .call _ _ _ => false

/-- The core that an outline shows. -/
def core : Outline → Core
  | .nil => .nil
  | .leaf l => .ofLabel l
  | .operator left s right => .operator left.core s right.core
  | .call f _ argument => .call f argument.core

/-- The written form of an outline. -/
def render : Outline → String
  | .nil => ""
  | .leaf l => l.text
  | .operator left s right =>
    "(" ++ (if left.isNil then s else left.render ++ " " ++ s ++ " ") ++ right.render ++ ")"
  | .call f shared argument =>
    f ++ if shared then argument.render else "(" ++ argument.render ++ ")"

end Outline

end Formula
