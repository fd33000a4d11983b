import Formula.Tree

/-!
# Writing a tree out

A tree is written with parentheses around every operator and nowhere else, except that a call
always has its own pair. A group adds none, so it does not show.

## Main definitions

* `Tree.render` — the text of a tree.
-/

namespace Formula.Tree

/-- An operator brings its own parentheses, which also serve a call that it is the content of. -/
def render : Tree → String
  | .nil => ""
  | .node left n right =>
    match n.label with
    | .number s | .var s | .constant s => s
    | .group => right.render
    | .call f _ => f ++ if right.isOperator then right.render else "(" ++ right.render ++ ")"
    | .operator s =>
      "(" ++ (if left.isNil then s else left.render ++ " " ++ s ++ " ") ++ right.render ++ ")"

end Formula.Tree
