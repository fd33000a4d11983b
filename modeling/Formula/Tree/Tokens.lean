import Formula.Token
import Formula.Tree

/-!
# The tokens of a tree

The tokens that a formula is written with, read off its tree from left to right. Every group but
the outermost stands for a pair of parentheses, and so does every call after its name.

## Main definitions

* `Tree.tokens` — the tokens of a part of a formula.
* `Tree.formulaTokens` — the tokens of a whole formula.
-/

namespace Formula

namespace Tree

/-- The tokens of a part of a formula. -/
def tokens : Tree → List Token
  | .nil => []
  | .node left n right =>
    match n.label with
    | .number s => [⟨.number, s⟩]
    | .var s | .constant s => [⟨.name, s⟩]
    | .operator s => left.tokens ++ ⟨.operator, s⟩ :: right.tokens
    | .group => .opening :: right.tokens ++ [.closing]
    | .call f _ => ⟨.name, f⟩ :: .opening :: right.tokens ++ [.closing]

/-- The tokens of a whole formula, whose outermost group is not written. -/
def formulaTokens : Tree → List Token
  | .nil => []
  | .node _ _ content => content.tokens

end Tree

end Formula
