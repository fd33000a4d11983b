import Formula.Error
import Formula.Tree

/-!
# What a tree lacks

Operators, groups and calls need something on their right.

## Main definitions

* `Tree.defect?` — the leftmost defect of a tree.
* `Tree.Complete` — nothing is missing anywhere.

`Tree.defect?_eq_none_iff` says that a tree without a defect is a complete one.
-/

namespace Formula

/-- What is wrong with a node that has nothing on its right. -/
def Label.defect? : Label → Option ParseError
  | .operator s => some (.missingOperand s)
  | .call f false => some (.expectedOpening f "end of input")
  | .call _ true | .group => some .emptyExpression
  | .number _ | .var _ | .constant _ => none

theorem Label.defect?_eq_none_iff (l : Label) : l.defect? = none ↔ l.isLeaf = true := by
  cases l with
  | call f opened => cases opened <;> simp [defect?, isLeaf]
  | _ => simp [defect?, isLeaf]

namespace Tree

/-- The leftmost defect of a tree. -/
def defect? : Tree → Option ParseError
  | .nil => none
  | .node left n right =>
    left.defect?.or ((if right.isNil then n.label.defect? else none).or right.defect?)

/-- Every node with nothing on its right is a number, a variable or a constant. -/
def Complete : Tree → Prop
  | .nil => True
  | .node left n right =>
    left.Complete ∧ (right = .nil → n.label.isLeaf = true) ∧ right.Complete

theorem defect?_eq_none_iff (t : Tree) : t.defect? = none ↔ t.Complete := by
  induction t with
  | nil => simp [defect?, Complete]
  | node left n right ihl ihr =>
    rw [defect?, Option.or_eq_none_iff, Option.or_eq_none_iff, ihl, ihr, Complete]
    cases right with
    | nil => simp [isNil, Label.defect?_eq_none_iff]
    | node _ _ _ => simp [isNil]

end Tree

end Formula
