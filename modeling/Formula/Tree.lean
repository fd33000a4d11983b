import Formula.Vocabulary.Constant
import Formula.Vocabulary.Operator
import Formula.Vocabulary.UnaryFunction

/-!
# Formula trees

A formula is a binary tree. An operator stands between its operands, a group or a call has its
content on the right, and numbers, variables and constants have nothing below them. Read from left
to right, the nodes of a formula stand in the order of its text. The root of a whole formula is a
group.

A node keeps the text that it was made from; what a symbol or a name means is looked up when the
tree is evaluated.

## Main definitions

* `Label` — what a node is; `Label.ofName` settles what a name stands for.
* `Node` — a label with a serial number, by which nodes are told apart.
* `Tree` — nodes in a binary tree.
* `Tree.inorder` — the nodes from left to right.
* `Tree.variableNames` — the names of the variables, each once, in order of first occurrence.
-/

namespace Formula

/-! ## Labels -/

inductive Label where
  | number (literal : String)
  | var (name : String)
  | constant (name : String)
  | operator (symbol : String)
  /-- A pair of parentheses, or the formula as a whole. -/
  | group
  /-- The name of a function; `opened` once the parenthesis after it has been read. -/
  | call (function : String) (opened : Bool)
  deriving DecidableEq, Repr

namespace Label

/-- A name stands for a constant if there is one so called, else for a function, else for a
variable. -/
def ofName (name : String) : Label :=
  if (Constant.ofName? name).isSome then .constant name
  else if (UnaryFunction.ofName? name).isSome then .call name false
  else .var name

/-- The text of a node; a group has none. -/
def text : Label → String
  | .number s | .var s | .constant s | .operator s | .call s _ => s
  | .group => ""

/-- Whether nothing can stand below a node with this label. -/
def isLeaf : Label → Bool
  | .number _ | .var _ | .constant _ => true
  | .operator _ | .group | .call _ _ => false

/-- Whether a node with this label holds what stands between two parentheses. -/
def isGroup : Label → Bool
  | .group | .call _ _ => true
  | .number _ | .var _ | .constant _ | .operator _ => false

def isOperator : Label → Bool
  | .operator _ => true
  | .number _ | .var _ | .constant _ | .group | .call _ _ => false

/-- How tightly a node holds what stands on its right. -/
def priority : Label → Int
  | .operator s => ((Operator.ofSymbol? s).map Operator.rightPriority).getD Operator.noPriority
  | .number _ | .var _ | .constant _ | .group | .call _ _ => Operator.noPriority

def varName? : Label → Option String
  | .var name => some name
  | _ => none

end Label

/-! ## Trees -/

structure Node where
  serial : Nat
  label : Label
  deriving DecidableEq, Repr

inductive Tree where
  | nil
  | node (left : Tree) (root : Node) (right : Tree)
  deriving DecidableEq, Repr

namespace Tree

/-- The tree of a single node. -/
def leaf (n : Node) : Tree :=
  .node .nil n .nil

def isNil : Tree → Bool
  | .nil => true
  | .node _ _ _ => false

def root? : Tree → Option Node
  | .nil => none
  | .node _ n _ => some n

def size : Tree → Nat
  | .nil => 0
  | .node left _ right => left.size + 1 + right.size

/-- Whether an operator stands at the root. -/
def isOperator : Tree → Bool
  | .nil => false
  | .node _ n _ => n.label.isOperator

/-- The nodes from left to right, in front of `suffix`. -/
def inorderAux : Tree → List Node → List Node
  | .nil, suffix => suffix
  | .node left n right, suffix => left.inorderAux (n :: right.inorderAux suffix)

/-- The nodes from left to right. -/
def inorder (t : Tree) : List Node :=
  t.inorderAux []

theorem inorderAux_eq_append (t : Tree) (suffix : List Node) :
    t.inorderAux suffix = t.inorder ++ suffix := by
  induction t generalizing suffix with
  | nil => rfl
  | node left n right ihl ihr =>
    simp only [inorder, inorderAux]
    rw [ihl, ihr, ihl (n :: right.inorderAux []), ihr []]
    simp

@[simp] theorem inorder_nil : inorder .nil = [] := rfl

@[simp] theorem inorder_node (left : Tree) (n : Node) (right : Tree) :
    inorder (.node left n right) = left.inorder ++ n :: right.inorder := by
  rw [inorder, inorderAux, inorderAux_eq_append, inorderAux_eq_append, List.append_nil]

@[simp] theorem length_inorder (t : Tree) : t.inorder.length = t.size := by
  induction t with
  | nil => rfl
  | node left n right ihl ihr =>
    simp only [inorder_node, List.length_append, List.length_cons, size, ihl, ihr]
    omega

/-- The names of the variables in order of first occurrence. -/
def variableNames (t : Tree) : List String :=
  (t.inorder.filterMap fun n => n.label.varName?).eraseDups

end Tree

end Formula
