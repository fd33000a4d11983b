import Formula.Draft.Frame
import Formula.Token
import Formula.Tree.Defect

/-!
# A tree being written

A draft is a tree that grows token by token at one place, the cursor. The way from the root to the
cursor goes through right children only and is kept as a stack of frames. What a token does depends
on what the cursor calls for: an operand is put there, an operator takes over as its left operand as
much of what stands above the cursor as binds at least as tightly, and a closing parenthesis moves
the cursor up to its group. A token that is refused leaves the draft as it was.

## Main definitions

* `Draft`, `Draft.empty`, `Draft.tree` — a draft, the one with nothing in it, and the whole tree
  that a draft has come to.
* `Draft.Demand`, `Draft.demand` — what the cursor calls for.
* `Draft.push` — the draft after one more token.
* `Draft.finish` — the finished tree, if every group is closed and nothing is missing.
* `Draft.build` — the tree of a list of tokens.

A token adds at most one node, and that as the last one from left to right: see
`Draft.inorder_tree_descend`, `Draft.inorder_tree_attach` and `Draft.inorder_tree_splice`.
-/

namespace Formula

/-- A tree with a cursor. The frame `here` is the cursor with its left part, `right` is what stands
on its right, and `size` counts the nodes that have been made. -/
structure Draft where
  above : List Frame
  here : Frame
  right : Tree
  size : Nat
  deriving DecidableEq, Repr

namespace Draft

/-- The group that is to hold the whole formula, with nothing in it. -/
def empty : Draft where
  above := []
  here := ⟨.nil, ⟨0, .group⟩⟩
  right := .nil
  size := 1

def tree (d : Draft) : Tree :=
  Frame.plug (d.here.close d.right) d.above

theorem inorder_tree (d : Draft) :
    d.tree.inorder =
      Frame.inorder d.above ++ d.here.left.inorder ++ d.here.node :: d.right.inorder := by
  simp [tree, Frame.inorder_plug, Frame.close]

/-! ## What the cursor calls for -/

inductive Demand where
  /-- The first operand of a group, or an operator in front of it. -/
  | first
  /-- The operand of an operator that has none on its left. -/
  | signed (symbol : String)
  /-- The right operand of an operator. -/
  | second
  /-- Nothing: an operator may follow, or the end of the group. -/
  | none
  deriving DecidableEq, Repr

def demand (d : Draft) : Demand :=
  match d.here.node.label, d.here.left, d.right with
  | .operator s, .nil, .nil => .signed s
  | .operator _, .node _ _ _, .nil => .second
  | .group, _, .nil => .first
  | .call _ _, _, .nil => .first
  | _, _, _ => .none

/-- The function at the cursor whose opening parenthesis has not been read. -/
def unopened? (d : Draft) : Option String :=
  match d.here.node.label with
  | .call f false => some f
  | _ => none

/-! ## Adding a node -/

/-- A new node on the right of the cursor, which moves down to it. -/
def descend (d : Draft) (l : Label) : Draft where
  above := d.here :: d.above
  here := ⟨.nil, ⟨d.size, l⟩⟩
  right := .nil
  size := d.size + 1

/-- A new node on the right of the cursor, which stays. The operator at the cursor is complete with
its one operand, and the next operator is to be placed above it. -/
def attach (d : Draft) (l : Label) : Draft :=
  { d with right := .leaf ⟨d.size, l⟩, size := d.size + 1 }

/-- An operand as it is called for; `shown` is how it is named if none is. -/
def addOperand (d : Draft) (l : Label) (shown : String) : Except ParseError Draft :=
  match d.demand with
  | .first | .second => .ok (d.descend l)
  | .signed s =>
    if (Operator.ofSymbol? s).any Operator.isSign then .ok (d.attach l) else .error (.notSign s)
  | .none => .error (.unexpectedToken shown)

/-- A new operator above the part of the tree that it takes over as its left operand. -/
def splice (d : Draft) (o : Operator) : Except ParseError Draft :=
  match Frame.climb o.leftPriority (d.here.close d.right) d.above with
  | none => .error .unbalancedParentheses
  | some (left, above) =>
    .ok ⟨above, ⟨left, ⟨d.size, .operator o.symbol⟩⟩, .nil, d.size + 1⟩

/-- An operator: in front of an operand, where any one may open a group but only a sign may follow
another operator, or else behind a complete operand. -/
def addOperator (d : Draft) (symbol : String) : Except ParseError Draft :=
  match Operator.ofSymbol? symbol with
  | none => .error (.unexpectedToken symbol)
  | some o =>
    match d.demand with
    | .first => .ok (d.descend (.operator symbol))
    | .signed _ | .second =>
      if o.isSign then .ok (d.descend (.operator symbol)) else .error (.unexpectedToken symbol)
    | .none => d.splice o

/-! ## Parentheses -/

/-- An opening parenthesis opens the function at the cursor, or else a new group. -/
def openGroup (d : Draft) : Except ParseError Draft :=
  match d.unopened? with
  | some f => .ok { d with here := { d.here with node.label := .call f true } }
  | none => d.addOperand .group "("

/-- A closing parenthesis moves the cursor to the nearest group above it. -/
def closeGroup (d : Draft) : Except ParseError Draft :=
  match Frame.toGroup? (d.here.close d.right) d.above with
  | some (above, here, right) => .ok ⟨above, here, right, d.size⟩
  | none => .error .unbalancedParentheses

/-! ## Tokens -/

/-- What a token does where no opening parenthesis has to come first. -/
def accept (d : Draft) (t : Token) : Except ParseError Draft :=
  match t.kind with
  | .operator => d.addOperator t.text
  | .number => d.addOperand (.number t.text) t.text
  | .name => d.addOperand (Label.ofName t.text) t.text
  | .parenthesis =>
    if t.text = "(" then d.openGroup
    else if t.text = ")" then d.closeGroup
    else .error (.unexpectedToken t.text)

/-- The draft after one more token. The name of a function has to be followed by a token with the
text of an opening parenthesis. -/
def push (d : Draft) (t : Token) : Except ParseError Draft :=
  match d.unopened? with
  | some f => if t.text = "(" then d.accept t else .error (.expectedOpening f t.text)
  | none => d.accept t

/-! ## Finishing -/

/-- The finished tree. It may not be empty, the cursor may stand in no group but the outermost, and
no node may lack what belongs on its right. -/
def finish (d : Draft) : Except ParseError Tree :=
  if d.above.isEmpty && d.right.isNil then .error .emptyExpression
  else
    match d.above.dropWhile fun f => !f.isGroup with
    | [_] =>
      match d.tree.defect? with
      | some e => .error e
      | none => .ok d.tree
    | _ => .error .unbalancedParentheses

/-- The tree of a list of tokens, up to the first that is refused. -/
def build (tokens : List Token) : Except ParseError Tree := do
  (← tokens.foldlM push empty).finish

/-! ## The nodes of a draft -/

theorem inorder_tree_descend (d : Draft) (l : Label) (h : d.right = .nil) :
    (d.descend l).tree.inorder = d.tree.inorder ++ [⟨d.size, l⟩] := by
  simp [inorder_tree, descend, Frame.inorder, h]

theorem inorder_tree_attach (d : Draft) (l : Label) (h : d.right = .nil) :
    (d.attach l).tree.inorder = d.tree.inorder ++ [⟨d.size, l⟩] := by
  simp [inorder_tree, attach, Tree.leaf, h]

theorem inorder_tree_splice {d e : Draft} {o : Operator} (h : d.splice o = .ok e) :
    e.tree.inorder = d.tree.inorder ++ [⟨d.size, .operator o.symbol⟩] := by
  rw [splice] at h
  split at h
  · cases h
  · next left above climbed =>
    cases h
    have same := congrArg Tree.inorder (Frame.plug_of_climb climbed)
    rw [Frame.inorder_plug] at same
    rw [inorder_tree, tree, ← same]
    simp

end Draft

end Formula
