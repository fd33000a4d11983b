import Mathlib.Data.PFun
import Formula.Draft

/-!
# Drafts in linked cells

A draft can be kept in a list of cells, one for each node in the order in which the nodes are made.
A cell names its neighbours by their places in the list, those below it and the one above it, and
the cursor is a place as well. Reading a token then follows such links, changes some of them and
adds at most one cell. Following links could leave the list, or never end; a `Part` has no value in
either case.

## Main definitions

* `Cell`, `Linked` — a node with its links, and a list of them with a cursor.
* `Linked.upTo` — following links up, for `Linked.climb` and `Linked.enclosing`.
* `Linked.InOrder` — following links down to all nodes.
* `Linked.Action` — what reads and changes linked cells, and may be refused.
* `Linked.push` — what a token does, refused or not.
* `Linked.finish` — the finished cells, if every group is closed and nothing is missing.
* `Linked.build` — the cells of a list of tokens, up to the first that is refused.
* `Linked.attemptAll` — the cells after all tokens of a list, refused ones passed over.
* `Linked.taken` — the tokens of a list that are not refused.
-/

namespace Formula

/-- A node with links to its neighbours. -/
structure Cell where
  label : Label
  left : Option Nat
  right : Option Nat
  parent : Option Nat
  /-- Whether an operator may follow what stands on the right, although nothing is on the left. -/
  unary : Bool
  /-- How tightly the node holds what stands on its right. -/
  priority : Int
  deriving DecidableEq, Repr

/-- A new node below `parent`. -/
def Cell.make (l : Label) (parent : Option Nat) : Cell :=
  ⟨l, none, none, parent, l.isGroup, l.priority⟩

/-- Puts `new` in the place of `old` below a node. -/
def Cell.replaceChild (old new : Nat) (c : Cell) : Cell :=
  if c.left = some old then { c with left := some new } else { c with right := some new }

/-- What is wrong with a node, if it lacks something on its right. -/
def Cell.defect? (c : Cell) : Option ParseError :=
  if c.right.isSome then none else c.label.defect?

structure Linked where
  cells : List Cell
  cursor : Nat
  deriving DecidableEq, Repr

namespace Linked

/-- The group that is to hold the whole formula. -/
def empty : Linked :=
  ⟨[.make .group none], 0⟩

/-! ## Following links -/

/-- Up from a node until the node above is one to stop at: the last node before it, and that one
itself. There is no such place above the outermost node. -/
def upTo (cells : List Cell) (stop : Cell → Bool) : Nat →. Option (Nat × Nat) :=
  PFun.fix fun i => do
    let c ← Part.ofOption cells[i]?
    match c.parent with
    | none => return .inl none
    | some j =>
      let above ← Part.ofOption cells[j]?
      return if stop above then .inl (some (i, j)) else .inr j

/-- Where an operator goes that comes behind the node at `i`: the node that it takes over, and the
one above that. -/
def climb (cells : List Cell) (priority : Int) (i : Nat) : Part (Option (Nat × Nat)) :=
  upTo cells (fun above => above.priority < priority) i

/-- The nearest group above the node at `i`, if there is one. -/
def enclosing (cells : List Cell) (i : Nat) : Part (Option Nat) :=
  (upTo cells (fun above => above.label.isGroup) i).map (Option.map Prod.snd)

/-- The nodes at and below a link, from left to right. -/
inductive InOrder (cells : List Cell) : Option Nat → List Nat → Prop where
  | none : InOrder cells none []
  | some {i : Nat} {c : Cell} {left right : List Nat} (found : cells[i]? = some c)
      (atLeft : InOrder cells c.left left) (atRight : InOrder cells c.right right) :
      InOrder cells (some i) (left ++ i :: right)

/-! ## Actions -/

/-- What reads and changes linked cells. If it is refused, the changes made so far stay. -/
abbrev Action (α : Type) := ExceptT ParseError (StateT Linked Part) α

/-- What comes of an action, and what it leaves behind. -/
def Action.outcome {α : Type} (m : Action α) (g : Linked) :
    Part (Except ParseError α × Linked) :=
  m.run.run g

def cursorPlace : Action Nat :=
  ExceptT.mk fun g => .some (.ok g.cursor, g)

def moveTo (i : Nat) : Action Unit :=
  ExceptT.mk fun g => .some (.ok (), { g with cursor := i })

def cell (i : Nat) : Action Cell :=
  ExceptT.mk fun g => (Part.ofOption g.cells[i]?).map fun c => (.ok c, g)

def update (i : Nat) (f : Cell → Cell) : Action Unit :=
  ExceptT.mk fun g =>
    if i < g.cells.length then .some (.ok (), { g with cells := g.cells.modify i f }) else .none

/-- A new node below `parent`, at the end of the list. -/
def make (l : Label) (parent : Nat) : Action Nat :=
  ExceptT.mk fun g =>
    .some (.ok g.cells.length, { g with cells := g.cells ++ [.make l (some parent)] })

/-- What following links gives. -/
def follow {α : Type} (links : List Cell → Part α) : Action α :=
  ExceptT.mk fun g => (links g.cells).map fun x => (.ok x, g)

/-! ## Adding a node -/

/-- A new node on the right of the one at `i`, and the cursor moves there. -/
def descend (i : Nat) (l : Label) : Action Unit := do
  let j ← make l i
  update i fun c => { c with right := some j }
  moveTo j

/-- The symbol of an operator that is no sign. -/
def unsigned? : Label → Option String
  | .operator s => if (Operator.ofSymbol? s).any Operator.isSign then none else some s
  | _ => none

/-- An operand as it is called for; `shown` is how it is named if none is. -/
def addOperand (l : Label) (shown : String) : Action Unit := do
  let i ← cursorPlace
  let c ← cell i
  if c.label.isLeaf then throw (.unexpectedToken shown)
  else
    match c.left, c.right with
    | none, none =>
      match unsigned? c.label with
      | some s => throw (.notSign s)
      | none =>
        let j ← make l i
        update i fun c => { c with right := some j, unary := true }
        if c.label.isOperator then pure () else moveTo j
    | some _, none => descend i l
    | _, some _ => throw (.unexpectedToken shown)

/-- A new operator above what it takes over, which ends at `i`. -/
def splice (i : Nat) (o : Operator) : Action Unit := do
  match ← follow (climb · o.leftPriority i) with
  | none => throw .unbalancedParentheses
  | some (target, parent) =>
    let j ← make (.operator o.symbol) parent
    update j fun c => { c with left := some target }
    update parent (Cell.replaceChild target j)
    update target fun c => { c with parent := some j }
    moveTo j

/-- An operator: in front of an operand, or else behind a complete one. -/
def addOperator (symbol : String) : Action Unit :=
  match Operator.ofSymbol? symbol with
  | none => throw (.unexpectedToken symbol)
  | some o => do
    let i ← cursorPlace
    let c ← cell i
    if c.label.isGroup && c.right.isNone then descend i (.operator symbol)
    else if c.label.isOperator && o.isSign && c.right.isNone then descend i (.operator symbol)
    else if !c.label.isLeaf && !c.unary then throw (.unexpectedToken symbol)
    else splice i o

/-! ## Parentheses -/

/-- An opening parenthesis opens the function at the cursor, or else a new group. -/
def openGroup : Action Unit := do
  let i ← cursorPlace
  let c ← cell i
  if c.label.isLeaf then throw (.unexpectedToken "(")
  else
    match c.label with
    | .call f false => update i fun c => { c with label := .call f true }
    | _ => addOperand .group "("

/-- A closing parenthesis moves the cursor to the nearest group above it. -/
def closeGroup : Action Unit := do
  let i ← cursorPlace
  match ← follow (enclosing · i) with
  | none => throw .unbalancedParentheses
  | some j => moveTo j

/-! ## Tokens -/

def accept (t : Token) : Action Unit :=
  match t.kind with
  | .operator => addOperator t.text
  | .number => addOperand (.number t.text) t.text
  | .name => addOperand (Label.ofName t.text) t.text
  | .parenthesis =>
    if t.text = "(" then openGroup
    else if t.text = ")" then closeGroup
    else throw (.unexpectedToken t.text)

/-- One more token. The name of a function has to be followed by a token with the text of an
opening parenthesis. -/
def push (t : Token) : Action Unit := do
  let i ← cursorPlace
  let c ← cell i
  match c.label with
  | .call f false => if t.text = "(" then accept t else throw (.expectedOpening f t.text)
  | _ => accept t

/-! ## Finishing -/

/-- The finished cells. The outermost group may not be empty, the cursor may stand in no other one,
and no node may lack what belongs on its right. -/
def finish : Action (List Cell) := do
  let root ← cell 0
  if root.right.isNone then throw .emptyExpression
  else
    let i ← cursorPlace
    match ← follow (enclosing · i) with
    | none => throw .unbalancedParentheses
    | some j =>
      let group ← cell j
      if group.parent.isSome then throw .unbalancedParentheses
      else
        let cells ← follow .some
        match cells.findSome? Cell.defect? with
        | some e => throw e
        | none => pure cells

/-! ## Lists of tokens -/

/-- The tokens of a list, up to the first that is refused. -/
def pushAll (tokens : List Token) : Action Unit :=
  tokens.forM push

/-- The cells of a list of tokens. -/
def build (tokens : List Token) : Action (List Cell) := do
  pushAll tokens
  finish

/-- The cells after a token, with what a refused one has left behind. -/
def attempt (g : Linked) (t : Token) : Part Linked :=
  ((push t).outcome g).map Prod.snd

/-- The cells after all tokens of a list, refused ones passed over. -/
def attemptAll (g : Linked) (tokens : List Token) : Part Linked :=
  tokens.foldlM attempt g

/-- The tokens of a list that are not refused, each with what is left behind by those before it. -/
def taken (g : Linked) : List Token → Part (List Token)
  | [] => .some []
  | t :: tokens => do
    let (result, next) ← (push t).outcome g
    let more ← taken next tokens
    return if result.isOk then t :: more else more

end Linked

end Formula
