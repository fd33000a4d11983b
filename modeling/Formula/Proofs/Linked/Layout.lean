import Formula.Draft.Linked
import Formula.Proofs.Draft.Frame
import Formula.Proofs.Tree.Listing

/-!
# How a draft lies in cells

The cells of a draft are those of its nodes from left to right, so a node lies where its serial
number says, if the nodes are numbered in this order.

## Main definitions

* `Node.cell`, `Tree.cells`, `Draft.linked` — the cells of a node, of a tree and of a draft.
* `Frame.cells` — the cells of the frames above a place in a tree.

`Frame.cells_plug` splits the cells of a tree at a place. From it follow where the cell of a node
lies, and that `Linked.climb` and `Linked.enclosing` find what `Frame.climb` and `Frame.toGroup?`
find.
-/

namespace Formula

/-! ## Layout -/

/-- Whether an operator may follow what stands on the right of a node: any group, and an operator
in front of its operand. -/
def Node.isUnary (n : Node) (left right : Option Node) : Bool :=
  n.label.isGroup || n.label.isOperator && left.isNone && right.any fun m => !m.label.isOperator

/-- The cell of a node between the roots of its parts. -/
def Node.cell (n : Node) (left right : Option Node) (parent : Option Nat) : Cell where
  label := n.label
  left := left.map Node.serial
  right := right.map Node.serial
  parent := parent
  unary := n.isUnary left right
  priority := n.label.priority

/-- The cells of a tree below `parent`, from left to right. -/
def Tree.cells (parent : Option Nat) : Tree → List Cell
  | .nil => []
  | .node left n right =>
    left.cells n.serial ++ n.cell left.root? right.root? parent :: right.cells n.serial

/-- A draft in linked cells. -/
def Draft.linked (d : Draft) : Linked :=
  ⟨d.tree.cells none, d.here.node.serial⟩

namespace Frame

/-- The place of the innermost frame. -/
def place? (above : List Frame) : Option Nat :=
  above.head?.map fun f => f.node.serial

/-- The cells of frames with the root of what hangs below them, from left to right. -/
def cells : Option Node → List Frame → List Cell
  | _, [] => []
  | top, f :: above =>
    cells f.node above ++
      (f.left.cells f.node.serial ++ [f.node.cell f.left.root? top (place? above)])

theorem cells_plug (t : Tree) (above : List Frame) :
    (plug t above).cells none = cells t.root? above ++ t.cells (place? above) := by
  induction above generalizing t with
  | nil => rfl
  | cons f above ih =>
    rw [plug, ih]
    simp [close, Tree.root?, Tree.cells, cells, place?]

end Frame

theorem Tree.length_cells (t : Tree) (parent : Option Nat) : (t.cells parent).length = t.size := by
  induction t generalizing parent with
  | nil => rfl
  | node left n right ihl ihr =>
    simp only [cells, List.length_append, List.length_cons, ihl, ihr, size]
    omega

theorem Frame.length_cells (top : Option Node) (above : List Frame) :
    (cells top above).length = (inorder above).length := by
  induction above generalizing top with
  | nil => rfl
  | cons f above ih => simp [cells, inorder, ih, Tree.length_cells]

/-! ## Places -/

section Places

variable {α : Type} {a b : List α} {x : α} {i : Nat}

theorem eq_length_of_range {a b : List Nat} {n : Nat} (h : a ++ i :: b = List.range n) :
    i = a.length := by
  have found : (a ++ i :: b)[a.length]? = some i := by simp
  rw [h] at found
  obtain ⟨_, same⟩ := List.getElem?_eq_some_iff.1 found
  rw [← same, List.getElem_range]

theorem getElem?_of_length (h : i = a.length) : (a ++ x :: b)[i]? = some x := by
  simp [h]

theorem modify_of_length (f : α → α) (h : i = a.length) :
    (a ++ x :: b).modify i f = a ++ f x :: b := by
  rw [h, List.modify_eq_take_drop]
  simp

end Places

namespace Frame

variable {l r t : Tree} {m : Node} {above : List Frame} {size : Nat}

theorem serials_plug (t : Tree) (above : List Frame) :
    (plug t above).serials = (inorder above).map Node.serial ++ t.serials := by
  simp [Tree.serials, inorder_plug]

/-- In a tree that is numbered from left to right, a node lies where its number says. -/
theorem serial_eq (numbered : (plug (.node l m r) above).serials = List.range size)
    (top : Option Node) (parent : Option Nat) :
    m.serial = (cells top above ++ l.cells parent).length := by
  rw [serials_plug, Tree.serials_node, ← List.append_assoc] at numbered
  rw [eq_length_of_range numbered]
  simp [length_cells, Tree.length_cells, Tree.serials]

/-- The cells around a node. -/
theorem cells_plug_node (above : List Frame) :
    (plug (.node l m r) above).cells none =
      cells m above ++ l.cells m.serial ++
        m.cell l.root? r.root? (place? above) :: r.cells m.serial := by
  simp [cells_plug, Tree.cells, Tree.root?]

theorem getElem?_cells (numbered : (plug (.node l m r) above).serials = List.range size) :
    ((plug (.node l m r) above).cells none)[m.serial]? =
      some (m.cell l.root? r.root? (place? above)) := by
  rw [cells_plug_node]
  exact getElem?_of_length (serial_eq numbered _ _)

theorem serial_lt_length (numbered : (plug (.node l m r) above).serials = List.range size) :
    m.serial < ((plug (.node l m r) above).cells none).length :=
  (List.getElem?_eq_some_iff.1 (getElem?_cells numbered)).1

end Frame

namespace Linked

open Formula.Frame

/-! ## Following links up -/

section Links

variable {cells : List Cell} {stop : Cell → Bool} {i j : Nat} {c above : Cell}

theorem upTo_of_root (here : cells[i]? = some c) (root : c.parent = none) :
    upTo cells stop i = .some none := by
  refine Part.eq_some_iff.2 (PFun.fix_stop ?_)
  simp [here, root]

theorem upTo_of_stop (here : cells[i]? = some c) (link : c.parent = some j)
    (there : cells[j]? = some above) (stops : stop above = true) :
    upTo cells stop i = .some (some (i, j)) := by
  refine Part.eq_some_iff.2 (PFun.fix_stop ?_)
  simp [here, link, there, stops]

theorem upTo_of_pass (here : cells[i]? = some c) (link : c.parent = some j)
    (there : cells[j]? = some above) (passes : stop above = false) :
    upTo cells stop i = upTo cells stop j := by
  refine PFun.fix_fwd_eq ?_
  simp [here, link, there, passes]

end Links

variable {l r : Tree} {m : Node} {above : List Frame} {size : Nat}

/-- Climbing through links ends where climbing through frames does. -/
theorem climb_cells (p : Int) (numbered : (plug (.node l m r) above).serials = List.range size) :
    climb ((plug (.node l m r) above).cells none) p m.serial =
      .some ((Frame.climb p (.node l m r) above).bind fun (left, outer) =>
        left.serial?.bind fun i => (place? outer).map fun j => (i, j)) := by
  induction above generalizing l m r with
  | nil => exact upTo_of_root (getElem?_cells numbered) rfl
  | cons f above ih =>
    have here := getElem?_cells numbered
    have outer := getElem?_cells (l := f.left) (m := f.node) (r := .node l m r) numbered
    rw [Frame.climb]
    by_cases tight : p ≤ f.node.label.priority
    · rw [if_pos tight]
      have passes := decide_eq_false (Int.not_lt.2 tight)
      exact (upTo_of_pass here rfl outer passes).trans (ih numbered)
    · rw [if_neg tight]
      have stops := decide_eq_true (Int.not_le.1 tight)
      exact upTo_of_stop here rfl outer stops

/-- The nearest group above a node is found through links and through frames alike. -/
theorem enclosing_cells (numbered : (plug (.node l m r) above).serials = List.range size) :
    enclosing ((plug (.node l m r) above).cells none) m.serial =
      .some ((Frame.toGroup? (.node l m r) above).map fun found => found.2.1.node.serial) := by
  induction above generalizing l m r with
  | nil =>
    rw [enclosing, upTo_of_root (getElem?_cells numbered) rfl]
    exact Part.map_some _ _
  | cons f above ih =>
    have here := getElem?_cells numbered
    have outer := getElem?_cells (l := f.left) (m := f.node) (r := .node l m r) numbered
    rw [enclosing, Frame.toGroup?]
    by_cases group : f.isGroup = true
    · rw [if_pos group, upTo_of_stop here rfl outer group]
      exact Part.map_some _ _
    · rw [if_neg group, upTo_of_pass here rfl outer (Bool.of_not_eq_true group)]
      exact ih numbered

end Linked

end Formula
