import Formula.Tree

/-!
# Listing a tree

A tree as a list of entries, one for each node from left to right, in which nodes refer to each
other by serial number.

## Main definitions

* `Tree.Entry` — a node with the serial numbers of its neighbours.
* `Tree.entries` — the entries of a tree.
-/

namespace Formula.Tree

structure Entry where
  node : Node
  left : Option Nat
  right : Option Nat
  parent : Option Nat
  deriving DecidableEq, Repr

def Entry.hasChildren (e : Entry) : Bool :=
  e.left.isSome || e.right.isSome

/-- The serial number of the root. -/
def serial? (t : Tree) : Option Nat :=
  t.root?.map Node.serial

/-- The entries of a tree below `parent`, in front of `suffix`. -/
def entriesAux (parent : Option Nat) : Tree → List Entry → List Entry
  | .nil, suffix => suffix
  | .node left n right, suffix =>
    left.entriesAux n.serial
      (⟨n, left.serial?, right.serial?, parent⟩ :: right.entriesAux n.serial suffix)

/-- The entries of a whole tree, from left to right. -/
def entries (t : Tree) : List Entry :=
  t.entriesAux none []

end Formula.Tree
