import Formula.Tree

/-!
# Frames

A place in a tree that is reached from the root through right children only, as a stack of frames:
nodes with their left part, each open on the right, the innermost first.

## Main definitions

* `Frame`, `Frame.close` — a node open on the right, and the tree that it is once filled in.
* `Frame.plug` — the whole tree with something put at the place.
* `Frame.climb` — the frames above the place that an operator does not reach across.
* `Frame.toGroup?` — the nearest group above the place.

`Frame.plug_of_climb` and `Frame.plug_of_toGroup?` say that moving up changes the place and not the
tree, `Frame.inorder_plug` that whatever is put at the place comes last from left to right.
-/

namespace Formula

/-- A node with its left part, open on the right. -/
structure Frame where
  left : Tree
  node : Node
  deriving DecidableEq, Repr

namespace Frame

/-- The frame with its right part filled in. -/
def close (f : Frame) (right : Tree) : Tree :=
  .node f.left f.node right

def isGroup (f : Frame) : Bool :=
  f.node.label.isGroup

/-! ## The tree around a place -/

/-- A tree put below a stack of frames. -/
def plug (t : Tree) : List Frame → Tree
  | [] => t
  | f :: above => plug (f.close t) above

/-- The nodes of a stack of frames from left to right. -/
def inorder : List Frame → List Node
  | [] => []
  | f :: above => inorder above ++ f.left.inorder ++ [f.node]

theorem inorder_plug (t : Tree) (above : List Frame) :
    (plug t above).inorder = inorder above ++ t.inorder := by
  induction above generalizing t with
  | nil => rfl
  | cons f above ih => simp [plug, ih, close, inorder]

/-! ## Moving up -/

/-- The part above a tree that holds on to it at least as tightly as `priority` draws, closed, with
the frames that are left. The outermost frame is never closed. -/
def climb (priority : Int) : Tree → List Frame → Option (Tree × List Frame)
  | _, [] => none
  | t, f :: above =>
    if priority ≤ f.node.label.priority then climb priority (f.close t) above
    else some (t, f :: above)

theorem plug_of_climb {p : Int} {t left : Tree} {above rest : List Frame}
    (h : climb p t above = some (left, rest)) : plug left rest = plug t above := by
  induction above generalizing t with
  | nil => cases h
  | cons f above ih =>
    rw [climb] at h
    split at h
    · rw [ih h, plug]
    · obtain ⟨rfl, rfl⟩ := Prod.mk.inj (Option.some.inj h)
      rfl

/-- The nearest group above a tree: the frames above it, the group, and what it holds. -/
def toGroup? : Tree → List Frame → Option (List Frame × Frame × Tree)
  | _, [] => none
  | t, f :: above => if f.isGroup then some (above, f, t) else toGroup? (f.close t) above

theorem plug_of_toGroup? {t right : Tree} {above rest : List Frame} {here : Frame}
    (h : toGroup? t above = some (rest, here, right)) :
    plug (here.close right) rest = plug t above := by
  induction above generalizing t with
  | nil => cases h
  | cons f above ih =>
    rw [toGroup?] at h
    split at h
    · cases h
      rfl
    · rw [ih h, plug]

end Frame

end Formula
