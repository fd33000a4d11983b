import Formula.Draft.Frame
import Formula.Tree.Defect

/-!
# Parts of a tree

The nodes of a tree with what hangs on them, and laws that speak about every node. A law sees the
left part of a node, its label, and of its right part only the root with what stands on its left.
So a law does not notice what happens further down on the right, where a tree grows.

## Main definitions

* `Tree.parts` — the parts of a tree, each with a node at its root.
* `Tree.top?`, `Law` — what a law sees of a right part, and laws.
* `Tree.leftmost` — the label at which the text of a tree starts.
* `Tree.Obeys`, `Frame.Around` — a tree all of whose nodes keep a law, and the same for the frames
  above a place in a tree.

`Tree.obeys_iff` ties the two together, `Frame.obeys_plug` splits a tree at a place.
-/

namespace Formula

/-- A law for single nodes: about the left part of a node, its label, and the root of its right
part, given with what stands on that root's left. -/
abbrev Law := Tree → Label → Option (Tree × Label) → Prop

namespace Tree

/-- The trees that hang at the nodes of a tree, the whole tree first. -/
def parts : Tree → List Tree
  | .nil => []
  | .node left n right => .node left n right :: (left.parts ++ right.parts)

/-- The root with what stands on its left. -/
def top? : Tree → Option (Tree × Label)
  | .nil => none
  | .node left n _ => some (left, n.label)

/-- The label of the leftmost node, or `label` if there is none. The leftmost label of a node with
`left` on its left is `left.leftmost` of its own label. -/
def leftmost (label : Label) : Tree → Label
  | .nil => label
  | .node left n _ => left.leftmost n.label

/-- Whether every node of a tree keeps a law. -/
def Obeys (law : Law) : Tree → Prop
  | .nil => True
  | .node left n right => law left n.label right.top? ∧ left.Obeys law ∧ right.Obeys law

@[simp] theorem top?_nil : top? .nil = none := rfl

@[simp] theorem top?_node (left : Tree) (n : Node) (right : Tree) :
    top? (.node left n right) = some (left, n.label) := rfl

theorem isNil_eq_false_iff {t : Tree} : t.isNil = false ↔ t ≠ .nil := by
  cases t <;> simp [isNil]

theorem top?_eq_none_iff {t : Tree} : t.top? = none ↔ t = .nil := by
  cases t <;> simp

@[simp] theorem leftmost_node (label : Label) (left : Tree) (n : Node) (right : Tree) :
    leftmost label (.node left n right) = left.leftmost n.label := rfl

theorem mem_parts_node {t left right : Tree} {n : Node} :
    t ∈ parts (.node left n right) ↔
      t = .node left n right ∨ t ∈ left.parts ∨ t ∈ right.parts := by
  simp [parts]

/-- Parts of parts are parts. -/
theorem parts_trans {s t u : Tree} (h : s ∈ t.parts) (h' : t ∈ u.parts) : s ∈ u.parts := by
  induction u with
  | nil => simp [parts] at h'
  | node left n right ihl ihr =>
    rcases mem_parts_node.1 h' with rfl | inside | inside
    · exact h
    · exact mem_parts_node.2 (.inr (.inl (ihl inside)))
    · exact mem_parts_node.2 (.inr (.inr (ihr inside)))

theorem complete_of_mem_parts {t u : Tree} (h : u.Complete) (part : t ∈ u.parts) : t.Complete := by
  induction u with
  | nil => cases part
  | node left n right ihl ihr =>
    rcases mem_parts_node.1 part with rfl | inside | inside
    · exact h
    · exact ihl h.1 inside
    · exact ihr h.2.2 inside

theorem obeys_iff {law : Law} {t : Tree} :
    t.Obeys law ↔ ∀ left n right, .node left n right ∈ t.parts → law left n.label right.top? := by
  induction t with
  | nil => simp [Obeys, parts]
  | node l m r ihl ihr =>
    rw [Obeys, ihl, ihr]
    constructor
    · rintro ⟨here, inLeft, inRight⟩ left n right h
      rcases mem_parts_node.1 h with same | h | h
      · cases same
        exact here
      · exact inLeft left n right h
      · exact inRight left n right h
    · intro h
      refine ⟨h l m r (mem_parts_node.2 (.inl rfl)), ?_, ?_⟩
      · exact fun left n right part => h left n right (mem_parts_node.2 (.inr (.inl part)))
      · exact fun left n right part => h left n right (mem_parts_node.2 (.inr (.inr part)))

theorem Obeys.of_mem_parts {law : Law} {t u : Tree} (h : u.Obeys law) (part : t ∈ u.parts) :
    t.Obeys law :=
  obeys_iff.2 fun left n right inside => obeys_iff.1 h left n right (parts_trans inside part)

end Tree

namespace Frame

/-- Whether the frames above a place keep a law; `top` is what the law sees of the tree there. -/
def Around (law : Law) : Option (Tree × Label) → List Frame → Prop
  | _, [] => True
  | top, f :: above =>
    law f.left f.node.label top ∧ f.left.Obeys law ∧
      Around law (some (f.left, f.node.label)) above

theorem obeys_plug {law : Law} {t : Tree} {above : List Frame} :
    (plug t above).Obeys law ↔ t.Obeys law ∧ Around law t.top? above := by
  induction above generalizing t with
  | nil => simp [plug, Around]
  | cons f above ih =>
    rw [plug, ih, close, Tree.Obeys, Around, Tree.top?_node]
    grind

/-- Only the innermost frame sees the place. -/
theorem Around.replace {law : Law} {top top' : Option (Tree × Label)} {above : List Frame}
    (h : Around law top above)
    (innermost : ∀ f ∈ above.head?, law f.left f.node.label top → law f.left f.node.label top') :
    Around law top' above := by
  cases above with
  | nil => trivial
  | cons f above => exact ⟨innermost f rfl h.1, h.2⟩

end Frame

end Formula
