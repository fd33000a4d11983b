import Mathlib.Logic.Relation
import Mathlib.Order.WellFounded
import Formula.Proofs.Linked.Refinement

/-!
# Linked cells are well formed

However many tokens have been read, and whichever were refused, the links of the cells form one
tree: every cell but the first hangs on exactly one side of another one, which it names as the one
above it. From left to right the cells are found in the order of the list, and the cursor is reached
by going right only. So following links never leaves the list and always ends.

## Main definitions

* `Linked.Below`, `Linked.Above`, `Linked.RightOf` — where the links of a cell lead.
* `Linked.WellFormed` — the invariant.
* `Linked.Navigable` — what it guarantees of following links.
* `Tree.Hangs` — the parts of a tree with the place that each of them hangs on.

The main result is `Linked.wellFormed_attemptAll`.
-/

namespace Formula

open Relation

namespace Linked

/-! ## Links -/

/-- The node at `j` is on the left or the right of the one at `i`. -/
def Below (cells : List Cell) (j i : Nat) : Prop :=
  ∃ c : Cell, cells[i]? = some c ∧ (c.left = some j ∨ c.right = some j)

/-- The node at `j` is the one above the node at `i`. -/
def Above (cells : List Cell) (i j : Nat) : Prop :=
  ∃ c : Cell, cells[i]? = some c ∧ c.parent = some j

/-- The node at `j` is on the right of the one at `i`. -/
def RightOf (cells : List Cell) (i j : Nat) : Prop :=
  ∃ c : Cell, cells[i]? = some c ∧ c.right = some j

structure WellFormed (g : Linked) : Prop where
  /-- The first cell is that of the outermost group. -/
  root : ∃ c : Cell, g.cells[0]? = some c ∧ c.label = .group ∧ c.parent = none ∧ c.left = none
  /-- Every other cell hangs on exactly one side of the cell above it. -/
  parent : ∀ (i : Nat) (c : Cell), g.cells[i]? = some c → i ≠ 0 →
    ∃ (j : Nat) (p : Cell), c.parent = some j ∧ g.cells[j]? = some p ∧
      Xor (p.left = some i) (p.right = some i)
  /-- What hangs on a cell names it as the one above. -/
  child : ∀ (i : Nat) (c : Cell) (j : Nat), g.cells[i]? = some c →
    c.left = some j ∨ c.right = some j → ∃ b : Cell, g.cells[j]? = some b ∧ b.parent = some i
  leaf : ∀ (i : Nat) (c : Cell), g.cells[i]? = some c → c.label.isLeaf = true →
    c.left = none ∧ c.right = none
  operator : ∀ (i : Nat) (c : Cell), g.cells[i]? = some c → c.left ≠ none →
    c.label.isOperator = true
  /-- From left to right all cells are met in the order of the list. -/
  inorder : InOrder g.cells (some 0) (List.range g.cells.length)
  /-- The cursor is reached by going right. -/
  cursor : ReflTransGen (RightOf g.cells) 0 g.cursor

structure Navigable (g : Linked) : Prop where
  /-- No cell is above itself. -/
  acyclic : ∀ i, ¬ TransGen (Above g.cells) i i
  /-- Going down ends, on any way. -/
  descends : WellFounded (Below g.cells)
  /-- Climbing ends, with or without a place for an operator. -/
  climbs : ∀ p, (climb g.cells p g.cursor).Dom
  encloses : (enclosing g.cells g.cursor).Dom
  /-- What an operator takes over is on the right of the cell above it, and not on its left. -/
  replaces : ∀ p target parent, some (target, parent) ∈ climb g.cells p g.cursor →
    ∃ c : Cell, g.cells[parent]? = some c ∧ c.left ≠ some target ∧ c.right = some target

end Linked

/-! ## Parts and what they hang on -/

namespace Tree

/-- A part of a tree, `t` below `parent`, that hangs on the node at `q`. -/
inductive Hangs : Option Nat → Tree → Option Nat → Tree → Prop where
  | whole (parent : Option Nat) (t : Tree) : Hangs parent t parent t
  | left {parent q : Option Nat} {l r u : Tree} {n : Node} (part : Hangs n.serial l q u) :
    Hangs parent (.node l n r) q u
  | right {parent q : Option Nat} {l r u : Tree} {n : Node} (part : Hangs n.serial r q u) :
    Hangs parent (.node l n r) q u

namespace Hangs

variable {parent q : Option Nat} {t u l r : Tree} {m : Node}

theorem obeys {law : Law} (part : Hangs parent t q u) (h : t.Obeys law) : u.Obeys law := by
  induction part with
  | whole parent t => exact h
  | left part ih => exact ih h.2.1
  | right part ih => exact ih h.2.2

theorem nodup (part : Hangs parent t q u) (h : t.serials.Nodup) : u.serials.Nodup := by
  induction part with
  | whole parent t => exact h
  | left part ih =>
    rw [serials_node] at h
    exact ih (List.nodup_append.1 h).1
  | right part ih =>
    rw [serials_node] at h
    exact ih (List.nodup_cons.1 (List.nodup_append.1 h).2.1).2

/-- Both sides of a part hang on it. -/
theorem sides (part : Hangs parent t q (.node l m r)) :
    Hangs parent t m.serial l ∧ Hangs parent t m.serial r := by
  generalize same : Tree.node l m r = u at part
  induction part with
  | whole parent t =>
    subst same
    exact ⟨.left (.whole _ _), .right (.whole _ _)⟩
  | left part ih => exact ⟨.left (ih same).1, .left (ih same).2⟩
  | right part ih => exact ⟨.right (ih same).1, .right (ih same).2⟩

/-- A part is the whole tree or a side of another part. -/
theorem cases_side (part : Hangs parent t q u) :
    (q = parent ∧ u = t) ∨ ∃ q' l m r, Hangs parent t q' (.node l m r) ∧ q = some m.serial ∧
      (u = l ∨ u = r) := by
  induction part with
  | whole parent t => exact .inl ⟨rfl, rfl⟩
  | @left parent q l r u n part ih =>
    refine .inr ?_
    rcases ih with ⟨rfl, rfl⟩ | ⟨q', l', m, r', inner, rest⟩
    · exact ⟨parent, u, n, r, .whole _ _, rfl, .inl rfl⟩
    · exact ⟨q', l', m, r', .left inner, rest⟩
  | @right parent q l r u n part ih =>
    refine .inr ?_
    rcases ih with ⟨rfl, rfl⟩ | ⟨q', l', m, r', inner, rest⟩
    · exact ⟨parent, l, n, u, .whole _ _, rfl, .inr rfl⟩
    · exact ⟨q', l', m, r', .right inner, rest⟩

/-- Every node is the root of a part. -/
theorem exists_of_mem (parent : Option Nat) {i : Nat} (h : i ∈ t.serials) :
    ∃ q l m r, Hangs parent t q (.node l m r) ∧ m.serial = i := by
  induction t generalizing parent with
  | nil => cases h
  | node l n r ihl ihr =>
    rw [serials_node, List.mem_append, List.mem_cons] at h
    rcases h with inLeft | rfl | inRight
    · obtain ⟨q, l', m, r', part, same⟩ := ihl (some n.serial) inLeft
      exact ⟨q, l', m, r', .left part, same⟩
    · exact ⟨parent, l, n, r, .whole _ _, rfl⟩
    · obtain ⟨q, l', m, r', part, same⟩ := ihr (some n.serial) inRight
      exact ⟨q, l', m, r', .right part, same⟩

/-- The cell of a part lies where the number of its root says; `x` and `y` are the numbers of
the cells around the tree. -/
theorem getElem?_cells {a b : List Cell} {x y : List Nat} {size : Nat}
    (part : Hangs parent t q (.node l m r)) (numbered : x ++ (t.serials ++ y) = List.range size)
    (lengths : a.length = x.length) :
    (a ++ (t.cells parent ++ b))[m.serial]? = some (m.cell l.root? r.root? q) := by
  generalize same : Tree.node l m r = u at part
  induction part generalizing a b x y with
  | whole parent t =>
    subst same
    have serial := eq_length_of_range (a := x ++ l.serials) (i := m.serial)
      (b := r.serials ++ y) (by simpa using numbered)
    have found := getElem?_of_length (a := a ++ l.cells m.serial) (b := r.cells m.serial ++ b)
      (x := m.cell l.root? r.root? parent) (i := m.serial)
      (by simp [serial, lengths, length_cells, serials])
    simpa [cells] using found
  | @left parent q l' r' u n part ih =>
    have found := ih (b := n.cell l'.root? r'.root? parent :: (r'.cells n.serial ++ b))
      (by simpa using numbered) lengths same
    simpa [cells] using found
  | @right parent q l' r' u n part ih =>
    have found := ih (b := b) (a := a ++ (l'.cells n.serial ++ [n.cell l'.root? r'.root? parent]))
      (x := x ++ (l'.serials ++ [n.serial])) (by simpa using numbered)
      (by simp [lengths, length_cells, serials]) same
    simpa [cells] using found

end Hangs

variable {t u : Tree} {q : Option Nat} {size i : Nat}

theorem Hangs.cell_eq {l r : Tree} {m : Node} (part : Hangs none t q (.node l m r))
    (numbered : t.serials = List.range size) :
    (t.cells none)[m.serial]? = some (m.cell l.root? r.root? q) := by
  simpa using part.getElem?_cells (a := []) (b := []) (x := []) (y := []) (by simpa) rfl

/-- Every cell is that of a part. -/
theorem exists_hangs (numbered : t.serials = List.range size) {c : Cell}
    (found : (t.cells none)[i]? = some c) : ∃ q l m r, Hangs none t q (.node l m r) ∧
      m.serial = i ∧ c = m.cell l.root? r.root? q := by
  obtain ⟨inside, -⟩ := List.getElem?_eq_some_iff.1 found
  have sizes := congrArg List.length numbered
  rw [serials, List.length_map, length_inorder, List.length_range] at sizes
  rw [length_cells, sizes] at inside
  obtain ⟨q, l, m, r, part, rfl⟩ := Hangs.exists_of_mem none
    (numbered ▸ List.mem_range.2 inside)
  rw [part.cell_eq numbered, Option.some.injEq] at found
  exact ⟨q, l, m, r, part, rfl, found.symm⟩

/-- The links lead to the nodes of a part from left to right. -/
theorem inOrder_cells (numbered : t.serials = List.range size) (part : Hangs none t q u) :
    Linked.InOrder (t.cells none) u.serial? u.serials := by
  induction u generalizing q with
  | nil => exact .none
  | node l m r ihl ihr =>
    obtain ⟨onLeft, onRight⟩ := part.sides
    rw [serials_node]
    exact .some (part.cell_eq numbered) (ihl onLeft) (ihr onRight)

theorem exists_node_of_serial? (h : t.serial? = some i) :
    ∃ l m r, t = .node l m r ∧ m.serial = i := by
  cases t with
  | nil => cases h
  | node l m r => exact ⟨l, m, r, rfl, Option.some.inj h⟩

/-- The sides of a node have different roots. -/
theorem serial?_ne_of_nodup {l r : Tree} {n : Node} (distinct : (node l n r).serials.Nodup)
    (left : l.serial? = some i) : r.serial? ≠ some i := by
  intro right
  obtain ⟨a, m, b, rfl, rfl⟩ := exists_node_of_serial? left
  obtain ⟨a', m', b', rfl, same⟩ := exists_node_of_serial? right
  rw [serials_node, List.nodup_append] at distinct
  exact distinct.2.2 m.serial (by simp) m'.serial (by simp) same.symm

end Tree

namespace Linked

open Formula.Tree

variable {d : Draft}

/-- The root of the tree around a place is the outermost frame. It holds nothing only if the place
is its own and empty. -/
theorem exists_plug_eq_close {f g : Frame} {above : List Frame}
    (h : (f :: above).getLast? = some g) (t : Tree) :
    ∃ content, Frame.plug (f.close t) above = g.close content ∧
      content.isNil = (above.isEmpty && t.isNil) := by
  induction above generalizing f t with
  | nil =>
    cases h
    exact ⟨t, rfl, rfl⟩
  | cons f' above ih =>
    obtain ⟨content, whole, empty⟩ := ih (List.getLast?_cons_cons.symm.trans h) (f.close t)
    exact ⟨content, whole, empty.trans (Bool.and_false _)⟩

theorem reflTransGen_rightOf {l r : Tree} {m : Node} {above : List Frame} {size i : Nat}
    (numbered : (Frame.plug (.node l m r) above).serials = List.range size)
    (root : (Frame.plug (.node l m r) above).serial? = some i) :
    ReflTransGen (RightOf ((Frame.plug (.node l m r) above).cells none)) i m.serial := by
  induction above generalizing l m r with
  | nil =>
    cases root
    exact .refl
  | cons f above ih =>
    have outer := Frame.getElem?_cells (l := f.left) (m := f.node) (r := .node l m r) numbered
    exact (ih (l := f.left) (m := f.node) (r := .node l m r) numbered root).tail ⟨_, outer, rfl⟩

/-- The cells of a regular draft are well formed. -/
theorem wellFormed_linked (h : d.Regular) : d.linked.WellFormed := by
  have numbered := h.numbered
  obtain ⟨content, whole, -⟩ : ∃ content, d.tree = .node .nil ⟨0, .group⟩ content ∧ _ :=
    exists_plug_eq_close h.outermost d.right
  have root : d.tree.serial? = some 0 := by rw [whole]; rfl
  refine ⟨?root, ?parent, ?child, ?leaf, ?operator, ?inorder, ?cursor⟩
  case root =>
    have part : Hangs none d.tree none (.node .nil ⟨0, .group⟩ content) := by
      rw [whole]
      exact .whole _ _
    exact ⟨_, part.cell_eq numbered, rfl, rfl, rfl⟩
  case parent =>
    intro i c found other
    obtain ⟨q, l, m, r, part, rfl, rfl⟩ := exists_hangs numbered found
    rcases part.cases_side with ⟨-, same⟩ | ⟨q', l', n, r', outer, rfl, side⟩
    · rw [whole] at same
      cases same
      exact absurd rfl other
    · refine ⟨n.serial, _, rfl, outer.cell_eq numbered, ?_⟩
      have distinct := outer.nodup (numbered ▸ List.nodup_range)
      rcases side with rfl | rfl
      · exact .inl ⟨rfl, serial?_ne_of_nodup distinct rfl⟩
      · exact .inr ⟨rfl, fun left => serial?_ne_of_nodup distinct left rfl⟩
  case child =>
    intro i c j found side
    obtain ⟨q, l, m, r, part, rfl, rfl⟩ := exists_hangs numbered found
    obtain ⟨onLeft, onRight⟩ := part.sides
    rcases side with left | right
    · obtain ⟨a, b, e, rfl, rfl⟩ := exists_node_of_serial? left
      exact ⟨_, onLeft.cell_eq numbered, rfl⟩
    · obtain ⟨a, b, e, rfl, rfl⟩ := exists_node_of_serial? right
      exact ⟨_, onRight.cell_eq numbered, rfl⟩
  case leaf =>
    intro i c found leaf
    obtain ⟨q, l, m, r, part, rfl, rfl⟩ := exists_hangs numbered found
    obtain ⟨⟨-, bare, none⟩, -⟩ := part.obeys h.proper
    rw [bare (Label.isOperator_of_isLeaf leaf), top?_eq_none_iff.1 (none leaf)]
    exact ⟨rfl, rfl⟩
  case operator =>
    intro i c found taken
    obtain ⟨q, l, m, r, part, rfl, rfl⟩ := exists_hangs numbered found
    obtain ⟨⟨-, bare, -⟩, -⟩ := part.obeys h.proper
    refine Bool.of_not_eq_false fun other => taken ?_
    rw [bare other]
    rfl
  case inorder =>
    have met := inOrder_cells numbered (.whole none d.tree)
    rw [root, numbered] at met
    rw [h.length_cells]
    exact met
  case cursor => exact reflTransGen_rightOf numbered root

/-! ## Following links -/

theorem acc_below {t u : Tree} {q : Option Nat} {size i : Nat} (part : Hangs none t q u)
    (numbered : t.serials = List.range size) (root : u.serial? = some i) :
    Acc (Below (t.cells none)) i := by
  induction u generalizing q i with
  | nil => cases root
  | node l m r ihl ihr =>
    cases root
    obtain ⟨onLeft, onRight⟩ := part.sides
    refine .intro _ fun j ⟨c, found, side⟩ => ?_
    obtain rfl := Option.some.inj ((part.cell_eq numbered).symm.trans found)
    exact side.elim (ihl onLeft) (ihr onRight)

theorem wellFounded_below (h : d.Regular) : WellFounded (Below d.linked.cells) := by
  refine ⟨fun i => ?_⟩
  cases found : d.linked.cells[i]? with
  | none =>
    refine .intro _ fun j ⟨c, here, _⟩ => ?_
    rw [found] at here
    cases here
  | some c =>
    obtain ⟨q, l, m, r, part, rfl, -⟩ := exists_hangs h.numbered found
    exact acc_below part h.numbered rfl

theorem WellFormed.below_of_above {g : Linked} (h : g.WellFormed) {i j : Nat}
    (above : Above g.cells i j) : Below g.cells i j := by
  obtain ⟨c, found, link⟩ := above
  by_cases first : i = 0
  · subst first
    obtain ⟨c', found', -, none, -⟩ := h.root
    cases found.symm.trans found'
    cases none.symm.trans link
  · obtain ⟨j', p, link', there, side⟩ := h.parent i c found first
    cases link.symm.trans link'
    exact ⟨p, there, side.or⟩

theorem navigable_linked (h : d.Regular) : d.linked.Navigable := by
  have wellFormed := wellFormed_linked h
  have descends := wellFounded_below h
  refine ⟨fun i round => ?_, descends, fun p => ?_, ?_, fun p target parent climbed => ?_⟩
  · have below := TransGen.mono (fun _ _ => wellFormed.below_of_above) i i round
    exact descends.transGen.irrefl.irrefl i below
  · exact Part.dom_iff_mem.2 ⟨_, Part.eq_some_iff.1 (climb_cells p h.numbered)⟩
  · exact Part.dom_iff_mem.2 ⟨_, Part.eq_some_iff.1 (enclosing_cells h.numbered)⟩
  · have climbing := Part.mem_unique climbed (Part.eq_some_iff.1 (climb_cells p h.numbered))
    cases found : Frame.climb p (d.here.close d.right) d.above with
    | none =>
      simp only [Frame.close] at found
      rw [found] at climbing
      cases climbing
    | some taken =>
      obtain ⟨left, above⟩ := taken
      obtain ⟨l, m, r, f, outer, rfl, rfl, whole, -⟩ := exists_taken h found
      simp only [Frame.close] at found
      rw [found] at climbing
      cases climbing
      have numbered := h.numbered
      rw [← whole] at numbered
      have there := Frame.getElem?_cells (l := f.left) (m := f.node) (r := .node l m r) numbered
      rw [Draft.linked, ← whole]
      exact ⟨_, there, Draft.serial_left_ne numbered, rfl⟩

/-- Whatever tokens have been read, and whichever of them were refused, the cells are well formed
and links can be followed. They are the cells of the draft that the same tokens lead to, and any
further token does to them what it does to the draft. -/
theorem wellFormed_attemptAll (ts : List Token) :
    ∃ g, empty.attemptAll ts = .some g ∧ g.WellFormed ∧ g.Navigable ∧
      g = (Draft.empty.attemptAll ts).linked ∧ ∀ t,
        Simulates (push t) (Draft.empty.attemptAll ts) ((Draft.empty.attemptAll ts).push t) := by
  have regular := Draft.regular_empty.attemptAll ts
  exact ⟨_, attemptAll_eq Draft.regular_empty ts, wellFormed_linked regular,
    navigable_linked regular, rfl, push_simulates regular⟩

end Linked

end Formula
