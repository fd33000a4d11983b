import Formula.Draft.Transcript
import Formula.Proofs.Draft.Precedence
import Formula.Proofs.Linked.Layout
import Formula.Proofs.Parse

/-!
# Drafts and their cells move together

A token does to the cells of a draft what it does to the draft, and is refused for the same reason.
In particular it always has an outcome: no link leads out of the list, and following links ends.

## Main definitions

* `Draft.Regular` — what drafts have in common that lie well in cells.
* `Linked.Simulates` — an action that does to the cells of a draft what is done to the draft.

The main results are `Linked.push_simulates` and `Linked.attemptAll_eq`.
-/

namespace Formula

/-! ## Regular drafts -/

namespace Draft

/-- The nodes are numbered from left to right, links go where labels allow it, and an operator that
has been given its operand while the cursor stays has no other part. -/
structure Regular (d : Draft) : Prop where
  numbered : d.tree.serials = List.range d.size
  proper : d.tree.Obeys Law.proper
  chained : d.Chained
  outermost : (d.here :: d.above).getLast? = some empty.here
  settled : d.here.node.label.isOperator = true → d.right ≠ .nil →
    d.here.left = .nil ∧ d.right.isOperator = false

variable {d e : Draft} {t : Token}

theorem regular_empty : empty.Regular :=
  ⟨rfl, ⟨⟨trivial, fun _ => rfl, fun _ => rfl⟩, trivial, trivial⟩, .singleton _, rfl, nofun⟩

theorem Move.settled (move : Move d t e) : e.here.node.label.isOperator = true → e.right ≠ .nil →
    e.here.left = .nil ∧ e.right.isOperator = false := by
  cases move with
  | descend operand called free => exact fun _ filled => absurd rfl filled
  | attach operand called isSign =>
    exact fun _ _ => ⟨(demand_eq_signed_iff.1 called).2.1, (Token.proper_of_operand? operand).2⟩
  | openCall label => exact nofun
  | lead o called free => exact fun _ filled => absurd rfl filled
  | sign o called isSign => exact fun _ filled => absurd rfl filled
  | splice o called free climbed => exact fun _ filled => absurd rfl filled
  | close free found =>
    intro operator
    rw [Label.isOperator_of_isGroup (Frame.isGroup_of_toGroup? found)] at operator
    cases operator

theorem Move.regular (move : Move d t e) (h : d.Regular) : e.Regular :=
  ⟨move.serials h.numbered, move.proper h.proper, move.chained h.chained,
    move.outermost h.outermost, move.settled⟩

theorem Regular.attempt (h : d.Regular) (t : Token) : (d.attempt t).Regular := by
  rw [Draft.attempt]
  cases pushed : d.push t with
  | error cause => exact h
  | ok e => exact (move_of_push pushed).regular h

theorem Regular.attemptAll (h : d.Regular) (ts : List Token) : (d.attemptAll ts).Regular := by
  induction ts generalizing d with
  | nil => exact h
  | cons t ts ih => exact ih (h.attempt t)

namespace Regular

theorem left_eq_nil (h : d.Regular) (other : d.here.node.label.isOperator = false) :
    d.here.left = .nil :=
  (Frame.obeys_plug.1 h.proper).1.1.2.1 other

theorem length_cells (h : d.Regular) : d.linked.cells.length = d.size := by
  have sizes := congrArg List.length h.numbered
  rw [Tree.serials, List.length_map, Tree.length_inorder, List.length_range] at sizes
  rw [linked, Tree.length_cells, sizes]

theorem getElem?_cursor (h : d.Regular) : d.linked.cells[d.linked.cursor]? =
    some (d.here.node.cell d.here.left.root? d.right.root? (Frame.place? d.above)) :=
  Frame.getElem?_cells h.numbered

theorem cursor_lt (h : d.Regular) : d.here.node.serial < d.linked.cells.length :=
  Frame.serial_lt_length h.numbered

end Regular

theorem cells_linked (d : Draft) : d.linked.cells =
    Frame.cells d.here.node d.above ++ d.here.left.cells d.here.node.serial ++
      d.here.node.cell d.here.left.root? d.right.root? (Frame.place? d.above) ::
        d.right.cells d.here.node.serial :=
  Frame.cells_plug_node d.above

end Draft

/-! ## Changing cells -/

/-- A new node stands alone in its cell. -/
theorem Node.cell_alone (n : Node) (parent : Option Nat) :
    n.cell none none parent = .make n.label parent := by
  simp [Node.cell, Node.isUnary, Cell.make]

/-- What comes to stand on the right of a node tells whether an operator may follow only if nothing
is on its left. -/
theorem Node.isUnary_some {n m : Node} {left : Option Node}
    (h : n.label.isOperator = true → left = none → m.label.isOperator = true) :
    n.isUnary left (some m) = n.label.isGroup := by
  cases operator : n.label.isOperator <;> cases left <;> simp_all [Node.isUnary]

theorem Node.isUnary_none (n : Node) (left : Option Node) :
    n.isUnary left none = n.label.isGroup := by
  simp [Node.isUnary]

namespace Draft

open Formula.Frame

variable {d : Draft}

/-- A new node on the right of the cursor. -/
theorem Regular.cells_grow (h : d.Regular) (free : d.right = .nil) {l : Label} {f : Cell → Cell}
    (filled : f (d.here.node.cell d.here.left.root? none (place? d.above)) =
      d.here.node.cell d.here.left.root? (some ⟨d.size, l⟩) (place? d.above)) :
    (d.linked.cells ++ [Cell.make l (some d.here.node.serial)]).modify d.here.node.serial f =
      (d.descend l).linked.cells := by
  rw [cells_linked, free, List.append_assoc, List.cons_append,
    modify_of_length f (serial_eq h.numbered _ _), Tree.root?, filled, cells_linked]
  simp [descend, cells, place?, Tree.cells, Node.cell_alone, Tree.root?]

/-- Frames do not see what a node holds, nor whether a call is opened. -/
theorem cells_congr (m m' : Node) (serial : m.serial = m'.serial)
    (kind : m.label.isOperator = m'.label.isOperator) (above : List Frame) :
    cells (some m) above = cells (some m') above := by
  cases above with
  | nil => rfl
  | cons f above => simp [cells, Node.cell, Node.isUnary, serial, kind]

theorem Regular.cells_opened (h : d.Regular) {f : String}
    (label : d.here.node.label = .call f false) :
    d.linked.cells.modify d.here.node.serial (fun c => { c with label := .call f true }) =
      (d.opened f).linked.cells := by
  have above := cells_congr d.here.node (d.opened f).here.node rfl
    (by rw [label]; rfl) d.above
  rw [cells_linked, modify_of_length _ (serial_eq h.numbered _ _), cells_linked, above]
  simp [opened, Node.cell, Node.isUnary, label, Label.isGroup, Label.isOperator, Label.priority]

/-- The cells below a frame, with the frame's own cell. -/
theorem cells_below (l : Tree) (m : Node) (r : Tree) (f : Frame) (outer : List Frame) :
    (plug (.node l m r) (f :: outer)).cells none =
      cells f.node outer ++ f.left.cells f.node.serial ++
        f.node.cell f.left.root? (some m) (place? outer) ::
          (l.cells m.serial ++
            m.cell l.root? r.root? (some f.node.serial) :: r.cells m.serial) := by
  rw [cells_plug_node, cells]
  simp [place?]

/-- The node below a frame is not the one on the frame's left. -/
theorem serial_left_ne {l r : Tree} {m : Node} {f : Frame} {outer : List Frame} {size : Nat}
    (numbered : (plug (.node l m r) (f :: outer)).serials = List.range size) :
    f.left.root?.map Node.serial ≠ some m.serial := by
  have distinct : (plug (.node l m r) (f :: outer)).serials.Nodup := numbered ▸ List.nodup_range
  rw [serials_plug, List.nodup_append] at distinct
  intro same
  obtain ⟨n, root, serial⟩ := Option.map_eq_some_iff.1 same
  have onLeft : n ∈ f.left.inorder := by
    cases left : f.left with
    | nil => simp [left, Tree.root?] at root
    | node a b c => simp_all [Tree.root?]
  have above : n.serial ∈ (inorder (f :: outer)).map Node.serial :=
    List.mem_map_of_mem (by simp [inorder, onLeft])
  exact distinct.2.2 _ above m.serial (by simp) serial

/-- A new operator takes over the node `m` below the frame `f`. -/
theorem Regular.cells_spliced (h : d.Regular) {o : Operator} {l r : Tree} {m : Node} {f : Frame}
    {outer : List Frame} (whole : plug (.node l m r) (f :: outer) = d.tree)
    (follows : f.node.label.isOperator = true → f.left = .nil → m.label.isOperator = true) :
    (((d.linked.cells ++ [Cell.make (.operator o.symbol) (some f.node.serial)]).modify d.size
        (fun c => { c with left := some m.serial })).modify f.node.serial
          (Cell.replaceChild m.serial d.size)).modify m.serial
            (fun c => { c with parent := some d.size }) =
      (d.spliced o (.node l m r) (f :: outer)).linked.cells := by
  have size := h.length_cells
  have numbered := h.numbered
  rw [linked, ← whole] at size
  rw [← whole] at numbered
  have atTarget := serial_eq numbered (some m) (some m.serial)
  have atFrame := serial_eq (l := f.left) (m := f.node) (r := .node l m r) numbered
    (some f.node) (some f.node.serial)
  have hung : ((f.node.cell f.left.root? (some m) (place? outer)).replaceChild m.serial d.size) =
      f.node.cell f.left.root? (some ⟨d.size, .operator o.symbol⟩) (place? outer) := by
    have free : f.left.root? = none → f.left = .nil := by cases f.left <;> simp [Tree.root?]
    have unary := Node.isUnary_some fun operator none => follows operator (free none)
    rw [Cell.replaceChild, Node.cell, if_neg (serial_left_ne numbered), unary, Node.cell,
      Node.isUnary_some fun _ _ => rfl]
    rfl
  rw [linked, ← whole, modify_of_length _ size.symm, cells_below, List.append_assoc _ _ [_],
    List.cons_append, modify_of_length _ atFrame, hung, List.append_assoc _ _ [_],
    List.cons_append, ← List.cons_append, ← List.append_assoc, modify_of_length, cells_linked]
  · simp [spliced, cells, place?, Tree.cells, Tree.root?, Node.cell, Node.isUnary_none, Cell.make]
  · simpa [cells] using atTarget

end Draft

/-! ## Outcomes of actions -/

namespace Linked

section Outcomes

variable {α β : Type} {g g' : Linked} {m : Action α} {f : α → Action β} {i : Nat} {l : Label}

/-- What comes after an action that is not refused goes on from what it has left. -/
theorem outcome_bind {a : α} (h : m.outcome g = .some (.ok a, g')) :
    (m >>= f).outcome g = (f a).outcome g' := by
  have run : m g = .some (.ok a, g') := h
  change StateT.bind m (ExceptT.bindCont f) g = f a g'
  rw [StateT.bind, run]
  exact Part.bind_some _ _

theorem outcome_cursorPlace : cursorPlace.outcome g = .some (.ok g.cursor, g) := rfl

theorem outcome_moveTo : (moveTo i).outcome g = .some (.ok (), ⟨g.cells, i⟩) := rfl

theorem outcome_make : (make l i).outcome g =
    .some (.ok g.cells.length, ⟨g.cells ++ [.make l (some i)], g.cursor⟩) := rfl

theorem outcome_cell {c : Cell} (h : g.cells[i]? = some c) :
    (cell i).outcome g = .some (.ok c, g) :=
  congrArg (fun found => (Part.ofOption found).map fun c => (Except.ok c, g)) h

theorem outcome_update {f : Cell → Cell} (h : i < g.cells.length) :
    (update i f).outcome g = .some (.ok (), ⟨g.cells.modify i f, g.cursor⟩) :=
  if_pos h

theorem outcome_follow {links : List Cell → Part α} {x : α} (h : links g.cells = .some x) :
    (follow links).outcome g = .some (.ok x, g) :=
  congrArg (Part.map fun x => (Except.ok x, g)) h

end Outcomes

/-! ## Simulation -/

/-- An action that does to the cells of a draft what is done to the draft; if that is refused, so is
the action, and nothing changes. -/
def Simulates (m : Action Unit) (d : Draft) (result : Except ParseError Draft) : Prop :=
  m.outcome d.linked = .some (result.map fun _ => (), (result.toOption.getD d).linked)

variable {d : Draft} {l : Label}

theorem simulates_throw (e : ParseError) : Simulates (throw e) d (.error e) := rfl

/-- An action may first look at the cell of the cursor. -/
theorem Simulates.look (h : d.Regular) {m : Nat → Cell → Action Unit}
    {result : Except ParseError Draft}
    (next : Simulates (m d.here.node.serial
      (d.here.node.cell d.here.left.root? d.right.root? (Frame.place? d.above))) d result) :
    Simulates (do let i ← cursorPlace; let c ← cell i; m i c) d result := by
  rw [Simulates, outcome_bind outcome_cursorPlace, outcome_bind (outcome_cell h.getElem?_cursor)]
  exact next

/-- A new node on the right of the cursor. -/
theorem outcome_grow (h : d.Regular) (free : d.right = .nil) {f : Nat → Cell → Cell}
    (filled : f d.size (d.here.node.cell d.here.left.root? none (Frame.place? d.above)) =
      d.here.node.cell d.here.left.root? (some ⟨d.size, l⟩) (Frame.place? d.above))
    {m : Nat → Action Unit} :
    (do
      let j ← make l d.here.node.serial
      update d.here.node.serial (f j)
      m j : Action Unit).outcome d.linked = (m d.size).outcome (d.attach l).linked := by
  have inside : d.here.node.serial < (d.linked.cells ++
      [Cell.make l (some d.here.node.serial)]).length := by
    rw [List.length_append]
    exact Nat.lt_add_right _ h.cursor_lt
  rw [outcome_bind outcome_make, outcome_bind (outcome_update inside), h.length_cells,
    h.cells_grow free filled]
  rfl

/-- A new node on the right of the cursor, to which the cursor moves. -/
theorem simulates_descend (h : d.Regular) (free : d.right = .nil)
    (follows : d.here.node.label.isOperator = true → d.here.left = .nil → l.isOperator = true) :
    Simulates (descend d.here.node.serial l) d (.ok (d.descend l)) := by
  rw [Simulates, descend, outcome_grow h free]
  · rfl
  · have bare : d.here.left.root? = none → d.here.left = .nil := by
      cases d.here.left <;> simp [Tree.root?]
    have unary := Node.isUnary_some (n := d.here.node) (m := ⟨d.size, l⟩) fun operator none =>
      follows operator (bare none)
    simp only [Node.cell, Node.isUnary_none, unary]
    rfl

/-- An operand, or the start of one. -/
theorem addOperand_simulates (h : d.Regular) (operand : l.isOperator = false) (shown : String) :
    Simulates (addOperand l shown) d (d.addOperand l shown) := by
  refine Simulates.look h ?_
  rw [Draft.addOperand]
  cases called : d.demand with
  | first =>
    obtain ⟨group, free⟩ := Draft.demand_eq_first_iff.1 called
    have left := h.left_eq_nil (Draft.isOperator_of_first called)
    cases label : d.here.node.label with
    | group | call f opened =>
      simp only [Node.cell, label, Label.isLeaf, free, left, Tree.root?, Option.map_none,
        Bool.false_eq_true, if_false, unsigned?, Label.isOperator]
      rw [Simulates, outcome_grow h free]
      · rfl
      · simp [Node.cell, Node.isUnary, label, Label.isGroup]
    | _ => simp [Frame.isGroup, label, Label.isGroup] at group
  | signed s =>
    obtain ⟨label, left, free⟩ := Draft.demand_eq_signed_iff.1 called
    simp only [Node.cell, label, Label.isLeaf, free, left, Tree.root?, Option.map_none,
      Bool.false_eq_true, if_false, unsigned?, Label.isOperator, if_true]
    by_cases sign : (Operator.ofSymbol? s).any Operator.isSign = true
    · rw [if_pos sign, if_pos sign, Simulates, outcome_grow h free]
      · rfl
      · have kind : d.here.node.label.isOperator = true := by rw [label]; rfl
        simp [Node.cell, Node.isUnary, kind, left, operand, Tree.root?]
    · rw [if_neg sign, if_neg sign]
      exact simulates_throw _
  | second =>
    obtain ⟨operator, taken, free⟩ := Draft.demand_eq_second_iff.1 called
    have descends := simulates_descend (l := l) h free fun _ none => absurd none taken
    have inner := Label.isLeaf_of_isOperator operator
    cases left : d.here.left with
    | nil => exact absurd left taken
    | node a b c =>
      simpa only [Node.cell, inner, free, left, Tree.root?, Option.map_none, Option.map_some,
        Bool.false_eq_true, if_false] using descends
  | none =>
    have refused := simulates_throw (d := d) (.unexpectedToken shown)
    rcases Draft.demand_eq_none_iff.1 called with filled | leaf
    · cases right : d.right with
      | nil => exact absurd right filled
      | node a b c =>
        cases leaf : d.here.node.label.isLeaf <;> cases left : d.here.left <;>
          simpa only [Node.cell, leaf, right, left, Tree.root?, Option.map_none, Option.map_some,
            Bool.false_eq_true, if_false, if_true] using refused
    · simpa only [Node.cell, leaf, if_true] using refused

/-! ## Operators -/

/-- Whether an operator may follow, as the cell of the cursor tells. -/
theorem isUnary_of_demand (h : d.Regular) (called : d.demand = .none)
    (inner : d.here.node.label.isLeaf = false) :
    d.here.node.isUnary d.here.left.root? d.right.root? = true := by
  have filled := (Draft.demand_eq_none_iff.1 called).resolve_right (by simp [inner])
  cases right : d.right with
  | nil => exact absurd right filled
  | node a b c =>
    cases operator : d.here.node.label.isOperator with
    | true =>
      obtain ⟨left, other⟩ := h.settled operator filled
      have other : b.label.isOperator = false := by simpa [right, Tree.isOperator] using other
      simp [Node.isUnary, operator, left, other, Tree.root?]
    | false =>
      simp [Node.isUnary, Label.isGroup_of_inner inner operator]

/-- What an operator takes over, with the frame that it hangs in. -/
theorem exists_taken (h : d.Regular) {p : Int} {left : Tree} {above : List Frame}
    (climbed : Frame.climb p (d.here.close d.right) d.above = some (left, above)) :
    ∃ l m r f outer, left = .node l m r ∧ above = f :: outer ∧
      Frame.plug (.node l m r) (f :: outer) = d.tree ∧
        (f.node.label.isOperator = true → f.left = .nil → m.label.isOperator = true) := by
  have whole := Frame.plug_of_climb climbed
  obtain ⟨closed, f, outer, stack, -, -, taken, rfl⟩ := Frame.climb_eq_some_iff.1 climbed
  have chain := h.chained
  rw [Draft.Chained, stack] at chain
  obtain ⟨g, u, same, follows⟩ := Draft.exists_close_of_followed (t := d.right) chain
  rw [taken, same] at whole
  exact ⟨g.left, g.node, u, f, outer, taken.trans same, rfl, whole, follows⟩

/-- An operator behind a complete operand. -/
theorem splice_simulates (h : d.Regular) (o : Operator) :
    Simulates (splice d.here.node.serial o) d (d.splice o) := by
  have climbing := climb_cells o.leftPriority h.numbered
  rw [Simulates, splice, outcome_bind (outcome_follow climbing), Draft.splice]
  cases climbed : Frame.climb o.leftPriority (d.here.close d.right) d.above with
  | none =>
    simp only [Frame.close] at climbed
    rw [climbed]
    rfl
  | some found =>
    obtain ⟨left, above⟩ := found
    obtain ⟨l, m, r, f, outer, rfl, rfl, whole, follows⟩ := exists_taken h climbed
    have numbered := h.numbered
    rw [← whole] at numbered
    have cells : d.linked.cells = (Frame.plug (.node l m r) (f :: outer)).cells none := by
      rw [whole]
      rfl
    have target : m.serial < d.linked.cells.length := by
      rw [cells]
      exact Frame.serial_lt_length numbered
    have parent : f.node.serial < d.linked.cells.length := by
      rw [cells]
      exact Frame.serial_lt_length (l := f.left) (m := f.node) (r := .node l m r) numbered
    simp only [Frame.close] at climbed
    rw [climbed]
    dsimp only [Option.bind_some, Tree.serial?, Tree.root?, Option.map_some, Frame.place?,
      List.head?_cons]
    rw [outcome_bind outcome_make, outcome_bind (outcome_update (by simp)),
      outcome_bind (outcome_update (by simp; omega)),
      outcome_bind (outcome_update (by simp; omega)), outcome_moveTo]
    simp only [h.length_cells]
    rw [h.cells_spliced whole follows]
    rfl

/-- An operator in front of an operand, or behind a complete one. -/
theorem addOperator_simulates (h : d.Regular) (symbol : String) :
    Simulates (addOperator symbol) d (d.addOperator symbol) := by
  rw [addOperator, Draft.addOperator]
  cases known : Operator.ofSymbol? symbol with
  | none => exact simulates_throw _
  | some o =>
    obtain rfl := Operator.ofSymbol?_eq_some_iff.1 known
    refine Simulates.look h ?_
    cases called : d.demand with
    | first =>
      obtain ⟨group, free⟩ := Draft.demand_eq_first_iff.1 called
      have group : d.here.node.label.isGroup = true := group
      simp only [Node.cell, group, free, Tree.root?, Option.map_none, Option.isNone_none,
        Bool.and_self, if_true]
      exact simulates_descend h free fun _ _ => rfl
    | signed _ | second =>
      have called : d.demand = .second ∨ ∃ s, d.demand = .signed s := by simp [called]
      have free := Draft.right_of_demand (Draft.ne_none_of_operator called)
      have operator := Draft.isOperator_of_demand called
      have group := Label.isGroup_of_isOperator operator
      have inner := Label.isLeaf_of_isOperator operator
      simp only [Node.cell, group, operator, inner, free, Tree.root?, Option.map_none,
        Option.isNone_none, Node.isUnary_none, Bool.true_and, Bool.and_true,
        Bool.false_eq_true, if_false, Bool.not_false, if_true]
      cases o.isSign with
      | true => exact simulates_descend h free fun _ _ => rfl
      | false => exact simulates_throw _
    | none =>
      have spliced := splice_simulates h o
      cases leaf : d.here.node.label.isLeaf with
      | true =>
        have operator := Label.isOperator_of_isLeaf leaf
        have group := Label.isGroup_of_isLeaf leaf
        simpa only [Node.cell, leaf, operator, group, Bool.false_and, Bool.not_true,
          Bool.false_eq_true, if_false] using spliced
      | false =>
        have unary := isUnary_of_demand h called leaf
        have filled := (Draft.demand_eq_none_iff.1 called).resolve_right (by simp [leaf])
        have below : (d.right.root?.map Node.serial).isNone = false := by
          cases right : d.right with
          | nil => exact absurd right filled
          | node a b c => rfl
        simpa only [Node.cell, unary, below, Bool.and_false, Bool.not_true, Bool.false_eq_true,
          if_false] using spliced

/-! ## Parentheses -/

theorem openCall_simulates (h : d.Regular) {f : String}
    (label : d.here.node.label = .call f false) :
    Simulates (update d.here.node.serial fun c => { c with label := .call f true }) d
      (.ok (d.opened f)) := by
  rw [Simulates, outcome_update h.cursor_lt, h.cells_opened label]
  rfl

theorem openGroup_simulates (h : d.Regular) : Simulates openGroup d d.openGroup := by
  refine Simulates.look h ?_
  have group := addOperand_simulates (l := .group) h rfl "("
  rw [Draft.openGroup]
  cases label : d.here.node.label with
  | number s | var s | constant s =>
    have called : d.demand = .none := Draft.demand_eq_none_iff.2 (.inr (by rw [label]; rfl))
    simp only [Node.cell, label, Label.isLeaf, if_true, Draft.unopened?, Draft.addOperand, called]
    exact simulates_throw _
  | operator s | group =>
    simpa only [Node.cell, label, Label.isLeaf, Bool.false_eq_true, if_false, Draft.unopened?]
      using group
  | call f opened =>
    cases opened with
    | true =>
      simpa only [Node.cell, label, Label.isLeaf, Bool.false_eq_true, if_false, Draft.unopened?]
        using group
    | false =>
      simp only [Node.cell, label, Label.isLeaf, Bool.false_eq_true, if_false, Draft.unopened?]
      exact openCall_simulates h label

theorem closeGroup_simulates (h : d.Regular) : Simulates closeGroup d d.closeGroup := by
  have found := enclosing_cells h.numbered
  rw [Simulates, closeGroup, outcome_bind outcome_cursorPlace, outcome_bind (outcome_follow found),
    Draft.closeGroup]
  cases closed : Frame.toGroup? (d.here.close d.right) d.above with
  | none =>
    simp only [Frame.close] at closed
    rw [closed]
    rfl
  | some found =>
    obtain ⟨above, here, right⟩ := found
    have same := Draft.tree_of_toGroup? closed
    simp only [Frame.close] at closed
    rw [closed]
    change Part.some (Except.ok (), Linked.mk (d.tree.cells none) here.node.serial) = _
    rw [← same]
    rfl

/-! ## Tokens -/

theorem accept_simulates (h : d.Regular) (t : Token) : Simulates (accept t) d (d.accept t) := by
  obtain ⟨kind, text⟩ := t
  cases kind with
  | number => exact addOperand_simulates h rfl text
  | name =>
    have made : Token.operand? ⟨.name, text⟩ = some (Label.ofName text) := rfl
    exact addOperand_simulates h (Token.proper_of_operand? made).2 text
  | operator => exact addOperator_simulates h text
  | parenthesis =>
    simp only [accept, Draft.accept]
    split
    · exact openGroup_simulates h
    · split
      · exact closeGroup_simulates h
      · exact simulates_throw _

theorem push_simulates (h : d.Regular) (t : Token) : Simulates (push t) d (d.push t) := by
  refine Simulates.look h ?_
  have accepted := accept_simulates h t
  rw [Draft.push, Draft.unopened?]
  cases label : d.here.node.label with
  | call f opened =>
    cases opened with
    | true => simpa only [Node.cell, label] using accepted
    | false =>
      simp only [Node.cell, label]
      split
      · exact accepted
      · exact simulates_throw _
  | _ => simpa only [Node.cell, label] using accepted

/-! ## Lists of tokens -/

theorem attempt_eq (h : d.Regular) (t : Token) :
    d.linked.attempt t = .some (d.attempt t).linked :=
  congrArg (Part.map Prod.snd) (push_simulates h t)

/-- Any tokens do to the cells of a draft what they do to the draft. -/
theorem attemptAll_eq (h : d.Regular) (ts : List Token) :
    d.linked.attemptAll ts = .some (d.attemptAll ts).linked := by
  induction ts generalizing d with
  | nil => rfl
  | cons t ts ih =>
    rw [attemptAll, List.foldlM_cons, attempt_eq h]
    exact (Part.bind_some _ _).trans (ih (h.attempt t))

end Linked

end Formula
