import Formula.Proofs.Draft.Depth
import Formula.Proofs.Linked.WellFormed

/-!
# Refused tokens leave nothing behind

A token that is refused leaves the cells and the cursor as they were. So the cells after any tokens,
refused ones passed over, are those that the tokens which were not refused lead to by themselves,
and none of these is refused then. Finishing gives the same in both cases.

The main results are `Linked.finish_simulates` and `Linked.replay_taken`.
-/

namespace Formula

/-! ## Drafts -/

namespace Draft

/-- The tokens that are not refused lead to the same draft by themselves. -/
theorem moves_taken (d : Draft) (ts : List Token) : Moves d (d.taken ts) (d.attemptAll ts) := by
  induction ts generalizing d with
  | nil => exact .nil d
  | cons t ts ih =>
    rw [taken, attemptAll, List.foldl_cons, attempt]
    cases pushed : d.push t with
    | ok e => exact .cons (move_of_push pushed) (ih e)
    | error cause => exact ih d

theorem taken_sublist (d : Draft) (ts : List Token) : (d.taken ts).Sublist ts := by
  induction ts generalizing d with
  | nil => exact .slnil
  | cons t ts ih =>
    rw [taken]
    cases d.push t with
    | ok e => exact (ih e).cons_cons t
    | error cause => exact (ih d).cons t

theorem plain_taken (d : Draft) {ts : List Token} (plain : ∀ t ∈ ts, t.Plain) :
    ∀ t ∈ d.taken ts, t.Plain := fun t member =>
  plain t ((d.taken_sublist ts).subset member)

theorem build_taken (ts : List Token) :
    build (empty.taken ts) = (empty.attemptAll ts).finish := by
  rw [build, foldlM_push_eq_ok_iff.2 (moves_taken empty ts)]
  rfl

end Draft

namespace Linked

variable {d e : Draft} {ts : List Token}

/-! ## Finishing -/

/-- The cell of the outermost group, which holds nothing as long as there is no other node. -/
theorem exists_root (h : d.Regular) : ∃ c : Cell, d.linked.cells[0]? = some c ∧
    c.right.isNone = (d.above.isEmpty && d.right.isNil) := by
  obtain ⟨content, whole, empty⟩ : ∃ content, d.tree = .node .nil ⟨0, .group⟩ content ∧ _ :=
    exists_plug_eq_close h.outermost d.right
  have numbered : (Frame.plug (.node .nil ⟨0, .group⟩ content) []).serials = List.range d.size :=
    whole ▸ h.numbered
  refine ⟨Node.cell ⟨0, .group⟩ none content.root? none, ?_, ?_⟩
  · rw [Draft.linked, whole]
    exact Frame.getElem?_cells numbered
  · rw [← empty]
    cases content <;> rfl

/-- The cell of the group that a closing parenthesis would close. -/
theorem getElem?_group (h : d.Regular) {outer : List Frame} {here : Frame} {content : Tree}
    (found : Frame.toGroup? (d.here.close d.right) d.above = some (outer, here, content)) :
    d.linked.cells[here.node.serial]? =
      some (here.node.cell here.left.root? content.root? (Frame.place? outer)) := by
  have whole : Frame.plug (.node here.left here.node content) outer = d.tree :=
    Frame.plug_of_toGroup? found
  have numbered := h.numbered
  rw [← whole] at numbered
  rw [Draft.linked, ← whole]
  exact Frame.getElem?_cells numbered

/-- Cells are searched for what they lack in the order of the nodes. -/
theorem findSome?_cells (t : Tree) (parent : Option Nat) :
    (t.cells parent).findSome? Cell.defect? = t.defect? := by
  induction t generalizing parent with
  | nil => rfl
  | node l n r ihl ihr =>
    have here : (n.cell l.root? r.root? parent).defect? =
        if r.isNil then n.label.defect? else none := by
      cases r <;> simp [Cell.defect?, Node.cell, Tree.root?, Tree.isNil]
    rw [Tree.cells, List.findSome?_append, ihl, List.findSome?_cons, here, ihr, Tree.defect?]
    cases (if r.isNil then n.label.defect? else none) <;> rfl

/-- Finishing the cells of a draft gives the cells of the finished tree, and changes nothing. -/
theorem finish_simulates (h : d.Regular) :
    finish.outcome d.linked = .some (d.finish.map (Tree.cells none), d.linked) := by
  obtain ⟨root, first, empty⟩ := exists_root h
  have group : enclosing d.linked.cells d.linked.cursor =
      .some ((Frame.toGroup? (d.here.close d.right) d.above).map fun found =>
        found.2.1.node.serial) := enclosing_cells h.numbered
  rw [finish, outcome_bind (outcome_cell first), Draft.finish_eq_match, empty]
  cases d.above.isEmpty && d.right.isNil with
  | true => rfl
  | false =>
    simp only [Bool.false_eq_true, if_false]
    rw [outcome_bind outcome_cursorPlace, outcome_bind (outcome_follow group)]
    cases found : Frame.toGroup? (d.here.close d.right) d.above with
    | none => rfl
    | some place =>
      obtain ⟨outer, here, content⟩ := place
      dsimp only [Option.map_some]
      rw [outcome_bind (outcome_cell (getElem?_group h found))]
      cases outer with
      | cons f outer => rfl
      | nil =>
        have lacking : d.linked.cells.findSome? Cell.defect? = d.tree.defect? :=
          findSome?_cells d.tree none
        simp only [Node.cell, Frame.place?, List.head?_nil, Option.map_none, Option.isSome_none,
          Bool.false_eq_true, if_false]
        rw [outcome_bind (outcome_follow rfl), lacking]
        cases d.tree.defect? <;> rfl

/-! ## Tokens that are refused, and others -/

theorem push_of_error {t : Token} {cause : ParseError} (h : d.Regular)
    (refused : d.push t = .error cause) :
    (push t).outcome d.linked = .some (.error cause, d.linked) := by
  have simulated := push_simulates h t
  rw [refused] at simulated
  exact simulated

theorem push_of_move {t : Token} (h : d.Regular) (move : Draft.Move d t e) :
    (push t).outcome d.linked = .some (.ok (), e.linked) := by
  have simulated := push_simulates h t
  rw [move.push_eq] at simulated
  exact simulated

/-- A token leads to other cells, or it is refused and nothing changes. -/
theorem push_atomic (h : d.Regular) (t : Token) :
    (∃ g, (push t).outcome d.linked = .some (.ok (), g)) ∨
      ∃ cause, (push t).outcome d.linked = .some (.error cause, d.linked) := by
  cases pushed : d.push t with
  | ok e => exact .inl ⟨_, push_of_move h (Draft.move_of_push pushed)⟩
  | error cause => exact .inr ⟨cause, push_of_error h pushed⟩

theorem taken_linked (h : d.Regular) (ts : List Token) :
    taken d.linked ts = .some (d.taken ts) := by
  induction ts generalizing d with
  | nil => rfl
  | cons t ts ih =>
    rw [taken, Draft.taken]
    cases pushed : d.push t with
    | ok e =>
      have move := Draft.move_of_push pushed
      simp [push_of_move h move, ih (move.regular h), Except.isOk, Except.toBool]
    | error cause => simp [push_of_error h pushed, ih h, Except.isOk, Except.toBool]

/-- Tokens of which none is refused do to the cells of a draft what they do to the draft. -/
theorem pushAll_of_moves (moves : Draft.Moves d ts e) (h : d.Regular) :
    (pushAll ts).outcome d.linked = .some (.ok (), e.linked) := by
  induction moves with
  | nil d => rfl
  | cons move _ ih =>
    rw [pushAll, List.forM_eq_forM, List.forM_cons, outcome_bind (push_of_move h move)]
    exact ih (move.regular h)

/-- Whatever tokens have been read, one that is refused leaves all cells and the cursor as they
were. So the tokens that were not refused lead to the same cells by themselves, without any of them
being refused, and what comes of finishing is what is built from them. -/
theorem replay_taken (ts : List Token) :
    ∃ g kept, empty.attemptAll ts = .some g ∧ empty.taken ts = .some kept ∧
      (∀ t, (∃ g', (push t).outcome g = .some (.ok (), g')) ∨
        ∃ cause, (push t).outcome g = .some (.error cause, g)) ∧
      (pushAll kept).outcome empty = .some (.ok (), g) ∧
      (build kept).outcome empty = finish.outcome g ∧
      finish.outcome g = .some ((Draft.build kept).map (Tree.cells none), g) := by
  have regular := Draft.regular_empty.attemptAll ts
  have again : (pushAll (Draft.empty.taken ts)).outcome empty =
      .some (.ok (), (Draft.empty.attemptAll ts).linked) :=
    pushAll_of_moves (Draft.moves_taken _ ts) Draft.regular_empty
  refine ⟨_, _, attemptAll_eq Draft.regular_empty ts, taken_linked Draft.regular_empty ts,
    push_atomic regular, again, ?_, ?_⟩
  · rw [build, outcome_bind again]
  · rw [finish_simulates regular, Draft.build_taken]

/-- In `1 2 + * x` the tokens `2` and `*` are refused. -/
example : Draft.empty.taken [⟨.number, "1"⟩, ⟨.number, "2"⟩, ⟨.operator, "+"⟩, ⟨.operator, "*"⟩,
    ⟨.name, "x"⟩] = [⟨.number, "1"⟩, ⟨.operator, "+"⟩, ⟨.name, "x"⟩] := by
  decide

end Linked

end Formula
