import Formula.Proofs.Draft.Tokens

/-!
# What stands behind the cursor

The cursor moves down on the right and up to groups. What is on the left of it, and what a group
holds to which it has moved up, lies behind it: an operator may take all of it over, and a closing
parenthesis may put it into a larger group, but nothing in it changes any more. Once the cursor has
left the outermost group in this way, nothing changes at all.

## Main definitions

* `Draft.Behind` — the parts of a draft that lie behind the cursor.

`Draft.Move.behind` is the step and `Draft.Moves.behind` the run, `Draft.Behind.mem_parts_tree` says
that what lies behind the cursor is a part of the tree, and `Draft.not_move_of_outside` that there
is no move behind the outermost group.
-/

namespace Formula

/-- A part of what is put at a place, or of what is on the left above it, is a part of the tree. -/
theorem Frame.mem_parts_plug {t u : Tree} {above : List Frame}
    (h : u ∈ t.parts ∨ ∃ g ∈ above, u ∈ g.left.parts) : u ∈ (plug t above).parts := by
  induction above generalizing t with
  | nil => simpa [plug] using h
  | cons f above ih =>
    refine ih ?_
    rw [close, Tree.mem_parts_node]
    grind

namespace Draft

variable {d e : Draft} {t : Token} {ts : List Token} {u : Tree}

/-- A part that lies behind the cursor. The last case is a group at the cursor that has been closed,
or more precisely one that the cursor has moved up to and that holds something. -/
inductive Behind (u : Tree) (d : Draft) : Prop where
  | left {g : Frame} (member : g ∈ d.here :: d.above) (part : u ∈ g.left.parts)
  | right (part : u ∈ d.right.parts)
  | cursor (group : d.here.isGroup = true) (filled : d.right ≠ .nil)
      (whole : u = d.here.close d.right)

namespace Behind

/-- With nothing on the right of the cursor, what lies behind it is on the left. -/
theorem exists_left (h : d.Behind u) (free : d.right = .nil) :
    ∃ g ∈ d.here :: d.above, u ∈ g.left.parts := by
  cases h with
  | left member part => exact ⟨_, member, part⟩
  | right part =>
    rw [free] at part
    cases part
  | cursor group filled whole => exact absurd free filled

/-- On the way up, what lies behind the cursor is closed with the frames or left on their left. -/
theorem up (h : d.Behind u) {closed outer : List Frame} (stack : d.above = closed ++ outer) :
    u ∈ (Frame.plug (d.here.close d.right) closed).parts ∨ ∃ g ∈ outer, u ∈ g.left.parts := by
  have here : u ∈ (d.here.close d.right).parts →
      u ∈ (Frame.plug (d.here.close d.right) closed).parts := fun part =>
    Frame.mem_parts_plug (.inl part)
  cases h with
  | @left g member part =>
    rw [stack, List.mem_cons, List.mem_append] at member
    rcases member with rfl | inside | outside
    · exact .inl (here (Tree.mem_parts_node.2 (.inr (.inl part))))
    · exact .inl (Frame.mem_parts_plug (.inr ⟨g, inside, part⟩))
    · exact .inr ⟨g, outside, part⟩
  | right part => exact .inl (here (Tree.mem_parts_node.2 (.inr (.inr part))))
  | cursor group filled whole => exact .inl (here (Tree.mem_parts_node.2 (.inl whole)))

theorem mem_parts_tree (h : d.Behind u) : u ∈ d.tree.parts :=
  (h.up (List.append_nil d.above).symm).resolve_right (by simp)

end Behind

/-- What lies behind the cursor stays there. A function that holds something has been opened, so
that no opening parenthesis changes it. -/
theorem Move.behind (move : Move d t e) (calls : d.CallsOpened) (h : d.Behind u) : e.Behind u := by
  have growing : ∀ l, d.demand ≠ .none → (d.descend l).Behind u := by
    intro l called
    obtain ⟨g, member, part⟩ := h.exists_left (right_of_demand called)
    exact .left (List.mem_cons_of_mem _ member) part
  cases move with
  | descend operand called free => exact growing _ (ne_none_of_called called)
  | attach operand called sign =>
    obtain ⟨g, member, part⟩ := h.exists_left (right_of_demand (by simp [called]))
    exact .left member part
  | openCall label =>
    obtain ⟨g, member, part⟩ := h.exists_left (calls.here _ label)
    rcases List.mem_cons.1 member with rfl | above
    · exact .left List.mem_cons_self part
    · exact .left (List.mem_cons_of_mem _ above) part
  | lead o called free => exact growing _ (by simp [called])
  | sign o called sign => exact growing _ (ne_none_of_operator called)
  | splice o called free climbed =>
    obtain ⟨closed, f, outer, stack, -, -, rfl, rfl⟩ := Frame.climb_eq_some_iff.1 climbed
    rcases h.up stack with part | ⟨g, member, part⟩
    · exact .left List.mem_cons_self part
    · exact .left (List.mem_cons_of_mem _ member) part
  | close free found =>
    obtain ⟨closed, stack, -, -, rfl⟩ := Frame.toGroup?_eq_some_iff.1 found
    rcases h.up stack with part | ⟨g, member, part⟩
    · exact .right part
    · exact .left member part

theorem Moves.behind (moves : Moves d ts e) (plain : ∀ t ∈ ts, t.Plain) (calls : d.CallsOpened)
    (h : d.Behind u) : e.Behind u := by
  induction moves with
  | nil d => exact h
  | cons move _ ih =>
    obtain ⟨first, rest⟩ := List.forall_mem_cons.1 plain
    exact ih rest (move.callsOpened first calls) (move.behind calls h)

/-! ## Behind the outermost group -/

/-- Nothing is called for behind the outermost group, and nothing can be taken over or closed. -/
theorem not_move_of_outside (outside : d.above = []) (called : d.demand = .none)
    (free : d.unopened? = none) : ¬ Move d t e := by
  intro move
  rcases move.of_demand_none called free with ⟨o, taken, -, climbed⟩ | ⟨place, -, found⟩
  · rw [outside] at climbed
    cases climbed
  · rw [outside] at found
    cases found

end Draft

end Formula
