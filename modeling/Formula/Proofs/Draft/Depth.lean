import Formula.Proofs.Draft.Tokens

/-!
# How deep the cursor stands

The groups above the cursor are those that are still to be closed. Whether a token is refused
depends on what the cursor calls for and on whether there is such a group, but not on how many there
are. So a draft with more of them takes the same tokens.

## Main definitions

* `Draft.depth` — the number of groups above the cursor.
* `Draft.Deeper` — a draft that calls for the same as another one, with more groups above it.

`Draft.Move.deeper` is the step and `Draft.Moves.deeper` the run. `Draft.finish_of_depth_ne_one` and
`Draft.finish_of_depth_eq_one` say what finishing gives, and `Draft.finish_closings` what comes of
closing too few or too many groups before.
-/

namespace Formula

/-! ## Groups above a place -/

namespace Frame

variable {t left right : Tree} {above rest : List Frame} {here : Frame}

/-- The way to the nearest group passes the frames in front of the first one that is a group. -/
theorem getD_toGroup? (t : Tree) (above : List Frame) :
    ((toGroup? t above).map fun found => found.2.1 :: found.1).getD [] =
      above.dropWhile fun f => !f.isGroup := by
  induction above generalizing t with
  | nil => rfl
  | cons f above ih =>
    rw [toGroup?, List.dropWhile_cons]
    cases group : f.isGroup with
    | true => rfl
    | false => exact ih (f.close t)

/-- An operator leaves no group behind. -/
theorem countP_of_climb {o : Operator}
    (climbed : climb o.leftPriority t above = some (left, rest)) :
    rest.countP isGroup = above.countP isGroup := by
  obtain ⟨closed, f, outer, rfl, tight, -, -, rfl⟩ := climb_eq_some_iff.1 climbed
  have operators : closed.countP isGroup = 0 := List.countP_eq_zero.2 fun g member => by
    have operator := isOperator_of_le_priority (tight g member)
    simp [isGroup, Label.isGroup_of_isOperator operator]
  simp [operators]

theorem countP_of_toGroup? (found : toGroup? t above = some (rest, here, right)) :
    above.countP isGroup = rest.countP isGroup + 1 := by
  obtain ⟨closed, rfl, inside, group, -⟩ := toGroup?_eq_some_iff.1 found
  have others : closed.countP isGroup = 0 := List.countP_eq_zero.2 fun g member => by
    simp [inside g member]
  simp [others, group]

theorem countP_pos_of_getLast? {g : Frame} (last : above.getLast? = some g)
    (group : g.isGroup = true) : 0 < above.countP isGroup :=
  List.countP_pos_iff.2 ⟨g, List.mem_of_getLast? last, group⟩

theorem exists_toGroup? (h : 0 < above.countP isGroup) (t : Tree) :
    ∃ rest here right, toGroup? t above = some (rest, here, right) := by
  induction above generalizing t with
  | nil => simp at h
  | cons f above ih =>
    rw [toGroup?]
    cases group : f.isGroup with
    | true => exact ⟨above, f, t, rfl⟩
    | false =>
      rw [List.countP_cons_of_neg (by simp [group])] at h
      exact ih h (f.close t)

/-- An operator finds its place below the nearest group at the latest. -/
theorem exists_climb_of_countP (h : 0 < above.countP isGroup) (o : Operator) (t : Tree) :
    ∃ left rest, climb o.leftPriority t above = some (left, rest) := by
  obtain ⟨rest, here, right, found⟩ := exists_toGroup? h t
  obtain ⟨closed, rfl, -, group, -⟩ := toGroup?_eq_some_iff.1 found
  obtain ⟨inner, outer, -, climbed⟩ := exists_climb (priority_lt_of_isGroup group o) t closed rest
  exact ⟨_, _, climbed⟩

end Frame

namespace Draft

variable {d d' e : Draft} {t : Token} {ts : List Token} {n : Nat}

/-- The number of groups above the cursor. -/
def depth (d : Draft) : Nat :=
  d.above.countP Frame.isGroup

theorem isEmpty_above (h : 0 < d.depth) : d.above.isEmpty = false := by
  cases stack : d.above with
  | nil => simp [depth, stack] at h
  | cons f above => rfl

/-- The outermost group is above the cursor unless the cursor stands at it. -/
theorem depth_pos_of_above (outermost : (d.here :: d.above).getLast? = some empty.here)
    (h : d.above ≠ []) : 0 < d.depth := by
  cases stack : d.above with
  | nil => exact absurd stack h
  | cons f outer =>
    rw [stack, List.getLast?_cons_cons] at outermost
    rw [depth, stack]
    exact Frame.countP_pos_of_getLast? outermost rfl

theorem Moves.outermost (moves : Moves empty ts d) :
    (d.here :: d.above).getLast? = some empty.here :=
  moves.preserves (P := fun d => (d.here :: d.above).getLast? = some empty.here) rfl Move.outermost

theorem callsOpened_empty : empty.CallsOpened :=
  ⟨by simp [empty], nofun⟩

theorem Moves.callsOpened (moves : Moves d ts e) (plain : ∀ t ∈ ts, t.Plain)
    (h : d.CallsOpened) : e.CallsOpened := by
  induction moves with
  | nil d => exact h
  | cons move _ ih =>
    obtain ⟨first, rest⟩ := List.forall_mem_cons.1 plain
    exact ih rest (move.callsOpened first h)

/-! ## Finishing -/

/-- Finishing asks for the group that a closing parenthesis would close. -/
theorem finish_eq_match (d : Draft) :
    d.finish =
      if d.above.isEmpty && d.right.isNil then .error .emptyExpression
      else
        match Frame.toGroup? (d.here.close d.right) d.above with
        | some ([], _, _) =>
          match d.tree.defect? with
          | some e => .error e
          | none => .ok d.tree
        | _ => .error .unbalancedParentheses := by
  rw [finish, ← Frame.getD_toGroup? (d.here.close d.right)]
  cases Frame.toGroup? (d.here.close d.right) d.above with
  | none => rfl
  | some found => obtain ⟨_ | ⟨f, outer⟩, here, content⟩ := found <;> rfl

theorem depth_of_finish {T : Tree} (h : d.finish = .ok T) : d.depth = 1 := by
  obtain ⟨-, g, right, found, -⟩ := finish_eq_ok_iff.1 h
  exact Frame.countP_of_toGroup? found

/-- Where the cursor stands too deep or not deep enough, it is the parentheses that are wrong, once
there is more than the outermost group. -/
theorem finish_of_depth_ne_one (h : d.depth ≠ 1) (begun : 0 < d.depth ∨ d.right ≠ .nil) :
    d.finish = .error .unbalancedParentheses := by
  have filled : (d.above.isEmpty && d.right.isNil) = false := by
    rcases begun with deep | filled
    · rw [isEmpty_above deep, Bool.false_and]
    · rw [Tree.isNil_eq_false_iff.2 filled, Bool.and_false]
  rw [finish_eq_match, filled]
  cases found : Frame.toGroup? (d.here.close d.right) d.above with
  | none => rfl
  | some place =>
    obtain ⟨outer, here, content⟩ := place
    cases outer with
    | nil => exact absurd (Frame.countP_of_toGroup? found) h
    | cons f outer => rfl

/-- Where the outermost group alone is to be closed, what counts is what the tree lacks. -/
theorem finish_of_depth_eq_one (outermost : (d.here :: d.above).getLast? = some empty.here)
    (h : d.depth = 1) :
    d.finish = match d.tree.defect? with
      | some e => .error e
      | none => .ok d.tree := by
  have deep : 0 < d.depth := by omega
  obtain ⟨outer, here, content, found⟩ := Frame.exists_toGroup? deep (d.here.close d.right)
  rw [finish_eq_match, isEmpty_above deep, found]
  cases outer with
  | nil => rfl
  | cons f outer =>
    -- The last frame is a group as well, so there would be two of them.
    obtain ⟨closed, stack, -⟩ := Frame.toGroup?_eq_some_iff.1 found
    rw [stack, ← List.cons_append, List.getLast?_append_cons, List.getLast?_cons_cons] at outermost
    have more := Frame.countP_pos_of_getLast? outermost rfl
    have count := Frame.countP_of_toGroup? found
    rw [depth] at h
    omega

/-! ## Closing parentheses -/

theorem move_closing_iff : Move d .closing e ↔
    d.unopened? = none ∧ ∃ above here right,
      Frame.toGroup? (d.here.close d.right) d.above = some (above, here, right) ∧
        e = ⟨above, here, right, d.size⟩ := by
  constructor
  · intro move
    generalize same : Token.closing = t at move
    cases move with
    | close free found => exact ⟨free, _, _, _, found, rfl⟩
    | descend operand called free | attach operand called sign =>
      subst same
      cases operand
    | openCall label => exact absurd same (by decide)
    | lead o called free | sign o called isSign | splice o called free climbed => cases same
  · rintro ⟨free, above, here, right, found, rfl⟩
    exact .close free found

theorem exists_closing (free : d.unopened? = none) (h : 0 < d.depth) :
    ∃ e, Move d .closing e := by
  obtain ⟨above, here, right, found⟩ := Frame.exists_toGroup? h (d.here.close d.right)
  exact ⟨_, .close free found⟩

/-- A closing parenthesis closes one group, which then holds something. -/
theorem Move.of_closing (move : Move d .closing e) (calls : d.CallsOpened) :
    d.depth = e.depth + 1 ∧ e.right ≠ .nil ∧ e.unopened? = none := by
  obtain ⟨-, above, here, right, found, rfl⟩ := move_closing_iff.1 move
  obtain ⟨closed, stack, -⟩ := Frame.toGroup?_eq_some_iff.1 found
  exact ⟨Frame.countP_of_toGroup? found, Frame.ne_nil_of_toGroup? Tree.noConfusion found,
    unopened?_eq_none_iff.2 (calls.above here (by simp [stack]))⟩

theorem push_closing_of_depth (free : d.unopened? = none) (h : d.depth = 0) :
    d.push .closing = .error .unbalancedParentheses := by
  have outside : Frame.toGroup? (d.here.close d.right) d.above = none := by
    refine Option.eq_none_iff_forall_ne_some.2 fun ⟨above, here, right⟩ found => ?_
    have count := Frame.countP_of_toGroup? found
    rw [← depth, h] at count
    cases count
  rw [push_eq_accept (.inl free)]
  change d.closeGroup = _
  rw [closeGroup, outside]

/-! ## Drafts at different depths -/

theorem depth_descend (called : d.demand ≠ .none) (l : Label) :
    (d.descend l).depth = d.depth + if d.demand = .first then 1 else 0 := by
  have free := right_of_demand called
  simp [depth, descend, List.countP_cons, demand_eq_first_iff, free]

theorem demand_opened {f : String} (label : d.here.node.label = .call f false) :
    (d.opened f).demand = d.demand := by
  obtain ⟨above, ⟨left, serial, l⟩, right, size⟩ := d
  cases label
  cases left <;> cases right <;> rfl

/-- The second draft calls for the same as the first one and has `n` more groups above it. -/
structure Deeper (n : Nat) (d d' : Draft) : Prop where
  demand : d'.demand = d.demand
  unopened : d'.unopened? = d.unopened?
  depth : d'.depth = d.depth + n
  outermost : (d.here :: d.above).getLast? = some empty.here
  calls : d.CallsOpened
  calls' : d'.CallsOpened

/-- An operator finds its place in the deeper draft as well. How far it climbs may differ, but that
is within a group. -/
theorem Deeper.exists_climb {o : Operator} {left : Tree} {above : List Frame}
    (h : d.Deeper n d')
    (climbed : Frame.climb o.leftPriority (d.here.close d.right) d.above = some (left, above)) :
    ∃ left' above', Frame.climb o.leftPriority (d'.here.close d'.right) d'.above =
      some (left', above') := by
  have deep : 0 < d.depth := depth_pos_of_above h.outermost fun outside => by
    rw [outside] at climbed
    cases climbed
  have deep' : 0 < d'.depth := by
    rw [h.depth]
    omega
  exact Frame.exists_climb_of_countP deep' o _

theorem depth_spliced {o : Operator} {left : Tree} {above : List Frame}
    (climbed : Frame.climb o.leftPriority (d.here.close d.right) d.above = some (left, above)) :
    (d.spliced o left above).depth = d.depth :=
  Frame.countP_of_climb climbed

/-- A plain token does to a draft what it does to one that is less deep. -/
theorem Move.deeper (move : Move d t e) (plain : t.Plain) (h : d.Deeper n d') :
    ∃ e', Move d' t e' ∧ e.Deeper n e' := by
  have next : ∀ {e'}, Move d' t e' → e'.demand = e.demand → e'.unopened? = e.unopened? →
      e'.depth = e.depth + n → ∃ e', Move d' t e' ∧ e.Deeper n e' :=
    fun move' demand unopened depth => ⟨_, move', demand, unopened, depth,
      move.outermost h.outermost, move.callsOpened plain h.calls, move'.callsOpened plain h.calls'⟩
  have growing : ∀ l, d.demand ≠ .none → (d'.descend l).depth = (d.descend l).depth + n := by
    intro l called
    rw [depth_descend called, depth_descend (h.demand ▸ called), h.demand, h.depth]
    omega
  have filled : ∀ {d : Draft}, d.right ≠ .nil → d.demand = .none :=
    fun filled => demand_eq_none_iff.2 (.inl filled)
  cases move with
  | descend operand called free =>
    exact next (.descend operand (h.demand ▸ called) (h.unopened ▸ free)) rfl rfl
      (growing _ (ne_none_of_called called))
  | attach operand called sign =>
    exact next (.attach operand (h.demand.trans called) sign)
      ((filled Tree.noConfusion).trans (filled Tree.noConfusion).symm) h.unopened h.depth
  | openCall label =>
    have label' := unopened?_eq_some_iff.1 (h.unopened.trans (unopened?_eq_some_iff.2 label))
    have demand := (demand_opened label').trans (h.demand.trans (demand_opened label).symm)
    exact next (.openCall label') demand rfl h.depth
  | lead o called free =>
    exact next (.lead o (h.demand.trans called) (h.unopened.trans free)) rfl rfl
      (growing _ (by simp [called]))
  | sign o called isSign =>
    exact next (.sign o (h.demand ▸ called) isSign) rfl rfl (growing _ (ne_none_of_operator called))
  | splice o called free climbed =>
    obtain ⟨left', above', climbed'⟩ := h.exists_climb climbed
    have second := Frame.ne_nil_of_climb Tree.noConfusion climbed
    have second' := Frame.ne_nil_of_climb Tree.noConfusion climbed'
    refine next (.splice o (h.demand.trans called) (h.unopened.trans free) climbed')
      ((demand_spliced second').trans (demand_spliced second).symm) rfl ?_
    rw [depth_spliced climbed, depth_spliced climbed', h.depth]
  | close free found =>
    obtain ⟨count, right, unopened⟩ := Move.of_closing (.close free found) h.calls
    have deep := h.depth
    obtain ⟨e', move'⟩ := exists_closing (h.unopened.trans free) (by omega : 0 < d'.depth)
    obtain ⟨count', right', unopened'⟩ := move'.of_closing h.calls'
    exact next move' ((filled right').trans (filled right).symm) (unopened'.trans unopened.symm)
      (by omega)

/-- Plain tokens do to a draft what they do to one that is less deep. -/
theorem Moves.deeper (moves : Moves d ts e) (plain : ∀ t ∈ ts, t.Plain) (h : d.Deeper n d') :
    ∃ e', Moves d' ts e' ∧ e.Deeper n e' := by
  induction moves generalizing d' with
  | nil d => exact ⟨d', .nil d', h⟩
  | cons move _ ih =>
    obtain ⟨first, rest⟩ := List.forall_mem_cons.1 plain
    obtain ⟨e', move', next⟩ := move.deeper first h
    obtain ⟨f', moves', last⟩ := ih rest next
    exact ⟨f', .cons move' moves', last⟩

/-- Opening parentheses where a first operand is called for. -/
theorem exists_openings (outermost : (d.here :: d.above).getLast? = some empty.here)
    (calls : d.CallsOpened) (called : d.demand = .first) (free : d.unopened? = none) (n : Nat) :
    ∃ e, Moves d (.replicate n .opening) e ∧ d.Deeper n e := by
  induction n with
  | zero => exact ⟨d, .nil d, rfl, rfl, rfl, outermost, calls, calls⟩
  | succ n ih =>
    obtain ⟨e, moves, deeper⟩ := ih
    have called' := deeper.demand.trans called
    have opening : Move e .opening (e.descend .group) :=
      .descend rfl (.inl called') (.inl (deeper.unopened.trans free))
    rw [List.replicate_succ']
    refine ⟨_, moves.append (.single opening), called.symm, free.symm, ?_, outermost, calls,
      opening.callsOpened (by decide) deeper.calls'⟩
    rw [depth_descend (by simp [called']), if_pos called', deeper.depth, Nat.add_assoc]

/-- Closing parentheses that do not leave exactly the outermost group to be closed. -/
theorem finish_closings (calls : d.CallsOpened) (free : d.unopened? = none)
    (begun : 0 < d.depth ∨ d.right ≠ .nil) {k : Nat} (h : d.depth ≠ k + 1) :
    (do (← (List.replicate k Token.closing).foldlM push d).finish) =
      .error .unbalancedParentheses := by
  induction k generalizing d with
  | zero => exact finish_of_depth_ne_one h begun
  | succ k ih =>
    rw [List.replicate_succ, List.foldlM_cons]
    rcases Nat.eq_zero_or_pos d.depth with root | deep
    · -- The outermost group has been closed before.
      rw [push_closing_of_depth free root]
      rfl
    · obtain ⟨e, move⟩ := exists_closing free deep
      obtain ⟨count, filled, free'⟩ := move.of_closing calls
      rw [move.push_eq]
      exact ih (move.callsOpened (by decide) calls) free' (.inr filled) (by omega)

end Draft

end Formula
