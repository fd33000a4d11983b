import Formula.Proofs.Draft.Viable
import Formula.Proofs.Grammar.Meaning

/-!
# Every formula is built

The tokens of a formula lead from move to move, and what they leave behind is complete. By induction
on the derivation: an operand that is called for hangs below the cursor once its tokens are read,
and the content of a group hangs in the group.

## Main definitions

* `Draft.Holds` — a complete tree that hangs below a stack of frames, with the cursor inside it.

`Grammar.IsFormula.holds` is the induction and `exists_build_of_isFormula` the result.
-/

namespace Formula

namespace Draft

/-- The tree `t` hangs below `stack`, nothing is missing in it, and the cursor is inside it where
an operator may follow. The frames between are operators. -/
structure Holds (stack : List Frame) (t : Tree) (d : Draft) : Prop where
  hangs : ∃ inner, d.above = inner ++ stack ∧ (∀ f ∈ inner, f.node.label.isOperator = true) ∧
    Frame.plug (d.here.close d.right) inner = t
  complete : t.Complete
  free : d.unopened? = none

variable {d e : Draft} {t : Tree} {stack : List Frame}

theorem Holds.ne_nil (h : e.Holds stack t) : t ≠ .nil := by
  obtain ⟨inner, -, -, rfl⟩ := h.hangs
  exact Frame.plug_ne_nil Tree.noConfusion

theorem Holds.demand (h : e.Holds stack t) : e.demand = .none := by
  obtain ⟨inner, -, -, plugged⟩ := h.hangs
  have complete := h.complete
  rw [← plugged, Frame.complete_plug_iff Tree.noConfusion] at complete
  refine demand_eq_none_iff.2 ?_
  by_cases filled : e.right = .nil
  · exact .inr (complete.1.2.1 filled)
  · exact .inl filled

/-- What hangs below operators hangs, together with them, below the frames above. -/
theorem Holds.widen (inner : List Frame) (h : e.Holds (inner ++ stack) t)
    (operators : ∀ f ∈ inner, f.node.label.isOperator = true)
    (complete : ∀ f ∈ inner, f.left.Complete) : e.Holds stack (Frame.plug t inner) := by
  obtain ⟨between, above, others, plugged⟩ := h.hangs
  refine ⟨⟨between ++ inner, ?_, ?_, ?_⟩, ?_, h.free⟩
  · rw [above, List.append_assoc]
  · intro f member
    exact (List.mem_append.1 member).elim (others f) (operators f)
  · rw [Frame.plug_append, plugged]
  · exact (Frame.complete_plug_iff h.ne_nil).2 ⟨h.complete, complete⟩

/-- The group that the tree hangs in can be closed. -/
theorem Holds.toGroup? {g : Frame} {outer : List Frame} (h : e.Holds (g :: outer) t)
    (group : g.isGroup = true) :
    Frame.toGroup? (e.here.close e.right) e.above = some (outer, g, t) := by
  obtain ⟨inner, above, operators, rfl⟩ := h.hangs
  refine Frame.toGroup?_eq_some_iff.2 ⟨inner, above, fun f member => ?_, group, rfl⟩
  exact Label.isGroup_of_isOperator (operators f member)

/-! ## Operands -/

theorem holds_leaf {token : Token} {l : Label} (operand : token.operand? = some l)
    (leaf : l.isLeaf = true) (called : d.demand = .first ∨ d.demand = .second)
    (free : d.unopened? = none) :
    Moves d [token] (d.descend l) ∧
      (d.descend l).Holds (d.here :: d.above) (.leaf ⟨d.size, l⟩) := by
  refine ⟨.single (.descend operand called (.inl free)), ⟨[], rfl, nofun, rfl⟩, ?_, ?_⟩
  · exact ⟨trivial, fun _ => leaf, trivial⟩
  · refine unopened?_eq_none_iff.2 fun f call => ?_
    have call : l = .call f false := call
    simp [call, Label.isLeaf] at leaf

/-- A parenthesis closes the group that a complete tree hangs in. -/
theorem Holds.close {g : Frame} (h : e.Holds (g :: stack) t) (group : g.isGroup = true)
    (bare : g.left = .nil) (opened : ∀ f, g.node.label ≠ .call f false) :
    ∃ f, Move e .closing f ∧ f.Holds stack (.node .nil g.node t) := by
  refine ⟨_, .close h.free (h.toGroup? group), ⟨[], rfl, nofun, ?_⟩, ?_, ?_⟩
  · rw [← bare]
    rfl
  · exact ⟨trivial, fun none => absurd none h.ne_nil, h.complete⟩
  · exact unopened?_eq_none_iff.2 opened

theorem holds_group {ts : List Token} (called : d.demand = .first ∨ d.demand = .second)
    (free : d.unopened? = none) (moves : Moves (d.descend .group) ts e)
    (h : e.Holds (⟨.nil, ⟨d.size, .group⟩⟩ :: d.here :: d.above) t) :
    ∃ f, Moves d (.opening :: ts ++ [.closing]) f ∧
      f.Holds (d.here :: d.above) (.node .nil ⟨d.size, .group⟩ t) := by
  obtain ⟨f, closing, held⟩ := h.close rfl rfl nofun
  have opening : Move d .opening (d.descend .group) := .descend rfl called (.inl free)
  exact ⟨f, (Moves.cons opening moves).append (.single closing), held⟩

theorem holds_call {function : Token} {ts : List Token} (isFunction : function.IsFunction)
    (called : d.demand = .first ∨ d.demand = .second) (free : d.unopened? = none)
    (moves : Moves ((d.descend (.call function.text false)).opened function.text) ts e)
    (h : e.Holds (⟨.nil, ⟨d.size, .call function.text true⟩⟩ :: d.here :: d.above) t) :
    ∃ f, Moves d (function :: .opening :: ts ++ [.closing]) f ∧
      f.Holds (d.here :: d.above) (.node .nil ⟨d.size, .call function.text true⟩ t) := by
  obtain ⟨f, closing, held⟩ := h.close rfl rfl (by simp)
  have name : Move d function (d.descend (.call function.text false)) :=
    .descend (Token.isFunction_iff.1 isFunction) called (.inl free)
  exact ⟨f, (Moves.cons name (.cons (.openCall rfl) moves)).append (.single closing), held⟩

/-! ## Signs -/

/-- A sign may stand wherever an operand is called for. -/
theorem move_sign {o : Operator} (isSign : o.isSign = true) (called : d.demand ≠ .none)
    (free : d.unopened? = none) :
    Move d ⟨.operator, o.symbol⟩ (d.descend (.operator o.symbol)) := by
  cases demand : d.demand with
  | first => exact .lead o demand free
  | signed s => exact .sign o (.inr ⟨s, demand⟩) isSign
  | second => exact .sign o (.inl demand) isSign
  | none => exact absurd demand called

/-- The operand of a sign. -/
theorem holds_signed {token : Token} {l : Label} {o : Operator} (isSign : o.isSign = true)
    (operand : token.operand? = some l) (leaf : l.isLeaf = true) :
    Moves (d.descend (.operator o.symbol)) [token] ((d.descend (.operator o.symbol)).attach l) ∧
      ((d.descend (.operator o.symbol)).attach l).Holds (d.here :: d.above)
        (.node .nil ⟨d.size, .operator o.symbol⟩ (.leaf ⟨d.size + 1, l⟩)) :=
  ⟨.single (.attach operand rfl isSign), ⟨[], rfl, nofun, rfl⟩,
    ⟨trivial, nofun, trivial, fun _ => leaf, trivial⟩, rfl⟩

/-! ## Operators -/

/-- An operator takes over a part of what hangs in a group, and calls for its right operand. -/
theorem Holds.splice {g : Frame} {outer : List Frame} (h : e.Holds (g :: outer) t)
    (group : g.isGroup = true) (o : Operator) :
    ∃ left rest, Move e ⟨.operator, o.symbol⟩ (e.spliced o left (rest ++ g :: outer)) ∧
      (left.Complete ∧ left ≠ .nil) ∧
        ∀ f ∈ rest, f.node.label.isOperator = true ∧ f.left.Complete := by
  obtain ⟨inner, above, operators, plugged⟩ := h.hangs
  have complete := h.complete
  rw [← plugged, Frame.complete_plug_iff Tree.noConfusion] at complete
  obtain ⟨closed, rest, rfl, climbed⟩ := Frame.exists_climb (Frame.priority_lt_of_isGroup group o)
    (e.here.close e.right) inner outer
  rw [← above] at climbed
  refine ⟨_, rest, .splice o h.demand h.free climbed, ⟨?_, Frame.plug_ne_nil Tree.noConfusion⟩, ?_⟩
  · refine (Frame.complete_plug_iff Tree.noConfusion).2 ⟨complete.1, fun f member => ?_⟩
    exact complete.2 f (List.mem_append_left rest member)
  · intro f member
    have inside := List.mem_append_right closed member
    exact ⟨operators f inside, complete.2 f inside⟩

end Draft

namespace Grammar

open Draft

variable {d : Draft} {us : List Token}

theorem SignedLeaf.holds (h : SignedLeaf us) {d : Draft} (called : d.demand ≠ .none)
    (free : d.unopened? = none) : ∃ e t, Moves d us e ∧ e.Holds (d.here :: d.above) t := by
  induction h generalizing d with
  | one sign leaf =>
    obtain ⟨o, isSign, rfl⟩ := sign.exists_symbol
    obtain ⟨l, operand, isLeaf⟩ := Token.isLeaf_iff.1 leaf
    obtain ⟨moves, held⟩ := holds_signed (d := d) isSign operand isLeaf
    exact ⟨_, _, .cons (move_sign isSign called free) moves, held⟩
  | more sign _ ih =>
    obtain ⟨o, isSign, rfl⟩ := sign.exists_symbol
    obtain ⟨e, t, moves, held⟩ := ih (d := d.descend (.operator o.symbol)) nofun rfl
    refine ⟨e, _, .cons (move_sign isSign called free) moves, held.widen [_] ?_ ?_⟩
    · exact List.forall_mem_singleton.2 rfl
    · exact List.forall_mem_singleton.2 trivial

mutual

/-- The content of a group that is called for. -/
theorem IsFormula.holds {us : List Token} (h : IsFormula us) : ∀ {d : Draft}, d.demand = .first →
    d.unopened? = none → ∃ e t, Moves d us e ∧ e.Holds (d.here :: d.above) t := by
  intro d called free
  have group := (demand_eq_first_iff.1 called).1
  match h with
  | .operand operand => exact operand.holds (.inl called) free
  | .prefixed operator signed =>
    obtain ⟨o, rfl⟩ := operator.exists_symbol
    obtain ⟨e, t, moves, held⟩ := signed.holds (d := d.descend (.operator o.symbol)) nofun rfl
    refine ⟨e, _, .cons (.lead o called free) moves, held.widen [_] ?_ ?_⟩
    · exact List.forall_mem_singleton.2 rfl
    · exact List.forall_mem_singleton.2 trivial
  | .extend before operator operand =>
    obtain ⟨o, rfl⟩ := operator.exists_symbol
    obtain ⟨e, t, moves, held⟩ := before.holds called free
    obtain ⟨left, rest, move, ⟨complete, nonempty⟩, between⟩ := held.splice group o
    obtain ⟨f, u, moves', held'⟩ := operand.holds (.inr (demand_spliced nonempty)) rfl
    refine ⟨f, _, moves.append (.cons move moves'), held'.widen (_ :: rest) ?_ ?_⟩
    · exact List.forall_mem_cons.2 ⟨rfl, fun g member => (between g member).1⟩
    · exact List.forall_mem_cons.2 ⟨complete, fun g member => (between g member).2⟩

/-- An operand that is called for. -/
theorem IsOperand.holds {us : List Token} (h : IsOperand us) : ∀ {d : Draft},
    d.demand = .first ∨ d.demand = .second → d.unopened? = none →
      ∃ e t, Moves d us e ∧ e.Holds (d.here :: d.above) t := by
  intro d called free
  match h with
  | .leaf leaf =>
    obtain ⟨l, operand, isLeaf⟩ := Token.isLeaf_iff.1 leaf
    obtain ⟨moves, held⟩ := holds_leaf operand isLeaf called free
    exact ⟨_, _, moves, held⟩
  | .signed signed => exact signed.holds (ne_none_of_called called) free
  | .group content =>
    obtain ⟨e, t, moves, held⟩ := content.holds (d := d.descend .group) rfl rfl
    obtain ⟨f, moves', held'⟩ := holds_group called free moves held
    exact ⟨f, _, moves', held'⟩
  | .call (f := function) isFunction content =>
    obtain ⟨e, t, moves, held⟩ := content.holds
      (d := (d.descend (.call function.text false)).opened function.text) rfl rfl
    obtain ⟨f, moves', held'⟩ := holds_call isFunction called free moves held
    exact ⟨f, _, moves', held'⟩

end

end Grammar

/-- A draft that holds a tree in the outermost group is finished. -/
theorem Draft.Holds.build_eq {ts : List Token} {d : Draft} {t : Tree}
    (h : d.Holds [Draft.empty.here] t) (moves : Draft.Moves Draft.empty ts d) :
    Draft.build ts = .ok (.node .nil ⟨0, .group⟩ t) := by
  refine Draft.build_eq_ok_iff.2 ⟨d, moves, Draft.finish_eq_ok_iff.2 ⟨?_, ?_⟩⟩
  · exact ⟨trivial, fun none => absurd none h.ne_nil, h.complete⟩
  · exact ⟨Draft.empty.here, t, h.toGroup? rfl, rfl⟩

/-- Every formula is built. -/
theorem exists_build_of_isFormula {ts : List Token} (h : Grammar.IsFormula ts) :
    ∃ T, Draft.build ts = .ok T := by
  obtain ⟨d, t, moves, held⟩ := h.holds (d := Draft.empty) rfl rfl
  exact ⟨_, held.build_eq moves⟩

end Formula
