import Formula.Proofs.Draft.Hollow
import Formula.Proofs.Draft.Inside
import Formula.Proofs.Linked.Replay

/-!
# Misplaced parentheses

A formula with as many parentheses in front of it as behind it is the same formula. With more on one
side than on the other it is no formula, and the parentheses are what is reported. The same holds of
a formula from which a closing parenthesis has been taken away.

Where tokens of any kind are accepted one by one but leave a parenthesis open, that is reported as
well, unless what is open holds nothing.

## Main definitions

* `Label.Lacks`, `Linked.FirstLack` — the error about a node that lacks what belongs on its right,
  and about the first of the cells that does.

The main results are `build_replicate_parentheses` and `finish_of_unclosed`.
-/

namespace Formula

namespace Draft

variable {d e : Draft} {ts us vs : List Token} {T : Tree}

/-! ## Formulas with a parenthesis too many or too few -/

theorem build_append (moves : Moves empty us d) (vs : List Token) :
    build (us ++ vs) = (do (← vs.foldlM push d).finish) := by
  rw [build, List.foldlM_append, foldlM_push_eq_ok_iff.2 moves]
  rfl

/-- A formula with more parentheses on one side than on the other. -/
theorem build_of_ne (plain : ∀ t ∈ ts, t.Plain) (built : build ts = .ok T) {j k : Nat}
    (h : j ≠ k) : build (.replicate j .opening ++ ts ++ .replicate k .closing) =
      .error .unbalancedParentheses := by
  obtain ⟨e, moves, finished⟩ := build_eq_ok_iff.1 built
  obtain ⟨d, openings, deeper⟩ := exists_openings rfl callsOpened_empty rfl rfl j
  obtain ⟨f, moves', deeper'⟩ := moves.deeper plain deeper
  have free := deeper'.unopened.trans (unopened?_of_finish moves plain finished)
  have depth := depth_of_finish finished
  have depth' := deeper'.depth
  rw [build_append (openings.append moves')]
  exact finish_closings deeper'.calls' free (.inl (by omega)) (by omega)

/-- A closing parenthesis behind something complete stands where nothing is called for, and leaves
it so. -/
theorem Move.deeper_of_closing (move : Move d .closing e) (moves : Moves empty us d)
    (plain : ∀ t ∈ us, t.Plain) (viable : e.Viable) : e.Deeper 1 d := by
  have calls := moves.callsOpened plain callsOpened_empty
  obtain ⟨depth, filled, free⟩ := move.of_closing calls
  obtain ⟨free', above, here, right, found, rfl⟩ := move_closing_iff.1 move
  exact ⟨(demand_of_close found viable).trans (demand_eq_none_iff.2 (.inl filled)).symm,
    free'.trans free.symm, depth, move.outermost moves.outermost,
    move.callsOpened (by decide) calls, calls⟩

/-- A formula from which a closing parenthesis has been taken away. -/
theorem build_of_missing (plain : ∀ t ∈ us ++ .closing :: vs, t.Plain)
    (built : build (us ++ .closing :: vs) = .ok T) :
    build (us ++ vs) = .error .unbalancedParentheses := by
  obtain ⟨before, after⟩ := List.forall_mem_append.1 plain
  obtain ⟨f, moves, finished⟩ := build_eq_ok_iff.1 built
  obtain ⟨d, first, rest⟩ := moves_append_iff.1 moves
  cases rest with
  | cons move rest =>
    have viable := rest.viable (viable_of_finish finished)
    -- What follows does the same without the parenthesis, one group deeper.
    obtain ⟨f', rest', deeper⟩ :=
      rest.deeper (List.forall_mem_cons.1 after).2 (move.deeper_of_closing first before viable)
    have depth := depth_of_finish finished
    have depth' := deeper.depth
    rw [build_append first, foldlM_push_eq_ok_iff.2 rest']
    exact finish_of_depth_ne_one (by omega) (.inl (by omega))

/-- As long as the outermost group holds nothing, there is no other group that holds nothing. -/
theorem right_ne_nil_of_hollow (outermost : (d.here :: d.above).getLast? = some empty.here)
    (root : d.depth = 0) (more : 1 < d.tree.hollow) : d.right ≠ .nil := by
  intro empty
  have outside : d.above = [] := by
    by_contra inside
    exact absurd (depth_pos_of_above outermost inside) (by omega)
  rw [outside] at outermost
  have here : d.here = Draft.empty.here := Option.some.inj outermost
  rw [tree, outside, here, empty] at more
  exact absurd more (by decide)

end Draft

/-! ## Parentheses around a formula -/

/-- Parentheses around a formula are accepted exactly if there are as many in front of it as behind
it, and then the formula stays as it is. Otherwise, and also if one that closes is missing within
the formula, it is the parentheses that are wrong. -/
theorem build_replicate_parentheses {ts : List Token} {T : Tree} (plain : ∀ t ∈ ts, t.Plain)
    (built : Draft.build ts = .ok T) :
    (∀ j k, ((∃ U, Draft.build (.replicate j .opening ++ ts ++ .replicate k .closing) = .ok U) ↔
        j = k) ∧
      (j ≠ k → Draft.build (.replicate j .opening ++ ts ++ .replicate k .closing) =
        .error .unbalancedParentheses)) ∧
    (∀ j, ∃ U, Draft.build (.replicate j .opening ++ ts ++ .replicate j .closing) = .ok U ∧
      U.render = T.render ∧ ∀ bindings, U.evaluate bindings = T.evaluate bindings) ∧
    ∀ us vs, ts = us ++ .closing :: vs →
      Draft.build (us ++ vs) = .error .unbalancedParentheses := by
  refine ⟨fun j k => ⟨⟨?_, ?_⟩, Draft.build_of_ne plain built⟩, fun j => ?_, ?_⟩
  · rintro ⟨U, accepted⟩
    by_contra other
    rw [Draft.build_of_ne plain built other] at accepted
    cases accepted
  · rintro rfl
    obtain ⟨U, accepted, -⟩ := Draft.exists_build_parenthesised plain built j
    exact ⟨U, accepted⟩
  · obtain ⟨U, accepted, alike⟩ := Draft.exists_build_parenthesised plain built j
    have finished := Draft.finished_of_build accepted
    exact ⟨U, accepted, alike.render,
      finished.evaluate_eq (Draft.finished_of_build built) alike.core⟩
  · rintro us vs rfl
    exact Draft.build_of_missing plain built

/-- Parentheses around `sin(x)`, and `sin(x` without the last one. -/
theorem build_replicate_parentheses_call :
    (∃ U, Draft.build [.opening, ⟨.name, "sin"⟩, .opening, ⟨.name, "x"⟩, .closing, .closing] =
      .ok U ∧ U.render = "sin(x)") ∧
    Draft.build [⟨.name, "sin"⟩, .opening, ⟨.name, "x"⟩, .closing, .closing] =
      .error .unbalancedParentheses ∧
    Draft.build [⟨.name, "sin"⟩, .opening, ⟨.name, "x"⟩] = .error .unbalancedParentheses := by
  have built : Draft.build [⟨.name, "sin"⟩, .opening, ⟨.name, "x"⟩, .closing] =
      .ok (.node .nil ⟨0, .group⟩ (.node .nil ⟨1, .call "sin" true⟩ (.leaf ⟨2, .var "x"⟩))) := rfl
  obtain ⟨number, same, missing⟩ := build_replicate_parentheses (by decide) built
  obtain ⟨U, accepted, shown, -⟩ := same 1
  exact ⟨⟨U, accepted, shown⟩, (number 0 1).2 (by decide),
    missing [⟨.name, "sin"⟩, .opening, ⟨.name, "x"⟩] [] rfl⟩

/-! ## What the first cell lacks -/

/-- What a node lacks that has nothing on its right, unless nothing belongs there. -/
inductive Label.Lacks : Label → ParseError → Prop where
  | group : Lacks .group .emptyExpression
  | call (f : String) : Lacks (.call f true) .emptyExpression
  | unopened (f : String) : Lacks (.call f false) (.expectedOpening f "end of input")
  | operator (symbol : String) : Lacks (.operator symbol) (.missingOperand symbol)

theorem Label.Lacks.ne_unbalanced {l : Label} {e : ParseError} (h : l.Lacks e) :
    e ≠ .unbalancedParentheses := by
  cases h <;> simp

theorem Label.defect?_eq_some_iff {l : Label} {e : ParseError} :
    l.defect? = some e ↔ l.Lacks e := by
  constructor
  · intro defect
    cases l with
    | number | var | constant => cases defect
    | operator symbol =>
      cases defect
      exact .operator symbol
    | group =>
      cases defect
      exact .group
    | call f opened =>
      cases opened <;> cases defect
      · exact .unopened f
      · exact .call f
  · rintro (_ | _ | _ | _) <;> rfl

/-- The error `e` is about the first of the cells that has nothing on its right although something
belongs there. -/
def Linked.FirstLack (cells : List Cell) (e : ParseError) : Prop :=
  ∃ before c after, cells = before ++ c :: after ∧ c.right = none ∧ c.label.Lacks e ∧
    ∀ b ∈ before, b.right = none → b.label.isLeaf = true

theorem Cell.defect?_eq_some_iff {c : Cell} {e : ParseError} :
    c.defect? = some e ↔ c.right = none ∧ c.label.Lacks e := by
  rw [← Label.defect?_eq_some_iff, defect?]
  cases c.right <;> simp

theorem Cell.defect?_eq_none_iff {c : Cell} :
    c.defect? = none ↔ (c.right = none → c.label.isLeaf = true) := by
  rw [← Label.defect?_eq_none_iff, defect?]
  cases c.right <;> simp

/-- The leftmost defect of a tree is that of the first of its cells that has one. -/
theorem Tree.defect?_eq_some_iff {t : Tree} {e : ParseError} (parent : Option Nat) :
    t.defect? = some e ↔ Linked.FirstLack (t.cells parent) e := by
  rw [← Linked.findSome?_cells t parent, List.findSome?_eq_some_iff]
  simp only [Cell.defect?_eq_some_iff, Cell.defect?_eq_none_iff, Linked.FirstLack, and_assoc]

/-! ## Parentheses left open -/

/-- Where all tokens are accepted and a parenthesis is left open, finishing says so, unless what is
left open are groups and functions that hold nothing. Then it says what the first cell lacks that
lacks something. -/
theorem finish_of_unclosed {ts : List Token} {d : Draft} (plain : ∀ t ∈ ts, t.Plain)
    (accepted : ts.foldlM Draft.push .empty = .ok d)
    (unclosed : ts.count .closing < ts.count .opening) :
    (ts.count .opening ≠ ts.count .closing + d.tree.hollow →
        d.finish = .error .unbalancedParentheses) ∧
      (ts.count .opening = ts.count .closing + d.tree.hollow →
        ∃ e, d.tree.defect? = some e ∧ e ≠ .unbalancedParentheses ∧ d.finish = .error e ∧
          Linked.FirstLack d.linked.cells e) := by
  have moves := Draft.foldlM_push_eq_ok_iff.1 accepted
  have balance := moves.balance plain Draft.callsOpened_empty
  have start : Draft.empty.depth + Draft.empty.tree.hollow = 1 := rfl
  constructor
  · intro other
    refine Draft.finish_of_depth_ne_one (by omega) ?_
    rcases Nat.eq_zero_or_pos d.depth with root | deep
    · exact .inr (Draft.right_ne_nil_of_hollow moves.outermost root (by omega))
    · exact .inl deep
  · intro same
    have lacking : d.tree.defect? ≠ none := by
      rw [Ne, Tree.defect?_eq_none_iff]
      intro complete
      have none := Tree.hollow_eq_zero complete
      omega
    obtain ⟨e, defect⟩ := Option.ne_none_iff_exists'.1 lacking
    have first := (Tree.defect?_eq_some_iff none).1 defect
    have other : e ≠ .unbalancedParentheses := by
      obtain ⟨-, c, -, -, -, lacks, -⟩ := first
      exact lacks.ne_unbalanced
    refine ⟨e, defect, other, ?_, first⟩
    rw [Draft.finish_of_depth_eq_one moves.outermost (by omega), defect]

/-- The parenthesis left open in `(1` holds something, the one in `-(` does not. -/
theorem finish_of_unclosed_number :
    Draft.build [.opening, ⟨.number, "1"⟩] = .error .unbalancedParentheses ∧
      Draft.build [⟨.operator, "-"⟩, .opening] = .error .emptyExpression := by
  have accepted : List.foldlM Draft.push .empty [.opening, ⟨.number, "1"⟩] =
      .ok ((Draft.empty.descend .group).descend (.number "1")) := rfl
  have accepted' : List.foldlM Draft.push .empty [⟨.operator, "-"⟩, .opening] =
      .ok ((Draft.empty.descend (.operator "-")).attach .group) := rfl
  have holding := (finish_of_unclosed (by decide) accepted (by decide)).1 (by decide)
  obtain ⟨e, defect, -, finished, -⟩ :=
    (finish_of_unclosed (by decide) accepted' (by decide)).2 (by decide)
  obtain rfl : .emptyExpression = e := Option.some.inj defect
  rw [Draft.build, Draft.build, accepted, accepted']
  exact ⟨holding, finished⟩

/-- Nothing stands behind the parenthesis left open in the text `(`, and it is this that is
reported. -/
theorem finish_opening : ¬ ∀ (text : String) (ts : List Token) (d : Draft),
    tokenize text = .ok ts → ts.foldlM Draft.push .empty = .ok d →
      ts.count .closing < ts.count .opening → d.finish = .error .unbalancedParentheses := by
  intro claim
  have read : tokenize "(" = .ok [.opening] :=
    Token.tokenizeChars_of_next? rfl Token.tokenizeChars_nil
  have finished := claim "(" [.opening] (Draft.empty.descend .group) read rfl (by decide)
  have empty : (Draft.empty.descend .group).finish = .error .emptyExpression := rfl
  rw [empty] at finished
  cases finished

end Formula
