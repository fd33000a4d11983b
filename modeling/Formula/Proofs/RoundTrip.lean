import Formula.Proofs.Grammar.Acceptance
import Formula.Proofs.Parse
import Formula.Proofs.Tree.Core
import Formula.Proofs.Tree.Render

/-!
# Reading a rendering back

A tree is written out with parentheses around every operator. Read back, they become groups, but
what they hold is put together as it was. Only an operator in front of another one is written out in
a way that is refused.

## Main definitions

* `Tree.Alike` — trees with the same core and the same rendering.
* `Tree.Unnested` — no operator stands in front of another one.
* `Tree.contentTokens` — the tokens of a rendering without the outermost parentheses.
* `Draft.Restores` — tokens that put a tree like a given one below the cursor.

`Tree.Finished.restores` is the induction over a tree and `parse_render_iff` the result.
-/

namespace Formula

namespace Tree

/-- Whether two trees have the same core and are written out alike. -/
structure Alike (t u : Tree) : Prop where
  core : t.core = u.core
  render : t.render = u.render

/-- Whether no operator without a left operand has an operator as its right one. -/
def Unnested (t : Tree) : Prop :=
  ∀ n r, .node .nil n r ∈ t.parts → n.label.isOperator = true → r.isOperator = false

/-- The tokens that a tree is written out with, without the parentheses of an operator. -/
def contentTokens : Tree → List Token
  | .nil => []
  | .node left n right =>
    if n.label.isOperator then left.renderTokens ++ n.label.tokens ++ right.renderTokens
    else renderTokens (.node left n right)

theorem renderTokens_of_isOperator {t : Tree} (h : t.isOperator = true) :
    t.renderTokens = .opening :: t.contentTokens ++ [.closing] := by
  cases t with
  | nil => cases h
  | node left n right =>
    have operator : n.label.isOperator = true := h
    cases label : n.label with
    | operator s => simp [renderTokens, contentTokens, label, Label.isOperator, Label.tokens]
    | _ => simp [label, Label.isOperator] at operator

theorem contentTokens_of_not_isOperator {t : Tree} (h : t.isOperator = false) :
    t.contentTokens = t.renderTokens := by
  cases t with
  | nil => rfl
  | node left n right =>
    have other : n.label.isOperator = false := h
    rw [contentTokens, other]
    rfl

/-- A call is written out with one pair of parentheses, whatever it holds. -/
theorem renderTokens_call {l r : Tree} {n : Node} {f : String} {opened : Bool}
    (label : n.label = .call f opened) :
    (Tree.node l n r).renderTokens = ⟨.name, f⟩ :: .opening :: r.contentTokens ++ [.closing] := by
  cases operator : r.isOperator with
  | true => simp [renderTokens, label, operator, renderTokens_of_isOperator operator]
  | false => simp [renderTokens, label, operator, contentTokens_of_not_isOperator operator]

theorem renderTokens_leaf {l r : Tree} {n : Node} (h : n.label.isLeaf = true) :
    (Tree.node l n r).renderTokens = n.label.tokens := by
  cases label : n.label with
  | number s | var s | constant s => simp [renderTokens, label, Label.tokens]
  | _ => simp [label, Label.isLeaf] at h

/-! ## Trees that are alike -/

theorem Alike.trans {t u v : Tree} (h : t.Alike u) (h' : u.Alike v) : t.Alike v :=
  ⟨h.core.trans h'.core, h.render.trans h'.render⟩

/-- Serial numbers make no difference. -/
theorem Alike.leaf {n n' : Node} (label : n.label = n'.label) :
    (Tree.leaf n).Alike (.leaf n') := by
  constructor
  · simp only [Tree.leaf, Tree.core, label]
  · simp only [Tree.leaf, Tree.render, label]

theorem Alike.operator {l l' r r' : Tree} {i : Nat} {n : Node} {s : String}
    (label : n.label = .operator s) (left : l'.Alike l) (right : r'.Alike r)
    (nil : l'.isNil = l.isNil) : (Tree.node l' ⟨i, .operator s⟩ r').Alike (.node l n r) := by
  constructor
  · simp only [Tree.core, label, left.core, right.core]
  · simp only [Tree.render, label, left.render, right.render, nil]

theorem Alike.call {l r u : Tree} {i : Nat} {n : Node} {f : String} {opened : Bool}
    (label : n.label = .call f opened) (argument : u.Alike r)
    (operator : u.isOperator = r.isOperator) :
    (Tree.node .nil ⟨i, .call f true⟩ u).Alike (.node l n r) := by
  constructor
  · simp only [Tree.core, label, argument.core]
  · simp only [Tree.render, label, argument.render, operator]

/-- A group shows neither in the core nor in the rendering. -/
theorem Alike.group {t u : Tree} (i : Nat) (h : u.Alike t) :
    (Tree.node .nil ⟨i, .group⟩ u).Alike t :=
  ⟨h.core, h.render⟩

theorem Alike.of_group {l r u : Tree} {n : Node} (label : n.label = .group) (h : u.Alike r) :
    u.Alike (.node l n r) := by
  constructor
  · simp only [Tree.core, label, h.core]
  · simp only [Tree.render, label, h.render]

end Tree

namespace Draft

open Formula.Tree

variable {d e : Draft}

/-- Whether the tokens `us` put a tree like `t` below the cursor; `operator` says whether an
operator stands at its root. -/
def Restores (d : Draft) (us : List Token) (t : Tree) (operator : Bool) : Prop :=
  ∃ e u, Moves d us e ∧ e.Holds (d.here :: d.above) u ∧ u.Alike t ∧ u.isOperator = operator

/-- An operator takes over the whole of what hangs in a group if no operator stands at its root. -/
theorem Holds.splice_whole {g : Frame} {outer : List Frame} {t : Tree} (h : e.Holds (g :: outer) t)
    (group : g.isGroup = true) (other : t.isOperator = false) (o : Operator) :
    Move e ⟨.operator, o.symbol⟩ (e.spliced o t (g :: outer)) := by
  obtain ⟨inner, above, operators, plugged⟩ := h.hangs
  cases inner with
  | nil =>
    refine .splice o h.demand h.free (Frame.climb_eq_some_iff.2 ⟨[], g, outer, above, nofun, ?_⟩)
    exact ⟨Frame.priority_lt_of_isGroup group o, plugged.symm, rfl⟩
  | cons f inner =>
    obtain ⟨operator, others⟩ := List.forall_mem_cons.1 operators
    have root := Frame.isOperator_plug (t := f.close (e.here.close e.right)) operator others
    rw [show Frame.plug (f.close (e.here.close e.right)) inner = t from plugged, other] at root
    cases root

variable {l r t : Tree} {n : Node}

theorem restores_leaf (h : (Tree.node l n r).Finished) (leaf : n.label.isLeaf = true)
    (called : d.demand = .first ∨ d.demand = .second) (free : d.unopened? = none) :
    d.Restores (Tree.node l n r).renderTokens (.node l n r) false := by
  obtain ⟨token, read, operand⟩ := h.proper.1.1.exists_operand leaf
  obtain ⟨moves, held⟩ := holds_leaf operand leaf called free
  obtain ⟨rfl, rfl⟩ := h.eq_leaf leaf
  rw [renderTokens_leaf leaf, read]
  exact ⟨_, _, moves, held, .leaf rfl, Label.isOperator_of_isLeaf leaf⟩

/-- In parentheses, an operator is an operand. -/
theorem restores_group (operator : t.isOperator = true)
    (content : (d.descend .group).Restores t.contentTokens t true)
    (called : d.demand = .first ∨ d.demand = .second) (free : d.unopened? = none) :
    d.Restores t.renderTokens t false := by
  obtain ⟨e, u, moves, held, alike, -⟩ := content
  obtain ⟨f, moves', held'⟩ := holds_group called free moves held
  rw [renderTokens_of_isOperator operator]
  exact ⟨f, _, moves', held', alike.group d.size, rfl⟩

theorem restores_call (h : (Tree.node l n r).Finished) {f : String} {isOpened : Bool}
    (label : n.label = .call f isOpened)
    (content : ((d.descend (.call f false)).opened f).Restores r.contentTokens r r.isOperator)
    (called : d.demand = .first ∨ d.demand = .second) (free : d.unopened? = none) :
    d.Restores (Tree.node l n r).renderTokens (.node l n r) false := by
  obtain ⟨e, u, moves, held, alike, operator⟩ := content
  obtain ⟨g, moves', held'⟩ := holds_call (h.isFunction_of_call label) called free moves held
  rw [renderTokens_call label]
  exact ⟨g, _, moves', held', .call label alike operator, rfl⟩

/-- An operator between two operands. -/
theorem restores_operator {o : Operator} (label : n.label = .operator o.symbol)
    (called : d.demand = .first) (nonempty : l ≠ .nil) (left : d.Restores l.renderTokens l false)
    (right : ∀ {e : Draft}, e.demand = .second → e.unopened? = none →
      e.Restores r.renderTokens r false) :
    d.Restores (Tree.node l n r).contentTokens (.node l n r) true := by
  obtain ⟨e, u, moves, held, alike, other⟩ := left
  have move := held.splice_whole (demand_eq_first_iff.1 called).1 other o
  obtain ⟨f, w, moves', held', alike', other'⟩ :=
    right (e := e.spliced o u (d.here :: d.above)) (demand_spliced held.ne_nil) rfl
  refine ⟨f, .node u ⟨e.size, .operator o.symbol⟩ w, ?_, ?_, ?_, rfl⟩
  · have all := moves.append (.cons move moves')
    simpa [contentTokens, label, Label.isOperator, Label.tokens] using all
  · refine held'.widen [_] ?_ ?_
    · exact List.forall_mem_singleton.2 rfl
    · exact List.forall_mem_singleton.2 held.complete
  · refine .operator label alike alike' ?_
    cases u with
    | nil => exact absurd rfl held.ne_nil
    | node =>
      cases l with
      | nil => exact absurd rfl nonempty
      | node => rfl

/-- A sign in front of a leaf. -/
theorem restores_signed (h : (Tree.node .nil n r).Finished) (operator : n.label.isOperator = true)
    (bare : r.isOperator = false) (called : d.demand = .first) (free : d.unopened? = none) :
    d.Restores (Tree.node .nil n r).contentTokens (.node .nil n r) true := by
  rcases h.signed_cases operator with ⟨m, rfl, leaf, o, isSign, label⟩ | ⟨behind, -⟩
  · obtain ⟨token, read, operand⟩ := h.right.proper.1.1.exists_operand leaf
    obtain ⟨moves, held⟩ := holds_signed (d := d) isSign operand leaf
    refine ⟨_, _, ?_, held, .operator label ⟨rfl, rfl⟩ (.leaf rfl) rfl, rfl⟩
    have all := Moves.cons (move_sign isSign (by simp [called]) free) moves
    have shown : renderTokens (.leaf m) = [token] := (renderTokens_leaf leaf).trans read
    simpa [contentTokens, renderTokens, label, Label.isOperator, Label.tokens, shown] using all
  · simp [behind] at bare

end Draft

namespace Tree

variable {l r t : Tree} {n : Node}

theorem Unnested.left (h : (Tree.node l n r).Unnested) : l.Unnested :=
  fun m s part => h m s (mem_parts_node.2 (.inr (.inl part)))

theorem Unnested.right (h : (Tree.node l n r).Unnested) : r.Unnested :=
  fun m s part => h m s (mem_parts_node.2 (.inr (.inr part)))

open Draft

/-- What a tree is written out with puts a tree like it where an operand is called for, and without
its outermost parentheses where a group is to be filled. -/
theorem Finished.restores (h : t.Finished) (nonempty : t ≠ .nil) (unnested : t.Unnested) :
    (∀ {d : Draft}, d.demand = .first → d.unopened? = none →
      d.Restores t.contentTokens t t.isOperator) ∧
      ∀ {d : Draft}, d.demand = .first ∨ d.demand = .second → d.unopened? = none →
        d.Restores t.renderTokens t false := by
  induction t with
  | nil => exact absurd rfl nonempty
  | node l n r ihl ihr =>
    have right := fun inner => ihr h.right (h.right_ne_nil inner) unnested.right
    cases operator : n.label.isOperator with
    | true =>
      have content : ∀ {d : Draft}, d.demand = .first → d.unopened? = none →
          d.Restores (Tree.node l n r).contentTokens (.node l n r) true := by
        intro d called free
        by_cases bare : l = .nil
        · subst bare
          have single := unnested n r (mem_parts_node.2 (.inl rfl)) operator
          exact restores_signed h operator single called free
        · obtain ⟨o, label⟩ := h.exists_operator operator
          have left := (ihl h.left bare unnested.left).2 (.inl called) free
          refine restores_operator label called bare left fun called' free' => ?_
          exact (right (by rw [label]; rfl)).2 (.inr called') free'
      refine ⟨fun called free => ?_, restores_group operator (content rfl rfl)⟩
      rw [isOperator, operator]
      exact content called free
    | false =>
      have other : (Tree.node l n r).isOperator = false := operator
      have operand : ∀ {d : Draft}, d.demand = .first ∨ d.demand = .second →
          d.unopened? = none → d.Restores (Tree.node l n r).renderTokens (.node l n r) false := by
        intro d called free
        cases label : n.label with
        | number s | var s | constant s => exact restores_leaf h (by rw [label]; rfl) called free
        | operator s => simp [label, Label.isOperator] at operator
        | group =>
          obtain ⟨e, u, moves, held, alike, single⟩ := (right (by rw [label]; rfl)).2 called free
          refine ⟨e, u, ?_, held, alike.of_group label, single⟩
          simpa [renderTokens, label] using moves
        | call f isOpened =>
          exact restores_call h label ((right (by rw [label]; rfl)).1 rfl rfl) called free
      refine ⟨fun called free => ?_, operand⟩
      rw [contentTokens_of_not_isOperator other, other]
      exact operand (.inl called) free

end Tree

/-! ## Texts -/

/-- A nested operator is written out in front of a parenthesis, where none may stand. -/
theorem Tree.Finished.unnested_of_tidy {t : Tree} (h : t.Finished)
    (tidy : Grammar.Tidy t.renderTokens) : t.Unnested := by
  intro n r part operator
  refine Bool.of_not_eq_true fun nested => ?_
  have finished := h.of_mem_parts part
  obtain ⟨o, label⟩ := finished.exists_operator operator
  obtain ⟨us, vs, split⟩ := h.renderTokens_isInfix part
  have shown : (Tree.node .nil n r).renderTokens = .opening :: ⟨.operator, o.symbol⟩ :: .opening ::
      (r.contentTokens ++ [.closing, .closing]) := by
    simp [renderTokens, label, renderTokens_of_isOperator nested]
  rw [shown] at split
  have behind := tidy.prefixes (us ++ [.opening]) ⟨.operator, o.symbol⟩ .opening
    (r.contentTokens ++ [.closing, .closing] ++ vs) (by simp [← split])
    (Token.isOperator_symbol o) (by simp)
  exact behind.1 rfl

/-- The outermost group is no operator, so nothing is nested in a formula that is not nested in its
content. -/
theorem Tree.Unnested.formula {content : Tree} (h : content.Unnested) :
    (Tree.node .nil ⟨0, .group⟩ content).Unnested := by
  intro n r part operator
  rcases mem_parts_node.1 part with same | part | part
  · cases same
    cases operator
  · cases part
  · exact h n r part operator

/-- The rendering of a formula in which nothing is nested is a formula again, with the same core and
the same rendering. -/
theorem Tree.Finished.exists_build_renderTokens {content : Tree} (h : content.Finished)
    (nonempty : content ≠ .nil) (unnested : content.Unnested) :
    ∃ u, u.Alike content ∧
      Draft.build content.renderTokens = .ok (.node .nil ⟨0, .group⟩ u) := by
  have restores := (h.restores nonempty unnested).2 (d := Draft.empty) (.inl rfl) rfl
  obtain ⟨e, u, moves, held, alike, -⟩ := restores
  exact ⟨u, alike, held.build_eq moves⟩

/-- The content of a formula, whose rendering is read as the tokens that it is written out with. -/
theorem exists_content_of_parse {text : String} {T : Tree} (h : parse text = .ok T) :
    ∃ content, T = .node .nil ⟨0, .group⟩ content ∧ T.Finished ∧ content ≠ .nil ∧
      tokenize content.render = .ok content.renderTokens := by
  obtain ⟨ts, -, built⟩ := parse_eq_ok_iff.1 h
  have finished := Draft.finished_of_build built
  obtain ⟨content, rfl⟩ := Draft.exists_content_of_build built
  have nonempty := finished.right_ne_nil rfl
  have spelled := Token.wellSpelled_of_tokenize (formulaTokens_of_parse h)
  exact ⟨content, rfl, finished, nonempty,
    Tree.tokenize_render finished.right.complete nonempty spelled⟩

/-- A formula is read back from its rendering exactly if no operator stands in front of another
one, and then it is written out in the same way again, has the same variables and the same value. -/
theorem parse_render_iff {text : String} {T : Tree} (h : parse text = .ok T) :
    ((∃ U, parse T.render = .ok U) ↔ T.Unnested) ∧
      ∀ U, parse T.render = .ok U → U.render = T.render ∧ U.variableNames = T.variableNames ∧
        ∀ bindings, U.evaluate bindings = T.evaluate bindings := by
  obtain ⟨content, rfl, finished, nonempty, read⟩ := exists_content_of_parse h
  have built : ∀ {U}, parse content.render = .ok U → Draft.build content.renderTokens = .ok U := by
    intro U parsed
    obtain ⟨ts, read', built⟩ := parse_eq_ok_iff.1 parsed
    rwa [Except.ok.inj (read.symm.trans read')]
  have unnested : ∀ {U}, parse content.render = .ok U → content.Unnested := by
    intro U parsed
    have plain := fun t member => (Token.wellSpelled_of_tokenize read t member).plain
    exact finished.right.unnested_of_tidy (Draft.tidy_of_build plain (built parsed))
  constructor
  · constructor
    · intro ⟨U, parsed⟩
      exact (unnested parsed).formula
    · intro whole
      obtain ⟨u, -, built'⟩ := finished.right.exists_build_renderTokens nonempty whole.right
      exact ⟨_, parse_eq_ok_iff.2 ⟨_, read, built'⟩⟩
  · intro U parsed
    obtain ⟨u, alike, built'⟩ :=
      finished.right.exists_build_renderTokens nonempty (unnested parsed)
    obtain rfl := Except.ok.inj (built'.symm.trans (built parsed))
    have finished' := Draft.finished_of_build built'
    exact ⟨alike.render, finished'.variableNames_eq finished alike.core,
      finished'.evaluate_eq finished alike.core⟩

/-- The rendering `(-x)` of `-x` has the same value. -/
theorem parse_render_signed :
    ∃ U, parse "(-x)" = .ok U ∧ U.render = "(-x)" ∧ U.variableNames = ["x"] ∧
      ∀ bindings, U.evaluate bindings =
        (Tree.node .nil ⟨0, .group⟩ (.node .nil ⟨1, .operator "-"⟩
          (.leaf ⟨2, .var "x"⟩))).evaluate bindings := by
  have built : Draft.build [⟨.operator, "-"⟩, ⟨.name, "x"⟩] = .ok (.node .nil ⟨0, .group⟩
      (.node .nil ⟨1, .operator "-"⟩ (.leaf ⟨2, .var "x"⟩))) := rfl
  have read : tokenize "-x" = .ok [⟨.operator, "-"⟩, ⟨.name, "x"⟩] :=
    Token.tokenizeChars_of_next? rfl (Token.tokenizeChars_of_next? rfl Token.tokenizeChars_nil)
  obtain ⟨readable, same⟩ := parse_render_iff (parse_eq_ok_iff.2 ⟨_, read, built⟩)
  obtain ⟨U, parsed⟩ := readable.2 fun n r part operator => by
    simp only [Tree.parts, Tree.leaf, List.nil_append, List.mem_cons, List.not_mem_nil, or_false,
      Tree.node.injEq, true_and] at part
    rcases part with ⟨rfl, rfl⟩ | ⟨rfl, rfl⟩ | ⟨rfl, rfl⟩
    · cases operator
    · rfl
    · cases operator
  exact ⟨U, parsed, same U parsed⟩

end Formula
