import Formula.Proofs.Tree.Outline

/-!
# What a rendering says

Formulas that are written out alike have the same core, so they have the same variables and the same
value, also where the written form is no formula itself. Formulas with the same core are written out
alike as far as calls that hold an operator agree: an operator that stands in parentheses of its own
is written out with two pairs of them, and otherwise with one.

## Main definitions

* `Core.outline` — the outline of a tree with no more parentheses than are needed.
* `Tree.Unwrapped` — no call holds an operator in parentheses of its own.

The main results are `core_eq_of_render_eq` and `render_eq_iff_of_core_eq`.
-/

namespace Formula

/-! ## Needless parentheses in calls -/

namespace Core

def isOperator : Core → Bool
  | .operator _ _ _ => true
  | .nil | .number _ | .var _ | .constant _ | .call _ _ => false

/-- The outline in which every operator in a call shares the parentheses of the call. -/
def outline : Core → Outline
  | .nil => .nil
  | .number s => .leaf (.number s)
  | .var s => .leaf (.var s)
  | .constant s => .leaf (.constant s)
  | .operator left s right => .operator left.outline s right.outline
  | .call f argument => .call f argument.isOperator argument.outline

end Core

namespace Tree

variable {t u : Tree}

/-- Whether no call holds an operator in parentheses of its own. -/
def Unwrapped (t : Tree) : Prop :=
  ∀ left n right f opened, .node left n right ∈ t.parts → n.label = .call f opened →
    right.core.isOperator = true → right.isOperator = true

theorem isOperator_core (h : t.isOperator = true) : t.core.isOperator = true := by
  cases t with
  | nil => cases h
  | node left n right =>
    have operator : n.label.isOperator = true := h
    cases label : n.label with
    | operator s => simp [core, label, Core.isOperator]
    | _ => simp [label, Label.isOperator] at operator

theorem unwrapped_node {l r : Tree} {n : Node} :
    (Tree.node l n r).Unwrapped ↔
      (∀ f opened, n.label = .call f opened → r.core.isOperator = true → r.isOperator = true) ∧
        l.Unwrapped ∧ r.Unwrapped := by
  constructor
  · intro h
    refine ⟨fun f opened => h l n r f opened (mem_parts_node.2 (.inl rfl)), ?_, ?_⟩
    · exact fun left m right f opened part =>
        h left m right f opened (mem_parts_node.2 (.inr (.inl part)))
    · exact fun left m right f opened part =>
        h left m right f opened (mem_parts_node.2 (.inr (.inr part)))
  · rintro ⟨here, inLeft, inRight⟩ left m right f opened part
    rcases mem_parts_node.1 part with same | part | part
    · cases same
      exact here f opened
    · exact inLeft left m right f opened part
    · exact inRight left m right f opened part

theorem unwrapped_nil : Tree.nil.Unwrapped :=
  nofun

/-- Without such parentheses, and only then, the outline can be told from the core. -/
theorem Finished.unwrapped_iff (h : t.Finished) : t.Unwrapped ↔ t.outline = t.core.outline := by
  induction t with
  | nil => exact ⟨fun _ => rfl, fun _ => unwrapped_nil⟩
  | node l n r ihl ihr =>
    have bare : n.label.isOperator = false → l = .nil := h.proper.1.2.1
    have leaf : n.label.isLeaf = true → l = .nil ∧ r = .nil := h.eq_leaf
    rw [unwrapped_node, ihl h.left, ihr h.right]
    cases label : n.label with
    | number s | var s | constant s =>
      obtain ⟨rfl, rfl⟩ := leaf (by rw [label]; rfl)
      simp [outline, core, label, Core.outline]
    | operator s => simp [outline, core, label, Core.outline]
    | group =>
      obtain rfl := bare (by rw [label]; rfl)
      simp [outline, core, label, Core.outline]
    | call f opened =>
      obtain rfl := bare (by rw [label]; rfl)
      have shared : (r.core.isOperator = true → r.isOperator = true) ↔
          r.isOperator = r.core.isOperator := by
        refine ⟨fun same => Bool.eq_iff_iff.2 ⟨isOperator_core, same⟩, fun same => ?_⟩
        rw [same]
        exact id
      simp [outline, core, label, Core.outline, shared]

end Tree

/-! ## Texts -/

/-- Formulas are written out alike exactly if they have the same outline. -/
theorem render_eq_iff {a b : String} {T U : Tree} (h : parse a = .ok T) (h' : parse b = .ok U) :
    T.render = U.render ↔ T.outline = U.outline := by
  obtain ⟨t, rfl, finished, filled, read⟩ := exists_content_of_parse h
  obtain ⟨u, rfl, finished', filled', read'⟩ := exists_content_of_parse h'
  constructor
  · intro same
    have alike : t.render = u.render := same
    rw [alike] at read
    have tokens : t.renderTokens = u.renderTokens := Except.ok.inj (read.symm.trans read')
    have contents : t.outline = u.outline :=
      finished.right.outline_eq finished'.right filled filled' tokens
    exact contents
  · intro same
    rw [← Tree.render_outline finished.complete, ← Tree.render_outline finished'.complete, same]

/-- Formulas that are written out alike are the same but for redundant parentheses, so they have the
same variables and the same value. -/
theorem core_eq_of_render_eq {a b : String} {T U : Tree} (h : parse a = .ok T)
    (h' : parse b = .ok U) (same : T.render = U.render) :
    T.core = U.core ∧ T.variableNames = U.variableNames ∧
      ∀ bindings, T.evaluate bindings = U.evaluate bindings := by
  have finished := finished_of_parse h
  have finished' := finished_of_parse h'
  have cores : T.core = U.core := by
    rw [← T.core_outline, ← U.core_outline, (render_eq_iff h h').1 same]
  exact ⟨cores, finished.variableNames_eq finished' cores, finished.evaluate_eq finished' cores⟩

/-- Both `--x` and `(--x)` are written out as `(-(-x))`, which is no formula. -/
theorem core_eq_of_render_eq_nested :
    ∃ T U, parse "--x" = .ok T ∧ parse "(--x)" = .ok U ∧ T ≠ U ∧ T.render = "(-(-x))" ∧
      U.render = "(-(-x))" ∧ T.core = U.core ∧ T.variableNames = U.variableNames ∧
        ∀ bindings, T.evaluate bindings = U.evaluate bindings := by
  have read : tokenize "--x" = .ok [⟨.operator, "-"⟩, ⟨.operator, "-"⟩, ⟨.name, "x"⟩] := by
    iterate 3 refine Token.tokenizeChars_of_next? rfl ?_
    exact Token.tokenizeChars_nil
  have read' : tokenize "(--x)" =
      .ok [.opening, ⟨.operator, "-"⟩, ⟨.operator, "-"⟩, ⟨.name, "x"⟩, .closing] := by
    iterate 5 refine Token.tokenizeChars_of_next? rfl ?_
    exact Token.tokenizeChars_nil
  have parsed := parse_eq_ok_iff.2 ⟨_, read, rfl⟩
  have parsed' := parse_eq_ok_iff.2 ⟨_, read', rfl⟩
  exact ⟨_, _, parsed, parsed', by decide, rfl, rfl, core_eq_of_render_eq parsed parsed' rfl⟩

/-- Formulas that are the same but for redundant parentheses are written out alike exactly if they
have the same outline. If no call of one of them holds an operator in parentheses of its own, this
means that no call of the other one does. -/
theorem render_eq_iff_of_core_eq {a b : String} {T U : Tree} (h : parse a = .ok T)
    (h' : parse b = .ok U) (same : T.core = U.core) :
    (T.render = U.render ↔ T.outline = U.outline) ∧
      (T.Unwrapped → (T.render = U.render ↔ U.Unwrapped)) := by
  have outlines := render_eq_iff h h'
  refine ⟨outlines, fun unwrapped => ?_⟩
  have fromCore := (finished_of_parse h).unwrapped_iff.1 unwrapped
  rw [outlines, fromCore, same, (finished_of_parse h').unwrapped_iff]
  exact eq_comm

/-- The parentheses of `sin((x)+1)` around `x` do not show. -/
theorem render_eq_iff_of_core_eq_sum :
    ∃ T U, parse "sin(x+1)" = .ok T ∧ parse "sin((x)+1)" = .ok U ∧ T.core = U.core ∧
      T.Unwrapped ∧ U.Unwrapped ∧ T.render = U.render := by
  have read : tokenize "sin(x+1)" =
      .ok [⟨.name, "sin"⟩, .opening, ⟨.name, "x"⟩, ⟨.operator, "+"⟩, ⟨.number, "1"⟩, .closing] := by
    iterate 6 refine Token.tokenizeChars_of_next? rfl ?_
    exact Token.tokenizeChars_nil
  have read' : tokenize "sin((x)+1)" = .ok [⟨.name, "sin"⟩, .opening, .opening, ⟨.name, "x"⟩,
      .closing, ⟨.operator, "+"⟩, ⟨.number, "1"⟩, .closing] := by
    iterate 8 refine Token.tokenizeChars_of_next? rfl ?_
    exact Token.tokenizeChars_nil
  have parsed := parse_eq_ok_iff.2 ⟨_, read, rfl⟩
  have parsed' := parse_eq_ok_iff.2 ⟨_, read', rfl⟩
  obtain ⟨outlines, wrapped⟩ := render_eq_iff_of_core_eq parsed parsed' rfl
  have unwrapped := (finished_of_parse parsed).unwrapped_iff.2 rfl
  have alike := outlines.2 rfl
  exact ⟨_, _, parsed, parsed', rfl, unwrapped, (wrapped unwrapped).1 alike, alike⟩

/-- The parentheses of `sin((x+1))` around the sum show. -/
theorem wrapped_sum_shows :
    ∃ T U, parse "sin((x+1))" = .ok T ∧ parse "sin(x+1)" = .ok U ∧ T.core = U.core ∧
      T.render = "sin((x + 1))" ∧ U.render = "sin(x + 1)" ∧ T.render ≠ U.render := by
  have read : tokenize "sin((x+1))" = .ok [⟨.name, "sin"⟩, .opening, .opening, ⟨.name, "x"⟩,
      ⟨.operator, "+"⟩, ⟨.number, "1"⟩, .closing, .closing] := by
    iterate 8 refine Token.tokenizeChars_of_next? rfl ?_
    exact Token.tokenizeChars_nil
  have read' : tokenize "sin(x+1)" =
      .ok [⟨.name, "sin"⟩, .opening, ⟨.name, "x"⟩, ⟨.operator, "+"⟩, ⟨.number, "1"⟩, .closing] := by
    iterate 6 refine Token.tokenizeChars_of_next? rfl ?_
    exact Token.tokenizeChars_nil
  have parsed := parse_eq_ok_iff.2 ⟨_, read, rfl⟩
  have parsed' := parse_eq_ok_iff.2 ⟨_, read', rfl⟩
  exact ⟨_, _, parsed, parsed', rfl, rfl, rfl, by decide⟩

end Formula
