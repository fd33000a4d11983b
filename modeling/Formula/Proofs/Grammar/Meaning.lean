import Formula.Token.Grammar
import Formula.Proofs.Draft.Tokens

/-!
# What tokens stand for

The words of the grammar in terms of the nodes that tokens make. A token is a leaf or a function of
the grammar exactly if the node that it makes where an operand is called for is one.

The main results are `Token.isLeaf_iff` and `Token.isFunction_iff`.
-/

namespace Formula

/-- No name is both that of a constant and that of a function. -/
theorem Constant.ofName?_eq_none_of_function {name : String}
    (h : (UnaryFunction.ofName? name).isSome = true) : Constant.ofName? name = none := by
  obtain ⟨f, found⟩ := Option.isSome_iff_exists.1 h
  obtain rfl : f.name = name := UnaryFunction.table.find?_eq_some_iff.1 found
  cases f <;> decide

theorem Label.ofName_of_function {name : String}
    (h : (UnaryFunction.ofName? name).isSome = true) : Label.ofName name = .call name false := by
  simp [ofName, h, Constant.ofName?_eq_none_of_function h]

theorem Label.isLeaf_ofName {name : String} :
    (Label.ofName name).isLeaf = true ↔ (UnaryFunction.ofName? name).isSome = false := by
  cases function : (UnaryFunction.ofName? name).isSome with
  | true => simp [ofName_of_function function, isLeaf]
  | false =>
    simp only [ofName, function]
    split <;> simp [isLeaf]

namespace Token

theorem isFunction_iff {t : Token} : t.IsFunction ↔ t.operand? = some (.call t.text false) := by
  obtain ⟨kind, text⟩ := t
  constructor
  · intro ⟨name, function⟩
    obtain rfl : kind = .name := name
    exact congrArg some (Label.ofName_of_function function)
  · intro operand
    cases kind with
    | name =>
      refine ⟨rfl, Bool.of_not_eq_false fun other => ?_⟩
      have leaf := Label.isLeaf_ofName.2 other
      rw [Option.some.inj operand] at leaf
      cases leaf
    | number | operator => cases operand
    | parenthesis =>
      simp only [operand?] at operand
      split at operand <;> cases operand

theorem isLeaf_iff {t : Token} : t.IsLeaf ↔ ∃ l, t.operand? = some l ∧ l.isLeaf = true := by
  obtain ⟨kind, text⟩ := t
  cases kind with
  | number => simp [IsLeaf, operand?, Label.isLeaf]
  | name => simp [IsLeaf, IsFunction, operand?, Label.isLeaf_ofName]
  | operator => simp [IsLeaf, operand?]
  | parenthesis =>
    simp only [IsLeaf, operand?]
    split <;> simp [Label.isLeaf]

theorem isOperator_symbol (o : Operator) : IsOperator ⟨.operator, o.symbol⟩ :=
  ⟨rfl, o, rfl⟩

theorem IsOperator.exists_symbol {t : Token} (h : t.IsOperator) :
    ∃ o : Operator, t = ⟨.operator, o.symbol⟩ := by
  obtain ⟨kind, text⟩ := t
  obtain ⟨rfl, o, rfl⟩ := h
  exact ⟨o, rfl⟩

theorem IsSign.exists_symbol {t : Token} (h : t.IsSign) :
    ∃ o : Operator, o.isSign = true ∧ t = ⟨.operator, o.symbol⟩ := by
  obtain ⟨kind, text⟩ := t
  obtain ⟨rfl, o, sign, rfl⟩ := h
  exact ⟨o, sign, rfl⟩

theorem IsSign.isOperator {t : Token} (h : t.IsSign) : t.IsOperator := by
  obtain ⟨kind, o, -, symbol⟩ := h
  exact ⟨kind, o, symbol⟩

end Token

/-- The token of a leaf makes that leaf again. -/
theorem Label.Proper.exists_operand {l : Label} (h : l.Proper) (leaf : l.isLeaf = true) :
    ∃ t : Token, l.tokens = [t] ∧ t.operand? = some l := by
  cases l with
  | number s => exact ⟨⟨.number, s⟩, rfl, rfl⟩
  | var s | constant s => exact ⟨⟨.name, s⟩, rfl, congrArg some h⟩
  | _ => cases leaf

end Formula
