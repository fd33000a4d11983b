import Formula.Proofs.Tree.Finished
import Formula.Proofs.Grammar.Meaning

/-!
# What is built is a formula

The tokens of a finished tree are a formula. By induction on the tree they are a first part, which
depends on the node that the text starts at, and a tail of operators with an operand each.

## Main definitions

* `Grammar.Tail` — operators with an operand each.
* `Grammar.StartsAs` — what the first part is, by the label that it starts with.
* `Tree.Splits` — a tree whose tokens are a first part and a tail.

`Tree.Finished.splits` is the induction and `isFormula_of_build` the result.
-/

namespace Formula

namespace Grammar

/-- Any number of operators with an operand each. -/
inductive Tail : List Token → Prop where
  | nil : Tail []
  | cons {t : Token} {us ts : List Token} (h : t.IsOperator) (h' : IsOperand us) (h'' : Tail ts) :
    Tail (t :: us ++ ts)

theorem Tail.append {ts us : List Token} (h : Tail ts) (h' : Tail us) : Tail (ts ++ us) := by
  induction h with
  | nil => exact h'
  | cons operator operand _ ih =>
    rw [List.append_assoc]
    exact .cons operator operand ih

/-- A formula goes on with operators and their operands. -/
theorem IsFormula.append_tail {ts us : List Token} (h : IsFormula ts) (h' : Tail us) :
    IsFormula (ts ++ us) := by
  induction h' generalizing ts with
  | nil => simpa using h
  | @cons t vs us operator operand _ ih =>
    have longer := ih (h.extend operator operand)
    simpa using longer

/-- The first part of a formula whose text starts at a node labelled `lead`. -/
structure StartsAs (lead : Label) (ts : List Token) : Prop where
  formula : IsFormula ts
  operand : lead.isOperator = false → IsOperand ts
  signed : ∀ o : Operator, o.isSign = true → lead = .operator o.symbol → SignedLeaf ts

theorem StartsAs.of_operand {lead : Label} {ts : List Token} (h : IsOperand ts)
    (other : lead.isOperator = false) : StartsAs lead ts := by
  refine ⟨.operand h, fun _ => h, fun o _ same => ?_⟩
  rw [same] at other
  cases other

/-- An operator in front of a signed leaf. -/
theorem StartsAs.prefixed {o : Operator} {ts : List Token} (h : SignedLeaf ts) :
    StartsAs (.operator o.symbol) (⟨.operator, o.symbol⟩ :: ts) := by
  refine ⟨.prefixed (Token.isOperator_symbol o) h, Bool.noConfusion, fun o' sign same => ?_⟩
  exact .more ⟨rfl, o', sign, (Label.operator.inj same).symm⟩ h

theorem StartsAs.one {o : Operator} {leaf : Token} (sign : o.isSign = true) (h : leaf.IsLeaf) :
    StartsAs (.operator o.symbol) [⟨.operator, o.symbol⟩, leaf] := by
  have signed : SignedLeaf [⟨.operator, o.symbol⟩, leaf] := .one ⟨rfl, o, sign, rfl⟩ h
  exact ⟨.operand (.signed signed), Bool.noConfusion, fun _ _ _ => signed⟩

end Grammar

open Grammar

namespace Tree

/-- A first part, as the leftmost node tells, and a tail. -/
def Splits (t : Tree) : Prop :=
  ∃ first tail, t.tokens = first ++ tail ∧ StartsAs (t.leftmost .group) first ∧ Tail tail

theorem Splits.isFormula {t : Tree} (h : t.Splits) : IsFormula t.tokens := by
  obtain ⟨first, tail, same, starts, more⟩ := h
  rw [same]
  exact starts.formula.append_tail more

theorem splits_of_operand {t : Tree} (h : IsOperand t.tokens)
    (other : (t.leftmost .group).isOperator = false) : t.Splits :=
  ⟨t.tokens, [], (List.append_nil _).symm, .of_operand h other, .nil⟩

namespace Finished

variable {t l r : Tree} {n : Node}

theorem exists_token_of_leaf (h : (Tree.node l n r).Finished) (leaf : n.label.isLeaf = true) :
    ∃ t : Token, t.IsLeaf ∧ (Tree.node l n r).tokens = [t] := by
  obtain ⟨t, read, operand⟩ := h.proper.1.1.exists_operand leaf
  exact ⟨t, Token.isLeaf_iff.2 ⟨n.label, operand, leaf⟩, (tokens_of_isLeaf leaf).trans read⟩

theorem isFunction_of_call (h : (Tree.node l n r).Finished) {f : String} {opened : Bool}
    (label : n.label = .call f opened) : Token.IsFunction ⟨.name, f⟩ := by
  have proper := h.proper.1.1
  rw [label] at proper
  exact Token.isFunction_iff.2 (congrArg some proper)

/-- What stands between parentheses is an operand with them. -/
theorem isOperand_of_isGroup (h : (Tree.node l n r).Finished) (group : n.label.isGroup = true)
    (content : IsFormula r.tokens) : IsOperand (Tree.node l n r).tokens := by
  cases label : n.label with
  | group => simpa [tokens, label] using IsOperand.group content
  | call f opened =>
    simpa [tokens, label] using IsOperand.call (h.isFunction_of_call label) content
  | _ => simp [label, Label.isGroup] at group

/-- The first part of the right operand of an operator is an operand. -/
theorem isOperand_of_startsAs (h : (Tree.node l n r).Finished)
    (operator : n.label.isOperator = true) {ts : List Token}
    (starts : StartsAs (r.leftmost .group) ts) : IsOperand ts := by
  cases lead : (r.leftmost .group).isOperator with
  | false => exact starts.operand lead
  | true =>
    cases r with
    | nil => cases lead
    | node l' m r' =>
      obtain ⟨o, sign, label⟩ := h.signs.1 operator _ rfl lead
      exact .signed (starts.signed o sign label)

/-- An operator with two operands lengthens the tail of the left one. -/
theorem splits_of_operator (h : (Tree.node l n r).Finished) {o : Operator}
    (label : n.label = .operator o.symbol) (taken : l ≠ .nil) (left : l.Splits)
    (right : r.Splits) : (Tree.node l n r).Splits := by
  obtain ⟨first, tail, same, starts, more⟩ := left
  obtain ⟨first', tail', same', starts', more'⟩ := right
  have operator : n.label.isOperator = true := by rw [label]; rfl
  have operand := h.isOperand_of_startsAs operator starts'
  refine ⟨first, tail ++ (⟨.operator, o.symbol⟩ :: first' ++ tail'), ?_, ?_, ?_⟩
  · simp [tokens, label, same, same']
  · cases l with
    | nil => exact absurd rfl taken
    | node => exact starts
  · exact more.append (.cons (Token.isOperator_symbol o) operand more')

/-- An operator in front of its operand lengthens the first part of the operand, which is a signed
leaf. -/
theorem splits_of_signed (h : (Tree.node .nil n r).Finished) {o : Operator}
    (label : n.label = .operator o.symbol) (right : r.Splits) : (Tree.node .nil n r).Splits := by
  have operator : n.label.isOperator = true := by rw [label]; rfl
  rcases h.signed_cases operator with ⟨m, rfl, leaf, o', sign, label'⟩ | ⟨behind, lead⟩
  · obtain ⟨t, isLeaf, read⟩ := h.right.exists_token_of_leaf leaf
    obtain rfl : o = o' := Operator.table.spelling_injective
      (Label.operator.inj (label.symm.trans label'))
    refine ⟨[⟨.operator, o.symbol⟩, t], [], ?_, ?_, .nil⟩
    · simpa [tokens, label, Tree.leaf] using read
    · rw [leftmost_node, leftmost, label]
      exact .one sign isLeaf
  · obtain ⟨first, tail, same, starts, more⟩ := right
    obtain ⟨o', sign, lead'⟩ : ∃ o' : Operator, o'.isSign = true ∧
        r.leftmost .group = .operator o'.symbol := by
      cases r with
      | nil => cases behind
      | node l' m r' => exact h.signs.1 operator _ rfl lead
    have signed := starts.signed o' sign lead'
    refine ⟨⟨.operator, o.symbol⟩ :: first, tail, ?_, ?_, more⟩
    · simp [tokens, label, same]
    · rw [leftmost_node, leftmost, label]
      exact .prefixed signed

theorem splits (h : t.Finished) (nonempty : t ≠ .nil) : t.Splits := by
  induction t with
  | nil => exact absurd rfl nonempty
  | node l n r ihl ihr =>
    by_cases leaf : n.label.isLeaf = true
    · obtain ⟨t, isLeaf, read⟩ := h.exists_token_of_leaf leaf
      obtain ⟨rfl, rfl⟩ := h.eq_leaf leaf
      exact splits_of_operand (read ▸ .leaf isLeaf) (Label.isOperator_of_isLeaf leaf)
    have right := ihr h.right (h.right_ne_nil (Bool.eq_false_iff.2 leaf))
    by_cases operator : n.label.isOperator = true
    · obtain ⟨o, label⟩ := h.exists_operator operator
      by_cases taken : l = .nil
      · subst taken
        exact h.splits_of_signed label right
      · exact h.splits_of_operator label taken (ihl h.left taken) right
    · obtain rfl := h.proper.1.2.1 (Bool.eq_false_iff.2 operator)
      have group : n.label.isGroup = true :=
        Label.isGroup_of_inner (Bool.eq_false_iff.2 leaf) (Bool.eq_false_iff.2 operator)
      exact splits_of_operand (h.isOperand_of_isGroup group right.isFormula)
        (Bool.eq_false_iff.2 operator)

end Finished

end Tree

/-- Whatever is built from plain tokens is a formula. -/
theorem isFormula_of_build {ts : List Token} {T : Tree} (plain : ∀ t ∈ ts, t.Plain)
    (h : Draft.build ts = .ok T) : IsFormula ts := by
  have finished := Draft.finished_of_build h
  rw [← Draft.formulaTokens_of_build plain h]
  obtain ⟨content, rfl⟩ := Draft.exists_content_of_build h
  exact (finished.right.splits (finished.right_ne_nil rfl)).isFormula

end Formula
