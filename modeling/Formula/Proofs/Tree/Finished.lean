import Formula.Proofs.Draft.Precedence

/-!
# Finished trees

What holds of the trees that are built, and of all their parts, and what it says about a single
operator and its operands.

## Main definitions

* `Tree.Finished` — all laws that finished trees keep.
* `Tree.startsWithOperator` — whether an operator stands in front of the first operand.
* `Tree.Grouped` — how an operator and its operands are grouped.

`Draft.finished_of_build` and `Draft.grouped_of_build` say that the trees that are built keep these
laws.
-/

namespace Formula

/-! ## Binding strength -/

theorem Operator.leftPriority_of_ne_pow {o : Operator} (h : o ≠ .pow) :
    o.leftPriority = o.rightPriority := by
  cases o with
  | pow => exact absurd rfl h
  | _ => rfl

/-- No operator holds on as tightly as a power draws. -/
theorem Label.priority_lt_pow (l : Label) : l.priority < Operator.pow.leftPriority := by
  cases l with
  | operator s =>
    rw [priority]
    cases Operator.ofSymbol? s with
    | none => decide
    | some o => cases o <;> decide
  | _ => exact Operator.noPriority_lt_leftPriority .pow

namespace Tree

theorem priority_lt_pow (t : Tree) : t.priority < Operator.pow.leftPriority := by
  cases t with
  | nil => exact Operator.noPriority_lt_leftPriority .pow
  | node left n right => exact n.label.priority_lt_pow

/-! ## Operands -/

/-- Whether the leftmost node is an operator. -/
def startsWithOperator (t : Tree) : Bool :=
  (t.leftmost .group).isOperator

/-- How an operator `p` of a formula and its operands are grouped. -/
structure Grouped (p : Operator) (left right : Tree) : Prop where
  /-- An operator on the right that has a left operand draws it more tightly than `p` holds it. -/
  inner : ∀ l i s r, right = .node l ⟨i, .operator s⟩ r → l ≠ .nil →
    ∃ o : Operator, o.symbol = s ∧ p.rightPriority < o.leftPriority
  /-- What is open on the right of the left operand holds on at least as tightly as `p` draws. A
  signed leaf at its end is taken whole. -/
  outer : ∀ u ∈ left.spine, p.leftPriority ≤ u.priority ∨
    left.spine.getLast? = some u ∧ u.IsSignedLeaf
  /-- Operators of one level group to the left, unless they are powers. -/
  groupsLeft : p ≠ .pow → ∀ l i o r, right = .node l ⟨i, .operator (Operator.symbol o)⟩ r →
    l ≠ .nil → p.leftPriority < o.leftPriority
  /-- Powers group to the right: the base is no operator but for a sign in front of a leaf. -/
  groupsRight : p = .pow → left.isOperator = true → left.IsSignedLeaf
  /-- In front of its operand the operator has a leaf, or what starts with another operator. So
  what follows a signed leaf takes over the sign as well. -/
  signed : left = .nil →
    (∃ m, right = .leaf m ∧ m.label.isLeaf = true) ∨
      right.isOperator = true ∧ right.startsWithOperator = true

end Tree

/-! ## Parts of finished trees -/

/-- What holds of the trees that are built, and of their parts. -/
structure Tree.Finished (t : Tree) : Prop where
  complete : t.Complete
  proper : t.Obeys Law.proper
  signed : t.Obeys Law.signed
  signs : t.Obeys Law.signs
  inner : t.Obeys Law.inner
  outer : t.Obeys Law.outer
  leading : t.Obeys Law.leading

namespace Tree.Finished

variable {t l r : Tree} {n : Node}

theorem of_mem_parts (h : t.Finished) {u : Tree} (part : u ∈ t.parts) : u.Finished :=
  ⟨complete_of_mem_parts h.complete part, h.proper.of_mem_parts part, h.signed.of_mem_parts part,
    h.signs.of_mem_parts part, h.inner.of_mem_parts part, h.outer.of_mem_parts part,
    h.leading.of_mem_parts part⟩

theorem left (h : (Tree.node l n r).Finished) : l.Finished :=
  ⟨h.complete.1, h.proper.2.1, h.signed.2.1, h.signs.2.1, h.inner.2.1, h.outer.2.1, h.leading.2.1⟩

theorem right (h : (Tree.node l n r).Finished) : r.Finished :=
  ⟨h.complete.2.2, h.proper.2.2, h.signed.2.2, h.signs.2.2, h.inner.2.2, h.outer.2.2, h.leading.2.2⟩

theorem exists_operator (h : (Tree.node l n r).Finished)
    (operator : n.label.isOperator = true) : ∃ o : Operator, n.label = .operator o.symbol :=
  h.proper.1.1.exists_operator operator

theorem eq_leaf (h : (Tree.node l n r).Finished) (leaf : n.label.isLeaf = true) :
    l = .nil ∧ r = .nil :=
  ⟨h.proper.1.2.1 (Label.isOperator_of_isLeaf leaf), top?_eq_none_iff.1 (h.proper.1.2.2 leaf)⟩

theorem right_ne_nil (h : (Tree.node l n r).Finished) (inner : n.label.isLeaf = false) :
    r ≠ .nil := by
  intro none
  simp [h.complete.2.1 none] at inner

/-- In front of an operand an operator is the sign of a leaf, or has another one behind it. -/
theorem signed_cases (h : (Tree.node .nil n r).Finished) (operator : n.label.isOperator = true) :
    (∃ m, r = .leaf m ∧ m.label.isLeaf = true ∧
      ∃ o : Operator, o.isSign = true ∧ n.label = .operator o.symbol) ∨
      r.isOperator = true ∧ r.startsWithOperator = true := by
  cases r with
  | nil =>
    have leaf := h.complete.2.1 rfl
    simp [Label.isOperator_of_isLeaf leaf] at operator
  | node l m r =>
    rcases h.signed.1 operator rfl _ rfl with behind | ⟨leaf, sign⟩
    · exact .inr ⟨behind, h.leading.1 operator rfl _ rfl behind⟩
    · obtain ⟨rfl, rfl⟩ := h.right.eq_leaf leaf
      exact .inl ⟨m, rfl, leaf, sign⟩

theorem grouped {p : Operator} (h : (Tree.node l n r).Finished)
    (label : n.label = .operator p.symbol) : Grouped p l r := by
  have drawn := h.inner.1 p label
  have held := h.outer.1 p label
  refine ⟨?_, ?_, ?_, ?_, ?_⟩
  · intro l' i s r' same taken
    subst same
    obtain ⟨o, rfl⟩ := h.right.proper.1.1
    exact ⟨o, rfl, drawn _ rfl taken o rfl⟩
  · intro u member
    refine (held u member).imp_right fun signed => ⟨?_, signed⟩
    exact getLast?_spine_of_isSignedLeaf member signed
  · intro assoc l' i o r' same taken
    subst same
    rw [Operator.leftPriority_of_ne_pow assoc]
    exact drawn _ rfl taken o rfl
  · intro power operator
    subst power
    exact (held l (mem_spine_self operator)).resolve_left (Int.not_le.2 l.priority_lt_pow)
  · intro bare
    subst bare
    have operator : n.label.isOperator = true := by rw [label]; rfl
    exact (h.signed_cases operator).imp_left fun ⟨m, same, leaf, _⟩ => ⟨m, same, leaf⟩

end Tree.Finished

/-! ## Trees that are built -/

namespace Draft

theorem finished_of_build {ts : List Token} {T : Tree} (h : build ts = .ok T) : T.Finished := by
  obtain ⟨d, moves, viable, rfl, complete⟩ := exists_viable_of_build h
  obtain ⟨inner, outer, leading⟩ := moves.laws viable
  exact ⟨complete, moves.proper, moves.signed viable, moves.signs, inner, outer, leading⟩

/-- Precedence and associativity of a finished tree. -/
theorem grouped_of_build {ts : List Token} {T : Tree} (h : build ts = .ok T) :
    ∀ left n right, .node left n right ∈ T.parts → n.label.isOperator = true →
      ∃ p : Operator, n.label = .operator p.symbol ∧ Tree.Grouped p left right := by
  intro left n right part operator
  have finished := (finished_of_build h).of_mem_parts part
  obtain ⟨p, label⟩ := finished.exists_operator operator
  exact ⟨p, label, finished.grouped label⟩

/-- The power in `-1^2*3`: its base is the signed leaf. -/
theorem grouped_signed_power :
    ∃ p : Operator, Label.operator "^" = .operator p.symbol ∧
      Tree.Grouped p (.node .nil ⟨1, .operator "-"⟩ (.leaf ⟨2, .number "1"⟩))
        (.leaf ⟨4, .number "2"⟩) := by
  have built : build [⟨.operator, "-"⟩, ⟨.number, "1"⟩, ⟨.operator, "^"⟩, ⟨.number, "2"⟩,
      ⟨.operator, "*"⟩, ⟨.number, "3"⟩] = .ok (.node .nil ⟨0, .group⟩
        (.node (.node (.node .nil ⟨1, .operator "-"⟩ (.leaf ⟨2, .number "1"⟩)) ⟨3, .operator "^"⟩
          (.leaf ⟨4, .number "2"⟩)) ⟨5, .operator "*"⟩ (.leaf ⟨6, .number "3"⟩))) := rfl
  exact grouped_of_build built _ ⟨3, .operator "^"⟩ _ (by decide) rfl

end Draft

end Formula
