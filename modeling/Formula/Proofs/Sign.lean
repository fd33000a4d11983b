import Formula.Proofs.Draft.Prefix
import Formula.Proofs.Tree.Failure

/-!
# Operators without a left operand

In the tree of a text, the operators without a left operand are all signs exactly if no group of the
text starts with another operator; only then the value never fails for want of an operand. A sign
has its operand to itself exactly if what follows a leaf with two signs in front does not draw it
more tightly than the first of them holds on.

## Main definitions

* `Tree.exposed` — the parts of a tree that no parentheses separate from its root.

The main results are `signs_lead_iff` and `signs_hold_iff`.
-/

namespace Formula

namespace Tree

/-- The parts of a tree that no parentheses separate from its root. -/
def exposed : Tree → List Tree
  | .nil => []
  | .node left n right =>
    .node left n right :: if n.label.isGroup then [] else left.exposed ++ right.exposed

theorem mem_exposed_self (left : Tree) (n : Node) (right : Tree) :
    .node left n right ∈ exposed (.node left n right) :=
  List.mem_cons_self

namespace Finished

variable {t l r : Tree} {n : Node}

theorem exists_right (h : (node l n r).Finished) (operator : n.label.isOperator = true) :
    ∃ l' m r', r = .node l' m r' := by
  cases r with
  | nil =>
    rw [Label.isOperator_of_isLeaf (h.complete.2.1 rfl)] at operator
    cases operator
  | node l' m r' => exact ⟨l', m, r', rfl⟩

/-- Where every operator in front has a leaf behind it or another such operator, there is nothing
but such operators above the leaf. -/
theorem eq_nil_of_mem_exposed (h : t.Finished) (bare : t.Obeys Law.bare)
    (top : ∀ root ∈ t.top?, root.2.isLeaf = true ∨ root.2.isOperator = true ∧ root.1 = .nil) :
    ∀ l n r, .node l n r ∈ t.exposed → n.label.isOperator = true → l = .nil := by
  induction t with
  | nil => exact fun _ _ _ => nofun
  | node left m right _ ih =>
    intro l n r inside operator
    rcases top _ rfl with leaf | ⟨front, none⟩
    · obtain ⟨rfl, rfl⟩ := h.eq_leaf leaf
      have same : l = .nil ∧ n = m ∧ r = .nil := by simpa [exposed] using inside
      exact same.1
    · obtain rfl : left = .nil := none
      rw [exposed, Label.isGroup_of_isOperator front, if_neg Bool.false_ne_true] at inside
      rcases List.mem_cons.1 inside with same | below
      · cases same
        rfl
      · exact ih h.right bare.2.2 (bare.1 front rfl) l n r below operator

/-- The law of bare operands, said of the parts of a tree. -/
theorem bare_iff_right (h : t.Finished) :
    t.Obeys Law.bare ↔ ∀ n right, .node .nil n right ∈ t.parts → n.label.isOperator = true →
      ∃ l m r, right = .node l m r ∧
        (m.label.isLeaf = true ∨ m.label.isOperator = true ∧ l = .nil) := by
  rw [obeys_iff]
  constructor
  · intro bare n right part operator
    obtain ⟨l, m, r, rfl⟩ := (h.of_mem_parts part).exists_right operator
    exact ⟨l, m, r, rfl, bare .nil n _ part operator rfl _ rfl⟩
  · rintro operands left n right part operator rfl top seen
    obtain ⟨l, m, r, rfl, bare⟩ := operands n right part operator
    cases seen
    exact bare

/-- The same law, said of all that a sign takes in before the next parenthesis. -/
theorem bare_iff_exposed (h : t.Finished) :
    t.Obeys Law.bare ↔ ∀ n right, .node .nil n right ∈ t.parts → n.label.isOperator = true →
      ∀ l m r, .node l m r ∈ right.exposed → m.label.isOperator = true → l = .nil := by
  constructor
  · intro bare n right part operator
    have below := bare.of_mem_parts part
    exact (h.of_mem_parts part).right.eq_nil_of_mem_exposed below.2.2 (below.1 operator rfl)
  · refine fun front => h.bare_iff_right.2 fun n right part operator => ?_
    have whole := h.of_mem_parts part
    obtain ⟨l, m, r, rfl⟩ := whole.exists_right operator
    refine ⟨l, m, r, rfl, ?_⟩
    rcases whole.signed.1 operator rfl _ rfl with behind | ⟨leaf, -⟩
    · exact .inr ⟨behind, front n _ part operator l m r (mem_exposed_self l m r) behind⟩
    · exact .inl leaf

end Finished

end Tree

/-! ## Signs -/

/-- Both laws for operators without a left operand can be told from the tokens of a text. -/
theorem obeys_iff_of_parse {text : String} {ts : List Token} {T : Tree}
    (read : tokenize text = .ok ts) (h : parse text = .ok T) :
    (T.Obeys Law.prefixed ↔ Token.SignsLead ts) ∧ (T.Obeys Law.bare ↔ Token.SignsHold ts) := by
  obtain ⟨us, read', built⟩ := parse_eq_ok_iff.1 h
  cases read.symm.trans read'
  have plain : ∀ t ∈ ts, t.Plain := fun t member =>
    (Token.wellSpelled_of_tokenize read t member).plain
  obtain ⟨d, moves, viable, rfl, -⟩ := Draft.exists_viable_of_build built
  exact ⟨moves.prefixed_iff plain viable, moves.bare_iff plain viable⟩

namespace Tree

variable {t : Tree}

/-- The operators without a left operand are signs exactly if no operand is missing. -/
theorem prefixed_iff_forall_not_mem (bindings : Bindings) (proper : t.Obeys Law.proper) :
    t.Obeys Law.prefixed ↔ ∀ s, .missingOperand s ∉ t.flaws bindings := by
  rw [obeys_iff]
  constructor
  · intro signs s member
    obtain ⟨left, n, right, part, found⟩ := mem_flaws_iff.1 member
    obtain ⟨label, none, other⟩ := missingOperand_mem_flaw_iff.1 found
    obtain ⟨o, sign, same⟩ := signs left n right part (by rw [label]; rfl) none
    exact other ⟨o, sign, Label.operator.inj (same.symm.trans label)⟩
  · intro never left n right part operator none
    obtain ⟨o, label⟩ := (obeys_iff.1 proper left n right part).1.exists_operator operator
    by_contra other
    refine never o.symbol (mem_flaws_iff.2 ⟨left, n, right, part, ?_⟩)
    refine missingOperand_mem_flaw_iff.2 ⟨label, none, fun ⟨o', sign, same⟩ => other ⟨o', sign, ?_⟩⟩
    rw [label, same]

/-- Evaluation never fails for want of an operand exactly if the operators without a left operand
are signs. -/
theorem Legible.prefixed_iff (h : t.Legible) (filled : t ≠ .nil) :
    t.Obeys Law.prefixed ↔ ∀ bindings s, t.evaluate bindings ≠ .error (.missingOperand s) := by
  have first : ∀ bindings s, t.evaluate bindings = .error (.missingOperand s) ↔
      (t.flaws bindings).head? = some (.missingOperand s) := fun bindings s =>
    (evaluate_eq_error_iff EvalError.noConfusion).trans (h.value_cases filled).eq_error_iff
  constructor
  · intro signs bindings s failed
    have member := List.mem_of_mem_head? ((first bindings s).1 failed)
    exact (prefixed_iff_forall_not_mem bindings h.proper).1 signs s member
  · intro never
    -- under bindings for all variables an operand is missing first if one is missing at all
    refine (prefixed_iff_forall_not_mem (fun _ => some 0) h.proper).2 fun s member => ?_
    cases found : t.flaws fun _ => some 0 with
    | nil =>
      rw [found] at member
      cases member
    | cons e later =>
      have head : e ∈ t.flaws fun _ => some 0 := found ▸ List.mem_cons_self
      obtain ⟨s', rfl⟩ := eq_missingOperand_of_mem_flaws head
      exact never _ s' ((first _ s').2 (by rw [found]; rfl))

end Tree

/-! ## Trees of texts -/

/-- The operators of a tree that have no left operand are signs exactly if no group of the text
starts with another operator, and only then no evaluation fails for want of an operand. -/
theorem signs_lead_iff {text : String} {ts : List Token} {T : Tree} (read : tokenize text = .ok ts)
    (h : parse text = .ok T) :
    ((∀ n right, .node .nil n right ∈ T.parts → n.label.isOperator = true →
      ∃ o : Operator, o.isSign = true ∧ n.label = .operator o.symbol) ↔ Token.SignsLead ts) ∧
    ((∀ bindings s, T.evaluate bindings ≠ .error (.missingOperand s)) ↔ Token.SignsLead ts) := by
  have tokens := (obeys_iff_of_parse read h).1
  rw [← (legible_of_parse h).prefixed_iff (ne_nil_of_parse h), ← tokens, Tree.obeys_iff]
  refine ⟨⟨fun signs left n right part operator none => ?_, fun signs n right part operator => ?_⟩,
    Iff.rfl⟩
  · subst none
    exact signs n right part operator
  · exact signs .nil n right part operator rfl

/-- The only group of `-x` starts with a sign. -/
theorem signs_lead_minus :
    let T := Tree.node .nil ⟨0, .group⟩ (.node .nil ⟨1, .operator "-"⟩ (.leaf ⟨2, .var "x"⟩))
    let ts : List Token := [⟨.operator, "-"⟩, ⟨.name, "x"⟩]
    parse "-x" = .ok T ∧
      ((∀ n right, .node .nil n right ∈ T.parts → n.label.isOperator = true →
        ∃ o : Operator, o.isSign = true ∧ n.label = .operator o.symbol) ↔ Token.SignsLead ts) ∧
      ((∀ bindings s, T.evaluate bindings ≠ .error (.missingOperand s)) ↔ Token.SignsLead ts) := by
  have read : tokenize "-x" = .ok [⟨.operator, "-"⟩, ⟨.name, "x"⟩] :=
    Token.tokenizeChars_of_next? rfl (Token.tokenizeChars_of_next? rfl Token.tokenizeChars_nil)
  have parsed := parse_eq_ok_iff.2 ⟨_, read, rfl⟩
  exact ⟨parsed, signs_lead_iff read parsed⟩

/-- In `*-1` the operator `*` has no left operand and is no sign, so there is no value. -/
theorem star_leads :
    ∃ T, parse "*-1" = .ok T ∧ (∃ right, .node .nil ⟨1, .operator "*"⟩ right ∈ T.parts) ∧
      (∀ o : Operator, Label.operator "*" = .operator o.symbol → o.isSign = false) ∧
        T.evaluate (fun _ => none) = .error (.missingOperand "*") := by
  have read : tokenize "*-1" = .ok [⟨.operator, "*"⟩, ⟨.operator, "-"⟩, ⟨.number, "1"⟩] :=
    Token.tokenizeChars_of_next? rfl (Token.tokenizeChars_of_next? rfl
      (Token.tokenizeChars_of_next? rfl Token.tokenizeChars_nil))
  refine ⟨_, parse_eq_ok_iff.2 ⟨_, read, rfl⟩, ⟨_, List.mem_cons_of_mem _ List.mem_cons_self⟩, ?_,
    rfl⟩
  intro o same
  cases o <;> simp [Operator.symbol, Operator.char, Operator.isSign] at same ⊢

/-- The operand of a sign is a leaf or another sign exactly if what follows a leaf with two signs in
front never draws it more tightly than the first of them holds on, and only then no operator with
two operands stands in the operand of a sign outside parentheses. -/
theorem signs_hold_iff {text : String} {ts : List Token} {T : Tree} (read : tokenize text = .ok ts)
    (h : parse text = .ok T) :
    ((∀ n right, .node .nil n right ∈ T.parts → n.label.isOperator = true →
      ∃ l m r, right = .node l m r ∧
        (m.label.isLeaf = true ∨ m.label.isOperator = true ∧ l = .nil)) ↔ Token.SignsHold ts) ∧
    ((∀ n right, .node .nil n right ∈ T.parts → n.label.isOperator = true →
      ∀ l m r, .node l m r ∈ right.exposed → m.label.isOperator = true → l = .nil) ↔
        Token.SignsHold ts) := by
  have finished := (legible_of_parse h).toFinished
  have tokens := (obeys_iff_of_parse read h).2
  exact ⟨finished.bare_iff_right.symm.trans tokens, finished.bare_iff_exposed.symm.trans tokens⟩

/-- No leaf of `-x` has two signs in front. -/
theorem signs_hold_minus :
    let T := Tree.node .nil ⟨0, .group⟩ (.node .nil ⟨1, .operator "-"⟩ (.leaf ⟨2, .var "x"⟩))
    let ts : List Token := [⟨.operator, "-"⟩, ⟨.name, "x"⟩]
    parse "-x" = .ok T ∧
      ((∀ n right, .node .nil n right ∈ T.parts → n.label.isOperator = true →
        ∃ l m r, right = .node l m r ∧
          (m.label.isLeaf = true ∨ m.label.isOperator = true ∧ l = .nil)) ↔ Token.SignsHold ts) ∧
      ((∀ n right, .node .nil n right ∈ T.parts → n.label.isOperator = true →
        ∀ l m r, .node l m r ∈ right.exposed → m.label.isOperator = true → l = .nil) ↔
          Token.SignsHold ts) := by
  have read : tokenize "-x" = .ok [⟨.operator, "-"⟩, ⟨.name, "x"⟩] :=
    Token.tokenizeChars_of_next? rfl (Token.tokenizeChars_of_next? rfl Token.tokenizeChars_nil)
  have parsed := parse_eq_ok_iff.2 ⟨_, read, rfl⟩
  exact ⟨parsed, signs_hold_iff read parsed⟩

/-- In `--2^2` the power of the second sign's operand is the operand of the first sign. -/
theorem sign_takes_power :
    ∃ T, parse "--2^2" = .ok T ∧ ∃ right l r,
      .node .nil ⟨1, .operator "-"⟩ right ∈ T.parts ∧ right = .node l ⟨4, .operator "^"⟩ r ∧
        l ≠ .nil := by
  have read : tokenize "--2^2" = .ok [⟨.operator, "-"⟩, ⟨.operator, "-"⟩, ⟨.number, "2"⟩,
      ⟨.operator, "^"⟩, ⟨.number, "2"⟩] :=
    Token.tokenizeChars_of_next? rfl (Token.tokenizeChars_of_next? rfl
      (Token.tokenizeChars_of_next? rfl (Token.tokenizeChars_of_next? rfl
        (Token.tokenizeChars_of_next? rfl Token.tokenizeChars_nil))))
  exact ⟨_, parse_eq_ok_iff.2 ⟨_, read, rfl⟩, _, _, _,
    List.mem_cons_of_mem _ List.mem_cons_self, rfl, Tree.noConfusion⟩

end Formula
