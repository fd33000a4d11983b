import Formula.Proofs.Tree.Failure

/-!
# Why a formula has no value

Everything in the tree of a text has a meaning, and nothing in it is incomplete. So evaluation can
fail for a variable without a value, for a result that is not a number, and for one kind of node
only: an operator other than a sign that has an operand behind it and none in front.

The main results are `Tree.Legible.cause_cases`, `Tree.Legible.exists_unsigned` and, for texts,
`evaluate_causes`.
-/

namespace Formula

/-! ## Names in reports -/

/-- No operator is written like a pair of parentheses. -/
theorem Operator.symbol_ne_parentheses (o : Operator) : o.symbol ≠ "()" := by
  cases o <;> decide

/-- No operator is written like a function. -/
theorem Operator.symbol_ne_name (o : Operator) (f : UnaryFunction) : o.symbol ≠ f.name := by
  cases o <;> cases f <;> decide

namespace Tree

variable {bindings : Bindings} {t : Tree} {e : EvalError} {s : String}

namespace Legible

/-- The value of a legible tree is not a number, or lacks a variable or an operand. -/
theorem cause_cases (h : t.Legible) (filled : t ≠ .nil) (failed : t.evaluate bindings = .error e) :
    e = .notANumber ∨ (∃ x, bindings x = none ∧ e = .undefinedVariable x) ∨
      ∃ s, e = .missingOperand s := by
  by_cases nan : e = .notANumber
  · exact .inl nan
  · have first := (h.value_cases filled).eq_error_iff.1 ((evaluate_eq_error_iff nan).1 failed)
    exact .inr (cases_of_mem_flaws (List.mem_of_mem_head? first))

/-- If an operand is missing, it is the one in front of an operator that is no sign; the one behind
it is there and has a value. -/
theorem exists_unsigned (h : t.Legible) (filled : t ≠ .nil)
    (failed : t.evaluate bindings = .error (.missingOperand s)) :
    ∃ n right x, ∃ o : Operator, .node .nil n right ∈ t.parts ∧ n.label = .operator s ∧
      o.symbol = s ∧ o.isSign = false ∧ right ≠ .nil ∧ right.value bindings = .ok x := by
  have reported := (evaluate_eq_error_iff EvalError.noConfusion).1 failed
  obtain ⟨left, n, right, part, sound, found⟩ :=
    exists_part_of_head? ((h.value_cases filled).eq_error_iff.1 reported)
  obtain ⟨label, rfl, unsigned⟩ := missingOperand_mem_flaw_iff.1 found
  have here := h.of_mem_parts part
  obtain ⟨o, symbol⟩ := here.exists_operator (by rw [label]; rfl)
  obtain rfl : s = o.symbol := Label.operator.inj (label.symm.trans symbol)
  have behind : right ≠ .nil := here.right_ne_nil (by rw [label]; rfl)
  obtain ⟨x, value⟩ := Settles.exists_value (sound ▸ here.right.value_cases behind)
  refine ⟨n, right, x, o, part, label, rfl, Bool.of_not_eq_true fun sign => ?_, behind, value⟩
  exact unsigned ⟨o, sign, rfl⟩

end Legible

end Tree

/-! ## Texts -/

/-- The value of a formula never fails for a name, symbol or number that is not known, nor for
something that is incomplete, since nothing is. A missing operand is always the one in front of an
operator that is no sign and whose other operand is there. -/
theorem evaluate_causes {text : String} {T : Tree} (h : parse text = .ok T) (bindings : Bindings) :
    (∀ name, T.evaluate bindings ≠ .error (.undefinedConstant name)) ∧
    (∀ s, T.evaluate bindings ≠ .error (.undefinedOperator s)) ∧
    (∀ name, T.evaluate bindings ≠ .error (.undefinedFunction name)) ∧
    (∀ s, T.evaluate bindings ≠ .error (.invalidNumber s)) ∧
    T.evaluate bindings ≠ .error (.missingOperand "()") ∧
    (∀ f : UnaryFunction, T.evaluate bindings ≠ .error (.missingOperand f.name)) ∧
    (∀ left n right, .node left n right ∈ T.parts → n.label.isLeaf = false → right ≠ .nil) ∧
    ∀ s, T.evaluate bindings = .error (.missingOperand s) →
      ∃ n right x, ∃ o : Operator, .node .nil n right ∈ T.parts ∧ n.label = .operator s ∧
        o.symbol = s ∧ o.isSign = false ∧ right ≠ .nil ∧ right.value bindings = .ok x := by
  have legible := legible_of_parse h
  have filled := ne_nil_of_parse h
  have known : ∀ e, e ≠ .notANumber → (∀ x, e ≠ .undefinedVariable x) →
      (∀ s, e ≠ .missingOperand s) → T.evaluate bindings ≠ .error e := by
    intro e number bound operand failed
    rcases legible.cause_cases filled failed with nan | ⟨x, -, undefined⟩ | ⟨s, missing⟩
    · exact number nan
    · exact bound x undefined
    · exact operand s missing
  refine ⟨fun _ => known _ nofun nofun nofun, fun _ => known _ nofun nofun nofun,
    fun _ => known _ nofun nofun nofun, fun _ => known _ nofun nofun nofun, fun failed => ?_,
    fun f failed => ?_, fun left n right part => (legible.of_mem_parts part).right_ne_nil,
    fun s => legible.exists_unsigned filled⟩
  · obtain ⟨_, _, _, o, -, -, symbol, -⟩ := legible.exists_unsigned filled failed
    exact o.symbol_ne_parentheses symbol
  · obtain ⟨_, _, _, o, -, -, symbol, -⟩ := legible.exists_unsigned filled failed
    exact o.symbol_ne_name f symbol

/-- In `*-x` the operand in front of `*` is missing, and nothing else. -/
theorem evaluate_causes_star :
    let T := Tree.node .nil ⟨0, .group⟩ (.node .nil ⟨1, .operator "*"⟩
      (.node .nil ⟨2, .operator "-"⟩ (.leaf ⟨3, .var "x"⟩)))
    parse "*-x" = .ok T ∧ T.evaluate (fun _ => some 1) = .error (.missingOperand "*") ∧
      (∀ s, T.evaluate (fun _ => some 1) ≠ .error (.invalidNumber s)) ∧
      ∃ n right x, ∃ o : Operator, .node .nil n right ∈ T.parts ∧ n.label = .operator "*" ∧
        o.symbol = "*" ∧ o.isSign = false ∧ right ≠ .nil ∧
          right.value (fun _ => some 1) = .ok x := by
  intro T
  have read : tokenize "*-x" = .ok [⟨.operator, "*"⟩, ⟨.operator, "-"⟩, ⟨.name, "x"⟩] :=
    Token.tokenizeChars_of_next? rfl (Token.tokenizeChars_of_next? rfl
      (Token.tokenizeChars_of_next? rfl Token.tokenizeChars_nil))
  have parsed : parse "*-x" = .ok T := parse_eq_ok_iff.2 ⟨_, read, rfl⟩
  have failed : T.evaluate (fun _ => some 1) = .error (.missingOperand "*") := rfl
  obtain ⟨-, -, -, number, -, -, -, missing⟩ := evaluate_causes parsed fun _ => some 1
  exact ⟨parsed, failed, number, missing "*" failed⟩

end Formula
