import Formula.Proofs.Distinct
import Formula.Proofs.Draft.Prefix
import Formula.Proofs.Tree.Failure
import Formula.Proofs.Tree.Substitution

/-!
# What a value depends on

The value of a formula depends on its variables and on nothing else that is bound. If a value is
missing because a variable is not bound, it is the first such variable that is reported, as long as
no operand is missing.

`Tree.Finished.evaluate_congr` and `Tree.Finished.flaws_eq_map` are the two halves of the main
result, `evaluate_depends`.
-/

namespace Formula

namespace Tree

variable {t : Tree} {b b' : Bindings}

namespace Finished

theorem mem_variableNames_iff (h : t.Finished) {x : String} :
    x ∈ t.variableNames ↔ x ∈ t.core.names := by
  rw [variableNames, List.mem_eraseDups, h.names_core]

/-- Bindings that agree on the variables give the same value. -/
theorem evaluate_congr (h : t.Finished) (same : ∀ x ∈ t.variableNames, b x = b' x) :
    t.evaluate b = t.evaluate b' := by
  have values : t.core.value b = t.core.value b' := Core.value_congr fun x occurs =>
    same x (h.mem_variableNames_iff.2 occurs)
  rw [evaluate, evaluate, ← value_core h.complete, ← value_core h.complete, values]

/-- Where no operand is missing, the flaws are the variables that are not bound, from left to
right. -/
theorem flaws_eq_map (h : t.Finished) (signs : t.Obeys Law.prefixed) :
    t.flaws b =
      ((t.inorder.filterMap fun n => n.label.varName?).filter fun x => (b x).isNone).map
        .undefinedVariable := by
  induction t with
  | nil => rfl
  | node l n r ihl ihr =>
    obtain ⟨sign, signsLeft, signsRight⟩ := signs
    rw [flaws, ihl h.left signsLeft, ihr h.right signsRight, inorder_node]
    have leaf := h.eq_leaf
    cases label : n.label with
    | var name =>
      obtain ⟨rfl, rfl⟩ := leaf (by rw [label]; rfl)
      cases bound : b name <;> simp [flaw, label, Label.varName?, bound]
    | operator s =>
      have own : flaw b l (.operator s) = [] := by
        by_cases taken : l = .nil
        · obtain ⟨o, isSign, same⟩ := sign (by rw [label]; rfl) taken
          obtain rfl := Label.operator.inj (label.symm.trans same)
          simp [flaw, isSign]
        · simp [flaw, isNil_eq_false_iff.2 taken]
      simp [own, label, Label.varName?]
    | number s | constant s | group | call f opened => simp [flaw, label, Label.varName?]

end Finished

/-- Where no operand is missing, an unbound variable is reported exactly if it is the first one. -/
theorem Legible.evaluate_eq_undefinedVariable_iff (h : t.Legible) (filled : t ≠ .nil)
    (signs : t.Obeys Law.prefixed) {x : String} :
    t.evaluate b = .error (.undefinedVariable x) ↔
      (t.variableNames.find? fun y => (b y).isNone) = some x := by
  rw [evaluate_eq_error_iff EvalError.noConfusion, (h.value_cases filled).eq_error_iff,
    h.flaws_eq_map signs, List.head?_map, variableNames, ← List.head?_filter,
    ← Distinct.eraseDups_filter, Distinct.head?_eraseDups, Option.map_eq_some_iff]
  constructor
  · rintro ⟨y, first, same⟩
    cases same
    exact first
  · exact fun first => ⟨x, first, rfl⟩

theorem prefixed_of_parts (signs : ∀ n right, .node .nil n right ∈ t.parts →
    n.label.isOperator = true → ∃ o : Operator, o.isSign = true ∧ n.label = .operator o.symbol) :
    t.Obeys Law.prefixed := by
  refine obeys_iff.2 fun left n right part operator none => ?_
  subst none
  exact signs n right part operator

end Tree

/-- The value of a formula depends on its variables alone, whatever else is bound. If all operators
without a left operand are signs, it is missing for want of a variable exactly if one of them is not
bound, and the first of these in the order of the variables is reported. -/
theorem evaluate_depends {text : String} {T : Tree} (h : parse text = .ok T) :
    (∀ b b' : Bindings, (∀ x ∈ T.variableNames, b x = b' x) → T.evaluate b = T.evaluate b') ∧
    ((∀ n right, .node .nil n right ∈ T.parts → n.label.isOperator = true →
        ∃ o : Operator, o.isSign = true ∧ n.label = .operator o.symbol) → ∀ b : Bindings,
      ((∃ x, T.evaluate b = .error (.undefinedVariable x)) ↔ ∃ x ∈ T.variableNames, b x = none) ∧
      ∀ x, T.evaluate b = .error (.undefinedVariable x) ↔
        (T.variableNames.find? fun y => (b y).isNone) = some x) := by
  have legible := legible_of_parse h
  refine ⟨fun b b' => legible.evaluate_congr, fun signs b => ?_⟩
  have reported := fun x => legible.evaluate_eq_undefinedVariable_iff (b := b) (x := x)
    (ne_nil_of_parse h) (Tree.prefixed_of_parts signs)
  refine ⟨?_, reported⟩
  simp only [reported, ← Option.isSome_iff_exists, List.find?_isSome, Option.isNone_iff_eq_none]

/-- In `-y-x` with `y` bound and `x` not, `x` is reported, whatever `PI` is bound to. -/
theorem evaluate_depends_minus :
    let T := Tree.node .nil ⟨0, .group⟩ (.node (.node .nil ⟨1, .operator "-"⟩ (.leaf ⟨2, .var "y"⟩))
      ⟨3, .operator "-"⟩ (.leaf ⟨4, .var "x"⟩))
    parse "-y-x" = .ok T ∧
      (∀ z, T.evaluate (fun x => if x = "y" then some 1 else none) =
        T.evaluate (fun x => if x = "y" then some 1 else if x = "PI" then z else none)) ∧
      T.evaluate (fun x => if x = "y" then some 1 else none) = .error (.undefinedVariable "x") := by
  intro T
  have read : tokenize "-y-x" =
      .ok [⟨.operator, "-"⟩, ⟨.name, "y"⟩, ⟨.operator, "-"⟩, ⟨.name, "x"⟩] :=
    Token.tokenizeChars_of_next? rfl (Token.tokenizeChars_of_next? rfl
      (Token.tokenizeChars_of_next? rfl (Token.tokenizeChars_of_next? rfl
        Token.tokenizeChars_nil)))
  have parsed : parse "-y-x" = .ok T := parse_eq_ok_iff.2 ⟨_, read, rfl⟩
  have names : T.variableNames = ["y", "x"] := by decide
  obtain ⟨agree, report⟩ := evaluate_depends parsed
  refine ⟨parsed, fun z => agree _ _ (by simp [names]), ((report ?_ _).2 "x").2 (by decide)⟩
  intro n right part operator
  simp only [T, Tree.parts, Tree.leaf, List.nil_append, List.append_nil, List.cons_append,
    List.mem_cons, List.not_mem_nil, or_false, Tree.node.injEq] at part
  rcases part with ⟨-, rfl, -⟩ | ⟨none, -⟩ | ⟨-, rfl, -⟩ | ⟨-, rfl, -⟩ | ⟨-, rfl, -⟩
  · cases operator
  · cases none
  · exact ⟨.sub, rfl, rfl⟩
  · cases operator
  · cases operator

end Formula
