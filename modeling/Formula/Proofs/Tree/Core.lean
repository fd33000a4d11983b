import Formula.Proofs.Tree.Finished
import Formula.Tree.Core
import Formula.Tree.Value

/-!
# What the core of a tree determines

Groups matter for reading only. The value of a finished tree and the names of its variables are
those of its core, so trees with the same core have the same value under any bindings.

## Main definitions

* `Core.value`, `Core.names` — the value of a core, and its variables from left to right.

The main results are `Tree.Finished.evaluate_eq` and `Tree.Finished.variableNames_eq`.
-/

namespace Formula

namespace Core

def isNil : Core → Bool
  | .nil => true
  | .number _ | .var _ | .constant _ | .operator _ _ _ | .call _ _ => false

/-- The value of a core, as that of a tree. -/
def value (bindings : Bindings) : Core → Except EvalError Float
  | .nil => .error (.missingOperand "()")
  | .number s =>
    match Decimal.read? s with
    | some x => .ok x
    | none => .error (.invalidNumber s)
  | .var name =>
    match bindings name with
    | some x => .ok x
    | none => .error (.undefinedVariable name)
  | .constant name =>
    match Constant.ofName? name with
    | some c => .ok c.value
    | none => .error (.undefinedConstant name)
  | .operator left s right =>
    match Operator.ofSymbol? s with
    | none => .error (.undefinedOperator s)
    | some o => do
      let x ← if left.isNil then pure none else some <$> left.value bindings
      let y ← if right.isNil then throw (.missingOperand s) else right.value bindings
      match o.apply x y with
      | some z => pure z
      | none => throw (.missingOperand s)
  | .call name argument =>
    match UnaryFunction.ofName? name with
    | none => .error (.undefinedFunction name)
    | some f =>
      if argument.isNil then .error (.missingOperand name)
      else f.apply <$> argument.value bindings

/-- The variables from left to right, each as often as it occurs. -/
def names : Core → List String
  | .nil | .number _ | .constant _ => []
  | .var name => [name]
  | .operator left _ right => left.names ++ right.names
  | .call _ argument => argument.names

end Core

namespace Tree

/-- A complete tree has an empty core only if it is empty itself. -/
theorem isNil_core {t : Tree} (h : t.Complete) : t.core.isNil = t.isNil := by
  induction t with
  | nil => rfl
  | node left n right _ ih =>
    cases label : n.label with
    | group =>
      cases right with
      | nil =>
        have leaf := h.2.1 rfl
        simp [label, Label.isLeaf] at leaf
      | node => simpa [core, label, isNil] using ih h.2.2
    | _ => simp [core, label, Core.isNil, isNil]

/-- The value of a complete tree is that of its core. -/
theorem value_core {t : Tree} (h : t.Complete) (bindings : Bindings) :
    t.core.value bindings = t.value bindings := by
  induction t with
  | nil => rfl
  | node left n right ihl ihr =>
    obtain ⟨serial, label⟩ := n
    cases label with
    | number s | var s | constant s => rfl
    | group => exact ihr h.2.2
    | operator s =>
      rw [value, ← ihl h.1, ← ihr h.2.2, ← isNil_core h.1, ← isNil_core h.2.2]
      rfl
    | call f opened =>
      rw [value, ← ihr h.2.2, ← isNil_core h.2.2]
      rfl

namespace Finished

theorem names_core {t : Tree} (h : t.Finished) :
    t.core.names = t.inorder.filterMap fun n => n.label.varName? := by
  induction t with
  | nil => rfl
  | node l n r ihl ihr =>
    have hl := ihl h.left
    have hr := ihr h.right
    have bare := h.proper.1.2.1
    have leaf := h.eq_leaf
    cases label : n.label with
    | operator s => simp [core, label, Core.names, hl, hr, Label.varName?]
    | group | call f opened =>
      obtain rfl := bare (by rw [label]; rfl)
      simp [core, label, Core.names, hr, Label.varName?]
    | number s | var s | constant s =>
      obtain ⟨rfl, rfl⟩ := leaf (by rw [label]; rfl)
      simp [core, label, Core.names, Label.varName?]

/-- Finished trees with the same core have the same value. -/
theorem evaluate_eq {t u : Tree} (ht : t.Finished) (hu : u.Finished) (h : t.core = u.core)
    (bindings : Bindings) : t.evaluate bindings = u.evaluate bindings := by
  rw [evaluate, evaluate, ← value_core ht.complete, ← value_core hu.complete, h]

theorem variableNames_eq {t u : Tree} (ht : t.Finished) (hu : u.Finished) (h : t.core = u.core) :
    t.variableNames = u.variableNames := by
  rw [variableNames, variableNames, ← ht.names_core, ← hu.names_core, h]

end Finished

end Tree

end Formula
