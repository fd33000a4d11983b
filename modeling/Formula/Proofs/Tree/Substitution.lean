import Formula.Proofs.Tree.Core

/-!
# Cores in place of variables

What a core comes to if other cores are put in place of its variables. The value is that of the
core itself under bindings that give each variable the value of what takes its place, so it depends
on nothing but the variables that occur.

## Main definitions

* `Core.subst` — a core with other cores in place of its variables.

The main results are `Core.value_subst` and `Core.value_congr`.
-/

namespace Formula.Core

/-- Puts a core in place of every variable. -/
def subst (σ : String → Core) : Core → Core
  | .nil => .nil
  | .number s => .number s
  | .var name => σ name
  | .constant s => .constant s
  | .operator left s right => .operator (left.subst σ) s (right.subst σ)
  | .call f argument => .call f (argument.subst σ)

variable {σ : String → Core} {b b' : Bindings} {c : Core}

@[simp] theorem subst_var (c : Core) : c.subst .var = c := by
  induction c with
  | operator left s right ihl ihr => rw [subst, ihl, ihr]
  | call f argument ih => rw [subst, ih]
  | _ => rfl

/-- Nothing vanishes if what takes the place of variables does not. -/
theorem isNil_subst (filled : ∀ x ∈ c.names, (σ x).isNil = false) :
    (c.subst σ).isNil = c.isNil := by
  cases c with
  | var name => exact filled name List.mem_cons_self
  | _ => rfl

theorem value_subst (filled : ∀ x ∈ c.names, (σ x).isNil = false)
    (same : ∀ x ∈ c.names, (σ x).value b = (var x).value b') :
    (c.subst σ).value b = c.value b' := by
  induction c with
  | var name => exact same name List.mem_cons_self
  | operator left s right ihl ihr =>
    have filled := List.forall_mem_append.1 filled
    have same := List.forall_mem_append.1 same
    rw [subst, value, isNil_subst filled.1, isNil_subst filled.2, ihl filled.1 same.1,
      ihr filled.2 same.2]
    rfl
  | call f argument ih =>
    have kept : (argument.subst σ).isNil = argument.isNil := isNil_subst filled
    rw [subst, value, kept, ih filled same]
    rfl
  | nil | number s | constant s => rfl

/-- The value depends on nothing but what the variables that occur are bound to. -/
theorem value_congr (h : ∀ x ∈ c.names, b x = b' x) : c.value b = c.value b' := by
  have same : (c.subst .var).value b = c.value b' :=
    value_subst (fun _ _ => rfl) fun x occurs => by simp only [value, h x occurs]
  rwa [subst_var] at same

end Formula.Core
