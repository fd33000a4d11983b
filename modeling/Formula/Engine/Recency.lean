import Formula.Engine.Recent

/-!
# Stores that keep what was used last

Any store can stand for that of the most recent entries if it does the same to the entries that it
says it has. A store that is not there at all keeps nothing.

## Main definitions

* `Store.Recency` — how a store of the most recent entries accounts for them.
* `Recent.recency` — the account of `Recent`.
* `Store.ofCapacity`, `Store.Recency.option` — a store that is there only if it may keep something,
  and its account.
-/

namespace Formula

namespace Store

variable {σ α : Type} [Store σ α]

/-- An account of stores by their entries, the most recent first. An entry that is looked up or put
in becomes the most recent one, and the least recent one goes if there are too many. -/
structure Recency (σ : Type) {α : Type} [Store σ α] where
  capacity : σ → Nat
  entries : σ → List (String × α)
  size : σ → Nat
  size_eq : ∀ s, size s = (entries s).length
  found : ∀ {s next key a}, touch? s key = some (a, next) →
    (key, a) ∈ entries s ∧
      entries next = (key, a) :: (entries s).filter (fun entry => entry.1 != key) ∧
      capacity next = capacity s
  missing : ∀ {s key}, touch? s key = none → key ∉ (entries s).map Prod.fst
  inserted : ∀ s key a,
    entries (insert s key a) =
        ((key, a) :: (entries s).filter fun entry => entry.1 != key).take (capacity s) ∧
      capacity (insert s key a) = capacity s
  cleared : ∀ s, entries (clear s) = [] ∧ capacity (clear s) = capacity s

/-- A store that need not be there. -/
instance optional : Store (Option σ) α where
  touch? s key := s.bind fun r => (touch? r key).map fun (a, next) => (a, some next)
  insert s key a := s.map fun r => insert r key a
  clear s := s.map clear

/-- The store that `make` makes for a capacity, which is not there if it could not keep anything. -/
def ofCapacity (make : Nat → σ) (capacity : Nat) : Option σ :=
  if capacity = 0 then none else some (make capacity)

/-- A store that is not there has no entries, and no room for any. -/
def Recency.option (view : Recency σ) : Recency (Option σ) where
  capacity s := s.elim 0 view.capacity
  entries s := s.elim [] view.entries
  size s := s.elim 0 view.size
  size_eq s := by
    cases s with
    | none => rfl
    | some r => exact view.size_eq r
  found := by
    intro s next key a h
    cases s with
    | none => cases h
    | some r =>
      obtain ⟨⟨b, after⟩, hit, same⟩ := Option.map_eq_some_iff.1 h
      cases same
      exact view.found hit
  missing := by
    intro s key h
    cases s with
    | none => exact List.not_mem_nil
    | some r => exact view.missing (Option.map_eq_none_iff.1 h)
  inserted s key a := by
    cases s with
    | none => exact ⟨rfl, rfl⟩
    | some r => exact view.inserted r key a
  cleared s := by
    cases s with
    | none => exact ⟨rfl, rfl⟩
    | some r => exact view.cleared r

end Store

namespace Recent

variable {α : Type}

def recency : Store.Recency (Recent α) where
  capacity := capacity
  entries := entries
  size := size
  size_eq _ := rfl
  found := touch?_eq_some
  missing := touch?_eq_none
  inserted _ _ _ := ⟨rfl, rfl⟩
  cleared _ := ⟨rfl, rfl⟩

end Recent

end Formula
