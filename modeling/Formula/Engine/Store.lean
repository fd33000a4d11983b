/-!
# Stores

A store keeps values under texts. It may forget any of them at any time, but what it gives back is
what was put in last.

## Main definitions

* `Store` — looking a value up, putting one in, and starting anew.
* `Store.Written` — the values that were put in last, as an account of what was done with a store.
* `Store.Honest` — the store never gives back anything but these.
-/

namespace Formula

/-- A store of values under texts. Looking a value up may change the store. -/
class Store (σ : Type) (α : outParam Type) where
  touch? : σ → String → Option (α × σ)
  insert : σ → String → α → σ
  clear : σ → σ

namespace Store

variable {σ α : Type} [Store σ α]

/-- The stores that come of `start` by use, each with the value put in last under every text.
Clearing a store takes nothing back of what was put in. -/
inductive Written (start : σ) : σ → (String → Option α) → Prop where
  | start : Written start start fun _ => none
  | touch {s next : σ} {last : String → Option α} {key : String} {a : α}
      (before : Written start s last) (found : touch? s key = some (a, next)) :
      Written start next last
  | insert {s : σ} {last : String → Option α} (key : String) (a : α)
      (before : Written start s last) :
      Written start (insert s key a) fun other => if other = key then some a else last other
  | clear {s : σ} {last : String → Option α} (before : Written start s last) :
      Written start (clear s) last

/-- However the store is used, what is found under a text was put in last under that text. -/
def Honest (start : σ) : Prop :=
  ∀ s last key a next, Written start s last → touch? s key = some (a, next) → last key = some a

end Store

end Formula
