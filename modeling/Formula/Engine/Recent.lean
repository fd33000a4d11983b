import Formula.Engine.Store

/-!
# The most recent entries

A store of values under texts that keeps no more than a fixed number of entries: those that were
put in or looked up last.

## Main definitions

* `Recent` — the entries, the most recent first; no text occurs twice and no more than `capacity`
  entries are kept.
* `Recent.touch?` — the value under a text, which thereby becomes the most recent entry.
* `Recent.insert` — a new most recent entry; the least recent one goes if there are too many.
-/

namespace Formula

structure Recent (α : Type) where
  capacity : Nat
  entries : List (String × α)
  length_le : entries.length ≤ capacity
  nodup_keys : (entries.map Prod.fst).Nodup

namespace Recent

variable {α : Type}

def empty (capacity : Nat) : Recent α where
  capacity := capacity
  entries := []
  length_le := Nat.zero_le _
  nodup_keys := List.nodup_nil

def size (r : Recent α) : Nat :=
  r.entries.length

/-- The texts of the entries, the most recent first. -/
def keys (r : Recent α) : List String :=
  r.entries.map Prod.fst

/-- The entries under other texts than `key`. -/
def others (r : Recent α) (key : String) : List (String × α) :=
  r.entries.filter fun entry => entry.1 != key

theorem key_notMem_others (r : Recent α) (key : String) :
    key ∉ (r.others key).map Prod.fst := by
  simp [others]

theorem nodup_others (r : Recent α) (key : String) : ((r.others key).map Prod.fst).Nodup :=
  r.nodup_keys.sublist (List.filter_sublist.map _)

/-- All texts stay different when an entry takes the place of any other under its text. -/
theorem nodup_cons_others (r : Recent α) (key : String) (a : α) :
    (((key, a) :: r.others key).map Prod.fst).Nodup :=
  List.nodup_cons.2 ⟨r.key_notMem_others key, r.nodup_others key⟩

/-- A text that is among the entries is not among the others, so there are fewer of these. -/
theorem length_others_lt {r : Recent α} {key : String} {a : α}
    (h : r.entries.lookup key = some a) : (r.others key).length < r.size := by
  rw [others, size, List.length_filter_lt_length_iff_exists]
  obtain ⟨before, after, split, -⟩ := List.lookup_eq_some_iff.1 h
  exact ⟨(key, a), by simp [split], by simp⟩

/-- The value under a text, with the store in which it is the most recent entry. -/
def touch? (r : Recent α) (key : String) : Option (α × Recent α) :=
  match h : r.entries.lookup key with
  | none => none
  | some a =>
    some (a, {
      capacity := r.capacity
      entries := (key, a) :: r.others key
      length_le := Nat.le_trans (length_others_lt h) r.length_le
      nodup_keys := r.nodup_cons_others key a })

/-- What is found becomes the most recent entry; nothing else changes. -/
theorem touch?_eq_some {r next : Recent α} {key : String} {a : α}
    (h : r.touch? key = some (a, next)) :
    (key, a) ∈ r.entries ∧ next.entries = (key, a) :: r.others key ∧
      next.capacity = r.capacity := by
  rw [touch?] at h
  split at h
  · cases h
  · next found =>
    cases h
    obtain ⟨before, after, split, -⟩ := List.lookup_eq_some_iff.1 found
    exact ⟨by simp [split], rfl, rfl⟩

theorem touch?_eq_none {r : Recent α} {key : String} (h : r.touch? key = none) :
    key ∉ r.keys := by
  rw [touch?] at h
  split at h
  · next missing =>
    rw [keys, List.mem_map]
    rintro ⟨entry, inside, rfl⟩
    simpa using List.lookup_eq_none_iff.1 missing entry inside
  · cases h

/-- The store with a new most recent entry. -/
def insert (r : Recent α) (key : String) (a : α) : Recent α where
  capacity := r.capacity
  entries := ((key, a) :: r.others key).take r.capacity
  length_le := List.length_take_le _ _
  nodup_keys := (r.nodup_cons_others key a).sublist ((List.take_sublist _ _).map _)

/-- The same store with nothing in it. -/
def clear (r : Recent α) : Recent α :=
  empty r.capacity

instance : Store (Recent α) α where
  touch? := touch?
  insert := insert
  clear := clear

end Recent

end Formula
