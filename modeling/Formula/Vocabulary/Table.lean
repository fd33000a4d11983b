/-!
# Tables of spelled entries

A table lists every value of a type once, in a fixed order, and spells each in its own way. Looking
a text up is a search for the entry with that spelling.

## Main definitions

* `Table` — the entries in order, with their spelling.
* `Table.find?` — the entry that a text spells.

`Table.find?_eq_some_iff` says that a text finds an entry exactly when it is the entry's spelling,
so the order of the entries shows in listings only.
-/

namespace Formula

/-- All values of a type in the order of listings, no two spelled alike. -/
structure Table (α : Type) where
  entries : List α
  spelling : α → String
  mem_entries : ∀ a, a ∈ entries
  nodup_spellings : (entries.map spelling).Nodup

namespace Table

variable {α : Type} (table : Table α)

/-- The entry spelled `text`. -/
def find? (text : String) : Option α :=
  table.entries.find? fun a => table.spelling a == text

/-- No two entries share a spelling. -/
theorem spelling_injective {a b : α} (h : table.spelling a = table.spelling b) : a = b := by
  have distinct := List.pairwise_map.1 table.nodup_spellings
  obtain ⟨i, hi, rfl⟩ := List.getElem_of_mem (table.mem_entries a)
  obtain ⟨j, hj, rfl⟩ := List.getElem_of_mem (table.mem_entries b)
  rw [List.pairwise_iff_getElem] at distinct
  rcases Nat.lt_trichotomy i j with hij | rfl | hij
  · exact absurd h (distinct i j hi hj hij)
  · rfl
  · exact absurd h.symm (distinct j i hj hi hij)

theorem find?_eq_some_iff {text : String} {a : α} :
    table.find? text = some a ↔ table.spelling a = text := by
  constructor
  · intro h
    simpa using List.find?_some h
  · intro h
    cases found : table.find? text with
    | none =>
      have absent := List.find?_eq_none.1 found a (table.mem_entries a)
      simp [h] at absent
    | some b =>
      have spelled : table.spelling b = text := by simpa using List.find?_some found
      rw [table.spelling_injective (spelled.trans h.symm)]

@[simp] theorem find?_spelling (a : α) : table.find? (table.spelling a) = some a :=
  table.find?_eq_some_iff.2 rfl

end Table

end Formula
