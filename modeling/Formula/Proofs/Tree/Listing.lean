import Mathlib.Data.List.Basic
import Formula.Tree.Listing

/-!
# Trees from their listings

The entries of a tree tell where its root is: it is the only node with the given parent. So a tree
whose nodes have distinct serial numbers is determined by its entries.

The main result is `Tree.entries_inj`.
-/

namespace Formula.Tree

/-- The serial numbers of the nodes from left to right. -/
def serials (t : Tree) : List Nat :=
  t.inorder.map Node.serial

@[simp] theorem serials_node (left : Tree) (n : Node) (right : Tree) :
    serials (.node left n right) = left.serials ++ n.serial :: right.serials := by
  simp [serials]

theorem entriesAux_eq_append (t : Tree) (parent : Option Nat) (suffix : List Entry) :
    t.entriesAux parent suffix = t.entriesAux parent [] ++ suffix := by
  induction t generalizing parent suffix with
  | nil => rfl
  | node left n right ihl ihr =>
    simp only [entriesAux]
    rw [ihl, ihr, ihl _ (_ :: right.entriesAux _ [])]
    simp

theorem entriesAux_node (left : Tree) (n : Node) (right : Tree) (parent : Option Nat) :
    entriesAux parent (.node left n right) [] =
      left.entriesAux n.serial [] ++
        ⟨n, left.serial?, right.serial?, parent⟩ :: right.entriesAux n.serial [] := by
  rw [entriesAux, entriesAux_eq_append]

/-- Apart from the root, the nodes of a tree have their parent in the tree. -/
theorem parent_of_mem_entriesAux {t : Tree} {parent : Option Nat} {e : Entry}
    (h : e ∈ t.entriesAux parent []) : e.parent = parent ∨ ∃ i ∈ t.serials, e.parent = some i := by
  induction t generalizing parent with
  | nil => cases h
  | node left n right ihl ihr =>
    rw [entriesAux_node] at h
    have root : n.serial ∈ serials (.node left n right) := by simp
    rcases List.mem_append.1 h with h | h
    · right
      rcases ihl h with own | ⟨i, inside, own⟩
      · exact ⟨n.serial, root, own⟩
      · exact ⟨i, by simp [inside], own⟩
    · rcases List.mem_cons.1 h with rfl | h
      · exact .inl rfl
      · right
        rcases ihr h with own | ⟨i, inside, own⟩
        · exact ⟨n.serial, root, own⟩
        · exact ⟨i, by simp [inside], own⟩

theorem entriesAux_inj {t u : Tree} {parent : Option Nat} (distinct : t.serials.Nodup)
    (outside : ∀ i ∈ t.serials, parent ≠ some i)
    (h : t.entriesAux parent [] = u.entriesAux parent []) : t = u := by
  induction t generalizing u parent with
  | nil =>
    cases u with
    | nil => rfl
    | node l m r =>
      rw [entriesAux_node] at h
      simp [entriesAux] at h
  | node left n right ihl ihr =>
    cases u with
    | nil =>
      rw [entriesAux_node] at h
      simp [entriesAux] at h
    | node l m r =>
      rw [serials_node] at distinct outside
      obtain ⟨leftDistinct, rightDistinct, apart⟩ := List.nodup_append.1 distinct
      obtain ⟨fresh, rightDistinct⟩ := List.nodup_cons.1 rightDistinct
      rw [entriesAux_node, entriesAux_node] at h
      -- the root of the other tree is none of the nodes below this one's root
      have other : ∀ s : Tree, (∀ i ∈ s.serials, parent ≠ some i) →
          ⟨m, l.serial?, r.serial?, parent⟩ ∉ s.entriesAux n.serial [] := by
        intro s below member
        rcases parent_of_mem_entriesAux member with own | ⟨i, inside, own⟩
        · exact outside n.serial (by simp) own
        · exact below i inside own
      obtain ⟨sameLeft, sameRoot, sameRight⟩ := (List.append_cons_inj_of_notMem
        (other left fun i inside => outside i (by simp [inside]))
        (other right fun i inside => outside i (by simp [inside]))).1 h
      obtain rfl : n = m := congrArg Entry.node sameRoot
      rw [ihl leftDistinct ?_ sameLeft, ihr rightDistinct ?_ sameRight]
      · intro i inside same
        cases same
        exact fresh inside
      · intro i inside same
        cases same
        exact apart _ inside _ List.mem_cons_self rfl

/-- A tree with distinct serial numbers is determined by its entries. -/
theorem entries_inj {t u : Tree} (distinct : t.serials.Nodup) :
    t.entries = u.entries ↔ t = u :=
  ⟨entriesAux_inj distinct nofun, congrArg entries⟩

end Formula.Tree
