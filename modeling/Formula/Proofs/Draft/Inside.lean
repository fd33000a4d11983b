import Formula.Proofs.Draft.Tokens
import Formula.Proofs.RoundTrip

/-!
# Drafts inside a group

What tokens do to a draft does not depend on where it stands: inside further frames, and with higher
serial numbers, they do the same. So the tokens of a formula, put in parentheses, fill a group with
the formula as it is.

## Main definitions

* `Tree.shift`, `Frame.shift` — trees and frames with higher serial numbers.
* `Draft.inside` — a draft inside further frames.

`Draft.Move.inside` is the step and `Draft.Moves.inside` the run. The main results are
`Draft.moves_group` and `Draft.exists_build_parenthesised`.
-/

namespace Formula

/-! ## Serial numbers -/

/-- The node with its serial number raised by `k`. -/
def Node.shift (k : Nat) (n : Node) : Node :=
  ⟨k + n.serial, n.label⟩

namespace Tree

/-- The tree with its serial numbers raised by `k`. -/
def shift (k : Nat) : Tree → Tree
  | .nil => .nil
  | .node left n right => .node (left.shift k) (n.shift k) (right.shift k)

variable {t : Tree} {k : Nat}

theorem isNil_shift : (t.shift k).isNil = t.isNil := by
  cases t <;> rfl

theorem isOperator_shift : (t.shift k).isOperator = t.isOperator := by
  cases t <;> rfl

theorem shift_eq_nil_iff : t.shift k = .nil ↔ t = .nil := by
  cases t <;> simp [shift]

/-- Serial numbers show neither in the core nor in the rendering. -/
theorem alike_shift (t : Tree) (k : Nat) : (t.shift k).Alike t := by
  induction t with
  | nil => exact ⟨rfl, rfl⟩
  | node left n right ihl ihr =>
    constructor
    · simp only [shift, core, Node.shift, ihl.core, ihr.core]
    · simp only [shift, render, Node.shift, ihl.render, ihr.render, isNil_shift, isOperator_shift]

theorem complete_shift : (t.shift k).Complete ↔ t.Complete := by
  induction t with
  | nil => exact Iff.rfl
  | node left n right ihl ihr =>
    simp only [shift, Complete, Node.shift, ihl, ihr, shift_eq_nil_iff]

end Tree

/-! ## Frames -/

namespace Frame

variable {t left right : Tree} {above rest : List Frame} {k : Nat}

/-- The frame with its serial numbers raised by `k`. -/
def shift (k : Nat) (f : Frame) : Frame :=
  ⟨f.left.shift k, f.node.shift k⟩

/-- An operator climbs equally far inside further frames. -/
theorem climb_shift {p : Int} (outer : List Frame) (climbed : climb p t above = some (left, rest)) :
    climb p (t.shift k) (above.map (shift k) ++ outer) =
      some (left.shift k, rest.map (shift k) ++ outer) := by
  induction above generalizing t with
  | nil => cases climbed
  | cons f above ih =>
    have label : (f.shift k).node.label = f.node.label := rfl
    rw [climb] at climbed
    rw [List.map_cons, List.cons_append, climb, label]
    split at climbed
    · next tight =>
      rw [if_pos tight]
      exact ih climbed
    · next loose =>
      cases climbed
      rw [if_neg loose]
      rfl

/-- The nearest group is the same one. -/
theorem toGroup?_shift {here : Frame} (outer : List Frame)
    (found : toGroup? t above = some (rest, here, right)) :
    toGroup? (t.shift k) (above.map (shift k) ++ outer) =
      some (rest.map (shift k) ++ outer, here.shift k, right.shift k) := by
  induction above generalizing t with
  | nil => cases found
  | cons f above ih =>
    have group : (f.shift k).isGroup = f.isGroup := rfl
    rw [toGroup?] at found
    rw [List.map_cons, List.cons_append, toGroup?, group]
    split at found
    · next isGroup =>
      cases found
      rw [if_pos isGroup]
    · next other =>
      rw [if_neg other]
      exact ih found

end Frame

/-! ## Drafts -/

namespace Draft

variable {d e : Draft} {t : Token} {ts : List Token} {T : Tree}

/-- The draft inside the frames of `outer`, with its serial numbers raised by `k`. -/
def inside (outer : List Frame) (k : Nat) (d : Draft) : Draft where
  above := d.above.map (Frame.shift k) ++ outer
  here := d.here.shift k
  right := d.right.shift k
  size := k + d.size

variable {outer : List Frame} {k : Nat}

theorem demand_inside : (d.inside outer k).demand = d.demand := by
  obtain ⟨above, ⟨left, serial, label⟩, right, size⟩ := d
  cases label <;> cases left <;> cases right <;> rfl

theorem Move.inside (move : Move d t e) : Move (d.inside outer k) t (e.inside outer k) := by
  cases move with
  | descend operand called free => exact .descend operand (by rwa [demand_inside]) free
  | attach operand called sign => exact .attach operand (demand_inside.trans called) sign
  | openCall label => exact .openCall (d := d.inside outer k) label
  | lead o called free => exact .lead o (demand_inside.trans called) free
  | sign o called isSign => exact .sign o (by rwa [demand_inside]) isSign
  | splice o called free climbed =>
    exact .splice o (demand_inside.trans called) free (Frame.climb_shift outer climbed)
  | close free found => exact .close free (Frame.toGroup?_shift outer found)

theorem Moves.inside (moves : Moves d ts e) : Moves (d.inside outer k) ts (e.inside outer k) := by
  induction moves with
  | nil d => exact .nil _
  | cons move _ ih => exact .cons move.inside ih

/-! ## Formulas in parentheses -/

/-- The tokens of a formula fill a group, wherever it is, with what the formula holds. -/
theorem moves_group (plain : ∀ t ∈ ts, t.Plain) (built : build ts = .ok T)
    (called : d.demand = .first ∨ d.demand = .second) (free : d.unopened? = none) :
    ∃ content size, T = .node .nil ⟨0, .group⟩ content ∧
      Moves d (.opening :: ts ++ [.closing])
        ⟨d.here :: d.above, ⟨.nil, ⟨d.size, .group⟩⟩, content.shift d.size, size⟩ := by
  obtain ⟨e, moves, finished⟩ := build_eq_ok_iff.1 built
  obtain ⟨content, rfl, found⟩ := eq_of_finish moves finished
  -- A new group is the empty draft inside the frames above it.
  have opening : Move d .opening (empty.inside (d.here :: d.above) d.size) :=
    .descend rfl called (.inl free)
  have unopened := unopened?_of_finish moves plain finished
  have closing := Move.close (d := e.inside (d.here :: d.above) d.size) unopened
    (Frame.toGroup?_shift (d.here :: d.above) found)
  exact ⟨content, _, rfl, .cons opening (moves.inside.append (.single closing))⟩

theorem build_parenthesised (plain : ∀ t ∈ ts, t.Plain) (built : build ts = .ok T) :
    build (.opening :: ts ++ [.closing]) = .ok (.node .nil ⟨0, .group⟩ (T.shift 1)) := by
  obtain ⟨-, -, -, -, complete⟩ := exists_viable_of_build built
  obtain ⟨content, size, rfl, moves⟩ := moves_group (d := empty) plain built (.inl rfl) rfl
  refine build_eq_ok_iff.2 ⟨_, moves, finish_eq_ok_iff.2 ⟨?_, empty.here, _, rfl, rfl⟩⟩
  exact ⟨trivial, nofun, Tree.complete_shift.2 complete⟩

/-- A formula in any number of parentheses is accepted, and but for serial numbers and redundant
groups it stays as it is. -/
theorem exists_build_parenthesised (plain : ∀ t ∈ ts, t.Plain) (built : build ts = .ok T)
    (j : Nat) : ∃ U, build (.replicate j .opening ++ ts ++ .replicate j .closing) = .ok U ∧
      U.Alike T := by
  induction j with
  | zero => exact ⟨T, by simpa using built, rfl, rfl⟩
  | succ j ih =>
    obtain ⟨U, inner, alike⟩ := ih
    have plain' : ∀ t ∈ List.replicate j .opening ++ ts ++ .replicate j .closing, t.Plain := by
      simp only [List.forall_mem_append, List.mem_replicate]
      refine ⟨⟨?_, plain⟩, ?_⟩
      · rintro t ⟨-, rfl⟩
        decide
      · rintro t ⟨-, rfl⟩
        decide
    have outer := build_parenthesised plain' inner
    refine ⟨_, ?_, ((Tree.alike_shift U 1).group 0).trans alike⟩
    rw [List.replicate_succ, List.replicate_succ', ← outer]
    simp

end Draft

end Formula
