import Formula.Proofs.Draft.Move
import Formula.Proofs.Draft.Frame
import Formula.Proofs.Tree.Substitution
import Mathlib.Data.List.Forall2

/-!
# Drafts that do the same

Two drafts to which tokens do the same: one stands below frames that the other one has not, and has
other cores in the places of variables. What takes the place of a variable may be a group that has
been closed, since an operator or a closing parenthesis sees no more of it than of a leaf.

## Main definitions

* `Tree.Mirrors`, `Frame.Mirrors` — trees and frames alike but for what is in place of variables.
* `Draft.Mirrors` — a draft that does what another one does, inside further frames.

`Draft.Move.mirrors` is the step and `Draft.Moves.mirrors` the run. `Draft.Mirrors.finish` says what
comes of finishing.
-/

namespace Formula

variable {σ : String → Core}

/-! ## Trees and frames -/

/-- The second tree is the first one with `σ` in place of its variables, as far as cores tell, and
it lacks nothing if the first one does not. -/
structure Tree.Mirrors (σ : String → Core) (t t' : Tree) : Prop where
  core : t'.core = t.core.subst σ
  nil_iff : t' = .nil ↔ t = .nil
  complete : t.Complete → t'.Complete

/-- The node of the frame keeps its label, so it is no variable that `σ` replaces. -/
structure Frame.Mirrors (σ : String → Core) (f f' : Frame) : Prop where
  left : f.left.Mirrors σ f'.left
  label : f'.node.label = f.node.label
  fixed : ∀ x, f.node.label = .var x → σ x = .var x

theorem Tree.mirrors_nil : Tree.nil.Mirrors σ .nil :=
  ⟨rfl, Iff.rfl, fun _ => trivial⟩

namespace Frame

variable {f f' : Frame} {t t' : Tree} {above inner : List Frame}

theorem mirrors_of_label {l : Label} {n n' : Nat} (fixed : ∀ x, l = .var x → σ x = .var x) :
    Mirrors σ ⟨.nil, ⟨n, l⟩⟩ ⟨.nil, ⟨n', l⟩⟩ :=
  ⟨Tree.mirrors_nil, rfl, fixed⟩

theorem Mirrors.close (h : f.Mirrors σ f') (h' : t.Mirrors σ t') :
    (f.close t).Mirrors σ (f'.close t') := by
  refine ⟨?_, iff_of_false Tree.noConfusion Tree.noConfusion, ?_⟩
  · have leftCore := h.left.core
    have rightCore := h'.core
    simp only [Frame.close, Tree.core, h.label]
    cases label : f.node.label with
    | var x => exact (h.fixed x label).symm
    | operator s => rw [leftCore, rightCore, Core.subst]
    | call g opened => rw [rightCore, Core.subst]
    | group => exact rightCore
    | number s | constant s => rfl
  · rw [complete_close_iff, complete_close_iff, h.label, h'.nil_iff]
    rintro ⟨left, leaf, right⟩
    exact ⟨h.left.complete left, leaf, h'.complete right⟩

/-- An operator climbs equally far. -/
theorem climb_of_mirrors {p : Int} {left : Tree} {rest : List Frame} (outer : List Frame)
    (frames : List.Forall₂ (Mirrors σ) above inner) (h : t.Mirrors σ t')
    (climbed : climb p t above = some (left, rest)) :
    ∃ left' rest', climb p t' (inner ++ outer) = some (left', rest' ++ outer) ∧
      left.Mirrors σ left' ∧ List.Forall₂ (Mirrors σ) rest rest' := by
  induction frames generalizing t t' with
  | nil => cases climbed
  | @cons f f' above inner frame frames ih =>
    rw [climb] at climbed
    rw [List.cons_append, climb, frame.label]
    split at climbed
    · next tight =>
      rw [if_pos tight]
      exact ih (frame.close h) climbed
    · next loose =>
      cases climbed
      rw [if_neg loose]
      exact ⟨t', f' :: inner, rfl, h, .cons frame frames⟩

/-- The nearest group is the same one. -/
theorem toGroup?_of_mirrors {here : Frame} {right : Tree} {rest : List Frame}
    (outer : List Frame) (frames : List.Forall₂ (Mirrors σ) above inner) (h : t.Mirrors σ t')
    (found : toGroup? t above = some (rest, here, right)) :
    ∃ rest' here' right', toGroup? t' (inner ++ outer) = some (rest' ++ outer, here', right') ∧
      List.Forall₂ (Mirrors σ) rest rest' ∧ here.Mirrors σ here' ∧ right.Mirrors σ right' := by
  induction frames generalizing t t' with
  | nil => cases found
  | @cons f f' above inner frame frames ih =>
    have group : f'.isGroup = f.isGroup := congrArg Label.isGroup frame.label
    rw [toGroup?] at found
    rw [List.cons_append, toGroup?, group]
    split at found
    · next isGroup =>
      cases found
      rw [if_pos isGroup]
      exact ⟨inner, f', t', rfl, frames, frame, h⟩
    · next other =>
      rw [if_neg other]
      exact ih (frame.close h) found

end Frame

/-! ## Drafts -/

namespace Draft

variable {outer : List Frame} {d d' e : Draft} {t : Token} {ts : List Token}

/-- The second draft does what the first one does, inside the frames of `outer`. Where only an
operator or a closing parenthesis can come next, all that counts is what hangs at the cursor. -/
structure Mirrors (σ : String → Core) (outer : List Frame) (d d' : Draft) : Prop where
  above : ∃ inner, List.Forall₂ (Frame.Mirrors σ) d.above inner ∧ d'.above = inner ++ outer
  demand : d'.demand = d.demand
  unopened : d'.unopened? = d.unopened?
  hanging : (d.here.close d.right).Mirrors σ (d'.here.close d'.right)
  cursor : d.demand ≠ .none ∨ d.unopened? ≠ none →
    d.here.Mirrors σ d'.here ∧ d.right.Mirrors σ d'.right

theorem demand_eq_of_mirrors (here : d.here.Mirrors σ d'.here)
    (right : d.right.Mirrors σ d'.right) : d'.demand = d.demand := by
  have empty := here.left.nil_iff
  have free := right.nil_iff
  rw [Draft.demand, Draft.demand, here.label]
  generalize d.here.left = l, d'.here.left = l' at empty
  generalize d.right = r, d'.right = r' at free
  cases d.here.node.label <;> cases l <;> cases l' <;> cases r <;> cases r' <;>
    simp at empty free ⊢

theorem mirrors_of_cursor {inner : List Frame}
    (frames : List.Forall₂ (Frame.Mirrors σ) d.above inner) (above : d'.above = inner ++ outer)
    (here : d.here.Mirrors σ d'.here) (right : d.right.Mirrors σ d'.right) :
    d.Mirrors σ outer d' where
  above := ⟨inner, frames, above⟩
  demand := demand_eq_of_mirrors here right
  unopened := by rw [unopened?, unopened?, here.label]
  hanging := here.close right
  cursor _ := ⟨here, right⟩

/-- A group with nothing in it, inside any frames, mirrors the empty draft. -/
theorem mirrors_empty (serial size : Nat) :
    empty.Mirrors σ outer ⟨outer, ⟨.nil, ⟨serial, .group⟩⟩, .nil, size⟩ :=
  mirrors_of_cursor .nil rfl (Frame.mirrors_of_label nofun) Tree.mirrors_nil

theorem Mirrors.descend (h : d.Mirrors σ outer d') (called : d.demand ≠ .none) {l : Label}
    (fixed : ∀ x, l = .var x → σ x = .var x) :
    (d.descend l).Mirrors σ outer (d'.descend l) := by
  obtain ⟨inner, frames, above⟩ := h.above
  refine mirrors_of_cursor (.cons (h.cursor (.inl called)).1 frames) ?_
    (Frame.mirrors_of_label fixed) Tree.mirrors_nil
  rw [Draft.descend, above, List.cons_append]

/-- A token does the same to both drafts, unless it is a variable that has another core in its
place. -/
theorem Move.mirrors (move : Move d t e) (h : d.Mirrors σ outer d')
    (fixed : ∀ x, t.operand? = some (.var x) → σ x = .var x) :
    ∃ e', Move d' t e' ∧ e.Mirrors σ outer e' := by
  obtain ⟨inner, frames, above⟩ := h.above
  cases move with
  | @descend _ l operand called free =>
    refine ⟨_, .descend operand (h.demand ▸ called) (h.unopened ▸ free), ?_⟩
    exact h.descend (ne_none_of_called called) fun x var => fixed x (var ▸ operand)
  | @attach _ l o operand called sign =>
    refine ⟨_, .attach operand (h.demand.trans called) sign, ?_⟩
    refine mirrors_of_cursor frames above (h.cursor (.inl (by simp [called]))).1 ?_
    have leaf : Frame.Mirrors σ ⟨.nil, ⟨d.size, l⟩⟩ ⟨.nil, ⟨d'.size, l⟩⟩ :=
      Frame.mirrors_of_label fun x var => fixed x (var ▸ operand)
    exact leaf.close Tree.mirrors_nil
  | @openCall f label =>
    have unopened := unopened?_eq_some_iff.2 label
    obtain ⟨here, right⟩ := h.cursor (.inr (by simp [unopened]))
    refine ⟨_, .openCall (here.label.trans label), ?_⟩
    exact mirrors_of_cursor frames above ⟨here.left, rfl, nofun⟩ right
  | lead o called free =>
    refine ⟨_, .lead o (h.demand.trans called) (h.unopened.trans free), ?_⟩
    exact h.descend (by simp [called]) nofun
  | sign o called isSign =>
    exact ⟨_, .sign o (h.demand ▸ called) isSign, h.descend (ne_none_of_operator called) nofun⟩
  | splice o called free climbed =>
    obtain ⟨left', rest', climbed', left, rest⟩ :=
      Frame.climb_of_mirrors outer frames h.hanging climbed
    rw [← above] at climbed'
    refine ⟨_, .splice o (h.demand.trans called) (h.unopened.trans free) climbed', ?_⟩
    exact mirrors_of_cursor rest rfl ⟨left, rfl, nofun⟩ Tree.mirrors_nil
  | close free found =>
    obtain ⟨rest', here', right', found', rest, here, right⟩ :=
      Frame.toGroup?_of_mirrors outer frames h.hanging found
    rw [← above] at found'
    exact ⟨_, .close (h.unopened.trans free) found', mirrors_of_cursor rest rfl here right⟩

/-- Tokens do the same to both drafts, if none of them is a variable that has another core in its
place. -/
theorem Moves.mirrors (moves : Moves d ts e) (h : d.Mirrors σ outer d')
    (fixed : ∀ t ∈ ts, ∀ x, t.operand? = some (.var x) → σ x = .var x) :
    ∃ e', Moves d' ts e' ∧ e.Mirrors σ outer e' := by
  induction moves generalizing d' with
  | nil d => exact ⟨d', .nil d', h⟩
  | cons move _ ih =>
    obtain ⟨first, rest⟩ := List.forall_mem_cons.1 fixed
    obtain ⟨e', move', next⟩ := move.mirrors h first
    obtain ⟨f', moves', last⟩ := ih next rest
    exact ⟨f', .cons move' moves', last⟩

/-- What mirrors a finished draft is finished, where there are no further frames. -/
theorem Mirrors.finish {T : Tree} (h : d.Mirrors σ [] d') (finished : d.finish = .ok T) :
    ∃ T', d'.finish = .ok T' ∧ T.Mirrors σ T' := by
  obtain ⟨complete, g, right, found, rfl⟩ := finish_eq_ok_iff.1 finished
  obtain ⟨inner, frames, above⟩ := h.above
  obtain ⟨rest', g', right', found', rest, here, content⟩ :=
    Frame.toGroup?_of_mirrors [] frames h.hanging found
  cases rest
  have whole := here.close content
  rw [← above] at found'
  exact ⟨_, finish_eq_ok_iff.2 ⟨whole.complete complete, g', right', found', rfl⟩, whole⟩

end Draft

end Formula
