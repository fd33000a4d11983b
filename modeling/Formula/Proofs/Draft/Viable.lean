import Mathlib.Data.List.Basic
import Formula.Proofs.Draft.Frame
import Formula.Proofs.Draft.Move

/-!
# Drafts that can still be finished

A group that is closed while something is missing in it stays incomplete, and a formula that is
closed by a stray parenthesis stays closed. So whatever is wrong with a draft in one of these ways
is wrong with every later one, and a finished tree comes from drafts without such flaws only.

## Main definitions

* `Draft.Sound` — nothing is missing in what lies behind the cursor.
* `Draft.Viable` — moreover the formula as a whole has not been closed.

`Draft.Move.viable` is the step backwards, `Draft.Moves.keeps` the induction over the drafts that
lead to a viable one.
-/

namespace Formula

namespace Draft

/-- Nothing is missing in what stands on the left of the frames or on the right of the cursor. -/
structure Sound (d : Draft) : Prop where
  frames : ∀ f ∈ d.here :: d.above, f.left.Complete
  right : d.right.Complete

/-- A draft that can still be finished as far as what lies behind the cursor is concerned. -/
structure Viable (d : Draft) : Prop extends Sound d where
  /-- The outermost group is not closed before the end. -/
  inside : d.above = [] → d.right = .nil

/-- In a sound draft nothing is called for exactly if the tree at the cursor lacks nothing. -/
theorem Sound.demand_eq_none_iff {d : Draft} (h : d.Sound) :
    d.demand = .none ↔ (d.here.close d.right).Complete := by
  have left := h.frames d.here List.mem_cons_self
  rw [Draft.demand_eq_none_iff, Frame.complete_close_iff]
  by_cases filled : d.right = .nil
  · simp [filled, left, Tree.Complete]
  · simp [filled, left, h.right]

/-- A draft from which a viable one is reached is viable. -/
theorem Move.viable {d e : Draft} {t : Token} (move : Move d t e) (h : e.Viable) : d.Viable := by
  have growing : ∀ l, d.demand ≠ .none → (d.descend l).Viable ∨ (d.attach l).Viable → d.Viable := by
    intro l called later
    have right := right_of_demand called
    refine ⟨⟨?_, right ▸ trivial⟩, fun _ => right⟩
    rcases later with later | later
    · exact fun f member => later.frames f (List.mem_cons_of_mem _ member)
    · exact later.frames
  cases move with
  | @descend _ l operand called free =>
    exact growing l (ne_none_of_called called) (.inl h)
  | @attach _ l o operand called sign => exact growing l (by simp [called]) (.inr h)
  | openCall label =>
    obtain ⟨left, above⟩ := List.forall_mem_cons.1 h.frames
    exact ⟨⟨List.forall_mem_cons.2 ⟨left, above⟩, h.right⟩, h.inside⟩
  | lead o called free => exact growing _ (by simp [called]) (.inl h)
  | sign o called sign =>
    exact growing _ (ne_none_of_operator called) (.inl h)
  | @splice o left above called free climbed =>
    obtain ⟨⟨left, -, right⟩, above⟩ :=
      (Frame.complete_climb_iff Tree.noConfusion climbed).1 (List.forall_mem_cons.1 h.frames)
    refine ⟨⟨List.forall_mem_cons.2 ⟨left, above⟩, right⟩, fun outside => ?_⟩
    rw [outside] at climbed
    cases climbed
  | close free found =>
    obtain ⟨⟨left, -, right⟩, above⟩ :=
      (Frame.complete_toGroup?_iff Tree.noConfusion found).1 ⟨h.right, h.frames⟩
    refine ⟨⟨List.forall_mem_cons.2 ⟨left, above⟩, right⟩, fun outside => ?_⟩
    rw [outside] at found
    cases found

theorem Moves.viable {d e : Draft} {ts : List Token} (moves : Moves d ts e) (h : e.Viable) :
    d.Viable := by
  induction moves with
  | nil d => exact h
  | cons move _ ih => exact move.viable (ih h)

/-- A draft that can be finished is viable. -/
theorem viable_of_finish {d : Draft} {T : Tree} (h : d.finish = .ok T) : d.Viable := by
  obtain ⟨complete, g, right, found, rfl⟩ := finish_eq_ok_iff.1 h
  rw [show g.close right = Frame.plug (d.here.close d.right) d.above from
    Frame.plug_of_toGroup? found, Frame.complete_plug_iff Tree.noConfusion] at complete
  obtain ⟨⟨left, -, filled⟩, above⟩ := complete
  refine ⟨⟨List.forall_mem_cons.2 ⟨left, above⟩, filled⟩, fun outside => ?_⟩
  rw [outside] at found
  cases found

/-- What a parenthesis closes in a draft that stays viable lacks nothing. -/
theorem demand_of_close {d : Draft} {above : List Frame} {here : Frame} {right : Tree}
    (found : Frame.toGroup? (d.here.close d.right) d.above = some (above, here, right))
    (h : (⟨above, here, right, d.size⟩ : Draft).Viable) : d.demand = .none := by
  obtain ⟨complete, frames⟩ :=
    (Frame.complete_toGroup?_iff Tree.noConfusion found).1 ⟨h.right, h.frames⟩
  have sound : d.Sound := ⟨List.forall_mem_cons.2 ⟨complete.1, frames⟩, complete.2.2⟩
  exact sound.demand_eq_none_iff.2 complete

theorem demand_of_finish {d : Draft} {T : Tree} (h : d.finish = .ok T) : d.demand = .none := by
  have viable := viable_of_finish h
  obtain ⟨complete, g, right, found, rfl⟩ := finish_eq_ok_iff.1 h
  have frames := (Frame.complete_toGroup?_iff Tree.noConfusion found).1
    ⟨complete.2.2, List.forall_mem_singleton.2 complete.1⟩
  exact viable.demand_eq_none_iff.2 frames.1

/-- What a sign takes as its operand in a draft that stays viable is a leaf. -/
theorem isLeaf_of_attach {d : Draft} {l : Label} (h : (d.attach l).Viable) : l.isLeaf = true :=
  h.right.2.1 rfl

/-- What every move to a viable draft preserves holds after any number of them. -/
theorem Moves.maintains {P : Draft → Prop} {d e : Draft} {ts : List Token} (moves : Moves d ts e)
    (viable : e.Viable) (start : P d)
    (step : ∀ {d t e}, Move d t e → e.Viable → P d → P e) : P e := by
  induction moves with
  | nil d => exact start
  | cons move rest ih => exact ih viable (step move (rest.viable viable) start)

/-- What every move to a viable draft keeps, given the tokens read so far, holds at the end of
moves to a viable draft. -/
theorem Moves.keeps {d e : Draft} {ts : List Token} (moves : Moves d ts e) (viable : e.Viable)
    (P : List Token → Draft → Prop) (us : List Token) (start : P us d)
    (step : ∀ {us d t e}, Move d t e → d.Viable → e.Viable → P us d → P (us ++ [t]) e) :
    P (us ++ ts) e := by
  induction moves generalizing us with
  | nil d => simpa using start
  | cons move rest ih =>
    have next := rest.viable viable
    have := ih viable _ (step move (move.viable next) next start)
    simpa using this

/-! ## Trees that are built -/

/-- The outermost group stays where it is. -/
theorem Move.outermost {d e : Draft} {t : Token} (move : Move d t e)
    (h : (d.here :: d.above).getLast? = some empty.here) :
    (e.here :: e.above).getLast? = some empty.here := by
  have growing : ∀ l, ((d.descend l).here :: (d.descend l).above).getLast? = some empty.here :=
    fun l => (List.getLast?_cons_cons).trans h
  cases move with
  | descend operand called free => exact growing _
  | attach operand called isSign => exact h
  | openCall label =>
    cases stack : d.above with
    | nil =>
      rw [stack] at h
      have bottom : d.here = empty.here := Option.some.inj h
      rw [bottom] at label
      cases label
    | cons f above =>
      rw [stack, List.getLast?_cons_cons] at h
      rw [opened, stack, List.getLast?_cons_cons]
      exact h
  | lead o called free => exact growing _
  | sign o called isSign => exact growing _
  | splice o called free climbed =>
    obtain ⟨closed, f, outer, stack, -, -, -, rfl⟩ := Frame.climb_eq_some_iff.1 climbed
    rw [stack, ← List.cons_append, List.getLast?_append_cons] at h
    rw [spliced, List.getLast?_cons_cons]
    exact h
  | close free found =>
    obtain ⟨closed, stack, -⟩ := Frame.toGroup?_eq_some_iff.1 found
    rw [stack, ← List.cons_append, List.getLast?_append_cons] at h
    exact h

theorem eq_of_finish {d : Draft} {ts : List Token} {T : Tree} (moves : Moves empty ts d)
    (h : d.finish = .ok T) : ∃ content, T = .node .nil ⟨0, .group⟩ content ∧
      Frame.toGroup? (d.here.close d.right) d.above = some ([], empty.here, content) := by
  obtain ⟨-, g, content, found, rfl⟩ := finish_eq_ok_iff.1 h
  have bottom := moves.preserves (P := fun d => (d.here :: d.above).getLast? = some empty.here) rfl
    Move.outermost
  obtain ⟨closed, stack, -⟩ := Frame.toGroup?_eq_some_iff.1 found
  rw [stack, ← List.cons_append, List.getLast?_append_cons] at bottom
  obtain rfl := Option.some.inj bottom
  exact ⟨content, rfl, found⟩

/-- A tree that is built is that of a viable draft, and complete. -/
theorem exists_viable_of_build {ts : List Token} {T : Tree} (h : build ts = .ok T) :
    ∃ d, Moves empty ts d ∧ d.Viable ∧ d.tree = T ∧ T.Complete := by
  obtain ⟨d, moves, finished⟩ := build_eq_ok_iff.1 h
  obtain ⟨complete, g, right, found, rfl⟩ := finish_eq_ok_iff.1 finished
  exact ⟨d, moves, viable_of_finish finished, (Frame.plug_of_toGroup? found).symm, complete⟩

/-- The root of a tree that is built is the outermost group. -/
theorem exists_content_of_build {ts : List Token} {T : Tree} (h : build ts = .ok T) :
    ∃ content, T = .node .nil ⟨0, .group⟩ content := by
  obtain ⟨d, moves, finished⟩ := build_eq_ok_iff.1 h
  obtain ⟨content, same, -⟩ := eq_of_finish moves finished
  exact ⟨content, same⟩

end Draft

end Formula
