import Formula.Draft.Frame
import Formula.Tree.Defect

/-!
# Moving up through frames

What `Frame.climb` and `Frame.toGroup?` do to a stack of frames: both cut the stack in two and close
the inner part.

`Frame.climb_eq_some_iff` and `Frame.toGroup?_eq_some_iff` say where they cut.
-/

namespace Formula.Frame

theorem plug_append (t : Tree) (inner outer : List Frame) :
    plug t (inner ++ outer) = plug (plug t inner) outer := by
  induction inner generalizing t with
  | nil => rfl
  | cons f inner ih => exact ih (f.close t)

theorem plug_ne_nil {t : Tree} {above : List Frame} (h : t ≠ .nil) : plug t above ≠ .nil := by
  induction above generalizing t with
  | nil => exact h
  | cons f above ih => exact ih Tree.noConfusion

/-- Operators around an operator have an operator at the root. -/
theorem isOperator_plug {t : Tree} {above : List Frame} (h : t.isOperator = true)
    (operators : ∀ f ∈ above, f.node.label.isOperator = true) :
    (plug t above).isOperator = true := by
  induction above generalizing t with
  | nil => exact h
  | cons f above ih =>
    obtain ⟨here, others⟩ := List.forall_mem_cons.1 operators
    exact ih here others

/-- Climbing closes the frames that hold on tightly enough and stops below the first other one. -/
theorem climb_eq_some_iff {p : Int} {t left : Tree} {above rest : List Frame} :
    climb p t above = some (left, rest) ↔ ∃ closed f outer,
      above = closed ++ f :: outer ∧ (∀ g ∈ closed, p ≤ g.node.label.priority) ∧
        f.node.label.priority < p ∧ left = plug t closed ∧ rest = f :: outer := by
  induction above generalizing t with
  | nil => simp [climb]
  | cons f above ih =>
    rw [climb]
    by_cases tight : p ≤ f.node.label.priority
    · rw [if_pos tight, ih]
      constructor
      · rintro ⟨closed, g, outer, rfl, tighter, loose, rfl, rfl⟩
        exact ⟨f :: closed, g, outer, rfl, List.forall_mem_cons.2 ⟨tight, tighter⟩, loose, rfl, rfl⟩
      · rintro ⟨closed, g, outer, stack, tighter, loose, rfl, rfl⟩
        cases closed with
        | nil =>
          cases stack
          omega
        | cons f' closed =>
          cases stack
          exact ⟨closed, g, outer, rfl, (List.forall_mem_cons.1 tighter).2, loose, rfl, rfl⟩
    · rw [if_neg tight, Option.some.injEq, Prod.mk.injEq]
      constructor
      · rintro ⟨rfl, rfl⟩
        exact ⟨[], f, above, rfl, by simp, by omega, rfl, rfl⟩
      · rintro ⟨closed, g, outer, stack, tighter, -, rfl, rfl⟩
        cases closed with
        | nil => exact ⟨rfl, stack⟩
        | cons f' closed =>
          cases stack
          exact absurd (tighter f List.mem_cons_self) tight

/-- Climbing goes nowhere below a frame that does not hold on tightly enough. -/
theorem climb_of_lt {p : Int} {f : Frame} (loose : f.node.label.priority < p) (t : Tree)
    (above : List Frame) : climb p t (f :: above) = some (t, f :: above) :=
  if_neg (Int.not_le.2 loose)

/-- Climbing stops at the latest below a frame that does not hold on tightly enough. -/
theorem exists_climb {p : Int} {g : Frame} (loose : g.node.label.priority < p) (t : Tree)
    (inner outer : List Frame) :
    ∃ closed rest, inner = closed ++ rest ∧
      climb p t (inner ++ g :: outer) = some (plug t closed, rest ++ g :: outer) := by
  induction inner generalizing t with
  | nil =>
    exact ⟨[], [], rfl, climb_of_lt loose t outer⟩
  | cons f inner ih =>
    rw [List.cons_append, climb]
    split
    · obtain ⟨closed, rest, rfl, climbed⟩ := ih (f.close t)
      exact ⟨f :: closed, rest, rfl, climbed⟩
    · exact ⟨[], f :: inner, rfl, rfl⟩

/-- Moving up to a group closes the frames inside it. -/
theorem toGroup?_eq_some_iff {t right : Tree} {above rest : List Frame} {here : Frame} :
    toGroup? t above = some (rest, here, right) ↔ ∃ closed,
      above = closed ++ here :: rest ∧ (∀ g ∈ closed, g.isGroup = false) ∧ here.isGroup = true ∧
        right = plug t closed := by
  induction above generalizing t with
  | nil => simp [toGroup?]
  | cons f above ih =>
    rw [toGroup?]
    cases group : f.isGroup with
    | true =>
      rw [if_pos rfl, Option.some.injEq, Prod.mk.injEq, Prod.mk.injEq]
      constructor
      · rintro ⟨rfl, rfl, rfl⟩
        exact ⟨[], rfl, by simp, group, rfl⟩
      · rintro ⟨closed, stack, inside, -, rfl⟩
        cases closed with
        | nil =>
          cases stack
          exact ⟨rfl, rfl, rfl⟩
        | cons f' closed =>
          cases stack
          simp [group] at inside
    | false =>
      rw [if_neg Bool.false_ne_true, ih]
      constructor
      · rintro ⟨closed, rfl, inside, outer, rfl⟩
        exact ⟨f :: closed, rfl, List.forall_mem_cons.2 ⟨group, inside⟩, outer, rfl⟩
      · rintro ⟨closed, stack, inside, outer, rfl⟩
        cases closed with
        | nil =>
          cases stack
          simp [group] at outer
        | cons f' closed =>
          cases stack
          exact ⟨closed, rfl, (List.forall_mem_cons.1 inside).2, outer, rfl⟩

/-- What an operator takes over is not empty. -/
theorem ne_nil_of_climb {p : Int} {t left : Tree} {above rest : List Frame} (start : t ≠ .nil)
    (h : climb p t above = some (left, rest)) : left ≠ .nil := by
  obtain ⟨closed, -, -, -, -, -, rfl, -⟩ := climb_eq_some_iff.1 h
  exact plug_ne_nil start

/-- A group is not empty when the cursor moves up to it. -/
theorem ne_nil_of_toGroup? {t right : Tree} {above rest : List Frame} {here : Frame}
    (start : t ≠ .nil) (h : toGroup? t above = some (rest, here, right)) : right ≠ .nil := by
  obtain ⟨closed, -, -, -, rfl⟩ := toGroup?_eq_some_iff.1 h
  exact plug_ne_nil start

/-- The cursor never comes to stand at an operator when a group is closed. -/
theorem isGroup_of_toGroup? {t right : Tree} {above rest : List Frame} {here : Frame}
    (h : toGroup? t above = some (rest, here, right)) : here.isGroup = true := by
  obtain ⟨-, -, -, group, -⟩ := toGroup?_eq_some_iff.1 h
  exact group

/-! ## Completeness -/

theorem complete_close_iff {f : Frame} {right : Tree} :
    (f.close right).Complete ↔
      f.left.Complete ∧ (right = .nil → f.node.label.isLeaf = true) ∧ right.Complete :=
  Iff.rfl

theorem complete_plug_iff {t : Tree} {above : List Frame} (h : t ≠ .nil) :
    (plug t above).Complete ↔ t.Complete ∧ ∀ f ∈ above, f.left.Complete := by
  induction above generalizing t with
  | nil => simp [plug]
  | cons f above ih =>
    have closed : (f.close t).Complete ↔ f.left.Complete ∧ t.Complete := by
      rw [complete_close_iff]
      exact and_congr_right fun _ => and_iff_right fun none => absurd none h
    rw [plug, ih Tree.noConfusion, closed]
    grind

/-- Climbing neither adds nor removes anything that is missing. -/
theorem complete_climb_iff {p : Int} {t left : Tree} {above rest : List Frame} (start : t ≠ .nil)
    (h : climb p t above = some (left, rest)) :
    (left.Complete ∧ ∀ f ∈ rest, f.left.Complete) ↔
      t.Complete ∧ ∀ f ∈ above, f.left.Complete := by
  obtain ⟨closed, f, outer, rfl, -, -, rfl, rfl⟩ := climb_eq_some_iff.1 h
  rw [complete_plug_iff start]
  grind

/-- Neither does moving up to a group. -/
theorem complete_toGroup?_iff {t right : Tree} {above rest : List Frame} {here : Frame}
    (start : t ≠ .nil) (h : toGroup? t above = some (rest, here, right)) :
    (right.Complete ∧ ∀ f ∈ here :: rest, f.left.Complete) ↔
      t.Complete ∧ ∀ f ∈ above, f.left.Complete := by
  obtain ⟨closed, rfl, -, -, rfl⟩ := toGroup?_eq_some_iff.1 h
  rw [complete_plug_iff start]
  grind

theorem priority_lt_of_isGroup {g : Frame} (h : g.isGroup = true) (o : Operator) :
    g.node.label.priority < o.leftPriority := by
  rw [isGroup] at h
  cases label : g.node.label with
  | group | call f opened => exact o.noPriority_lt_leftPriority
  | _ => simp [label, Label.isGroup] at h

/-- A frame that an operator climbs past is an operator. -/
theorem isOperator_of_le_priority {o : Operator} {l : Label} (h : o.leftPriority ≤ l.priority) :
    l.isOperator = true := by
  have bound := o.noPriority_lt_leftPriority
  cases l with
  | operator s => rfl
  | _ => exact absurd h (Int.not_le.2 bound)

end Formula.Frame
