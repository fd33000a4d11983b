import Formula.Proofs.Draft.Behind
import Formula.Proofs.Linked.Replay

/-!
# Closed groups stay as they are

A closing parenthesis moves the cursor up to a group or a function that holds something. No later
token changes what hangs there, whether it is refused or not: the cells keep their labels and their
links, and none is added below. Only the link from the group up to the cell above it may come to
lead to another cell, an operator that has taken the group over. If it is the outermost group, all
later tokens are refused.

## Main definitions

* `Linked.AtClosed` — the cursor stands at a group or a function that holds something.
* `Linked.Keeps` — what hangs at a cell is the same before and after.

The main result is `Linked.keeps_closed`.
-/

namespace Formula

open Relation

/-! ## Parts of parts -/

namespace Tree

variable {t u v : Tree} {p q r : Option Nat} {size i j : Nat}

theorem Hangs.trans (part : Hangs p t q u) (inner : Hangs q u r v) : Hangs p t r v := by
  induction part with
  | whole parent t => exact inner
  | left _ ih => exact .left (ih inner)
  | right _ ih => exact .right (ih inner)

/-- What hangs on a node of a tree does so wherever the tree itself hangs. -/
theorem Hangs.whole_or (part : Hangs p u q v) : (q = p ∧ v = u) ∨ ∀ p', Hangs p' u q v := by
  cases part with
  | whole parent t => exact .inl ⟨rfl, rfl⟩
  | left part => exact .inr fun _ => .left part
  | right part => exact .inr fun _ => .right part

theorem exists_hangs_of_mem_parts (p : Option Nat) (h : u ∈ t.parts) : ∃ q, Hangs p t q u := by
  induction t generalizing p with
  | nil => cases h
  | node l n r ihl ihr =>
    rcases mem_parts_node.1 h with rfl | inLeft | inRight
    · exact ⟨p, .whole _ _⟩
    · obtain ⟨q, part⟩ := ihl (some n.serial) inLeft
      exact ⟨q, .left part⟩
    · obtain ⟨q, part⟩ := ihr (some n.serial) inRight
      exact ⟨q, .right part⟩

theorem exists_serial?_of_mem (h : j ∈ t.serials) : ∃ i, t.serial? = some i := by
  cases t with
  | nil => cases h
  | node l n r => exact ⟨n.serial, rfl⟩

/-- The nodes at and below the root of a part are those of the part. -/
theorem reflTransGen_below_iff (part : Hangs none t q u) (numbered : t.serials = List.range size)
    (root : u.serial? = some i) :
    ReflTransGen (Linked.Below (t.cells none)) j i ↔ j ∈ u.serials := by
  induction u generalizing q i with
  | nil => cases root
  | node l m r ihl ihr =>
    cases root
    obtain ⟨onLeft, onRight⟩ := part.sides
    have here := part.cell_eq numbered
    rw [ReflTransGen.cases_tail_iff, serials_node, List.mem_append, List.mem_cons]
    constructor
    · rintro (rfl | ⟨b, path, c, found, side⟩)
      · exact .inr (.inl rfl)
      · obtain rfl := Option.some.inj (here.symm.trans found)
        rcases side with left | right
        · exact .inl ((ihl onLeft left).1 path)
        · exact .inr (.inr ((ihr onRight right).1 path))
    · rintro (inLeft | rfl | inRight)
      · obtain ⟨b, left⟩ := exists_serial?_of_mem inLeft
        exact .inr ⟨b, (ihl onLeft left).2 inLeft, _, here, .inl left⟩
      · exact .inl rfl
      · obtain ⟨b, right⟩ := exists_serial?_of_mem inRight
        exact .inr ⟨b, (ihr onRight right).2 inRight, _, here, .inr right⟩

end Tree

namespace Linked

open Formula.Tree

variable {d e : Draft} {u : Tree} {q q' : Option Nat} {i : Nat} {ts us : List Token} {g : Linked}

/-! ## The cursor at a closed group -/

/-- The cursor stands at a group or a function that holds something. -/
def AtClosed (g : Linked) : Prop :=
  ∃ c, g.cells[g.cursor]? = some c ∧ c.label.isGroup = true ∧ c.right ≠ none

theorem atClosed_linked_iff (h : d.Regular) :
    d.linked.AtClosed ↔ d.here.isGroup = true ∧ d.right ≠ .nil := by
  have there := h.getElem?_cursor
  constructor
  · rintro ⟨c, found, group, below⟩
    obtain rfl := Option.some.inj (there.symm.trans found)
    refine ⟨group, fun bare => ?_⟩
    rw [bare] at below
    exact below rfl
  · rintro ⟨group, filled⟩
    refine ⟨_, there, group, fun bare => ?_⟩
    cases right : d.right with
    | nil => exact filled right
    | node l n r =>
      rw [right] at bare
      cases bare

/-- A closing parenthesis that is not refused leads to a group or a function that holds
something. -/
theorem atClosed_of_closing (h : d.Regular)
    (closed : (push .closing).outcome d.linked = .some (.ok (), g)) : g.AtClosed := by
  cases pushed : d.push .closing with
  | ok e =>
    have move := Draft.move_of_push pushed
    obtain rfl := congrArg Prod.snd (Part.some_injective ((push_of_move h move).symm.trans closed))
    refine (atClosed_linked_iff (move.regular h)).2 ?_
    obtain ⟨-, above, here, right, found, rfl⟩ := Draft.move_closing_iff.1 move
    exact ⟨Frame.isGroup_of_toGroup? found, Frame.ne_nil_of_toGroup? Tree.noConfusion found⟩
  | error cause =>
    cases Part.some_injective ((push_of_error h pushed).symm.trans closed)

/-! ## Cells that stay as they are -/

/-- What hangs at the cell `i` is the same before and after: the same cells are at and below it,
those below it have not changed, and it has not changed itself but for the link to the cell above
it. -/
structure Keeps (g g' : Linked) (i : Nat) : Prop where
  below : ∀ j, ReflTransGen (Below g'.cells) j i ↔ ReflTransGen (Below g.cells) j i
  inner : ∀ j, ReflTransGen (Below g.cells) j i → j ≠ i → g'.cells[j]? = g.cells[j]?
  root : ∃ parent, g'.cells[i]? = g.cells[i]?.map fun c => { c with parent := parent }

/-- A part that two drafts have in common lies in the same cells. -/
theorem keeps_of_hangs (h : d.Regular) (h' : e.Regular) (part : Hangs none d.tree q u)
    (part' : Hangs none e.tree q' u) (root : u.serial? = some i) :
    d.linked.Keeps e.linked i := by
  have inside := fun j => reflTransGen_below_iff (j := j) part h.numbered root
  refine ⟨fun j => ?_, fun j below other => ?_, ?_⟩
  · exact (reflTransGen_below_iff part' h'.numbered root).trans (inside j).symm
  · obtain ⟨p, l, m, r, node, rfl⟩ := Hangs.exists_of_mem q ((inside j).1 below)
    rcases node.whole_or with ⟨-, rfl⟩ | anywhere
    · exact absurd (Option.some.inj root) other
    · rw [Draft.linked, Draft.linked, (part.trans node).cell_eq h.numbered,
        (part'.trans (anywhere q')).cell_eq h'.numbered]
  · obtain ⟨l, m, r, rfl, rfl⟩ := exists_node_of_serial? root
    refine ⟨q', ?_⟩
    rw [Draft.linked, Draft.linked, part.cell_eq h.numbered, part'.cell_eq h'.numbered]
    rfl

/-- What lies behind the cursor is kept, whatever plain tokens follow. -/
theorem keeps_of_behind (h : d.Regular) (calls : d.CallsOpened) (plain : ∀ t ∈ us, t.Plain)
    (behind : d.Behind u) (root : u.serial? = some i) :
    d.linked.Keeps (d.attemptAll us).linked i := by
  have kept := (Draft.moves_taken d us).behind (d.plain_taken plain) calls behind
  obtain ⟨q, part⟩ := exists_hangs_of_mem_parts none behind.mem_parts_tree
  obtain ⟨q', part'⟩ := exists_hangs_of_mem_parts none kept.mem_parts_tree
  exact keeps_of_hangs h (h.attemptAll us) part part' root

/-! ## The outermost group -/

/-- The first cell is that of the outermost group, and no frame is above it. -/
theorem above_eq_nil (h : d.Regular) (first : d.here.node.serial = 0) : d.above = [] := by
  have place := Frame.serial_eq h.numbered none none
  rw [first, List.length_append, Frame.length_cells] at place
  cases stack : d.above with
  | nil => rfl
  | cons f outer =>
    rw [stack] at place
    simp [Frame.inorder] at place
    omega

theorem attemptAll_of_stuck (stuck : ∀ t e, ¬ Draft.Move d t e) (us : List Token) :
    d.attemptAll us = d := by
  induction us with
  | nil => rfl
  | cons t us ih =>
    obtain ⟨cause, refused⟩ := Draft.exists_push_eq_error (stuck t)
    rw [Draft.attemptAll, List.foldl_cons, Draft.attempt, refused]
    exact ih

/-- Once the outermost group has been closed, every token is refused and finishing fails. -/
theorem stuck_of_outside (h : d.Regular) (calls : d.CallsOpened) (outside : d.above = [])
    (filled : d.right ≠ .nil) :
    (∀ t, ∃ cause, (push t).outcome d.linked = .some (.error cause, d.linked)) ∧
      (∀ us, d.linked.attemptAll us = .some d.linked) ∧
        finish.outcome d.linked = .some (.error .unbalancedParentheses, d.linked) := by
  have called := Draft.demand_eq_none_iff.2 (.inl filled)
  have free : d.unopened? = none :=
    Draft.unopened?_eq_none_iff.2 fun f call => filled (calls.here f call)
  have stuck : ∀ t e, ¬ Draft.Move d t e := fun t e => Draft.not_move_of_outside outside called free
  refine ⟨fun t => ?_, fun us => ?_, ?_⟩
  · obtain ⟨cause, refused⟩ := Draft.exists_push_eq_error (stuck t)
    exact ⟨cause, push_of_error h refused⟩
  · rw [attemptAll_eq h, attemptAll_of_stuck stuck]
  · have shallow : d.depth ≠ 1 := by simp [Draft.depth, outside]
    rw [finish_simulates h, Draft.finish_of_depth_ne_one shallow (.inr filled)]
    rfl

/-! ## Closed groups -/

/-- Whatever plain tokens have been read, a closing parenthesis that is not refused moves the cursor
to a group or a function that holds something. Where the cursor stands at one, all that hangs there
stays as it is, whatever plain tokens follow. Once it is the outermost group, every token is
refused, nothing changes any more, and finishing reports the parentheses. -/
theorem keeps_closed {ts : List Token} (plain : ∀ t ∈ ts, t.Plain) :
    ∃ g, empty.attemptAll ts = .some g ∧
      (∀ g', (push .closing).outcome g = .some (.ok (), g') → g'.AtClosed) ∧
      (g.AtClosed →
        (∀ us, (∀ t ∈ us, t.Plain) → ∃ g', g.attemptAll us = .some g' ∧ g.Keeps g' g.cursor) ∧
        (g.cursor = 0 →
          (∀ t, ∃ cause, (push t).outcome g = .some (.error cause, g)) ∧
          (∀ us, g.attemptAll us = .some g) ∧
          finish.outcome g = .some (.error .unbalancedParentheses, g))) := by
  have regular := Draft.regular_empty.attemptAll ts
  have calls := (Draft.moves_taken Draft.empty ts).callsOpened (Draft.plain_taken _ plain)
    Draft.callsOpened_empty
  refine ⟨_, attemptAll_eq Draft.regular_empty ts, fun g' => atClosed_of_closing regular, ?_⟩
  intro closed
  obtain ⟨group, filled⟩ := (atClosed_linked_iff regular).1 closed
  refine ⟨fun us plain' => ?_, fun first => ?_⟩
  · exact ⟨_, attemptAll_eq regular us,
      keeps_of_behind regular calls plain' (.cursor group filled rfl) rfl⟩
  · exact stuck_of_outside regular calls (above_eq_nil regular first) filled

/-- In `(1)+2` the operator takes the closed group over, which keeps what it holds. Behind `1)`
nothing changes any more. -/
theorem keeps_closed_addition :
    (∃ g g', empty.attemptAll [.opening, ⟨.number, "1"⟩, .closing] = .some g ∧ g.cursor = 1 ∧
      g.attemptAll [⟨.operator, "+"⟩, ⟨.number, "2"⟩] = .some g' ∧ g.Keeps g' 1 ∧
      g.cells[1]?.bind Cell.parent = some 0 ∧ g'.cells[1]?.bind Cell.parent = some 3) ∧
    ∃ g, empty.attemptAll [⟨.number, "1"⟩, .closing] = .some g ∧ g.cursor = 0 ∧
      (∀ us, g.attemptAll us = .some g) ∧
      finish.outcome g = .some (.error .unbalancedParentheses, g) := by
  have reached := fun ts => attemptAll_eq Draft.regular_empty ts
  constructor
  · obtain ⟨g, start, -, closed⟩ :=
      @keeps_closed [.opening, ⟨.number, "1"⟩, .closing] (by decide)
    obtain rfl := Part.some_injective ((reached _).symm.trans start)
    obtain ⟨frozen, -⟩ := closed ⟨_, rfl, rfl, by decide⟩
    obtain ⟨g', next, kept⟩ := frozen [⟨.operator, "+"⟩, ⟨.number, "2"⟩] (by decide)
    have regular := Draft.regular_empty.attemptAll [.opening, ⟨.number, "1"⟩, .closing]
    obtain rfl := Part.some_injective ((attemptAll_eq regular _).symm.trans next)
    exact ⟨_, _, start, rfl, next, kept, rfl, rfl⟩
  · obtain ⟨g, start, -, closed⟩ := @keeps_closed [⟨.number, "1"⟩, .closing] (by decide)
    obtain rfl := Part.some_injective ((reached _).symm.trans start)
    obtain ⟨-, outermost⟩ := closed ⟨_, rfl, rfl, by decide⟩
    obtain ⟨-, still, unbalanced⟩ := outermost rfl
    exact ⟨_, start, rfl, still, unbalanced⟩

end Linked

end Formula
