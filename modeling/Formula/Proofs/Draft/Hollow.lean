import Formula.Proofs.Draft.Depth

/-!
# Counting parentheses

A closing parenthesis moves the cursor up to a group above it. So a group that holds nothing, at the
cursor or behind it, is never closed, and those above the cursor have not been closed yet. Together
with the closing parentheses they come to as many as have been opened, the outermost group included.

## Main definitions

* `Tree.hollow`, `Frame.hollow` — the number of groups and opened functions that hold nothing, in a
  tree and on the left of frames.

`Draft.Move.balance` is the step and `Draft.Moves.balance` the law.
-/

namespace Formula

/-! ## Groups that hold nothing -/

/-- Whether a node with this label comes with an opening parenthesis. -/
def Label.isOpened : Label → Bool
  | .group | .call _ true => true
  | .number _ | .var _ | .constant _ | .operator _ | .call _ false => false

/-- The number of groups and opened functions that hold nothing. -/
def Tree.hollow : Tree → Nat
  | .nil => 0
  | .node left n right =>
    left.hollow + (if right.isNil && n.label.isOpened then 1 else 0) + right.hollow

theorem Label.count_opening_tokens (l : Label) :
    l.tokens.count .opening = if l.isOpened then 1 else 0 := by
  cases l with
  | call f opened => cases opened <;> simp [tokens, isOpened, Token.opening]
  | _ => simp [tokens, isOpened, Token.opening]

theorem Label.count_closing_tokens (l : Label) : l.tokens.count .closing = 0 := by
  cases l with
  | call f opened => cases opened <;> simp [tokens, Token.opening, Token.closing]
  | _ => simp [tokens, Token.opening, Token.closing]

/-- In a complete tree every group holds something. -/
theorem Tree.hollow_eq_zero {t : Tree} (h : t.Complete) : t.hollow = 0 := by
  induction t with
  | nil => rfl
  | node left n right ihl ihr =>
    obtain ⟨complete, leaf, complete'⟩ := h
    have filled : (right.isNil && n.label.isOpened) = false := by
      cases right with
      | nil =>
        have isLeaf := leaf rfl
        cases label : n.label <;> simp_all [Label.isLeaf, Label.isOpened]
      | node l m r => rfl
    rw [hollow, ihl complete, ihr complete', filled]
    rfl

namespace Frame

/-- The number of groups and opened functions on the left of frames that hold nothing. -/
def hollow : List Frame → Nat
  | [] => 0
  | f :: above => hollow above + f.left.hollow

/-- What hangs below frames fills them. -/
theorem hollow_plug {t : Tree} (h : t ≠ .nil) (above : List Frame) :
    (plug t above).hollow = hollow above + t.hollow := by
  induction above generalizing t with
  | nil => simp [plug, hollow]
  | cons f above ih =>
    rw [plug, ih Tree.noConfusion]
    simp only [close, hollow, Tree.hollow, Tree.isNil_eq_false_iff.2 h, Bool.false_and,
      Bool.false_eq_true, if_false]
    omega

end Frame

namespace Draft

variable {d e : Draft} {t : Token} {ts : List Token}

theorem isOpened_here (free : d.unopened? = none) :
    d.here.node.label.isOpened = d.here.isGroup := by
  have other := unopened?_eq_none_iff.1 free
  rw [Frame.isGroup]
  cases label : d.here.node.label with
  | call f opened =>
    cases opened with
    | false => exact absurd label (other f)
    | true => rfl
  | _ => rfl

theorem hollow_tree (d : Draft) :
    d.tree.hollow = Frame.hollow d.above + (d.here.close d.right).hollow :=
  Frame.hollow_plug Tree.noConfusion d.above

/-- A new node fills the group at the cursor, which is above the cursor from then on. -/
theorem balance_descend (called : d.demand ≠ .none) (free : d.unopened? = none) (l : Label) :
    (d.descend l).depth + (d.descend l).tree.hollow =
      d.depth + d.tree.hollow + l.tokens.count .opening := by
  have empty := right_of_demand called
  rw [depth_descend called, l.count_opening_tokens, hollow_tree, hollow_tree]
  simp only [descend, Frame.close, Frame.hollow, Tree.hollow, Tree.isNil, Bool.true_and,
    isOpened_here free, demand_eq_first_iff, empty, and_true]
  omega

theorem hollow_opened {f : String} (label : d.here.node.label = .call f false)
    (empty : d.right = .nil) : (d.opened f).tree.hollow = d.tree.hollow + 1 := by
  rw [hollow_tree, hollow_tree]
  simp [opened, Frame.close, Tree.hollow, Tree.isNil, label, empty, Label.isOpened, Nat.add_assoc]

theorem hollow_spliced {o : Operator} {left : Tree} {above : List Frame}
    (climbed : Frame.climb o.leftPriority (d.here.close d.right) d.above = some (left, above)) :
    (d.spliced o left above).tree.hollow = d.tree.hollow := by
  have taken := Frame.ne_nil_of_climb Tree.noConfusion climbed
  rw [hollow_tree, tree, ← Frame.plug_of_climb climbed, Frame.hollow_plug taken]
  simp [spliced, Frame.close, Tree.hollow, Label.isOpened]

/-- An opening parenthesis adds one to the groups above the cursor and those that hold nothing, and
a closing one takes one away. -/
theorem Move.balance (move : Move d t e) (plain : t.Plain) (calls : d.CallsOpened) :
    d.depth + d.tree.hollow + [t].count .opening =
      e.depth + e.tree.hollow + [t].count .closing := by
  have growing : ∀ l : Label, [t] = l.tokens → d.demand ≠ .none → d.unopened? = none →
      d.depth + d.tree.hollow + [t].count .opening =
        (d.descend l).depth + (d.descend l).tree.hollow + [t].count .closing := by
    intro l same called free
    rw [balance_descend called free, same, l.count_closing_tokens, Nat.add_zero]
  cases move with
  | descend made called free =>
    exact growing _ (Token.tokens_of_operand? made).symm (ne_none_of_called called)
      (unopened?_of_plain plain made free)
  | attach made called sign =>
    -- The tree is that of a descent, and going down from a sign enters no group.
    have shallow := depth_descend (d := d) (by simp [called])
    have grown := growing _ (Token.tokens_of_operand? made).symm (by simp [called])
      (unopened?_of_isOperator (isOperator_of_demand (.inr ⟨_, called⟩)))
    rw [shallow, called] at grown
    exact grown
  | openCall label =>
    rw [hollow_opened label (calls.here _ label)]
    rfl
  | lead o called free => exact growing _ rfl (by simp [called]) free
  | sign o called isSign =>
    exact growing _ rfl (ne_none_of_operator called)
      (unopened?_of_isOperator (isOperator_of_demand called))
  | splice o called free climbed =>
    have opens := Label.count_opening_tokens (.operator o.symbol)
    have closes := Label.count_closing_tokens (.operator o.symbol)
    rw [depth_spliced climbed, hollow_spliced climbed, ← Label.tokens, opens, closes]
    rfl
  | close free found =>
    have opens : [Token.closing].count .opening = 0 := rfl
    have closes : [Token.closing].count .closing = 1 := rfl
    have count := (Move.of_closing (.close free found) calls).1
    rw [tree_of_toGroup? found]
    omega

/-- The groups above the cursor and those that hold nothing are what the opening parentheses come
to, less the closing ones. -/
theorem Moves.balance (moves : Moves d ts e) (plain : ∀ t ∈ ts, t.Plain) (calls : d.CallsOpened) :
    d.depth + d.tree.hollow + ts.count .opening =
      e.depth + e.tree.hollow + ts.count .closing := by
  induction moves with
  | nil d => rfl
  | @cons d e f t ts move _ ih =>
    obtain ⟨first, rest⟩ := List.forall_mem_cons.1 plain
    have split : ∀ u, (t :: ts).count u = [t].count u + ts.count u := fun u => by
      rw [← List.count_append, List.singleton_append]
    have step := move.balance first calls
    have run := ih rest (move.callsOpened first calls)
    rw [split, split]
    omega

end Draft

end Formula
