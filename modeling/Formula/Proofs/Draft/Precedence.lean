import Mathlib.Data.List.Chain
import Formula.Proofs.Draft.Shape

/-!
# How tightly operands are held

Which operator of a draft gets which operand. An operator on the right that has a left operand has
drawn it more tightly than the operator above holds it, and whatever is open on the right of a left
operand holds on more tightly than the operator draws, but for a leaf with a sign, which is taken
whole.

## Main definitions

* `Tree.spine` — an operator, its right operand and so on, as far as these are operators.
* `Tree.IsSignedLeaf` — a leaf with a sign in front.
* `Law.inner`, `Law.outer`, `Law.leading` — the laws about right operands, about left operands, and
  about operators without a left operand.

`Draft.Moves.laws` says that drafts keep these laws.
-/

namespace Formula

@[simp] theorem Label.priority_operator (o : Operator) :
    (Label.operator o.symbol).priority = o.rightPriority := by
  simp [priority]

namespace Tree

/-- The parts of a tree on its right edge, from the root down to where the operators end. -/
def spine : Tree → List Tree
  | .nil => []
  | .node left n right =>
    if n.label.isOperator then .node left n right :: right.spine else []

/-- How tightly the root holds what stands on its right. -/
def priority : Tree → Int
  | .nil => Operator.noPriority
  | .node _ n _ => n.label.priority

/-- A leaf with one sign in front. -/
def IsSignedLeaf (t : Tree) : Prop :=
  ∃ n m, t = .node .nil n (.leaf m) ∧ n.label.isOperator = true ∧ m.label.isLeaf = true

theorem spine_eq_nil_iff {t : Tree} : t.spine = [] ↔ t.isOperator = false := by
  cases t with
  | nil => simp [spine, isOperator]
  | node left n right => simp [spine, isOperator]

theorem mem_spine_self {t : Tree} (h : t.isOperator = true) : t ∈ t.spine := by
  cases t with
  | nil => cases h
  | node left n right =>
    have operator : n.label.isOperator = true := h
    rw [spine, if_pos operator]
    exact List.mem_cons_self

theorem isOperator_of_mem_spine {t u : Tree} (h : u ∈ t.spine) : t.isOperator = true := by
  refine Bool.of_not_eq_false fun other => ?_
  rw [spine_eq_nil_iff.2 other] at h
  cases h

theorem IsSignedLeaf.spine_eq {t : Tree} (h : t.IsSignedLeaf) : t.spine = [t] := by
  obtain ⟨n, m, rfl, operator, leaf⟩ := h
  have ends : (Tree.leaf m).spine = [] := by
    rw [spine_eq_nil_iff]
    exact Label.isOperator_of_isLeaf leaf
  rw [spine, if_pos operator, ends]

/-- A signed leaf ends the spine that it is part of. -/
theorem getLast?_spine_of_isSignedLeaf {t u : Tree} (h : u ∈ t.spine) (signed : u.IsSignedLeaf) :
    t.spine.getLast? = some u := by
  induction t with
  | nil => cases h
  | node left n right _ ih =>
    have operator : n.label.isOperator = true := isOperator_of_mem_spine h
    rw [spine, if_pos operator] at h ⊢
    rcases List.mem_cons.1 h with rfl | inside
    · have whole := signed.spine_eq
      rw [spine, if_pos operator] at whole
      rw [whole]
      rfl
    · rw [List.getLast?_cons, ih inside]
      rfl

end Tree

namespace Law

/-- An operator below another one has drawn its left operand more tightly. -/
def inner : Law := fun _ l top =>
  ∀ p : Operator, l = .operator p.symbol → ∀ below ∈ top, below.1 ≠ .nil →
    ∀ o : Operator, below.2 = .operator o.symbol → p.rightPriority < o.leftPriority

/-- What is open on the right of a left operand is held tightly enough. -/
def outer : Law := fun left l _ =>
  ∀ p : Operator, l = .operator p.symbol →
    ∀ u ∈ left.spine, p.leftPriority ≤ u.priority ∨ u.IsSignedLeaf

/-- An operator behind one that has no left part starts with an operator. -/
def leading : Law := fun left l top =>
  l.isOperator = true → left = .nil → ∀ below ∈ top, below.2.isOperator = true →
    (below.1.leftmost below.2).isOperator = true

end Law

namespace Frame

/-- The spine of frames that are closed above a tree. -/
theorem mem_spine_plug {p : Int} {t u : Tree} {closed : List Frame} (h : u ∈ (plug t closed).spine)
    (tight : ∀ g ∈ closed, p ≤ g.node.label.priority) : u ∈ t.spine ∨ p ≤ u.priority := by
  induction closed generalizing t with
  | nil => exact .inl h
  | cons f closed ih =>
    obtain ⟨here, above⟩ := List.forall_mem_cons.1 tight
    rcases ih h above with inside | held
    · rw [close, Tree.spine] at inside
      split at inside
      · rcases List.mem_cons.1 inside with rfl | inside
        · exact .inr here
        · exact .inl inside
      · cases inside
    · exact .inr held

end Frame

namespace Draft

variable {d e : Draft} {t : Token}

/-! ## Right operands -/

theorem Move.inner (move : Move d t e) (h : d.tree.Obeys Law.inner) : e.tree.Obeys Law.inner := by
  refine move.obeys h ⟨fun _ _ _ _ p same => (nomatch same), ?_⟩ ?_ ?_
  · rintro left l left' f - p - below ⟨⟩ - o same
    cases same
  · refine fun l _ => ⟨fun _ _ => nofun, ?_⟩
    rintro - p - below ⟨⟩ taken
    exact absurd rfl taken
  · intro o left f outer _ climbed
    refine ⟨fun _ _ => nofun, ?_⟩
    rintro - p label below ⟨⟩ - o' same
    obtain rfl := Operator.table.spelling_injective (Label.operator.inj same)
    obtain ⟨closed, g, rest, -, -, loose, -, stack⟩ := Frame.climb_eq_some_iff.1 climbed
    cases stack
    rwa [label, Label.priority_operator] at loose

/-! ## Left operands -/

/-- An operator at the cursor with something on its right is the sign of that leaf. -/
def SignsLeaf (d : Draft) : Prop :=
  d.here.node.label.isOperator = true → d.right ≠ .nil → (d.here.close d.right).IsSignedLeaf

theorem Move.signsLeaf (move : Move d t e) (viable : e.Viable) : e.SignsLeaf := by
  cases move with
  | descend operand called free => exact fun _ filled => absurd rfl filled
  | @attach _ l o operand called isSign =>
    intro operator _
    obtain ⟨-, left, -⟩ := demand_eq_signed_iff.1 called
    exact ⟨d.here.node, ⟨d.size, l⟩, by rw [← left]; rfl, operator, isLeaf_of_attach viable⟩
  | openCall label => exact nofun
  | lead o called free => exact fun _ filled => absurd rfl filled
  | sign o called isSign => exact fun _ filled => absurd rfl filled
  | splice o called free climbed => exact fun _ filled => absurd rfl filled
  | close free found =>
    intro operator
    rw [Label.isOperator_of_isGroup (Frame.isGroup_of_toGroup? found)] at operator
    cases operator

/-- Where an operator may follow, the tree at the cursor is a signed leaf or no operator. -/
theorem SignsLeaf.of_mem_spine {u : Tree} (h : d.SignsLeaf) (called : d.demand = .none)
    (inside : u ∈ (d.here.close d.right).spine) : u.IsSignedLeaf := by
  have operator : d.here.node.label.isOperator = true := Tree.isOperator_of_mem_spine inside
  have filled : d.right ≠ .nil := by
    refine (demand_eq_none_iff.1 called).resolve_right fun leaf => ?_
    rw [Label.isOperator_of_isLeaf leaf] at operator
    cases operator
  have signed := h operator filled
  rw [signed.spine_eq] at inside
  exact List.mem_singleton.1 inside ▸ signed

theorem Move.outer (move : Move d t e) (cursor : d.SignsLeaf) (h : d.tree.Obeys Law.outer) :
    e.tree.Obeys Law.outer := by
  refine move.obeys h ⟨fun _ _ _ _ p same => (nomatch same), fun _ _ _ _ old => old⟩ ?_ ?_
  · exact fun l _ => ⟨fun _ _ => nofun, id⟩
  · intro o left f outer called climbed
    refine ⟨?_, id⟩
    intro p same u inside
    obtain rfl := Operator.table.spelling_injective (Label.operator.inj same)
    obtain ⟨closed, -, -, -, tight, -, rfl, -⟩ := Frame.climb_eq_some_iff.1 climbed
    rcases Frame.mem_spine_plug inside tight with last | held
    · exact .inr (cursor.of_mem_spine called last)
    · exact .inl held

/-! ## Operators without a left operand -/

/-- Below an operator without a left part comes another operator. -/
def Followed (inner outer : Frame) : Prop :=
  outer.node.label.isOperator = true → outer.left = .nil → inner.node.label.isOperator = true

/-- What an operator without a left part holds, above the cursor, is an operator. -/
def Chained (d : Draft) : Prop :=
  (d.here :: d.above).IsChain Followed

theorem Move.chained (move : Move d t e) (h : d.Chained) : e.Chained := by
  have growing : ∀ l, (d.here.node.label.isOperator = true → d.here.left = .nil →
      l.isOperator = true) → (d.descend l).Chained := fun l follows =>
    List.isChain_cons_cons.2 ⟨follows, h⟩
  cases move with
  | descend operand called free =>
    exact growing _ fun operator left => absurd left (left_ne_nil_of_called called operator)
  | attach operand called isSign => exact h
  | openCall label =>
    obtain ⟨outer, above⟩ := List.isChain_cons.1 h
    refine List.isChain_cons.2 ⟨fun g head operator left => ?_, above⟩
    have call := outer g head operator left
    rw [label] at call
    cases call
  | lead o called free => exact growing _ fun _ _ => rfl
  | sign o called isSign => exact growing _ fun _ _ => rfl
  | splice o called free climbed =>
    obtain ⟨closed, f, outer, stack, -, -, -, rfl⟩ := Frame.climb_eq_some_iff.1 climbed
    rw [Chained, stack] at h
    exact List.isChain_cons_cons.2 ⟨fun _ _ => rfl, h.tail.right_of_append⟩
  | close free found =>
    obtain ⟨closed, stack, -⟩ := Frame.toGroup?_eq_some_iff.1 found
    rw [Chained, stack] at h
    exact h.tail.right_of_append

/-- The root of the tree that frames close is the outermost of them. -/
theorem exists_close_of_followed {inner f : Frame} {closed outer : List Frame} {t : Tree}
    (h : (inner :: (closed ++ f :: outer)).IsChain Followed) :
    ∃ g u, Frame.plug (inner.close t) closed = g.close u ∧ Followed g f := by
  induction closed generalizing inner t with
  | nil => exact ⟨inner, t, rfl, (List.isChain_cons_cons.1 h).1⟩
  | cons g closed ih => exact ih (List.isChain_cons_cons.1 h).2

theorem Move.leading (move : Move d t e) (chain : d.Chained) (h : d.tree.Obeys Law.leading) :
    e.tree.Obeys Law.leading := by
  refine move.obeys h ⟨fun _ _ _ _ => nofun, ?_⟩ ?_ ?_
  · intro left l left' f _ _ _ below same operator
    cases same
    cases operator
  · refine fun l _ => ⟨fun _ _ => nofun, ?_⟩
    intro _ _ _ below same operator
    cases same
    exact operator
  · intro o left f outer _ climbed
    refine ⟨fun _ _ => nofun, ?_⟩
    intro old operator bare below top _
    cases top
    obtain ⟨closed, f', outer', stack, -, -, rfl, same⟩ := Frame.climb_eq_some_iff.1 climbed
    cases same
    rw [Chained, stack] at chain
    obtain ⟨g, u, root, followed⟩ := exists_close_of_followed (t := d.right) chain
    have isOperator := followed operator bare
    rw [root] at old ⊢
    exact old operator bare (g.left, g.node.label) rfl isOperator

/-! ## All three laws -/

/-- What holds of drafts that can be finished. -/
theorem Moves.laws {ts : List Token} (moves : Moves empty ts d) (viable : d.Viable) :
    d.tree.Obeys Law.inner ∧ d.tree.Obeys Law.outer ∧ d.tree.Obeys Law.leading := by
  have kept : d.SignsLeaf ∧ d.Chained ∧
      d.tree.Obeys Law.inner ∧ d.tree.Obeys Law.outer ∧ d.tree.Obeys Law.leading := by
    refine moves.maintains (P := fun d => d.SignsLeaf ∧ d.Chained ∧ d.tree.Obeys Law.inner ∧
      d.tree.Obeys Law.outer ∧ d.tree.Obeys Law.leading) viable ?_ ?_
    · exact ⟨nofun, .singleton _, ⟨nofun, trivial, trivial⟩, ⟨nofun, trivial, trivial⟩,
        ⟨nofun, trivial, trivial⟩⟩
    · rintro d t e move viable ⟨cursor, chain, inner, outer, leading⟩
      exact ⟨move.signsLeaf viable, move.chained chain, move.inner inner, move.outer cursor outer,
        move.leading chain leading⟩
  exact kept.2.2

end Draft

end Formula
