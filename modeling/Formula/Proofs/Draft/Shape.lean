import Formula.Proofs.Draft.Viable
import Formula.Proofs.Tree.Parts

/-!
# The shape of drafts

Laws that the nodes of every draft keep. A move adds one node, as a right child or in front of a
left part, and changes what at most one other node has on its right, so a law is settled by looking
at these two nodes.

## Main definitions

* `Label.Proper` — labels as tokens give rise to them.
* `Law.IgnoresOpening` — laws that do not notice the opening parenthesis of a call.
* `Draft.Fits` — what a move may put behind the cursor.
* `Law.proper` — only operators have a left part, and leaves have no part at all.
* `Law.signed` — an operator without a left part is a sign in front of a leaf, or stands in front of
  another operator.
* `Law.signs` — behind an operator, only signs come in front of operands.

`Draft.Move.obeys` reduces a law to the nodes at which a move changes anything.
`Draft.Moves.proper`, `Draft.Moves.signed` and `Draft.Moves.signs` say that drafts keep these three.
-/

namespace Formula

/-- What a token can have made: an operator that exists, or a name with the meaning it has. -/
def Label.Proper : Label → Prop
  | .operator s => ∃ o : Operator, o.symbol = s
  | .var name => Label.ofName name = .var name
  | .constant name => Label.ofName name = .constant name
  | .call f _ => Label.ofName f = .call f false
  | .number _ | .group => True

theorem Label.proper_ofName (name : String) : (Label.ofName name).Proper := by
  rw [Label.ofName]
  split
  · next constant => simp [Proper, ofName, constant]
  · next other =>
    split
    · next function => simp [Proper, ofName, other, function]
    · next unknown => simp [Proper, ofName, other, unknown]

theorem Label.Proper.exists_operator {l : Label} (h : l.Proper) (operator : l.isOperator = true) :
    ∃ o : Operator, l = .operator o.symbol := by
  cases l with
  | operator s =>
    obtain ⟨o, rfl⟩ := h
    exact ⟨o, rfl⟩
  | _ => cases operator

theorem Token.proper_of_operand? {t : Token} {l : Label} (h : t.operand? = some l) :
    l.Proper ∧ l.isOperator = false := by
  obtain ⟨kind, text⟩ := t
  cases kind with
  | number =>
    cases h
    exact ⟨trivial, rfl⟩
  | name =>
    cases h
    refine ⟨Label.proper_ofName text, ?_⟩
    simp only [Label.ofName]
    split
    · rfl
    · split <;> rfl
  | operator => cases h
  | parenthesis =>
    simp only [Token.operand?] at h
    split at h <;> cases h
    exact ⟨trivial, rfl⟩

namespace Law

/-- Whether a law treats a call alike before and after its parenthesis has been read. -/
structure IgnoresOpening (law : Law) : Prop where
  root : ∀ left f top, law left (.call f false) top → law left (.call f true) top
  below : ∀ left l left' f, law left l (some (left', .call f false)) →
    law left l (some (left', .call f true))

def proper : Law := fun left l top =>
  l.Proper ∧ (l.isOperator = false → left = .nil) ∧ (l.isLeaf = true → top = none)

def signed : Law := fun left l top =>
  l.isOperator = true → left = .nil → ∀ below ∈ top,
    below.2.isOperator = true ∨
      below.2.isLeaf = true ∧ ∃ o : Operator, o.isSign = true ∧ l = .operator o.symbol

def signs : Law := fun _ l top =>
  l.isOperator = true → ∀ below ∈ top, (below.1.leftmost below.2).isOperator = true →
    ∃ o : Operator, o.isSign = true ∧ below.1.leftmost below.2 = .operator o.symbol

end Law

namespace Draft

variable {law : Law} {d e : Draft} {t : Token}

/-- What a move from `d` to `e` may put behind the cursor of `d`. Behind an operator without a left
part it is another operator, or else the operator is a sign, in front of a leaf if the draft stays
viable; and an operator behind any operator is a sign. -/
structure Fits (d e : Draft) (l : Label) : Prop where
  called : d.demand ≠ .none
  proper : l.Proper
  signed : d.here.node.label.isOperator = true → d.here.left = .nil → l.isOperator = true ∨
    (∃ o : Operator, o.isSign = true ∧ d.here.node.label = .operator o.symbol) ∧
      (e.Viable → l.isLeaf = true)
  sign : d.here.node.label.isOperator = true → l.isOperator = true →
    ∃ o : Operator, o.isSign = true ∧ l = .operator o.symbol

/-! ## Where a move changes a tree -/

/-- A new node on the right: the law is settled by that node and the cursor. -/
theorem obeys_descend {l : Label} (h : d.tree.Obeys law) (free : d.right = .nil)
    (new : law .nil l none)
    (cursor : law d.here.left d.here.node.label none →
      law d.here.left d.here.node.label (some (.nil, l))) :
    (d.descend l).tree.Obeys law := by
  rw [tree, free] at h
  obtain ⟨⟨old, left, -⟩, above⟩ := Frame.obeys_plug.1 h
  exact Frame.obeys_plug.2 ⟨⟨new, trivial, trivial⟩, cursor old, left, above⟩

/-- A new operator above `left`: the law is settled by that operator and the frame it hangs in. -/
theorem obeys_spliced {o : Operator} {left : Tree} {above : List Frame} (h : d.tree.Obeys law)
    (climbed : Frame.climb o.leftPriority (d.here.close d.right) d.above = some (left, above))
    (new : law left (.operator o.symbol) none)
    (outer : ∀ f ∈ above.head?, law f.left f.node.label left.top? →
      law f.left f.node.label (some (left, .operator o.symbol))) :
    (d.spliced o left above).tree.Obeys law := by
  rw [tree, ← Frame.plug_of_climb climbed] at h
  obtain ⟨inside, around⟩ := Frame.obeys_plug.1 h
  exact Frame.obeys_plug.2 ⟨⟨new, inside, trivial⟩, around.replace outer⟩

theorem obeys_opened {f : String} (h : d.tree.Obeys law) (label : d.here.node.label = .call f false)
    (ignores : law.IgnoresOpening) : (d.opened f).tree.Obeys law := by
  obtain ⟨⟨old, left, right⟩, around⟩ := Frame.obeys_plug.1 h
  rw [label] at old
  refine Frame.obeys_plug.2 ⟨⟨ignores.root _ _ _ old, left, right⟩, around.replace ?_⟩
  intro g _ outer
  rw [Frame.close, Tree.top?_node, label] at outer
  exact ignores.below _ _ _ _ outer

/-- Closing a group moves the cursor and leaves the tree. -/
theorem tree_of_toGroup? {above : List Frame} {here : Frame} {right : Tree}
    (found : Frame.toGroup? (d.here.close d.right) d.above = some (above, here, right)) :
    (⟨above, here, right, d.size⟩ : Draft).tree = d.tree :=
  Frame.plug_of_toGroup? found

theorem Move.fits_descend {l : Label} (operand : t.operand? = some l)
    (called : d.demand = .first ∨ d.demand = .second) : Fits d e l := by
  obtain ⟨proper, noOperator⟩ := Token.proper_of_operand? operand
  refine ⟨ne_none_of_called called, proper, fun operator left => ?_, fun _ operator => ?_⟩
  · exact absurd left (left_ne_nil_of_called called operator)
  · simp [noOperator] at operator

theorem Move.fits_attach {l : Label} {o : Operator} (operand : t.operand? = some l)
    (called : d.demand = .signed o.symbol) (isSign : o.isSign = true) :
    Fits d (d.attach l) l := by
  obtain ⟨proper, noOperator⟩ := Token.proper_of_operand? operand
  refine ⟨by simp [called], proper, fun _ _ => .inr ⟨?_, isLeaf_of_attach⟩, fun _ operator => ?_⟩
  · exact ⟨o, isSign, (demand_eq_signed_iff.1 called).1⟩
  · simp [noOperator] at operator

theorem Move.fits_lead {o : Operator} (called : d.demand = .first) :
    Fits d e (.operator o.symbol) := by
  refine ⟨by simp [called], ⟨o, rfl⟩, fun _ _ => .inl rfl, fun operator _ => ?_⟩
  rw [isOperator_of_first called] at operator
  cases operator

theorem Move.fits_sign {o : Operator} (called : d.demand = .second ∨ ∃ s, d.demand = .signed s)
    (isSign : o.isSign = true) : Fits d e (.operator o.symbol) :=
  ⟨ne_none_of_operator called, ⟨o, rfl⟩, fun _ _ => .inl rfl, fun _ _ => ⟨o, isSign, rfl⟩⟩

/-- A move keeps a law if new nodes keep it, and the nodes whose right part they change. -/
theorem Move.obeys (move : Move d t e) (h : d.tree.Obeys law) (ignores : law.IgnoresOpening)
    (grown : ∀ l, Fits d e l → law .nil l none ∧ (law d.here.left d.here.node.label none →
      law d.here.left d.here.node.label (some (.nil, l))))
    (spliced : ∀ (o : Operator) left f outer, d.demand = .none →
      Frame.climb o.leftPriority (d.here.close d.right) d.above = some (left, f :: outer) →
      law left (.operator o.symbol) none ∧ (law f.left f.node.label left.top? →
        law f.left f.node.label (some (left, .operator o.symbol)))) :
    e.tree.Obeys law := by
  have growing : ∀ l, Fits d e l → (d.descend l).tree.Obeys law := fun l fits =>
    obeys_descend h (right_of_demand fits.called) (grown l fits).1 (grown l fits).2
  cases move with
  | descend operand called free => exact growing _ (fits_descend operand called)
  | attach operand called isSign => exact growing _ (fits_attach operand called isSign)
  | openCall label => exact obeys_opened h label ignores
  | lead o called free => exact growing _ (fits_lead called)
  | sign o called isSign => exact growing _ (fits_sign called isSign)
  | @splice o left above called free climbed =>
    obtain ⟨-, f, outer, -, -, -, -, rfl⟩ := Frame.climb_eq_some_iff.1 climbed
    obtain ⟨new, hanging⟩ := spliced o left f outer called climbed
    refine obeys_spliced h climbed new ?_
    rintro g ⟨⟩
    exact hanging
  | close free found => rwa [tree_of_toGroup? found]

/-! ## Laws that drafts keep -/

theorem Move.proper (move : Move d t e) (h : d.tree.Obeys Law.proper) :
    e.tree.Obeys Law.proper := by
  refine move.obeys h ⟨?_, ?_⟩ ?_ ?_
  · rintro left f top ⟨known, bare, -⟩
    exact ⟨known, bare, Bool.noConfusion⟩
  · rintro left l left' f ⟨known, bare, leaf⟩
    exact ⟨known, bare, fun isLeaf => by cases leaf isLeaf⟩
  · refine fun l fits => ⟨⟨fits.proper, fun _ => rfl, fun _ => rfl⟩, ?_⟩
    rintro ⟨known, bare, -⟩
    exact ⟨known, bare, fun leaf => absurd (demand_eq_none_iff.2 (.inr leaf)) fits.called⟩
  · intro o left f outer _ climbed
    refine ⟨⟨⟨o, rfl⟩, Bool.noConfusion, Bool.noConfusion⟩, ?_⟩
    rintro ⟨known, bare, leaf⟩
    refine ⟨known, bare, fun isLeaf => ?_⟩
    have none := Tree.top?_eq_none_iff.1 (leaf isLeaf)
    exact absurd none (Frame.ne_nil_of_climb Tree.noConfusion climbed)

theorem Move.signed (move : Move d t e) (viable : e.Viable) (h : d.tree.Obeys Law.signed) :
    e.tree.Obeys Law.signed := by
  refine move.obeys h ⟨fun _ _ _ _ => Bool.noConfusion, ?_⟩ ?_ ?_
  · rintro left l left' f old operator bare below ⟨⟩
    rcases old operator bare _ rfl with called | ⟨called, -⟩ <;> cases called
  · refine fun l fits => ⟨fun _ _ => nofun, ?_⟩
    rintro - operator bare below ⟨⟩
    exact (fits.signed operator bare).imp_right fun ⟨isSign, leaf⟩ => ⟨leaf viable, isSign⟩
  · refine fun o left f outer _ _ => ⟨fun _ _ => nofun, ?_⟩
    rintro - operator bare below ⟨⟩
    exact .inl rfl

theorem Move.signs (move : Move d t e) (h : d.tree.Obeys Law.signs) : e.tree.Obeys Law.signs := by
  refine move.obeys h ⟨fun _ _ _ _ => Bool.noConfusion, ?_⟩ ?_ ?_
  · intro left l left' f old operator below same starts
    cases same
    cases left' with
    | nil => cases starts
    | node => exact old operator (_, .call f false) rfl starts
  · refine fun l fits => ⟨fun _ => nofun, ?_⟩
    intro _ operator below same
    cases same
    exact fits.sign operator
  · intro o left f outer _ climbed
    refine ⟨fun _ => nofun, ?_⟩
    intro old operator below same
    cases same
    -- the new operator stands behind what it has taken over
    cases left with
    | nil => exact absurd rfl (Frame.ne_nil_of_climb Tree.noConfusion climbed)
    | node l m r => exact old operator (l, m.label) rfl

/-- Only operators have a left part, leaves have none, and labels are what tokens make. -/
theorem Moves.proper {ts : List Token} (moves : Moves empty ts d) : d.tree.Obeys Law.proper :=
  moves.preserves ⟨⟨trivial, fun _ => rfl, fun _ => rfl⟩, trivial, trivial⟩ Move.proper

/-- In a draft that can be finished, what follows an operator in front of its operand is a leaf, if
the operator is a sign, or another operator. -/
theorem Moves.signed {ts : List Token} (moves : Moves empty ts d) (viable : d.Viable) :
    d.tree.Obeys Law.signed :=
  moves.maintains viable ⟨nofun, trivial, trivial⟩ Move.signed

theorem Moves.signs {ts : List Token} (moves : Moves empty ts d) : d.tree.Obeys Law.signs :=
  moves.preserves ⟨nofun, trivial, trivial⟩ Move.signs

end Draft

end Formula
