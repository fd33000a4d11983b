import Formula.Proofs.Draft.Shape
import Formula.Tree.Tokens

/-!
# The tokens of a draft

A draft can be read back from left to right as far as it has come. Every move adds its own token at
the end of what is read back and changes nothing before it, so a finished tree reads back as the
list of tokens that it was built from.

## Main definitions

* `Token.Plain` — a token that is no parenthesis in disguise.
* `Frame.tokens`, `Draft.tokens` — what frames and drafts read back as.
* `Draft.CallsOpened` — every call that the cursor is inside of has its opening parenthesis.

`Draft.Move.tokens_eq` is the step and `Draft.formulaTokens_of_build` what follows for whole lists.
-/

namespace Formula

/-- Neither a name nor a number that is spelled like an opening parenthesis. -/
def Token.Plain (t : Token) : Prop :=
  t.kind = .name ∨ t.kind = .number → t.text ≠ "("

instance : DecidablePred Token.Plain := fun t =>
  inferInstanceAs (Decidable (t.kind = .name ∨ t.kind = .number → t.text ≠ "("))

/-- The tokens of a node up to where its right part starts. -/
def Label.tokens : Label → List Token
  | .number s => [⟨.number, s⟩]
  | .var s | .constant s | .call s false => [⟨.name, s⟩]
  | .operator s => [⟨.operator, s⟩]
  | .group => [.opening]
  | .call f true => [⟨.name, f⟩, .opening]

theorem Tree.tokens_of_isLeaf {left right : Tree} {n : Node} (h : n.label.isLeaf = true) :
    (Tree.node left n right).tokens = n.label.tokens := by
  obtain ⟨serial, label⟩ := n
  cases label with
  | number s | var s | constant s => rfl
  | _ => cases h

theorem Token.tokens_of_operand? {t : Token} {l : Label} (h : t.operand? = some l) :
    l.tokens = [t] := by
  obtain ⟨kind, text⟩ := t
  cases kind with
  | number =>
    cases h
    rfl
  | name =>
    cases h
    simp only [Label.ofName]
    split
    · rfl
    · split <;> rfl
  | operator => cases h
  | parenthesis =>
    simp only [Token.operand?] at h
    split at h
    · next spelled =>
      cases h
      exact congrArg (fun text => [Token.mk .parenthesis text]) spelled.symm
    · cases h

namespace Frame

def tokens (f : Frame) : List Token :=
  f.left.tokens ++ f.node.label.tokens

/-- The tokens of a stack of frames, the innermost last. -/
def tokensAbove : List Frame → List Token
  | [] => []
  | f :: above => tokensAbove above ++ f.tokens

theorem tokens_close_of_isOperator {f : Frame} (h : f.node.label.isOperator = true)
    (right : Tree) : (f.close right).tokens = f.tokens ++ right.tokens := by
  obtain ⟨left, serial, label⟩ := f
  cases label with
  | operator s => simp [close, Tree.tokens, tokens, Label.tokens]
  | _ => cases h

/-- Closing operators does not change what is read back. -/
theorem tokensAbove_append {closed outer : List Frame} (t : Tree)
    (h : ∀ f ∈ closed, f.node.label.isOperator = true) :
    tokensAbove (closed ++ outer) ++ t.tokens = tokensAbove outer ++ (plug t closed).tokens := by
  induction closed generalizing t with
  | nil => rfl
  | cons f closed ih =>
    obtain ⟨operator, rest⟩ := List.forall_mem_cons.1 h
    rw [plug, ← ih _ rest, tokens_close_of_isOperator operator]
    simp [tokensAbove]

/-- A frame with something below it is an operator unless it is a group. -/
theorem isOperator_of_around {top : Option (Tree × Label)} {above : List Frame}
    (h : Around Law.proper top above) (below : top ≠ none) :
    ∀ f ∈ above, f.isGroup = false → f.node.label.isOperator = true := by
  induction above generalizing top with
  | nil => simp
  | cons f above ih =>
    obtain ⟨⟨-, -, leaf⟩, -, around⟩ := h
    refine List.forall_mem_cons.2 ⟨fun inner => ?_, ih around nofun⟩
    refine Bool.of_not_eq_false fun other => ?_
    have outer : f.node.label.isLeaf = false :=
      Bool.of_not_eq_true fun isLeaf => below (leaf isLeaf)
    rw [isGroup, Label.isGroup_of_inner outer other] at inner
    cases inner

end Frame

namespace Draft

variable {d e : Draft} {t : Token}

/-- What a draft reads back as. The group at the cursor is closed if something stands in it. -/
def tokens (d : Draft) : List Token :=
  Frame.tokensAbove (d.here :: d.above) ++ d.right.tokens ++
    if d.here.isGroup && !d.right.isNil then [.closing] else []

/-- The frames that a parenthesis closes are operators. -/
theorem isOperator_of_closed {closed rest : List Frame} (proper : d.tree.Obeys Law.proper)
    (stack : d.above = closed ++ rest) (inner : ∀ f ∈ closed, f.isGroup = false) :
    ∀ f ∈ closed, f.node.label.isOperator = true := by
  intro f member
  refine Frame.isOperator_of_around (Frame.obeys_plug.1 proper).2 nofun f ?_
    (inner f member)
  exact stack ▸ List.mem_append_left rest member

/-! ## Calls are opened -/

/-- The functions above the cursor have been opened, and one at the cursor that has not been opened
holds nothing yet. -/
structure CallsOpened (d : Draft) : Prop where
  above : ∀ g ∈ d.above, ∀ f, g.node.label ≠ .call f false
  here : ∀ f, d.here.node.label = .call f false → d.right = .nil

theorem unopened?_eq_none_iff :
    d.unopened? = none ↔ ∀ f, d.here.node.label ≠ .call f false := by
  simp [Option.eq_none_iff_forall_ne_some, unopened?_eq_some_iff]

/-- A plain token never fills a function that has not been opened. -/
theorem unopened?_of_plain {l : Label} (plain : t.Plain) (operand : t.operand? = some l)
    (free : d.unopened? = none ∨ t.text = "(" ∧ l ≠ .group) : d.unopened? = none := by
  refine free.resolve_right fun ⟨spelled, other⟩ => ?_
  obtain ⟨kind, text⟩ := t
  cases kind with
  | number => exact plain (.inr rfl) spelled
  | name => exact plain (.inl rfl) spelled
  | operator => cases operand
  | parenthesis =>
    simp only [Token.operand?, if_pos spelled, Option.some.injEq] at operand
    exact other operand.symm

/-- Only a token in disguise behind a function that has not been opened fills it unopened. -/
theorem Move.callsOpened_of_or (move : Move d t e) (plain : d.unopened? = none ∨ t.Plain)
    (h : d.CallsOpened) : e.CallsOpened := by
  have growing : ∀ l : Label, d.unopened? = none → (d.descend l).CallsOpened := fun l free =>
    ⟨List.forall_mem_cons.2 ⟨unopened?_eq_none_iff.1 free, h.above⟩, fun _ _ => rfl⟩
  cases move with
  | descend operand called free =>
    exact growing _ (plain.elim id fun plain => unopened?_of_plain plain operand free)
  | @attach _ l o operand called sign =>
    refine ⟨h.above, fun f call => ?_⟩
    have operator : d.here.node.label = .operator o.symbol := (demand_eq_signed_iff.1 called).1
    cases operator.symm.trans call
  | openCall label => exact ⟨h.above, fun f call => by cases call⟩
  | lead o called free => exact growing _ free
  | sign o called sign => exact growing _ (unopened?_of_isOperator (isOperator_of_demand called))
  | splice o called free climbed =>
    obtain ⟨closed, f, outer, stack, -, -, -, rfl⟩ := Frame.climb_eq_some_iff.1 climbed
    refine ⟨fun g member => h.above g ?_, fun f call => by cases call⟩
    exact stack ▸ List.mem_append_right closed member
  | close free found =>
    obtain ⟨closed, stack, -, -, -⟩ := Frame.toGroup?_eq_some_iff.1 found
    have opened := h.above
    rw [stack] at opened
    refine ⟨fun g member => opened g ?_, fun f call => absurd call (opened _ ?_ f)⟩
    · exact List.mem_append_right closed (List.mem_cons_of_mem _ member)
    · exact List.mem_append_right closed List.mem_cons_self

theorem Move.callsOpened (move : Move d t e) (plain : t.Plain) (h : d.CallsOpened) :
    e.CallsOpened :=
  move.callsOpened_of_or (.inr plain) h

/-! ## Tokens -/

/-- Where nothing is called for, the cursor reads back as the tree that hangs there. -/
theorem tokens_of_demand (called : d.demand = .none) (free : d.unopened? = none)
    (proper : d.tree.Obeys Law.proper) :
    d.tokens = Frame.tokensAbove d.above ++ (d.here.close d.right).tokens := by
  obtain ⟨⟨⟨-, left, leaf⟩, -⟩, -⟩ := Frame.obeys_plug.1 proper
  have filled := demand_eq_none_iff.1 called
  have opened := unopened?_eq_none_iff.1 free
  obtain ⟨above, ⟨left', serial, label⟩, right, size⟩ := d
  cases label with
  | number s | var s | constant s =>
    obtain rfl : left' = .nil := left rfl
    obtain rfl : right = .nil := Tree.top?_eq_none_iff.1 (leaf rfl)
    simp [tokens, Frame.tokensAbove, Frame.tokens, Frame.close, Frame.isGroup, Label.isGroup,
      Label.tokens, Tree.tokens]
  | operator s =>
    rw [Frame.tokens_close_of_isOperator rfl]
    simp [tokens, Frame.tokensAbove, Frame.isGroup, Label.isGroup]
  | group =>
    obtain rfl : left' = .nil := left rfl
    cases right with
    | nil => simp [Label.isLeaf] at filled
    | node l n r =>
      simp [tokens, Frame.tokensAbove, Frame.tokens, Frame.close, Frame.isGroup, Label.isGroup,
        Label.tokens, Tree.tokens, Tree.isNil]
  | call f isOpened =>
    obtain rfl : left' = .nil := left rfl
    cases isOpened with
    | false => exact absurd rfl (opened f)
    | true =>
      cases right with
      | nil => simp [Label.isLeaf] at filled
      | node l n r =>
        simp [tokens, Frame.tokensAbove, Frame.tokens, Frame.close, Frame.isGroup, Label.isGroup,
          Label.tokens, Tree.tokens, Tree.isNil]

/-- A new node on the right reads back after everything else. -/
theorem tokens_descend (l : Label) (h : d.right = .nil) :
    (d.descend l).tokens = d.tokens ++ l.tokens := by
  simp [tokens, descend, h, Frame.tokensAbove, Frame.tokens, Tree.tokens, Tree.isNil]

theorem tokens_attach {l : Label} (leaf : l.isLeaf = true)
    (operator : d.here.node.label.isOperator = true) (h : d.right = .nil) :
    (d.attach l).tokens = d.tokens ++ l.tokens := by
  have here : d.here.isGroup = false := Label.isGroup_of_isOperator operator
  have read : (Tree.leaf ⟨d.size, l⟩).tokens = l.tokens := Tree.tokens_of_isLeaf leaf
  simp [tokens, attach, h, here, read, Tree.tokens]

theorem tokens_opened {f : String} (label : d.here.node.label = .call f false)
    (h : d.right = .nil) : (d.opened f).tokens = d.tokens ++ [.opening] := by
  simp [tokens, opened, h, label, Frame.tokensAbove, Frame.tokens, Label.tokens, Tree.tokens,
    Tree.isNil]

theorem tokens_spliced {o : Operator} {left : Tree} {above : List Frame} (called : d.demand = .none)
    (free : d.unopened? = none) (proper : d.tree.Obeys Law.proper)
    (climbed : Frame.climb o.leftPriority (d.here.close d.right) d.above = some (left, above)) :
    (d.spliced o left above).tokens = d.tokens ++ [⟨.operator, o.symbol⟩] := by
  obtain ⟨closed, f, outer, stack, tight, -, rfl, rfl⟩ := Frame.climb_eq_some_iff.1 climbed
  rw [tokens_of_demand called free proper, stack, Frame.tokensAbove_append _
    fun g member => Frame.isOperator_of_le_priority (tight g member)]
  simp [tokens, spliced, Frame.tokensAbove, Frame.tokens, Label.tokens, Tree.tokens, Tree.isNil]

/-- Moving up to a group leaves what is read back as it is. -/
theorem tokens_toGroup? {above : List Frame} {here : Frame} {right : Tree}
    (called : d.demand = .none) (free : d.unopened? = none) (proper : d.tree.Obeys Law.proper)
    (found : Frame.toGroup? (d.here.close d.right) d.above = some (above, here, right)) :
    d.tokens = Frame.tokensAbove (here :: above) ++ right.tokens := by
  obtain ⟨closed, stack, inner, -, rfl⟩ := Frame.toGroup?_eq_some_iff.1 found
  rw [tokens_of_demand called free proper, stack, Frame.tokensAbove_append _
    (isOperator_of_closed proper stack inner)]

/-- Every move adds its own token at the end. -/
theorem Move.tokens_eq (move : Move d t e) (plain : t.Plain) (viable : e.Viable)
    (proper : d.tree.Obeys Law.proper) (calls : d.CallsOpened) : e.tokens = d.tokens ++ [t] := by
  cases move with
  | descend operand called free =>
    rw [tokens_descend _ (right_of_demand (ne_none_of_called called)),
      Token.tokens_of_operand? operand]
  | attach operand called sign =>
    rw [tokens_attach (isLeaf_of_attach viable) (isOperator_of_demand (.inr ⟨_, called⟩))
      (right_of_demand (by simp [called])), Token.tokens_of_operand? operand]
  | openCall label => exact tokens_opened label (calls.here _ label)
  | lead o called free => exact tokens_descend _ (right_of_demand (by simp [called]))
  | sign o called sign =>
    exact tokens_descend _ (right_of_demand (ne_none_of_operator called))
  | splice o called free climbed => exact tokens_spliced called free proper climbed
  | @close above here right free found =>
    rw [tokens_toGroup? (demand_of_close found viable) free proper found]
    have group := Frame.isGroup_of_toGroup? found
    cases right with
    | nil => exact absurd rfl (Frame.ne_nil_of_toGroup? Tree.noConfusion found)
    | node => simp [tokens, group, Tree.isNil]

/-- What moves from the empty draft keep, if their tokens are plain. -/
theorem Moves.tokens_eq {ts : List Token} (moves : Moves empty ts d)
    (plain : ∀ t ∈ ts, t.Plain) (viable : d.Viable) :
    d.CallsOpened ∧ d.tokens = .opening :: ts := by
  have kept := moves.keeps viable
    (fun us d => (∀ t ∈ us, t.Plain) →
      d.tree.Obeys Law.proper ∧ d.CallsOpened ∧ d.tokens = .opening :: us)
    [] (fun _ => ⟨?_, ⟨by simp [empty], fun _ call => by cases call⟩, rfl⟩) ?_
  · exact (kept plain).2
  · exact ⟨⟨trivial, fun _ => rfl, fun _ => rfl⟩, trivial, trivial⟩
  · intro us d t e move _ viable ih plain
    have last : t.Plain := plain t (by simp)
    obtain ⟨proper, calls, read⟩ := ih fun u member => plain u (by simp [member])
    refine ⟨move.proper proper, move.callsOpened last calls, ?_⟩
    rw [move.tokens_eq last viable proper calls, read, List.cons_append]

/-- A draft that is finished stands at no function whose opening parenthesis is to come. -/
theorem CallsOpened.unopened?_of_finish {T : Tree} (calls : d.CallsOpened)
    (h : d.finish = .ok T) : d.unopened? = none := by
  refine unopened?_eq_none_iff.2 fun f call => ?_
  have filled := demand_eq_none_iff.1 (demand_of_finish h)
  simp [call, calls.here f call, Label.isLeaf] at filled

theorem unopened?_of_finish {ts : List Token} {T : Tree} (moves : Moves empty ts d)
    (plain : ∀ t ∈ ts, t.Plain) (h : d.finish = .ok T) : d.unopened? = none :=
  (moves.tokens_eq plain (viable_of_finish h)).1.unopened?_of_finish h

/-- A finished tree reads back as the tokens that it was built from. -/
theorem formulaTokens_of_build {ts : List Token} {T : Tree} (plain : ∀ t ∈ ts, t.Plain)
    (h : build ts = .ok T) : T.formulaTokens = ts := by
  obtain ⟨d, moves, finished⟩ := build_eq_ok_iff.1 h
  obtain ⟨-, read⟩ := moves.tokens_eq plain (viable_of_finish finished)
  obtain ⟨content, rfl, found⟩ := eq_of_finish moves finished
  have outermost : empty.here.tokens ++ content.tokens = .opening :: ts := by
    rw [← read, tokens_toGroup? (demand_of_finish finished)
      (unopened?_of_finish moves plain finished) moves.proper found]
    rfl
  exact List.cons.inj outermost |>.2

end Draft

end Formula
