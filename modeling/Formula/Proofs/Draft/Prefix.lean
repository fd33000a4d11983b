import Formula.Proofs.Grammar.Acceptance

/-!
# Operators in front of operands

An operator without a left operand should be a sign, and a sign should take in no operator that
stands behind its operand. Neither holds of every formula: any operator may open a group if a sign
follows it, and of two signs in front of a leaf only the inner one is sure to have the leaf to
itself. Both laws can be told from the tokens alone.

## Main definitions

* `Law.Irreparable` — laws that stay broken once they are.
* `Law.prefixed` — an operator without a left operand is a sign.
* `Law.bare` — an operator without a left operand has a leaf on its right, or another such operator.
* `Token.SignsLead`, `Token.SignsHold` — what the two laws ask of the tokens.

`Draft.Moves.prefixed_iff` and `Draft.Moves.bare_iff` say that the tokens tell. A law is broken by
the token that completes one of the patterns, and by no other.
-/

namespace Formula

/-! ## Patterns of tokens -/

namespace Token

/-- Where a group starts with an operator it starts with a sign. The whole text counts as a
group. -/
def SignsLead (ts : List Token) : Prop :=
  ∀ o : Operator, [.opening, ⟨.operator, o.symbol⟩] <:+: .opening :: ts → o.isSign = true

/-- Where two operators stand in front of a leaf, what follows the leaf draws it no more tightly
than the first of them holds on. The first one stands where an operand is called for. -/
def SignsHold (ts : List Token) : Prop :=
  ∀ (before sign leaf : Token) (p o : Operator),
    [before, ⟨.operator, p.symbol⟩, sign, leaf, ⟨.operator, o.symbol⟩] <:+: .opening :: ts →
      before = .opening ∨ before.IsOperator → sign.IsOperator → leaf.IsLeaf →
        o.leftPriority ≤ p.rightPriority

/-- A pattern after a token, cut where the token ends. -/
theorem exists_split_of_infix {a b : Token} {pattern ts : List Token}
    (h : b :: pattern <:+: a :: ts) :
    ∃ us vs, ts = us ++ (pattern ++ vs) ∧ (a :: us).getLast? = some b := by
  obtain ⟨front, vs, same⟩ := h
  cases front with
  | nil =>
    obtain ⟨rfl, rfl⟩ := List.cons.inj same
    exact ⟨[], vs, rfl, rfl⟩
  | cons c front =>
    obtain ⟨rfl, rfl⟩ := List.cons.inj same
    exact ⟨front ++ [b], vs, by simp, by rw [← List.cons_append, List.getLast?_concat]⟩

/-- A pattern that comes to its end with the last token. -/
theorem infix_of_getLast? {a b t : Token} {us : List Token} (h : (a :: us).getLast? = some b) :
    [b, t] <:+: a :: (us ++ [t]) := by
  obtain ⟨front, same⟩ := List.getLast?_eq_some_iff.1 h
  exact ⟨front, [], by rw [← List.cons_append, same]; simp⟩

theorem infix_append {a : Token} {pattern us : List Token} (vs : List Token)
    (h : pattern <:+: a :: us) : pattern <:+: a :: (us ++ vs) :=
  h.trans ⟨[], vs, by simp⟩

theorem SignsLead.of_append {us vs : List Token} (h : SignsLead (us ++ vs)) : SignsLead us :=
  fun o inside => h o (infix_append vs inside)

theorem SignsHold.of_append {us vs : List Token} (h : SignsHold (us ++ vs)) : SignsHold us :=
  fun before sign leaf p o inside => h before sign leaf p o (infix_append vs inside)

end Token

/-! ## The laws -/

namespace Law

def prefixed : Law := fun left l _ =>
  l.isOperator = true → left = .nil → ∃ o : Operator, o.isSign = true ∧ l = .operator o.symbol

def bare : Law := fun left l top =>
  l.isOperator = true → left = .nil → ∀ below ∈ top,
    below.2.isLeaf = true ∨ below.2.isOperator = true ∧ below.1 = .nil

/-- Whether a node that breaks a law goes on to break it when its call is opened, when something is
put on its right, and when an operator takes over what stands there. -/
structure Irreparable (law : Law) : Prop where
  root : ∀ left f top, law left (.call f true) top → law left (.call f false) top
  below : ∀ left l left' f, law left l (some (left', .call f true)) →
    law left l (some (left', .call f false))
  grown : ∀ left l below, law left l (some below) → law left l none
  taken : ∀ left l left' (o : Operator), left' ≠ .nil →
    law left l (some (left', .operator o.symbol)) → law left l left'.top?

theorem irreparable_prefixed : Irreparable prefixed :=
  ⟨fun _ _ _ _ => Bool.noConfusion, fun _ _ _ _ h => h, fun _ _ _ h => h, fun _ _ _ _ _ h => h⟩

theorem irreparable_bare : Irreparable bare := by
  refine ⟨fun _ _ _ _ => Bool.noConfusion, ?_, fun _ _ _ _ _ _ => nofun, ?_⟩
  · intro left l left' f opened operator none below same
    cases same
    rcases opened operator none _ rfl with leaf | ⟨isOperator, -⟩
    · cases leaf
    · cases isOperator
  · intro left l left' o filled taken operator none
    rcases taken operator none _ rfl with leaf | ⟨-, empty⟩
    · cases leaf
    · exact absurd empty filled

end Law

namespace Draft

variable {law : Law} {d e : Draft} {t : Token} {ts us : List Token}

/-- A law that is kept after a move was kept before, if it cannot be repaired. -/
theorem Move.obeys_of_irreparable (move : Move d t e) (irreparable : law.Irreparable)
    (h : e.tree.Obeys law) : d.tree.Obeys law := by
  have grown : ∀ l, d.demand ≠ .none → (d.descend l).tree.Obeys law → d.tree.Obeys law := by
    intro l called later
    obtain ⟨-, cursor, left, around⟩ := Frame.obeys_plug.1 later
    rw [tree, right_of_demand called]
    exact Frame.obeys_plug.2 ⟨⟨irreparable.grown _ _ _ cursor, left, trivial⟩, around⟩
  cases move with
  | descend operand called free => exact grown _ (ne_none_of_called called) h
  | attach operand called isSign => exact grown _ (by simp [called]) h
  | @openCall f label =>
    obtain ⟨⟨cursor, left, right⟩, around⟩ := Frame.obeys_plug.1 h
    refine Frame.obeys_plug.2 ⟨⟨?_, left, right⟩, around.replace fun g _ outer => ?_⟩
    · rw [label]
      exact irreparable.root _ _ _ cursor
    · rw [Frame.close, Tree.top?_node, label]
      exact irreparable.below _ _ _ _ outer
  | lead o called free => exact grown _ (by simp [called]) h
  | sign o called isSign => exact grown _ (ne_none_of_operator called) h
  | @splice o left above called free climbed =>
    obtain ⟨⟨-, inside, -⟩, around⟩ := Frame.obeys_plug.1 h
    have filled := Frame.ne_nil_of_climb Tree.noConfusion climbed
    rw [tree, ← Frame.plug_of_climb climbed]
    refine Frame.obeys_plug.2 ⟨inside, around.replace fun g _ outer => ?_⟩
    exact irreparable.taken _ _ _ o filled outer
  | close free found => rwa [tree_of_toGroup? found] at h

theorem Moves.obeys_of_irreparable (moves : Moves d ts e) (irreparable : law.Irreparable)
    (h : e.tree.Obeys law) : d.tree.Obeys law := by
  induction moves with
  | nil d => exact h
  | cons move _ ih => exact move.obeys_of_irreparable irreparable (ih h)

/-- What every move to a viable draft keeps that adds a token to the tokens read so far. -/
theorem Moves.extends {P : List Token → Draft → Prop} (moves : Moves empty ts d)
    (viable : d.Viable) (start : P [] empty)
    (step : ∀ {us d t e}, Moves empty us d → Move d t e → d.Viable → e.Viable → P us d →
      P (us ++ [t]) e) : P ts d := by
  have kept := moves.keeps viable (fun us d => Moves empty us d ∧ P us d) [] ⟨.nil _, start⟩
    fun move before after ⟨moves, ih⟩ =>
      ⟨moves.append (.single move), step moves move before after ih⟩
  exact kept.2

/-! ## What the last tokens say -/

/-- Behind an opening parenthesis the first operand of a group is called for. -/
theorem demand_eq_first_of_getLast? (moves : Moves empty us d) (plain : ∀ t ∈ us, t.Plain)
    (viable : d.Viable) (h : (.opening :: us).getLast? = some .opening) : d.demand = .first := by
  rcases List.eq_nil_or_concat us with rfl | ⟨before, t, rfl⟩
  · cases moves
    rfl
  · rw [List.concat_eq_append] at moves plain h
    obtain ⟨e, f, moves, move, viable', rest⟩ := exists_move_of_append moves viable
    cases rest
    have calls := (moves.tokens_eq (fun t member => plain t (by simp [member]))
      (move.viable viable')).1
    rw [← List.cons_append, List.getLast?_concat, Option.some.injEq] at h
    exact move.demand_of_opening h viable' calls

/-- Where the first operand of a group is called for, the last token is what opens the group. -/
theorem getLast?_of_demand_first (read : d.tokens = .opening :: us) (called : d.demand = .first)
    (free : d.unopened? = none) : (Token.opening :: us).getLast? = some .opening := by
  obtain ⟨group, right⟩ := demand_eq_first_iff.1 called
  have opened := unopened?_eq_none_iff.1 free
  rw [← read, tokens, right]
  cases label : d.here.node.label with
  | group => simp [Frame.tokensAbove, Frame.tokens, label, Label.tokens, Tree.tokens, Tree.isNil]
  | call f isOpened =>
    cases isOpened with
    | false => exact absurd label (opened f)
    | true =>
      simp [Frame.tokensAbove, Frame.tokens, label, Label.tokens, Tree.tokens, Tree.isNil]
  | _ => simp [Frame.isGroup, label, Label.isGroup] at group

/-- An operator where an operand is called for stands in front of one. -/
theorem Move.eq_descend {o : Operator} (move : Move d ⟨.operator, o.symbol⟩ e)
    (called : d.demand ≠ .none) : e = d.descend (.operator o.symbol) := by
  generalize same : (⟨.operator, o.symbol⟩ : Token) = t at move
  cases move with
  | descend operand called' free =>
    subst same
    cases operand
  | attach operand called' isSign =>
    subst same
    cases operand
  | openCall label => cases same
  | lead o' called' free =>
    rw [Operator.table.spelling_injective (Token.mk.inj same).2]
  | sign o' called' isSign =>
    rw [Operator.table.spelling_injective (Token.mk.inj same).2]
  | splice o' called' free climbed => exact absurd called' called
  | close free found => cases same

/-! ## Operators that open a group -/

theorem Move.prefixed (move : Move d t e) (h : d.tree.Obeys Law.prefixed)
    (lead : ∀ o : Operator, d.demand = .first → d.unopened? = none → t = ⟨.operator, o.symbol⟩ →
      o.isSign = true) : e.tree.Obeys Law.prefixed := by
  have grown : ∀ l : Label, d.demand ≠ .none → (l.isOperator = true → ∃ o : Operator,
      o.isSign = true ∧ l = .operator o.symbol) → (d.descend l).tree.Obeys Law.prefixed :=
    fun l called sign =>
      obeys_descend h (right_of_demand called) (fun operator _ => sign operator) id
  have operand : ∀ l, t.operand? = some l → l.isOperator = true → ∃ o : Operator,
      o.isSign = true ∧ l = .operator o.symbol := fun l made operator =>
    absurd operator (by simp [(Token.proper_of_operand? made).2])
  cases move with
  | descend made called free => exact grown _ (ne_none_of_called called) (operand _ made)
  | attach made called isSign => exact grown _ (by simp [called]) (operand _ made)
  | openCall label =>
    exact obeys_opened h label ⟨fun _ _ _ _ => Bool.noConfusion, fun _ _ _ _ old => old⟩
  | lead o called free => exact grown _ (by simp [called]) fun _ => ⟨o, lead o called free rfl, rfl⟩
  | sign o called isSign => exact grown _ (ne_none_of_operator called) fun _ => ⟨o, isSign, rfl⟩
  | splice o called free climbed =>
    refine obeys_spliced h climbed (fun _ none => ?_) fun _ _ old => old
    exact absurd none (Frame.ne_nil_of_climb Tree.noConfusion climbed)
  | close free found => rwa [tree_of_toGroup? found]

/-- All operators without a left operand are signs exactly if no group starts with another one. -/
theorem Moves.prefixed_iff (moves : Moves empty ts d) (plain : ∀ t ∈ ts, t.Plain)
    (viable : d.Viable) : d.tree.Obeys Law.prefixed ↔ Token.SignsLead ts := by
  constructor
  · intro h o inside
    obtain ⟨us, vs, rfl, last⟩ := Token.exists_split_of_infix inside
    obtain ⟨a, b, before, move, viable', after⟩ := exists_move_of_append moves viable
    have first := demand_eq_first_of_getLast? before (fun t member => plain t (by simp [member]))
      (move.viable viable') last
    obtain rfl := move.eq_descend (by simp [first])
    have later := after.obeys_of_irreparable Law.irreparable_prefixed h
    obtain ⟨o', sign, same⟩ := (Frame.obeys_plug.1 later).1.1 rfl rfl
    rwa [Operator.table.spelling_injective (Label.operator.inj same)]
  · refine moves.extends (P := fun us d => (∀ t ∈ us, t.Plain) → Token.SignsLead us →
      d.tree.Obeys Law.prefixed) viable ?_ ?_ plain
    · exact fun _ _ => ⟨nofun, trivial, trivial⟩
    · intro us d t e moves move viable _ ih plain lead
      have plain' : ∀ t ∈ us, t.Plain := fun t member => plain t (by simp [member])
      refine move.prefixed (ih plain' lead.of_append) fun o called free same => ?_
      have read := (moves.tokens_eq plain' viable).2
      have opening := getLast?_of_demand_first read called free
      exact lead o (same ▸ Token.infix_of_getLast? opening)

/-! ## Signs in front of a leaf -/

theorem Moves.signsLeaf (moves : Moves empty ts d) (viable : d.Viable) : d.SignsLeaf :=
  moves.maintains viable nofun fun move viable _ => move.signsLeaf viable

theorem Moves.chained (moves : Moves empty ts d) : d.Chained :=
  moves.preserves (.singleton _) Move.chained

/-- An operator that stops below one without a left operand stops right above the cursor, which
stands at a signed leaf: whatever else it could have climbed past does not hold on so tightly. -/
theorem Moves.isSignedLeaf_of_climb {o : Operator} {left : Tree} {f : Frame} {outer : List Frame}
    (moves : Moves empty ts d) (viable : d.Viable) (bare : d.tree.Obeys Law.bare)
    (called : d.demand = .none)
    (climbed : Frame.climb o.leftPriority (d.here.close d.right) d.above = some (left, f :: outer))
    (operator : f.node.label.isOperator = true) (none : f.left = .nil) :
    d.above = f :: outer ∧ (d.here.close d.right).IsSignedLeaf := by
  have whole := Frame.plug_of_climb climbed
  obtain ⟨closed, f', outer', stack, tight, loose, taken, same⟩ := Frame.climb_eq_some_iff.1 climbed
  cases same
  have chain := moves.chained
  rcases List.eq_nil_or_concat closed with rfl | ⟨inner, g, rfl⟩
  · rw [Chained, stack] at chain
    have cursor := (List.isChain_cons_cons.1 chain).1 operator none
    refine ⟨stack, moves.signsLeaf viable cursor ?_⟩
    refine (demand_eq_none_iff.1 called).resolve_right fun leaf => ?_
    rw [Label.isOperator_of_isLeaf leaf] at cursor
    cases cursor
  · rw [List.concat_eq_append] at stack tight taken
    rw [Chained, stack, List.append_assoc] at chain
    have followed : g.node.label.isOperator = true :=
      (List.isChain_cons_cons.1 chain.tail.right_of_append).1 operator none
    rw [Frame.plug_append] at taken
    -- the operator climbed past is a sign, which holds on to nothing that its neighbour lets go
    have top : left.top? = some (g.left, g.node.label) := by
      rw [taken]
      rfl
    have atFrame : ∀ law : Law, d.tree.Obeys law → law f.left f.node.label left.top? := by
      intro law kept
      rw [tree, ← whole] at kept
      exact (Frame.obeys_plug.1 kept).2.1
    have empty : g.left = .nil := by
      rcases atFrame _ bare operator none _ top with leaf | ⟨-, empty⟩
      · rw [Label.isOperator_of_isLeaf leaf] at followed
        cases followed
      · exact empty
    have start : g.left.leftmost g.node.label = g.node.label := by
      rw [empty]
      rfl
    obtain ⟨o', sign, signed⟩ : ∃ o' : Operator, o'.isSign = true ∧
        g.left.leftmost g.node.label = .operator o'.symbol :=
      atFrame _ moves.signs operator _ top (by rwa [← start] at followed)
    obtain ⟨p, label⟩ := (atFrame _ moves.proper).1.exists_operator operator
    have held := tight g (by simp)
    rw [← start, signed, Label.priority_operator] at held
    rw [label, Label.priority_operator] at loose
    cases o' <;> cases p <;> simp [Operator.isSign, Operator.rightPriority] at sign held loose <;>
      omega

/-- Above an operator there is another one or the start of a group. -/
theorem exists_tokensAbove {g : Frame} (outer : List Frame)
    (opened : ∀ f, g.node.label ≠ .call f false) (proper : g.node.label.Proper)
    (inner : g.node.label.isLeaf = false) :
    ∃ front before, Frame.tokensAbove (g :: outer) = front ++ [before] ∧
      (before = .opening ∨ before.IsOperator) := by
  rw [Frame.tokensAbove, Frame.tokens, ← List.append_assoc]
  cases label : g.node.label with
  | group => exact ⟨_, _, rfl, .inl rfl⟩
  | operator s =>
    rw [label] at proper
    obtain ⟨o, rfl⟩ := proper
    exact ⟨_, _, rfl, .inr (Token.isOperator_symbol o)⟩
  | call f isOpened =>
    cases isOpened with
    | false => exact absurd label (opened f)
    | true =>
      exact ⟨Frame.tokensAbove outer ++ g.left.tokens ++ [⟨.name, f⟩], .opening,
        by simp [Label.tokens], .inl rfl⟩
  | _ => simp [label, Label.isLeaf] at inner

/-- At a signed leaf that stands right below an operator without a left operand, the last tokens
are that operator, the sign and the leaf. -/
theorem Moves.exists_pattern {p : Operator} {f : Frame} {outer : List Frame}
    (moves : Moves empty ts d) (plain : ∀ t ∈ ts, t.Plain) (viable : d.Viable)
    (stack : d.above = f :: outer) (label : f.node.label = .operator p.symbol)
    (none : f.left = .nil) (signed : (d.here.close d.right).IsSignedLeaf) :
    ∃ before sign leaf : Token, (before = .opening ∨ before.IsOperator) ∧ sign.IsOperator ∧
      leaf.IsLeaf ∧ [before, ⟨.operator, p.symbol⟩, sign, leaf] <:+ .opening :: ts := by
  obtain ⟨calls, read⟩ := moves.tokens_eq plain viable
  obtain ⟨⟨here, -, right⟩, around⟩ := Frame.obeys_plug.1 moves.proper
  have bottom := moves.preserves (P := fun d => (d.here :: d.above).getLast? = some empty.here) rfl
    Move.outermost
  obtain ⟨n, m, same, operator, isLeaf⟩ := signed
  obtain ⟨left, rfl, leaf⟩ := Tree.node.inj same
  rw [leaf] at right
  cases outer with
  | nil =>
    rw [stack, List.getLast?_cons_cons, List.getLast?_singleton, Option.some.injEq] at bottom
    rw [bottom] at label
    cases label
  | cons g outer =>
    rw [stack] at around
    obtain ⟨-, -, ⟨proper, -, inner⟩, -, -⟩ := around
    obtain ⟨front, before, above, opens⟩ := exists_tokensAbove outer
      (calls.above g (by simp [stack])) proper (Bool.of_not_eq_true fun leaf => nomatch inner leaf)
    obtain ⟨sign, cursor⟩ := here.1.exists_operator operator
    obtain ⟨t, token, made⟩ := right.1.1.exists_operand isLeaf
    refine ⟨before, ⟨.operator, sign.symbol⟩, t, opens, Token.isOperator_symbol sign,
      Token.isLeaf_iff.2 ⟨_, made, isLeaf⟩, front, ?_⟩
    have group : d.here.isGroup = false := Label.isGroup_of_isOperator operator
    have operand : (Tree.leaf m).tokens = [t] := (Tree.tokens_of_isLeaf isLeaf).trans token
    rw [← read, tokens, stack, group, leaf, Frame.tokensAbove, Frame.tokensAbove, above,
      Frame.tokens, Frame.tokens, none, left, label, cursor, operand]
    simp [Tree.tokens, Label.tokens]

theorem Move.bare (move : Move d t e) (viable : e.Viable) (h : d.tree.Obeys Law.bare)
    (held : ∀ (o : Operator) left f outer, t = ⟨.operator, o.symbol⟩ → d.demand = .none →
      Frame.climb o.leftPriority (d.here.close d.right) d.above = some (left, f :: outer) →
        f.node.label.isOperator = true → f.left ≠ .nil) : e.tree.Obeys Law.bare := by
  have grown : ∀ l, Fits d e l → (d.descend l).tree.Obeys Law.bare := by
    refine fun l fits => obeys_descend h (right_of_demand fits.called) (fun _ _ => nofun) ?_
    rintro - operator none below ⟨⟩
    exact (fits.signed operator none).symm.imp (fun ⟨_, leaf⟩ => leaf viable) fun other =>
      ⟨other, rfl⟩
  cases move with
  | descend made called free => exact grown _ (fits_descend made called)
  | attach made called isSign => exact grown _ (fits_attach made called isSign)
  | openCall label =>
    refine obeys_opened h label ⟨fun _ _ _ _ => Bool.noConfusion, ?_⟩
    rintro left l left' f old operator none below ⟨⟩
    rcases old operator none _ rfl with leaf | ⟨other, -⟩
    · cases leaf
    · cases other
  | lead o called free => exact grown _ (fits_lead called)
  | sign o called isSign => exact grown _ (fits_sign called isSign)
  | @splice o left above called free climbed =>
    refine obeys_spliced h climbed (fun _ _ => nofun) ?_
    obtain ⟨-, f, outer, -, -, -, -, rfl⟩ := Frame.climb_eq_some_iff.1 climbed
    rintro g ⟨⟩ - operator none
    exact absurd none (held o left f outer rfl called climbed operator)
  | close free found => rwa [tree_of_toGroup? found]

/-- A leaf behind an operator that stands in front of its operand stays with that operator. -/
theorem Move.exists_attach {s : String} (move : Move d t e) (viable : e.Viable) (h : t.IsLeaf)
    (called : d.demand = .signed s) : ∃ l, e = d.attach l := by
  obtain ⟨l, made, leaf⟩ := Token.isLeaf_iff.1 h
  cases move with
  | descend made' called' free => simp [called] at called'
  | attach made' called' isSign => exact ⟨_, rfl⟩
  | openCall label =>
    cases made
    cases leaf
  | lead o called' free => cases made
  | sign o called' isSign => cases made
  | splice o called' free climbed => simp [called] at called'
  | close free found => cases made

/-- An operator where nothing is called for takes over what holds on to it tightly enough. -/
theorem Move.exists_spliced {o : Operator} (move : Move d ⟨.operator, o.symbol⟩ e)
    (called : d.demand = .none) :
    ∃ left above, Frame.climb o.leftPriority (d.here.close d.right) d.above = some (left, above) ∧
      e = d.spliced o left above := by
  have pushed : d.addOperator o.symbol = .ok e := by
    have pushed := move.push_eq
    cases unopened : d.unopened? with
    | none => rwa [push_eq_accept (.inl unopened)] at pushed
    | some f =>
      rw [push, unopened] at pushed
      cases o <;> cases pushed
  obtain ⟨o', same, ⟨first, -⟩ | ⟨other, -⟩ | ⟨-, spliced⟩⟩ := addOperator_eq_ok_iff.1 pushed
  · simp [called] at first
  · simp [called] at other
  · obtain rfl := Operator.table.spelling_injective same
    exact splice_eq_ok_iff.1 spliced

/-- Whether every operator without a left operand has a leaf behind it, or another such operator,
can be told from the tokens. -/
theorem Moves.bare_iff (moves : Moves empty ts d) (plain : ∀ t ∈ ts, t.Plain) (viable : d.Viable) :
    d.tree.Obeys Law.bare ↔ Token.SignsHold ts := by
  constructor
  · intro h before sign leaf p o inside opens isOperator isLeaf
    obtain ⟨us, vs, rfl, last⟩ := Token.exists_split_of_infix inside
    obtain ⟨a, b, start, first, -, rest⟩ := exists_move_of_append moves viable
    obtain ⟨q, rfl⟩ := isOperator.exists_symbol
    have wanted : a.demand ≠ .none := by
      refine demand_ne_none_of_getLast? start (fun t member => plain t (by simp [member]))
        (first.viable (rest.viable viable)) fun s member => ?_
      rcases List.eq_nil_or_concat us with rfl | ⟨us, u, rfl⟩
      · cases member
      · rw [List.concat_eq_append, ← List.cons_append, List.getLast?_concat] at last
        rw [List.concat_eq_append, List.getLast?_concat] at member
        obtain rfl := Option.some.inj last
        obtain rfl := Option.some.inj member
        exact opens.symm
    obtain rfl := first.eq_descend wanted
    cases rest with | cons second rest =>
    obtain rfl := second.eq_descend nofun
    cases rest with | cons third rest =>
    obtain ⟨l, rfl⟩ := third.exists_attach (rest.viable viable) isLeaf rfl
    cases rest with | cons fourth rest =>
    obtain ⟨left, above, climbed, rfl⟩ := fourth.exists_spliced rfl
    -- the operator stops right below `p`, whose operand it then is
    refine Int.not_lt.1 fun loose => ?_
    rw [← Label.priority_operator] at loose
    cases (Frame.climb_of_lt loose _ _).symm.trans climbed
    have kept := rest.obeys_of_irreparable Law.irreparable_bare h
    rcases (Frame.obeys_plug.1 kept).2.1 rfl rfl _ rfl with leaf | ⟨-, none⟩
    · cases leaf
    · cases none
  · refine moves.extends (P := fun us d => (∀ t ∈ us, t.Plain) → Token.SignsHold us →
      d.tree.Obeys Law.bare) viable ?_ ?_ plain
    · exact fun _ _ => ⟨nofun, trivial, trivial⟩
    · intro us d t e moves move before after ih plain hold
      have plain' : ∀ t ∈ us, t.Plain := fun t member => plain t (by simp [member])
      have bare := ih plain' hold.of_append
      refine move.bare after bare fun o left f outer same called climbed operator none => ?_
      obtain ⟨stack, signed⟩ :=
        moves.isSignedLeaf_of_climb before bare called climbed operator none
      have loose : f.node.label.priority < o.leftPriority := by
        obtain ⟨-, f', _, -, -, loose, -, same⟩ := Frame.climb_eq_some_iff.1 climbed
        cases same
        exact loose
      obtain ⟨p, label⟩ : ∃ p : Operator, f.node.label = .operator p.symbol := by
        have proper := (Frame.obeys_plug.1 moves.proper).2
        rw [stack] at proper
        exact proper.1.1.exists_operator operator
      obtain ⟨opening, sign, leaf, opens, isOperator, isLeaf, front, read⟩ :=
        moves.exists_pattern plain' before stack label none signed
      have held := hold opening sign leaf p o ⟨front, [], ?_⟩ opens isOperator isLeaf
      · rw [label, Label.priority_operator] at loose
        omega
      · rw [← List.cons_append, ← read, same]
        simp

end Draft

end Formula
