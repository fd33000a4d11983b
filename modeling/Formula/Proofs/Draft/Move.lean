import Formula.Draft

/-!
# What a token can do to a draft

Seven ways in which a token can change a draft, each with the conditions under which it is open.
Together they are `Draft.push`, so that a property of drafts is settled by these seven cases.

## Main definitions

* `Token.operand?` — what the node for an operand, or for the start of one, is labelled with.
* `Draft.Move` — the seven ways.
* `Draft.Moves` — moves one after the other, for a list of tokens.

`Draft.push_eq_ok_iff` says that the moves are what `Draft.push` does, `Draft.finish_eq_ok_iff` that
a draft is finished in the same way as a closing parenthesis would close its outermost group, and
`Draft.build_eq_ok_iff` puts the two together.
-/

namespace Formula

/-- The label of the node that a token makes where an operand is called for. -/
def Token.operand? (t : Token) : Option Label :=
  match t.kind with
  | .number => some (.number t.text)
  | .name => some (.ofName t.text)
  | .parenthesis => if t.text = "(" then some .group else none
  | .operator => none

theorem Label.ofName_ne_group (name : String) : Label.ofName name ≠ .group := by
  rw [Label.ofName]
  split
  · exact Label.noConfusion
  · split <;> exact Label.noConfusion

theorem Label.isGroup_of_isOperator {l : Label} (h : l.isOperator = true) : l.isGroup = false := by
  cases l with
  | operator s => rfl
  | _ => cases h

theorem Label.isOperator_of_isGroup {l : Label} (h : l.isGroup = true) : l.isOperator = false := by
  cases l with
  | operator s => cases h
  | _ => rfl

theorem Label.isGroup_of_isLeaf {l : Label} (h : l.isLeaf = true) : l.isGroup = false := by
  cases l with
  | group | call f opened => cases h
  | _ => rfl

theorem Label.isLeaf_of_isOperator {l : Label} (h : l.isOperator = true) : l.isLeaf = false := by
  cases l with
  | operator s => rfl
  | _ => cases h

/-- What is neither a leaf nor an operator is a group. -/
theorem Label.isGroup_of_inner {l : Label} (leaf : l.isLeaf = false)
    (operator : l.isOperator = false) : l.isGroup = true := by
  cases l with
  | number s | var s | constant s => cases leaf
  | operator s => cases operator
  | group | call f opened => rfl

theorem Label.isOperator_of_isLeaf {l : Label} (h : l.isLeaf = true) : l.isOperator = false := by
  cases l with
  | operator s => cases h
  | _ => rfl

namespace Draft

/-! ## What the cursor calls for -/

theorem demand_eq_first_iff {d : Draft} :
    d.demand = .first ↔ d.here.isGroup = true ∧ d.right = .nil := by
  obtain ⟨above, ⟨left, serial, label⟩, right, size⟩ := d
  cases label <;> cases left <;> cases right <;> simp [demand, Frame.isGroup, Label.isGroup]

theorem demand_eq_signed_iff {d : Draft} {s : String} :
    d.demand = .signed s ↔
      d.here.node.label = .operator s ∧ d.here.left = .nil ∧ d.right = .nil := by
  obtain ⟨above, ⟨left, serial, label⟩, right, size⟩ := d
  cases label <;> cases left <;> cases right <;> simp [demand]

theorem demand_eq_second_iff {d : Draft} :
    d.demand = .second ↔
      d.here.node.label.isOperator = true ∧ d.here.left ≠ .nil ∧ d.right = .nil := by
  obtain ⟨above, ⟨left, serial, label⟩, right, size⟩ := d
  cases label <;> cases left <;> cases right <;> simp [demand, Label.isOperator]

theorem demand_eq_none_iff {d : Draft} :
    d.demand = .none ↔ d.right ≠ .nil ∨ d.here.node.label.isLeaf = true := by
  obtain ⟨above, ⟨left, serial, label⟩, right, size⟩ := d
  cases label <;> cases left <;> cases right <;> simp [demand, Label.isLeaf]

theorem right_of_demand {d : Draft} (h : d.demand ≠ .none) : d.right = .nil :=
  Classical.byContradiction fun filled => h (demand_eq_none_iff.2 (.inl filled))

theorem isOperator_of_demand {d : Draft} (h : d.demand = .second ∨ ∃ s, d.demand = .signed s) :
    d.here.node.label.isOperator = true := by
  rcases h with second | ⟨s, signed⟩
  · exact (demand_eq_second_iff.1 second).1
  · rw [(demand_eq_signed_iff.1 signed).1]
    rfl

theorem ne_none_of_called {d : Draft} (h : d.demand = .first ∨ d.demand = .second) :
    d.demand ≠ .none := by
  rcases h with first | second
  · simp [first]
  · simp [second]

/-- The cursor stands at a group where a first operand is called for. -/
theorem isOperator_of_first {d : Draft} (h : d.demand = .first) :
    d.here.node.label.isOperator = false :=
  Label.isOperator_of_isGroup (demand_eq_first_iff.1 h).1

/-- An operator that calls for any operand has a left one. -/
theorem left_ne_nil_of_called {d : Draft} (h : d.demand = .first ∨ d.demand = .second)
    (operator : d.here.node.label.isOperator = true) : d.here.left ≠ .nil := by
  rcases h with first | second
  · rw [isOperator_of_first first] at operator
    cases operator
  · exact (demand_eq_second_iff.1 second).2.1

theorem ne_none_of_operator {d : Draft} (h : d.demand = .second ∨ ∃ s, d.demand = .signed s) :
    d.demand ≠ .none := by
  rcases h with second | ⟨s, signed⟩
  · simp [second]
  · simp [signed]

/-! ## One token -/

/-- The draft in which the function at the cursor is opened. -/
def opened (d : Draft) (f : String) : Draft :=
  { d with here := { d.here with node.label := .call f true } }

/-- The draft in which an operator takes over `left`, with `above` left above it. -/
def spliced (d : Draft) (o : Operator) (left : Tree) (above : List Frame) : Draft :=
  ⟨above, ⟨left, ⟨d.size, .operator o.symbol⟩⟩, .nil, d.size + 1⟩

theorem demand_spliced {d : Draft} {o : Operator} {left : Tree} {above : List Frame}
    (h : left ≠ .nil) : (d.spliced o left above).demand = .second :=
  demand_eq_second_iff.2 ⟨rfl, h, rfl⟩

/-- How a token leads from one draft to the next. -/
inductive Move (d : Draft) : Token → Draft → Prop where
  /-- An operand, or the start of one, and the cursor moves there. The name of a function may be
  followed by a token spelled like a parenthesis that is none. -/
  | descend {t : Token} {l : Label} (operand : t.operand? = some l)
      (called : d.demand = .first ∨ d.demand = .second)
      (free : d.unopened? = none ∨ t.text = "(" ∧ l ≠ .group) : Move d t (d.descend l)
  /-- The operand of a sign, and the cursor stays at the sign. -/
  | attach {t : Token} {l : Label} {o : Operator} (operand : t.operand? = some l)
      (called : d.demand = .signed o.symbol) (sign : o.isSign = true) : Move d t (d.attach l)
  | openCall {f : String} (label : d.here.node.label = .call f false) :
      Move d .opening (d.opened f)
  /-- An operator in front of the first operand of a group. -/
  | lead (o : Operator) (called : d.demand = .first) (free : d.unopened? = none) :
      Move d ⟨.operator, o.symbol⟩ (d.descend (.operator o.symbol))
  /-- A sign behind an operator. -/
  | sign (o : Operator) (called : d.demand = .second ∨ ∃ s, d.demand = .signed s)
      (sign : o.isSign = true) :
      Move d ⟨.operator, o.symbol⟩ (d.descend (.operator o.symbol))
  | splice (o : Operator) {left : Tree} {above : List Frame} (called : d.demand = .none)
      (free : d.unopened? = none)
      (climbed : Frame.climb o.leftPriority (d.here.close d.right) d.above = some (left, above)) :
      Move d ⟨.operator, o.symbol⟩ (d.spliced o left above)
  | close {above : List Frame} {here : Frame} {right : Tree} (free : d.unopened? = none)
      (found : Frame.toGroup? (d.here.close d.right) d.above = some (above, here, right)) :
      Move d .closing ⟨above, here, right, d.size⟩

theorem isSign_iff {s : String} :
    (Operator.ofSymbol? s).any Operator.isSign = true ↔
      ∃ o : Operator, o.isSign = true ∧ o.symbol = s := by
  simp only [Option.any_eq_true, Operator.ofSymbol?_eq_some_iff]
  grind

theorem addOperand_eq_ok_iff {d e : Draft} {l : Label} {shown : String} :
    d.addOperand l shown = .ok e ↔
      ((d.demand = .first ∨ d.demand = .second) ∧ e = d.descend l) ∨
        ∃ o : Operator, d.demand = .signed o.symbol ∧ o.isSign = true ∧ e = d.attach l := by
  rw [addOperand]
  cases called : d.demand with
  | first | second => simp [@eq_comm _ e]
  | none => simp
  | signed s =>
    by_cases h : (Operator.ofSymbol? s).any Operator.isSign = true
    · obtain ⟨o, sign, rfl⟩ := isSign_iff.1 h
      simp only [h, if_true, Except.ok.injEq]
      constructor
      · rintro rfl
        exact .inr ⟨o, rfl, sign, rfl⟩
      · rintro (⟨h | h, -⟩ | ⟨_, -, -, rfl⟩)
        · cases h
        · cases h
        · rfl
    · simp only [h]
      constructor
      · intro h
        cases h
      · rintro (⟨h | h, -⟩ | ⟨o, same, sign, -⟩)
        · cases h
        · cases h
        · exact absurd (isSign_iff.2 ⟨o, sign, (Demand.signed.inj same).symm⟩) h

theorem splice_eq_ok_iff {d e : Draft} {o : Operator} :
    d.splice o = .ok e ↔ ∃ left above,
      Frame.climb o.leftPriority (d.here.close d.right) d.above = some (left, above) ∧
        e = d.spliced o left above := by
  rw [splice]
  cases Frame.climb o.leftPriority (d.here.close d.right) d.above with
  | none => simp
  | some climbed =>
    obtain ⟨left, above⟩ := climbed
    simp [spliced, and_assoc, @eq_comm _ e]

theorem addOperator_eq_ok_iff {d e : Draft} {s : String} :
    d.addOperator s = .ok e ↔ ∃ o : Operator, o.symbol = s ∧
      ((d.demand = .first ∧ e = d.descend (.operator s)) ∨
        ((d.demand = .second ∨ ∃ s', d.demand = .signed s') ∧ o.isSign = true ∧
          e = d.descend (.operator s)) ∨
        (d.demand = .none ∧ d.splice o = .ok e)) := by
  rw [addOperator]
  cases found : Operator.ofSymbol? s with
  | none =>
    have absent : ∀ o : Operator, o.symbol ≠ s := by
      intro o same
      rw [Operator.ofSymbol?_eq_some_iff.2 same] at found
      cases found
    simp [absent]
  | some o =>
    have unique : ∀ o' : Operator, o'.symbol = s ↔ o' = o := by
      intro o'
      rw [← Operator.ofSymbol?_eq_some_iff, found, Option.some.injEq, eq_comm]
    simp only [unique, exists_eq_left]
    cases d.demand with
    | first => simp [@eq_comm _ e]
    | none => simp
    | second | signed _ => cases o.isSign <;> simp [@eq_comm _ e]

theorem closeGroup_eq_ok_iff {d e : Draft} :
    d.closeGroup = .ok e ↔ ∃ above here right,
      Frame.toGroup? (d.here.close d.right) d.above = some (above, here, right) ∧
        e = ⟨above, here, right, d.size⟩ := by
  rw [closeGroup]
  cases Frame.toGroup? (d.here.close d.right) d.above with
  | none => simp
  | some found =>
    obtain ⟨above, here, right⟩ := found
    simp [and_assoc, @eq_comm _ e]

theorem unopened?_eq_some_iff {d : Draft} {f : String} :
    d.unopened? = some f ↔ d.here.node.label = .call f false := by
  rw [unopened?]
  split <;> simp_all

theorem unopened?_of_isOperator {d : Draft} (h : d.here.node.label.isOperator = true) :
    d.unopened? = none := by
  rw [unopened?]
  split
  · next call =>
    rw [call] at h
    cases h
  · rfl

theorem push_eq_accept {d : Draft} {t : Token} (h : d.unopened? = none ∨ t.text = "(") :
    d.push t = d.accept t := by
  rw [push]
  rcases h with h | h
  · rw [h]
  · cases d.unopened? <;> simp [h]

/-- A token that starts an operand is treated as one, whatever kind it is of. -/
theorem exists_accept_eq_addOperand {d : Draft} {t : Token} {l : Label} (h : t.operand? = some l)
    (free : l = .group → d.unopened? = none) :
    ∃ shown, d.accept t = d.addOperand l shown := by
  obtain ⟨kind, text⟩ := t
  cases kind with
  | number | name =>
    cases h
    exact ⟨text, rfl⟩
  | operator => cases h
  | parenthesis =>
    simp only [Token.operand?] at h
    split at h
    · next spelled =>
      cases h
      refine ⟨"(", ?_⟩
      rw [accept, if_pos spelled, openGroup, free rfl]
    · cases h

/-- Every move is made by pushing its token. -/
theorem Move.push_eq {d e : Draft} {t : Token} (move : Move d t e) : d.push t = .ok e := by
  cases move with
  | @descend _ l operand called free =>
    have plain : l = .group → d.unopened? = none := fun group =>
      free.resolve_right fun h => h.2 group
    obtain ⟨shown, same⟩ := exists_accept_eq_addOperand operand plain
    rw [push_eq_accept (free.imp_right And.left), same]
    exact addOperand_eq_ok_iff.2 (.inl ⟨called, rfl⟩)
  | @attach _ _ o operand called sign =>
    have free := unopened?_of_isOperator (isOperator_of_demand (.inr ⟨_, called⟩))
    obtain ⟨shown, same⟩ := exists_accept_eq_addOperand operand fun _ => free
    rw [push_eq_accept (.inl free), same]
    exact addOperand_eq_ok_iff.2 (.inr ⟨o, called, sign, rfl⟩)
  | openCall label =>
    rw [push_eq_accept (.inr rfl), accept, Token.opening, if_pos rfl, openGroup,
      unopened?_eq_some_iff.2 label]
    rfl
  | lead o called free =>
    rw [push_eq_accept (.inl free)]
    exact addOperator_eq_ok_iff.2 ⟨o, rfl, .inl ⟨called, rfl⟩⟩
  | sign o called sign =>
    rw [push_eq_accept (.inl (unopened?_of_isOperator (isOperator_of_demand called)))]
    exact addOperator_eq_ok_iff.2 ⟨o, rfl, .inr (.inl ⟨called, sign, rfl⟩)⟩
  | splice o called free climbed =>
    rw [push_eq_accept (.inl free)]
    have spliced := splice_eq_ok_iff.2 ⟨_, _, climbed, rfl⟩
    exact addOperator_eq_ok_iff.2 ⟨o, rfl, .inr (.inr ⟨called, spliced⟩)⟩
  | close free found =>
    rw [push_eq_accept (.inl free), accept, Token.closing, if_neg (by decide), if_pos rfl]
    exact closeGroup_eq_ok_iff.2 ⟨_, _, _, found, rfl⟩

theorem move_of_addOperand {d e : Draft} {t : Token} {l : Label} {shown : String}
    (operand : t.operand? = some l) (free : d.unopened? = none ∨ t.text = "(" ∧ l ≠ .group)
    (h : d.addOperand l shown = .ok e) : Move d t e := by
  rcases addOperand_eq_ok_iff.1 h with ⟨called, rfl⟩ | ⟨o, called, sign, rfl⟩
  · exact .descend operand called free
  · exact .attach operand called sign

theorem move_of_addOperator {d e : Draft} {s : String} (free : d.unopened? = none)
    (h : d.addOperator s = .ok e) : Move d ⟨.operator, s⟩ e := by
  obtain ⟨o, rfl, ⟨called, rfl⟩ | ⟨called, sign, rfl⟩ | ⟨called, spliced⟩⟩ :=
    addOperator_eq_ok_iff.1 h
  · exact .lead o called free
  · exact .sign o called sign
  · obtain ⟨left, above, climbed, rfl⟩ := splice_eq_ok_iff.1 spliced
    exact .splice o called free climbed

theorem move_of_openGroup {d e : Draft} (h : d.openGroup = .ok e) : Move d .opening e := by
  rw [openGroup] at h
  split at h
  · next f unopened =>
    cases h
    exact .openCall (unopened?_eq_some_iff.1 unopened)
  · next free => exact move_of_addOperand rfl (.inl free) h

/-- A token that is pushed makes one of the moves. -/
theorem move_of_push {d e : Draft} {t : Token} (h : d.push t = .ok e) : Move d t e := by
  have free : d.unopened? = none ∨ t.text = "(" := by
    rw [push] at h
    cases unopened : d.unopened? with
    | none => exact .inl rfl
    | some f =>
      rw [unopened] at h
      by_cases spelled : t.text = "("
      · exact .inr spelled
      · simp [spelled] at h
  rw [push_eq_accept free] at h
  obtain ⟨kind, text⟩ := t
  cases kind with
  | number =>
    exact move_of_addOperand rfl (free.imp_right fun spelled => ⟨spelled, Label.noConfusion⟩) h
  | name =>
    exact move_of_addOperand rfl
      (free.imp_right fun spelled => ⟨spelled, Label.ofName_ne_group text⟩) h
  | operator =>
    refine move_of_addOperator (free.resolve_right ?_) h
    -- an operator is never spelled like a parenthesis
    rintro spelled
    obtain ⟨o, symbol, -⟩ := addOperator_eq_ok_iff.1 h
    have symbol : o.symbol = "(" := symbol.trans spelled
    cases o <;> exact absurd symbol (by decide)
  | parenthesis =>
    simp only [accept] at h
    split at h
    · next spelled =>
      obtain rfl : text = "(" := spelled
      exact move_of_openGroup h
    · next other =>
      split at h
      · next spelled =>
        obtain rfl : text = ")" := spelled
        obtain ⟨above, here, right, found, rfl⟩ := closeGroup_eq_ok_iff.1 h
        exact .close (free.resolve_right other) found
      · cases h

/-- The moves are what pushing does. -/
theorem push_eq_ok_iff {d e : Draft} {t : Token} : d.push t = .ok e ↔ Move d t e :=
  ⟨move_of_push, Move.push_eq⟩

/-- A token that makes no move is refused. -/
theorem exists_push_eq_error {d : Draft} {t : Token} (stuck : ∀ e, ¬ Move d t e) :
    ∃ cause, d.push t = .error cause := by
  cases pushed : d.push t with
  | ok e => exact absurd (move_of_push pushed) (stuck e)
  | error cause => exact ⟨cause, rfl⟩

/-- Where nothing is called for, an operator takes over what is there or a parenthesis closes it. -/
theorem Move.of_demand_none {d e : Draft} {t : Token} (move : Move d t e)
    (called : d.demand = .none) (free : d.unopened? = none) :
    (∃ (o : Operator) (taken : Tree × List Frame), t = ⟨.operator, o.symbol⟩ ∧
        Frame.climb o.leftPriority (d.here.close d.right) d.above = some taken) ∨
      ∃ found : List Frame × Frame × Tree, t = .closing ∧
        Frame.toGroup? (d.here.close d.right) d.above = some found := by
  cases move with
  | descend operand called' free' => simp [called] at called'
  | attach operand called' sign => simp [called] at called'
  | openCall label => simp [unopened?_eq_some_iff.2 label] at free
  | lead o called' free' => simp [called] at called'
  | sign o called' sign => simp [called] at called'
  | splice o called' free' climbed => exact .inl ⟨o, _, rfl, climbed⟩
  | close free' found => exact .inr ⟨_, rfl, found⟩

/-! ## Lists of tokens -/

/-- The moves that a list of tokens makes, one after the other. -/
inductive Moves : Draft → List Token → Draft → Prop where
  | nil (d : Draft) : Moves d [] d
  | cons {d e f : Draft} {t : Token} {ts : List Token} (move : Move d t e) (rest : Moves e ts f) :
      Moves d (t :: ts) f

theorem foldlM_push_eq_ok_iff {d f : Draft} {ts : List Token} :
    ts.foldlM push d = .ok f ↔ Moves d ts f := by
  constructor
  · intro h
    induction ts generalizing d with
    | nil =>
      cases h
      exact .nil _
    | cons t ts ih =>
      rw [List.foldlM_cons] at h
      cases pushed : d.push t with
      | error cause =>
        rw [pushed] at h
        cases h
      | ok e =>
        rw [pushed] at h
        exact .cons (push_eq_ok_iff.1 pushed) (ih h)
  · intro h
    induction h with
    | nil d => rfl
    | cons move rest ih =>
      rw [List.foldlM_cons, move.push_eq]
      exact ih

theorem Moves.append {d e f : Draft} {us vs : List Token} (h : Moves d us e) (h' : Moves e vs f) :
    Moves d (us ++ vs) f := by
  induction h with
  | nil d => exact h'
  | cons move rest ih => exact .cons move (ih h')

theorem moves_append_iff {d f : Draft} {us vs : List Token} :
    Moves d (us ++ vs) f ↔ ∃ e, Moves d us e ∧ Moves e vs f := by
  constructor
  · intro h
    induction us generalizing d with
    | nil => exact ⟨d, .nil d, h⟩
    | cons t us ih =>
      cases h with
      | cons move rest =>
        obtain ⟨e, before, after⟩ := ih rest
        exact ⟨e, .cons move before, after⟩
  · rintro ⟨e, before, after⟩
    exact before.append after

theorem Moves.single {d e : Draft} {t : Token} (move : Move d t e) : Moves d [t] e :=
  .cons move (.nil e)

/-- What every move preserves holds after any number of them. -/
theorem Moves.preserves {P : Draft → Prop} {d e : Draft} {ts : List Token} (h : Moves d ts e)
    (start : P d) (step : ∀ {d t e}, Move d t e → P d → P e) : P e := by
  induction h with
  | nil d => exact start
  | cons move _ ih => exact ih (step move start)

/-! ## Finishing -/

theorem exists_toGroup?_iff_dropWhile {t : Tree} {above : List Frame} {g : Frame} :
    (∃ right, Frame.toGroup? t above = some ([], g, right)) ↔
      above.dropWhile (fun f => !f.isGroup) = [g] := by
  induction above generalizing t with
  | nil => simp [Frame.toGroup?]
  | cons f above ih =>
    rw [Frame.toGroup?, List.dropWhile_cons]
    cases group : f.isGroup with
    | true => simp [and_comm]
    | false => simpa [group] using ih

/-- A draft is finished if a closing parenthesis would close its outermost group, the only one
open, and the tree that this leaves lacks nothing. -/
theorem finish_eq_ok_iff {d : Draft} {T : Tree} :
    d.finish = .ok T ↔ T.Complete ∧ ∃ g right,
      Frame.toGroup? (d.here.close d.right) d.above = some ([], g, right) ∧ T = g.close right := by
  have whole : ∀ g right,
      Frame.toGroup? (d.here.close d.right) d.above = some ([], g, right) →
        d.tree = g.close right :=
    fun g right found => (Frame.plug_of_toGroup? found).symm
  have outermost := fun g => @exists_toGroup?_iff_dropWhile (d.here.close d.right) d.above g
  constructor
  · intro h
    rw [finish] at h
    split at h
    · cases h
    · split at h
      · next g only =>
        obtain ⟨right, found⟩ := (outermost g).2 only
        cases lacking : d.tree.defect? with
        | some e =>
          rw [lacking] at h
          cases h
        | none =>
          rw [lacking] at h
          cases h
          exact ⟨(Tree.defect?_eq_none_iff _).1 lacking, g, right, found, whole g right found⟩
      · cases h
  · rintro ⟨complete, g, right, found, rfl⟩
    have inside : d.above.isEmpty = false := by
      cases stack : d.above with
      | nil =>
        rw [stack] at found
        cases found
      | cons => rfl
    rw [finish, inside, (outermost g).1 ⟨right, found⟩, whole g right found,
      (Tree.defect?_eq_none_iff _).2 complete]
    rfl

theorem build_eq_ok_iff {ts : List Token} {T : Tree} :
    build ts = .ok T ↔ ∃ d, Moves empty ts d ∧ d.finish = .ok T := by
  rw [build]
  constructor
  · intro h
    cases read : ts.foldlM push empty with
    | error cause =>
      rw [read] at h
      cases h
    | ok d =>
      rw [read] at h
      exact ⟨d, foldlM_push_eq_ok_iff.1 read, h⟩
  · rintro ⟨d, moves, finished⟩
    rw [foldlM_push_eq_ok_iff.2 moves]
    exact finished

end Draft

end Formula
