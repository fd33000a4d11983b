import Formula.Proofs.Draft.Depth
import Formula.Proofs.Grammar.Acceptance

/-!
# Functions and their parentheses

The name of a function has to be followed by a token spelled like an opening parenthesis. A name or
a number may be spelled so as well. Such a token in disguise is an operand, and the function takes
it in without being opened. It stays so if the parenthesis that closes it is the last token; only an
opening parenthesis can follow there, which then opens the function behind what it holds.

## Main definitions

* `Tree.functions` — the names of the functions of a tree, in order.
* `Tree.Opened` — every function of a tree has been opened.
* `Draft.OpenedBehind` — every function of a draft has been opened, except for some that the cursor
  is inside of.

The main result is `functions_opened_iff`.
-/

namespace Formula

instance : DecidablePred Token.IsFunction := fun t =>
  inferInstanceAs (Decidable (t.kind = .name ∧ (UnaryFunction.ofName? t.text).isSome = true))

def Label.function? : Label → Option String
  | .call f _ => some f
  | _ => none

/-! ## Functions of a tree -/

namespace Tree

/-- The names of the functions from left to right, opened or not. -/
def functions (t : Tree) : List String :=
  t.inorder.filterMap fun n => n.label.function?

/-- Whether the opening parenthesis of every function has been read. -/
def Opened (t : Tree) : Prop :=
  ∀ n ∈ t.inorder, ∀ f, n.label ≠ .call f false

theorem opened_nil : Opened .nil := by
  simp [Opened]

theorem opened_node {left right : Tree} {n : Node} : Opened (.node left n right) ↔
    left.Opened ∧ (∀ f, n.label ≠ .call f false) ∧ right.Opened := by
  simp only [Opened, inorder_node, List.mem_append, List.mem_cons]
  grind

theorem opened_plug {t : Tree} {above : List Frame} : (Frame.plug t above).Opened ↔
    t.Opened ∧ ∀ g ∈ above, g.left.Opened ∧ ∀ f, g.node.label ≠ .call f false := by
  induction above generalizing t with
  | nil => simp [Frame.plug]
  | cons g above ih =>
    rw [Frame.plug, ih, Frame.close, opened_node]
    grind

end Tree

/-- The node of a token is that of a function exactly if the token is its name. -/
theorem Token.function?_of_operand? {t : Token} {l : Label} (h : t.operand? = some l) :
    l.function? = if t.IsFunction then some t.text else none := by
  by_cases function : t.IsFunction
  · obtain rfl := Option.some.inj (h.symm.trans (Token.isFunction_iff.1 function))
    simp [function, Label.function?]
  · rw [if_neg function]
    cases l with
    | call f opened =>
      obtain ⟨kind, text⟩ := t
      cases kind with
      | name =>
        have made : Label.ofName text = .call f opened := Option.some.inj h
        have leaf : (Label.ofName text).isLeaf = true :=
          Label.isLeaf_ofName.2 (Bool.eq_false_iff.2 fun known => function ⟨rfl, known⟩)
        rw [made] at leaf
        cases leaf
      | number | operator => cases h
      | parenthesis =>
        simp only [Token.operand?] at h
        split at h <;> cases h
    | _ => rfl

namespace Draft

variable {d e : Draft} {t : Token} {ts us : List Token} {T : Tree}

/-! ## The names of functions -/

theorem functions_of_inorder {l : Label} (h : e.tree.inorder = d.tree.inorder ++ [⟨d.size, l⟩]) :
    e.tree.functions = d.tree.functions ++ l.function?.toList := by
  rw [Tree.functions, h, List.filterMap_append]
  cases found : l.function? <;> simp [Tree.functions, found]

/-- A move adds the name of a function exactly if its token is one. -/
theorem Move.functions (move : Move d t e) : e.tree.functions =
    d.tree.functions ++ ([t].filter fun t => t.IsFunction).map Token.text := by
  have operand : ∀ l, t.operand? = some l → l.function?.toList =
      ([t].filter fun t => t.IsFunction).map Token.text := by
    intro l made
    by_cases function : t.IsFunction <;>
      simp [Token.function?_of_operand? made, function]
  have other : t.kind ≠ .name → ([t].filter fun t => t.IsFunction).map Token.text = [] := by
    intro kind
    simp [Token.IsFunction, kind]
  cases move with
  | descend made called free =>
    have empty := right_of_demand (ne_none_of_called called)
    rw [functions_of_inorder (inorder_tree_descend d _ empty), operand _ made]
  | attach made called sign =>
    have empty : d.right = .nil := right_of_demand (by simp [called])
    rw [functions_of_inorder (inorder_tree_attach d _ empty), operand _ made]
  | openCall label =>
    rw [other (by decide), List.append_nil]
    simp [Tree.functions, inorder_tree, opened, label, Label.function?]
  | lead o called free =>
    rw [functions_of_inorder (inorder_tree_descend d _ (right_of_demand (by simp [called]))),
      other (by simp)]
    rfl
  | sign o called sign =>
    have empty := right_of_demand (ne_none_of_operator called)
    rw [functions_of_inorder (inorder_tree_descend d _ empty), other (by simp)]
    rfl
  | splice o called free climbed =>
    have spliced := inorder_tree_splice (splice_eq_ok_iff.2 ⟨_, _, climbed, rfl⟩)
    rw [functions_of_inorder spliced, other (by simp)]
    rfl
  | close free found => rw [other (by decide), List.append_nil, tree_of_toGroup? found]

/-- The names of functions stand in the same order in a draft and in its tokens. -/
theorem Moves.functions (moves : Moves d ts e) : e.tree.functions =
    d.tree.functions ++ (ts.filter fun t => t.IsFunction).map Token.text := by
  induction moves with
  | nil d => simp
  | @cons d e f t ts move _ ih =>
    rw [← List.singleton_append (l := ts), List.filter_append, List.map_append, ih, move.functions,
      List.append_assoc]

/-! ## Functions that are not opened -/

/-- The functions that have not been opened are among the nodes that the cursor is inside of. -/
structure OpenedBehind (d : Draft) : Prop where
  left : ∀ g ∈ d.here :: d.above, g.left.Opened
  right : d.right.Opened

theorem openedBehind_empty : empty.OpenedBehind :=
  ⟨by simp [empty, Tree.opened_nil], Tree.opened_nil⟩

/-- What is closed has been opened before, at the cursor and above it. -/
theorem OpenedBehind.opened_plug (h : d.OpenedBehind) (free : d.unopened? = none)
    {closed outer : List Frame} (stack : d.above = closed ++ outer)
    (inner : ∀ g ∈ closed, g.isGroup = false) :
    (Frame.plug (d.here.close d.right) closed).Opened := by
  obtain ⟨here, above⟩ := List.forall_mem_cons.1 h.left
  refine Tree.opened_plug.2 ⟨Tree.opened_node.2 ⟨here, unopened?_eq_none_iff.1 free, h.right⟩, ?_⟩
  intro g member
  refine ⟨above g (stack ▸ List.mem_append_left outer member), fun f call => ?_⟩
  have group := inner g member
  rw [Frame.isGroup, call] at group
  cases group

theorem Move.openedBehind (move : Move d t e) (viable : e.Viable) (h : d.OpenedBehind) :
    e.OpenedBehind := by
  have growing : ∀ l, (d.descend l).OpenedBehind := fun l =>
    ⟨List.forall_mem_cons.2 ⟨Tree.opened_nil, h.left⟩, Tree.opened_nil⟩
  cases move with
  | descend operand called free => exact growing _
  | @attach _ l o operand called sign =>
    refine ⟨h.left, Tree.opened_node.2 ⟨Tree.opened_nil, fun f call => ?_, Tree.opened_nil⟩⟩
    have leaf := isLeaf_of_attach viable
    obtain rfl : l = .call f false := call
    cases leaf
  | openCall label => exact ⟨List.forall_mem_cons.2 (List.forall_mem_cons.1 h.left), h.right⟩
  | lead o called free => exact growing _
  | sign o called sign => exact growing _
  | splice o called free climbed =>
    obtain ⟨closed, f, outer, stack, tight, -, rfl, rfl⟩ := Frame.climb_eq_some_iff.1 climbed
    have taken := h.opened_plug free stack fun g member =>
      Label.isGroup_of_isOperator (Frame.isOperator_of_le_priority (tight g member))
    have above := (List.forall_mem_cons.1 h.left).2
    rw [stack] at above
    exact ⟨List.forall_mem_cons.2 ⟨taken, (List.forall_mem_append.1 above).2⟩, Tree.opened_nil⟩
  | close free found =>
    obtain ⟨closed, stack, inner, -, rfl⟩ := Frame.toGroup?_eq_some_iff.1 found
    have above := (List.forall_mem_cons.1 h.left).2
    rw [stack] at above
    exact ⟨(List.forall_mem_append.1 above).2, h.opened_plug free stack inner⟩

theorem Moves.openedBehind (moves : Moves empty ts d) (viable : d.Viable) : d.OpenedBehind :=
  moves.maintains viable openedBehind_empty Move.openedBehind

/-- A finished draft can have only one function that has not been opened, the one at the cursor. -/
theorem opened_iff_of_finish (moves : Moves empty ts d) (h : d.finish = .ok T) :
    T.Opened ↔ d.unopened? = none := by
  have behind := moves.openedBehind (viable_of_finish h)
  obtain ⟨content, rfl, found⟩ := eq_of_finish moves h
  obtain ⟨closed, stack, inner, -, rfl⟩ := Frame.toGroup?_eq_some_iff.1 found
  constructor
  · intro opened
    have content := (Tree.opened_node.1 opened).2.2
    exact unopened?_eq_none_iff.2 (Tree.opened_node.1 (Tree.opened_plug.1 content).1).2.1
  · intro free
    exact Tree.opened_node.2 ⟨Tree.opened_nil, nofun, behind.opened_plug free stack inner⟩

/-! ## Parentheses that are still taken -/

theorem not_move_opening (called : d.demand = .none) (free : d.unopened? = none) :
    ¬ Move d .opening e := by
  intro move
  rcases move.of_demand_none called free with ⟨o, taken, same, -⟩ | ⟨place, same, -⟩
  · cases same
  · exact absurd same (by decide)

/-- A finished draft stays finished when the function at the cursor is opened behind its content. -/
theorem exists_finish_opened {f : String} (label : d.here.node.label = .call f false)
    (h : d.finish = .ok T) : ∃ U, (d.opened f).finish = .ok U := by
  obtain ⟨complete, g, right, found, rfl⟩ := finish_eq_ok_iff.1 h
  obtain ⟨right', found'⟩ := (exists_toGroup?_iff_dropWhile
    (t := (d.opened f).here.close d.right)).2 (exists_toGroup?_iff_dropWhile.1 ⟨right, found⟩)
  refine ⟨_, finish_eq_ok_iff.2 ⟨?_, g, right', found', rfl⟩⟩
  have whole : g.close right = _ := Frame.plug_of_toGroup? found
  have whole' : g.close right' = _ := Frame.plug_of_toGroup? found'
  rw [whole, Frame.complete_plug_iff Tree.noConfusion, Frame.complete_close_iff, label] at complete
  rw [whole', Frame.complete_plug_iff Tree.noConfusion]
  exact complete

/-- One more opening parenthesis is taken exactly where a function has not been opened. -/
theorem exists_build_opening_iff (moves : Moves empty ts d) (h : d.finish = .ok T) :
    (∃ U, build (ts ++ [.opening]) = .ok U) ↔ d.unopened? ≠ none := by
  have called := demand_of_finish h
  constructor
  · rintro ⟨U, built⟩ free
    obtain ⟨e, moves', -⟩ := build_eq_ok_iff.1 built
    obtain ⟨d', before, last⟩ := moves_append_iff.1 moves'
    obtain rfl : d = d' := Except.ok.inj
      ((foldlM_push_eq_ok_iff.2 moves).symm.trans (foldlM_push_eq_ok_iff.2 before))
    cases last with
    | cons move _ => exact not_move_opening called free move
  · intro waiting
    obtain ⟨f, unopened⟩ := Option.ne_none_iff_exists'.1 waiting
    have label := unopened?_eq_some_iff.1 unopened
    obtain ⟨U, finished⟩ := exists_finish_opened label h
    exact ⟨U, build_eq_ok_iff.2 ⟨_, moves.append (.single (.openCall label)), finished⟩⟩

/-! ## What follows the name of a function -/

/-- The name of a function is followed by its opening parenthesis or by a token in disguise. -/
theorem Moves.exists_head?_of_isFunction {f : Token} {vs : List Token}
    (moves : Moves empty (us ++ f :: vs) d) (h : d.finish = .ok T) (function : f.IsFunction) :
    ∃ u ∈ vs.head?, u = .opening ∨ ¬ u.Plain := by
  have viable := viable_of_finish h
  obtain ⟨a, b, -, move, viable', after⟩ := exists_move_of_append moves viable
  obtain ⟨label, first⟩ := move.label_of_isFunction function viable'
  cases after with
  | nil =>
    rw [demand_of_finish h] at first
    cases first
  | @cons _ _ _ u vs next _ =>
    refine ⟨u, rfl, ?_⟩
    by_cases plain : u.Plain
    · exact .inl (next.eq_opening plain label)
    · exact .inr plain

/-- A function comes to stand unopened at the cursor with its name. -/
theorem Move.isFunction_of_unopened {f : String} (move : Move d t e) (h : d.CallsOpened)
    (label : e.here.node.label = .call f false) : t.IsFunction := by
  cases move with
  | @descend _ l operand called free =>
    have made := Token.function?_of_operand? operand
    obtain rfl : l = .call f false := label
    by_contra other
    simp [Label.function?, other] at made
  | attach operand called sign =>
    have operator := (demand_eq_signed_iff.1 called).1
    cases operator.symm.trans label
  | openCall label' => cases label
  | lead o called free => cases label
  | sign o called sign => cases label
  | splice o called free climbed => cases label
  | close free found =>
    obtain ⟨closed, stack, -⟩ := Frame.toGroup?_eq_some_iff.1 found
    exact absurd label (h.above _ (by simp [stack]) f)

/-- Where no name of a function is followed by a token in disguise, no function is filled without
being opened. -/
theorem Moves.callsOpened_of_plain (moves : Moves empty ts d) (viable : d.Viable)
    (plain : ∀ us f u vs, ts = us ++ f :: u :: vs → f.IsFunction → u.Plain) : d.CallsOpened := by
  have kept := moves.keeps viable
    (fun us d => (∀ vs f u ws, us = vs ++ f :: u :: ws → f.IsFunction → u.Plain) →
      d.CallsOpened ∧ ∀ f, d.here.node.label = .call f false → ∃ t ∈ us.getLast?, t.IsFunction)
    [] (fun _ => ⟨callsOpened_empty, nofun⟩) ?_
  · exact (kept plain).1
  · intro us d t e move _ _ ih plain
    obtain ⟨calls, last⟩ := ih fun vs f u ws same => plain vs f u (ws ++ [t]) (by simp [same])
    refine ⟨move.callsOpened_of_or ?_ calls, fun f label =>
      ⟨t, by simp, move.isFunction_of_unopened calls label⟩⟩
    by_cases free : d.unopened? = none
    · exact .inl free
    · obtain ⟨f, unopened⟩ := Option.ne_none_iff_exists'.1 free
      obtain ⟨name, member, function⟩ := last f (unopened?_eq_some_iff.1 unopened)
      obtain ⟨before, rfl⟩ := List.getLast?_eq_some_iff.1 member
      exact .inr (plain before name t [] (by simp) function)

end Draft

/-! ## Functions of finished trees -/

/-- The functions of a tree that is built are those whose names are among the tokens, and each name
is followed by an opening parenthesis or by a token in disguise. That is a parenthesis each time,
and all functions are opened, exactly if no name is followed by a token in disguise. There is a
function that has not been opened exactly if one more opening parenthesis would be taken. -/
theorem functions_opened_iff {ts : List Token} {T : Tree} (h : Draft.build ts = .ok T) :
    T.functions = (ts.filter fun t => t.IsFunction).map Token.text ∧
      (∀ us f vs, ts = us ++ f :: vs → f.IsFunction → ∃ u ∈ vs.head?, u = .opening ∨ ¬ u.Plain) ∧
      ((T.Opened ∧ ∀ us f vs, ts = us ++ f :: vs → f.IsFunction → vs.head? = some .opening) ↔
        ∀ us f u vs, ts = us ++ f :: u :: vs → f.IsFunction → u.Plain) ∧
      (¬ T.Opened ↔ ∃ U, Draft.build (ts ++ [.opening]) = .ok U) := by
  obtain ⟨d, moves, finished⟩ := Draft.build_eq_ok_iff.1 h
  have opened := Draft.opened_iff_of_finish moves finished
  have followed : ∀ us f vs, ts = us ++ f :: vs → f.IsFunction →
      ∃ u ∈ vs.head?, u = .opening ∨ ¬ u.Plain := by
    rintro us f vs rfl function
    exact moves.exists_head?_of_isFunction finished function
  refine ⟨?names, followed, ⟨?plain, ?called⟩, ?more⟩
  case names =>
    obtain ⟨-, g, right, found, rfl⟩ := Draft.finish_eq_ok_iff.1 finished
    have whole : d.tree = g.close right := (Frame.plug_of_toGroup? found).symm
    rw [← whole, moves.functions]
    rfl
  case plain =>
    rintro ⟨-, called⟩ us f u vs same function
    obtain rfl : u = .opening := Option.some.inj (called us f (u :: vs) same function)
    decide
  case called =>
    intro plain
    have calls := moves.callsOpened_of_plain (Draft.viable_of_finish finished) plain
    refine ⟨opened.2 (calls.unopened?_of_finish finished), fun us f vs same function => ?_⟩
    obtain ⟨u, member, rfl | disguised⟩ := followed us f vs same function
    · exact member
    · obtain ⟨ws, rfl⟩ := List.head?_eq_some_iff.1 member
      exact absurd (plain us f u ws same function) disguised
  case more => rw [Draft.exists_build_opening_iff moves finished, opened]

/-- The function of `sin(x)` is opened, and no other parenthesis is taken behind it. -/
theorem functions_opened_iff_sine :
    ∃ T, Draft.build [⟨.name, "sin"⟩, .opening, ⟨.name, "x"⟩, .closing] = .ok T ∧
      T.functions = ["sin"] ∧ T.Opened ∧
      ¬ ∃ U, Draft.build [⟨.name, "sin"⟩, .opening, ⟨.name, "x"⟩, .closing, .opening] = .ok U := by
  have built : Draft.build [⟨.name, "sin"⟩, .opening, ⟨.name, "x"⟩, .closing] =
      .ok (.node .nil ⟨0, .group⟩ (.node .nil ⟨1, .call "sin" true⟩ (.leaf ⟨2, .var "x"⟩))) := rfl
  obtain ⟨names, -, called, more⟩ := functions_opened_iff built
  have plain : ∀ t ∈ [⟨.name, "sin"⟩, .opening, ⟨.name, "x"⟩, .closing], Token.Plain t := by decide
  obtain ⟨opened, -⟩ := called.2 fun us f u vs same _ => plain u (by simp [same])
  exact ⟨_, built, names, opened, fun taken => more.2 taken opened⟩

/-- In `sin` with a name spelled `(` and a closing parenthesis behind it the function holds that
name and has not been opened. An opening parenthesis behind all of this opens it. -/
theorem disguise_fills_function :
    (∃ T, Draft.build [⟨.name, "sin"⟩, ⟨.name, "("⟩, .closing] = .ok T ∧
      ⟨1, .call "sin" false⟩ ∈ T.inorder ∧ ¬ T.Opened) ∧
    ∃ T, Draft.build [⟨.name, "sin"⟩, ⟨.name, "("⟩, .closing, .opening] = .ok T ∧
      ⟨1, .call "sin" true⟩ ∈ T.inorder := by
  have inside : ⟨1, .call "sin" false⟩ ∈ Tree.inorder (.node .nil ⟨0, .group⟩
      (.node .nil ⟨1, .call "sin" false⟩ (.leaf ⟨2, .var "("⟩))) := by decide
  exact ⟨⟨_, rfl, inside, fun opened => opened _ inside "sin" rfl⟩, _, rfl, by decide⟩

end Formula
