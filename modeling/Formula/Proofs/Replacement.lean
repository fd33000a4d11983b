import Formula.Proofs.Draft.Mirror
import Formula.Proofs.Grammar.Acceptance
import Mathlib.Logic.Function.Basic

/-!
# A formula in place of a variable

A formula in parentheses can stand where a variable stands, unless that is the operand of an
operator in front of it. The parentheses keep what they hold together, so the value is that of the
surrounding formula with the variable bound to the value of the inner one.

## Main definitions

* `Token.EndsInPrefix` — whether what comes next is the operand of an operator in front of it.

`Draft.moves_group_of_build` says what the parentheses leave behind, and `Draft.build_replace` that
what follows does the same as behind the variable. The main result is `evaluate_replace`.
-/

namespace Formula

/-- Whether the tokens end in an operator that opens a group or stands behind another operator. The
whole text counts as a group. -/
def Token.EndsInPrefix (ts : List Token) : Prop :=
  ∃ b op : Token, [b, op] <:+ .opening :: ts ∧ op.IsOperator ∧ (b = .opening ∨ b.IsOperator)

namespace Draft

variable {d e : Draft} {t : Token} {ts us : List Token} {x : String}

/-! ## Where an operand is called for -/

/-- An operand is called for behind operators and opening parentheses only. -/
theorem Move.opens (move : Move d t e) (called : e.demand ≠ .none) (free : e.unopened? = none) :
    t = .opening ∨ t.IsOperator := by
  cases move with
  | @descend _ l operand called' free' =>
    have made := Token.tokens_of_operand? operand
    have inner : l.isLeaf = false := Bool.eq_false_iff.2 fun leaf =>
      called (demand_eq_none_iff.2 (.inr leaf))
    have group := Label.isGroup_of_inner inner (Token.proper_of_operand? operand).2
    cases l with
    | group => exact .inl (List.cons.inj made).1.symm
    | call f opened =>
      cases opened with
      | false => cases free
      | true => cases made
    | number s | var s | constant s | operator s => cases group
  | attach operand called' sign =>
    exact absurd (demand_eq_none_iff.2 (.inl Tree.noConfusion)) called
  | openCall label => exact .inl rfl
  | lead o called' free' => exact .inr (Token.isOperator_symbol o)
  | sign o called' isSign => exact .inr (Token.isOperator_symbol o)
  | splice o called' free' climbed => exact .inr (Token.isOperator_symbol o)
  | close free' found =>
    have filled := Frame.ne_nil_of_toGroup? Tree.noConfusion found
    exact absurd (demand_eq_none_iff.2 (.inl filled)) called

/-- The operand of an operator without a left one is called for behind the operator only, and that
stands where an operand was called for. -/
theorem Move.of_signed (move : Move d t e) {s : String} (h : e.demand = .signed s) :
    t.IsOperator ∧ d.demand ≠ .none ∧ d.unopened? = none := by
  obtain ⟨label, left, right⟩ := demand_eq_signed_iff.1 h
  cases move with
  | @descend _ l operand called free =>
    have label : l = .operator s := label
    subst label
    cases (Token.proper_of_operand? operand).2
  | attach operand called sign => cases right
  | openCall call => cases label
  | lead o called free => exact ⟨Token.isOperator_symbol o, by simp [called], free⟩
  | sign o called isSign =>
    exact ⟨Token.isOperator_symbol o, ne_none_of_operator called,
      unopened?_of_isOperator (isOperator_of_demand called)⟩
  | splice o called free climbed =>
    exact absurd left (Frame.ne_nil_of_climb Tree.noConfusion climbed)
  | close free found => exact absurd right (Frame.ne_nil_of_toGroup? Tree.noConfusion found)

theorem Moves.opens (moves : Moves empty us d) (called : d.demand ≠ .none)
    (free : d.unopened? = none) :
    ∃ b front, .opening :: us = front ++ [b] ∧ (b = .opening ∨ b.IsOperator) := by
  rcases List.eq_nil_or_concat us with rfl | ⟨before, t, rfl⟩
  · exact ⟨.opening, [], rfl, .inl rfl⟩
  · rw [List.concat_eq_append] at moves ⊢
    obtain ⟨e, -, last⟩ := moves_append_iff.1 moves
    cases last with
    | cons move rest =>
      cases rest
      exact ⟨t, .opening :: before, rfl, move.opens called free⟩

/-- Where the operand of an operator without a left one is called for, the tokens say so. -/
theorem Moves.endsInPrefix (moves : Moves empty us d) {s : String} (h : d.demand = .signed s) :
    Token.EndsInPrefix us := by
  rcases List.eq_nil_or_concat us with rfl | ⟨before, t, rfl⟩
  · cases moves
    cases h
  · rw [List.concat_eq_append] at moves ⊢
    obtain ⟨e, moves, last⟩ := moves_append_iff.1 moves
    cases last with
    | cons move rest =>
      cases rest
      obtain ⟨operator, called, free⟩ := move.of_signed h
      obtain ⟨b, front, same, position⟩ := moves.opens called free
      refine ⟨b, t, ⟨front, ?_⟩, operator, position⟩
      rw [← List.cons_append, same, List.append_assoc]
      rfl

/-- A variable that is not the operand of an operator in front of it stands where a group could. -/
theorem Move.eq_descend_var (move : Move d ⟨.name, x⟩ e) (plain : Token.Plain ⟨.name, x⟩)
    (isVar : Label.ofName x = .var x) (h : ∀ s, d.demand ≠ .signed s) :
    (d.demand = .first ∨ d.demand = .second) ∧ d.unopened? = none ∧ e = d.descend (.var x) := by
  generalize same : (⟨.name, x⟩ : Token) = t at move plain
  cases move with
  | descend operand called free =>
    have unopened := unopened?_of_plain plain operand free
    subst same
    obtain rfl := Option.some.inj ((congrArg some isVar).symm.trans operand)
    exact ⟨called, unopened, rfl⟩
  | attach operand called sign => exact absurd called (h _)
  | openCall label => cases same
  | lead o called free => cases same
  | sign o called isSign => cases same
  | splice o called free climbed => cases same
  | close free found => cases same

/-! ## A group in place of a variable -/

/-- What is built from tokens hangs, but for serial numbers, in the group that these tokens fill
when they stand in parentheses. -/
theorem moves_group_of_build {T : Tree} (plain : ∀ t ∈ ts, t.Plain) (built : build ts = .ok T)
    (called : d.demand = .first ∨ d.demand = .second) (free : d.unopened? = none) :
    ∃ here content size, Moves d (.opening :: ts ++ [.closing])
        ⟨d.here :: d.above, here, content, size⟩ ∧
      here.node.label = .group ∧ content ≠ .nil ∧ T.Mirrors .var (here.close content) := by
  obtain ⟨e, moves, finished⟩ := build_eq_ok_iff.1 built
  obtain ⟨content, rfl, found⟩ := eq_of_finish moves finished
  have start : empty.Mirrors .var (d.here :: d.above) (d.descend .group) := mirrors_empty _ _
  obtain ⟨e', moves', mirrors⟩ := moves.mirrors start fun _ _ _ _ => rfl
  obtain ⟨inner, frames, above⟩ := mirrors.above
  obtain ⟨rest', here', content', found', rest, here, hangs⟩ :=
    Frame.toGroup?_of_mirrors _ frames mirrors.hanging found
  cases rest
  rw [← above] at found'
  have opening : Move d .opening (d.descend .group) := .descend rfl called (.inl free)
  have closing := Move.close (mirrors.unopened.trans (unopened?_of_finish moves plain finished))
    found'
  exact ⟨here', content', e'.size, (Moves.cons opening moves').append (.single closing), here.label,
    Frame.ne_nil_of_toGroup? Tree.noConfusion found', here.close hangs⟩

/-- A draft mirrors itself as long as nothing is put in place of the variables in it. -/
theorem Moves.mirrors_self {σ : String → Core} (moves : Moves empty us d)
    (fixed : ∀ t ∈ us, ∀ y, t.operand? = some (.var y) → σ y = .var y) : d.Mirrors σ [] d := by
  have start : empty.Mirrors σ [] empty := mirrors_empty _ _
  obtain ⟨d', moves', mirrors⟩ := moves.mirrors start fixed
  obtain rfl : d' = d := Except.ok.inj
    ((foldlM_push_eq_ok_iff.2 moves').symm.trans (foldlM_push_eq_ok_iff.2 moves))
  exact mirrors

/-- A group that has been closed does what the variable does whose place it takes. -/
theorem Mirrors.descend_var {σ : String → Core} (h : d.Mirrors σ [] d) (called : d.demand ≠ .none)
    {here : Frame} {content : Tree} {size : Nat} (label : here.node.label = .group)
    (filled : content ≠ .nil) (complete : (here.close content).Complete)
    (core : (here.close content).core = σ x) :
    (d.descend (.var x)).Mirrors σ [] ⟨d.here :: d.above, here, content, size⟩ := by
  obtain ⟨inner, frames, above⟩ := h.above
  rw [List.append_nil] at above
  have settled : (d.descend (.var x)).demand = .none := demand_eq_none_iff.2 (.inr rfl)
  have around : List.Forall₂ (Frame.Mirrors σ) (d.here :: d.above) (d.here :: d.above) :=
    .cons (h.cursor (.inl called)).1 (above ▸ frames)
  refine ⟨⟨_, around, (List.append_nil _).symm⟩, ?_, ?_, ?_, ?_⟩
  · exact (demand_eq_none_iff.2 (.inl filled)).trans settled.symm
  · exact unopened?_eq_none_iff.2 fun f call => by cases label.symm.trans call
  · exact ⟨core, iff_of_false Tree.noConfusion Tree.noConfusion, fun _ => complete⟩
  · rintro (called | unopened)
    · exact absurd settled called
    · exact absurd rfl unopened

/-- What is built with the group differs from what is built with the variable in nothing but what
stands in place of the variable. -/
theorem build_replace (before after : List Token) {T U : Tree} (plain : ∀ t ∈ ts, t.Plain)
    (plain' : ∀ t ∈ before ++ ⟨.name, x⟩ :: after, t.Plain) (isVar : Label.ofName x = .var x)
    (once : ⟨.name, x⟩ ∉ before ++ after) (free : ¬ Token.EndsInPrefix before)
    (built : build ts = .ok T) (built' : build (before ++ ⟨.name, x⟩ :: after) = .ok U) :
    ∃ V, build (before ++ (.opening :: ts ++ [.closing]) ++ after) = .ok V ∧
      U.Mirrors (Function.update .var x T.core) V := by
  have fixed : ∀ us : List Token, ⟨.name, x⟩ ∉ us → ∀ t ∈ us, ∀ y,
      t.operand? = some (.var y) → Function.update Core.var x T.core y = .var y := by
    intro us absent t member y operand
    have made : [⟨.name, y⟩] = [t] := Token.tokens_of_operand? operand
    refine Function.update_of_ne ?_ _ _
    rintro rfl
    exact absent ((List.cons.inj made).1 ▸ member)
  obtain ⟨absent, absent'⟩ := not_or.1 (mt List.mem_append.2 once)
  obtain ⟨f, moves, finished⟩ := build_eq_ok_iff.1 built'
  obtain ⟨d, e, start, move, -, rest⟩ := exists_move_of_append moves (viable_of_finish finished)
  obtain ⟨called, unopened, rfl⟩ := move.eq_descend_var (plain' _ (by simp)) isVar
    fun s signed => free (start.endsInPrefix signed)
  obtain ⟨here, content, size, group, label, filled, hangs⟩ :=
    moves_group_of_build plain built called unopened
  obtain ⟨-, -, -, -, complete⟩ := exists_viable_of_build built
  have core : (here.close content).core = Function.update Core.var x T.core x := by
    rw [hangs.core, Core.subst_var, Function.update_self]
  have meet : (d.descend (.var x)).Mirrors (Function.update .var x T.core) []
      ⟨d.here :: d.above, here, content, size⟩ :=
    (start.mirrors_self (fixed before absent)).descend_var (ne_none_of_called called) label filled
      (hangs.complete complete) core
  obtain ⟨g, rest', mirrors⟩ := rest.mirrors meet (fixed after absent')
  obtain ⟨V, finished', same⟩ := mirrors.finish finished
  exact ⟨V, build_eq_ok_iff.2 ⟨g, (start.append group).append rest', finished'⟩, same⟩

end Draft

/-! ## Values -/

theorem Tree.Mirrors.evaluate_eq {x : String} {T U V : Tree} {b : Bindings} {v : Float}
    (h : U.Mirrors (Function.update .var x T.core) V) (inner : T.Complete)
    (filled : T.isNil = false) (outer : U.Complete) (value : T.value b = .ok v) :
    V.evaluate b = U.evaluate (Function.update b x (some v)) := by
  have values : V.core.value b = U.core.value (Function.update b x (some v)) := by
    rw [h.core]
    refine Core.value_subst (fun y _ => ?_) fun y _ => ?_
    · by_cases same : y = x
      · rw [same, Function.update_self, isNil_core inner, filled]
      · rw [Function.update_of_ne same]
        rfl
    · by_cases same : y = x
      · rw [same, Function.update_self, value_core inner, value, Core.value, Function.update_self]
      · rw [Function.update_of_ne same, Core.value, Core.value, Function.update_of_ne same]
  rw [evaluate, evaluate, ← value_core (h.complete outer), ← value_core outer, values]

/-- A formula in parentheses can stand for a variable that occurs once, and not as the operand of an
operator in front of it: the tokens are accepted, and the value, or what is missing, is the same as
with the variable bound to the value of the formula. -/
theorem evaluate_replace {ts : List Token} (before after : List Token) {x : String} {T U : Tree}
    (plain : ∀ t ∈ ts, t.Plain) (plain' : ∀ t ∈ before ++ ⟨.name, x⟩ :: after, t.Plain)
    (isVar : Label.ofName x = .var x) (once : ⟨.name, x⟩ ∉ before ++ after)
    (free : ¬ Token.EndsInPrefix before) (built : Draft.build ts = .ok T)
    (built' : Draft.build (before ++ ⟨.name, x⟩ :: after) = .ok U) :
    ∃ V, Draft.build (before ++ (.opening :: ts ++ [.closing]) ++ after) = .ok V ∧
      ∀ (b : Bindings) (v : Float), T.value b = .ok v →
        V.evaluate b = U.evaluate (Function.update b x (some v)) := by
  obtain ⟨V, accepted, same⟩ :=
    Draft.build_replace before after plain plain' isVar once free built built'
  obtain ⟨-, -, -, -, inner⟩ := Draft.exists_viable_of_build built
  obtain ⟨-, -, -, -, outer⟩ := Draft.exists_viable_of_build built'
  obtain ⟨content, rfl⟩ := Draft.exists_content_of_build built
  exact ⟨V, accepted, fun b v value => same.evaluate_eq inner rfl outer value⟩

/-- The group `(y+z)` stands for `x` in `2*x`, which is no operand of an operator in front of it. -/
theorem evaluate_replace_sum :
    ¬ Token.EndsInPrefix [⟨.number, "2"⟩, ⟨.operator, "*"⟩] ∧
      ∃ T U V, Draft.build [⟨.name, "y"⟩, ⟨.operator, "+"⟩, ⟨.name, "z"⟩] = .ok T ∧
        Draft.build [⟨.number, "2"⟩, ⟨.operator, "*"⟩, ⟨.name, "x"⟩] = .ok U ∧
        Draft.build [⟨.number, "2"⟩, ⟨.operator, "*"⟩, .opening, ⟨.name, "y"⟩, ⟨.operator, "+"⟩,
          ⟨.name, "z"⟩, .closing] = .ok V ∧
        ∀ (b : Bindings) (v w : Float), b "y" = some v → b "z" = some w →
          V.evaluate b = U.evaluate (Function.update b "x" (some (v + w))) := by
  have free : ¬ Token.EndsInPrefix [⟨.number, "2"⟩, ⟨.operator, "*"⟩] := by
    rintro ⟨b, op, ⟨front, same⟩, -, position⟩
    have last : front ++ [b, op] = [.opening] ++ [⟨.number, "2"⟩, ⟨.operator, "*"⟩] := same
    cases (List.append_inj' last rfl).2
    rcases position with opening | operator
    · cases opening
    · cases operator.1
  have sum : Draft.build [⟨.name, "y"⟩, ⟨.operator, "+"⟩, ⟨.name, "z"⟩] =
      .ok (.node .nil ⟨0, .group⟩ (.node (.leaf ⟨1, .var "y"⟩) ⟨2, .operator "+"⟩
        (.leaf ⟨3, .var "z"⟩))) := rfl
  have product : Draft.build [⟨.number, "2"⟩, ⟨.operator, "*"⟩, ⟨.name, "x"⟩] =
      .ok (.node .nil ⟨0, .group⟩ (.node (.leaf ⟨1, .number "2"⟩) ⟨2, .operator "*"⟩
        (.leaf ⟨3, .var "x"⟩))) := rfl
  obtain ⟨V, accepted, same⟩ := evaluate_replace [⟨.number, "2"⟩, ⟨.operator, "*"⟩] []
    (by decide) (by decide) rfl (by decide) free sum product
  refine ⟨free, _, _, V, sum, product, accepted, fun b v w left right => same b (v + w) ?_⟩
  simp only [Tree.value, Tree.leaf, left, right]
  rfl

end Formula
