import Formula.Proofs.Grammar.Completeness
import Formula.Proofs.Grammar.Soundness

/-!
# What is accepted

A list of plain tokens is built exactly if it is a formula, and what is built is tidy: parentheses
match and hold something, functions are called, and operators have an operand.

## Main definitions

* `Grammar.level` — how many parentheses are open after a list of tokens.
* `Grammar.Tidy` — nothing is missing between any two neighbouring tokens.

The main result is `exists_build_iff_isFormula`.
-/

namespace Formula

namespace Grammar

/-- The number of open parentheses after a list of tokens, `n` of them open before it. There is
none if one is closed that has not been opened. -/
def level : Nat → List Token → Option Nat
  | n, [] => some n
  | n, t :: ts =>
    if t = .opening then level (n + 1) ts
    else if t = .closing then if n = 0 then none else level (n - 1) ts
    else level n ts

/-- What no formula contains, wherever it occurs. -/
structure Tidy (ts : List Token) : Prop where
  nonempty : ts ≠ []
  /-- No group is empty. -/
  groups : ∀ us vs, ts ≠ us ++ .opening :: .closing :: vs
  /-- The name of a function is followed by an opening parenthesis. -/
  calls : ∀ us f vs, ts = us ++ f :: vs → f.IsFunction → vs.head? = some .opening
  /-- What stands behind an operator in front of its operand is neither a group nor a call. -/
  prefixes : ∀ us t u vs, ts = us ++ t :: u :: vs → t.IsOperator →
    (∀ s ∈ us.getLast?, s.IsOperator ∨ s = .opening) → u ≠ .opening ∧ ¬ u.IsFunction
  /-- Something stands behind every operator, and in the same group. -/
  operators : ∀ us t vs, ts = us ++ t :: vs → t.IsOperator → ∃ u ∈ vs.head?, u ≠ .closing
  /-- Every parenthesis has its partner. -/
  balanced : level 0 ts = some 0

/-! ## Parentheses -/

/-- Whether tokens leave every count of open parentheses as it is. -/
def Neutral (us : List Token) : Prop :=
  ∀ n ts, level n (us ++ ts) = level n ts

theorem Neutral.append {us vs : List Token} (h : Neutral us) (h' : Neutral vs) :
    Neutral (us ++ vs) := by
  intro n ts
  rw [List.append_assoc, h, h']

theorem neutral_single {t : Token} (h : t.kind ≠ .parenthesis) : Neutral [t] := by
  intro n ts
  have opening : t ≠ .opening := fun same => h (congrArg Token.kind same)
  have closing : t ≠ .closing := fun same => h (congrArg Token.kind same)
  simp [level, opening, closing]

theorem Neutral.group {us : List Token} (h : Neutral us) :
    Neutral (.opening :: us ++ [.closing]) := by
  intro n ts
  have different : Token.closing ≠ .opening := by decide
  rw [List.cons_append, List.cons_append, level, if_pos rfl, List.append_assoc, h]
  simp [level, different]

theorem neutral_of_isOperator {t : Token} (h : t.IsOperator) : Neutral [t] :=
  neutral_single fun kind => by simp [h.1] at kind

theorem neutral_of_isLeaf {t : Token} (h : t.IsLeaf) : Neutral [t] := by
  refine neutral_single fun kind => ?_
  rcases h with number | ⟨name, -⟩
  · simp [number] at kind
  · simp [name] at kind

theorem neutral_of_isFunction {t : Token} (h : t.IsFunction) : Neutral [t] :=
  neutral_single fun kind => by simp [h.1] at kind

theorem SignedLeaf.neutral {us : List Token} (h : SignedLeaf us) : Neutral us := by
  induction h with
  | one isSign leaf =>
    exact (neutral_of_isOperator isSign.isOperator).append (neutral_of_isLeaf leaf)
  | more isSign _ ih => exact (neutral_of_isOperator isSign.isOperator).append ih

mutual

theorem IsFormula.neutral {us : List Token} (h : IsFormula us) : Neutral us := by
  match h with
  | .operand operand => exact operand.neutral
  | .prefixed operator signed => exact (neutral_of_isOperator operator).append signed.neutral
  | .extend before operator operand =>
    exact before.neutral.append ((neutral_of_isOperator operator).append operand.neutral)

theorem IsOperand.neutral {us : List Token} (h : IsOperand us) : Neutral us := by
  match h with
  | .leaf leaf => exact neutral_of_isLeaf leaf
  | .signed signed => exact signed.neutral
  | .group content => exact content.neutral.group
  | .call isFunction content =>
    exact (neutral_of_isFunction isFunction).append content.neutral.group

end

theorem IsFormula.balanced {us : List Token} (h : IsFormula us) : level 0 us = some 0 := by
  have counted := h.neutral 0 []
  rwa [List.append_nil] at counted

end Grammar

/-! ## Neighbours -/

namespace Draft

variable {d e : Draft} {t : Token}

theorem operand?_of_isOperator (h : t.IsOperator) : t.operand? = none := by
  obtain ⟨o, rfl⟩ := h.exists_symbol
  rfl

/-- Behind an operator its right operand is called for; behind one that stands where an operand is
called for, that of a sign. -/
theorem Move.demand_of_isOperator (move : Move d t e) (h : t.IsOperator) :
    e.demand ≠ .none ∧ (d.demand ≠ .none → ∃ s, e.demand = .signed s) := by
  have operand := operand?_of_isOperator h
  have descended : ∀ o : Operator, (d.descend (.operator o.symbol)).demand = .signed o.symbol :=
    fun _ => rfl
  cases move with
  | descend operand' called free => simp [operand] at operand'
  | attach operand' called isSign => simp [operand] at operand'
  | openCall label => cases h.1
  | lead o called free => simp [descended]
  | sign o called isSign => simp [descended]
  | splice o called free climbed =>
    refine ⟨fun none => ?_, fun other => absurd called other⟩
    rcases demand_eq_none_iff.1 none with filled | leaf
    · exact filled rfl
    · cases leaf
  | close free found => cases h.1

theorem Move.demand_of_opening (move : Move d t e) (h : t = .opening) (viable : e.Viable)
    (calls : d.CallsOpened) : e.demand = .first := by
  cases move with
  | @descend _ l operand called free =>
    subst h
    cases operand
    rfl
  | @attach _ l o operand called isSign =>
    subst h
    cases operand
    cases isLeaf_of_attach viable
  | openCall label => exact demand_eq_first_iff.2 ⟨rfl, calls.here _ label⟩
  | lead o called free => cases h
  | sign o called isSign => cases h
  | splice o called free climbed => cases h
  | close free found => exact absurd h (by decide)

theorem Move.demand_of_closing (move : Move d t e) (h : t = .closing) (viable : e.Viable) :
    d.demand = .none := by
  cases move with
  | descend operand called free =>
    subst h
    cases operand
  | attach operand called isSign =>
    subst h
    cases operand
  | openCall label => exact absurd h (by decide)
  | lead o called free => cases h
  | sign o called isSign => cases h
  | splice o called free climbed => exact called
  | close free found => exact demand_of_close found viable

theorem Move.label_of_isFunction (move : Move d t e) (h : t.IsFunction) (viable : e.Viable) :
    e.here.node.label = .call t.text false ∧ e.demand = .first := by
  have makes := Token.isFunction_iff.1 h
  cases move with
  | @descend _ l operand called free =>
    obtain rfl := Option.some.inj (operand.symm.trans makes)
    exact ⟨rfl, rfl⟩
  | @attach _ l o operand called isSign =>
    obtain rfl := Option.some.inj (operand.symm.trans makes)
    cases isLeaf_of_attach viable
  | openCall label => cases h.1
  | lead o called free => cases h.1
  | sign o called isSign => cases h.1
  | splice o called free climbed => cases h.1
  | close free found => cases h.1

/-- A function is opened before anything else. -/
theorem Move.eq_opening (move : Move d t e) (plain : t.Plain) {f : String}
    (label : d.here.node.label = .call f false) : t = .opening := by
  have unopened := unopened?_eq_some_iff.2 label
  have other : ¬ d.here.node.label.isOperator = true := by simp [label, Label.isOperator]
  cases move with
  | descend operand called free =>
    simp [unopened?_of_plain plain operand free] at unopened
  | attach operand called isSign => exact absurd (isOperator_of_demand (.inr ⟨_, called⟩)) other
  | openCall label => rfl
  | lead o called free => simp [free] at unopened
  | sign o called isSign => exact absurd (isOperator_of_demand called) other
  | splice o called free climbed => simp [free] at unopened
  | close free found => simp [free] at unopened

/-- What a sign stands in front of is a leaf or another sign. -/
theorem Move.of_demand_signed (move : Move d t e) {s : String} (h : d.demand = .signed s)
    (viable : e.Viable) : t ≠ .opening ∧ ¬ t.IsFunction := by
  cases move with
  | descend operand called free => simp [h] at called
  | @attach _ l o operand called isSign =>
    have leaf := isLeaf_of_attach viable
    constructor
    · intro same
      subst same
      cases operand
      cases leaf
    · intro function
      obtain rfl := Option.some.inj (operand.symm.trans (Token.isFunction_iff.1 function))
      cases leaf
  | openCall label =>
    have operator := (demand_eq_signed_iff.1 h).1
    cases operator.symm.trans label
  | lead o called free => exact ⟨nofun, nofun⟩
  | sign o called isSign => exact ⟨nofun, nofun⟩
  | splice o called free climbed => exact ⟨nofun, nofun⟩
  | close free found => exact ⟨by decide, nofun⟩

/-- A token somewhere in a list, with the drafts before and after it. -/
theorem exists_move_of_append {us vs : List Token} (moves : Moves empty (us ++ t :: vs) d)
    (viable : d.Viable) :
    ∃ e f, Moves empty us e ∧ Move e t f ∧ f.Viable ∧ Moves f vs d := by
  obtain ⟨e, before, rest⟩ := moves_append_iff.1 moves
  cases rest with
  | cons move after => exact ⟨e, _, before, move, after.viable viable, after⟩

/-- At the start, behind an operator and behind an opening parenthesis an operand is called for. -/
theorem demand_ne_none_of_getLast? {us : List Token} (moves : Moves empty us d)
    (plain : ∀ t ∈ us, t.Plain) (viable : d.Viable)
    (h : ∀ s ∈ us.getLast?, s.IsOperator ∨ s = .opening) : d.demand ≠ .none := by
  rcases List.eq_nil_or_concat us with rfl | ⟨before, t, last⟩
  · cases moves
    nofun
  · rw [List.concat_eq_append] at last
    subst last
    obtain ⟨e, f, moves, move, _, rest⟩ := exists_move_of_append moves viable
    cases rest
    rcases h t (by simp) with operator | opening
    · exact (move.demand_of_isOperator operator).1
    · have calls := (moves.tokens_eq (fun t member => plain t (by simp [member]))
        (move.viable viable)).1
      simp [move.demand_of_opening opening viable calls]

theorem tidy_of_build {ts : List Token} {T : Tree} (plain : ∀ t ∈ ts, t.Plain)
    (h : build ts = .ok T) : Grammar.Tidy ts := by
  obtain ⟨d, moves, finished⟩ := build_eq_ok_iff.1 h
  have viable := viable_of_finish finished
  have called := demand_of_finish finished
  refine ⟨?_, ?_, ?_, ?_, ?_, (isFormula_of_build plain h).balanced⟩
  · intro none
    subst none
    cases moves
    cases called
  · intro us vs same
    subst same
    obtain ⟨e, f, before, move, viable', after⟩ := exists_move_of_append moves viable
    have calls := (before.tokens_eq (fun t member => plain t (by simp [member]))
      (move.viable viable')).1
    have first := move.demand_of_opening rfl viable' calls
    cases after with
    | cons closing after =>
      simp [closing.demand_of_closing rfl (after.viable viable)] at first
  · intro us f vs same function
    subst same
    obtain ⟨e, e', -, move, viable', after⟩ := exists_move_of_append moves viable
    obtain ⟨label, first⟩ := move.label_of_isFunction function viable'
    cases after with
    | nil => simp [called] at first
    | cons next _ => exact congrArg some (next.eq_opening (plain _ (by simp)) label)
  · intro us t u vs same operator position
    subst same
    obtain ⟨e, f, before, move, viable', after⟩ := exists_move_of_append moves viable
    have wanted := demand_ne_none_of_getLast? before
      (fun t member => plain t (by simp [member])) (move.viable viable') position
    obtain ⟨s, signed⟩ := (move.demand_of_isOperator operator).2 wanted
    cases after with
    | cons next after => exact next.of_demand_signed signed (after.viable viable)
  · intro us t vs same operator
    subst same
    obtain ⟨e, f, -, move, -, after⟩ := exists_move_of_append moves viable
    have wanted := (move.demand_of_isOperator operator).1
    cases after with
    | nil => exact absurd called wanted
    | @cons _ _ _ u _ next after =>
      refine ⟨u, rfl, fun closing => wanted ?_⟩
      exact next.demand_of_closing closing (after.viable viable)

end Draft

/-- Exactly the formulas are built, among the lists of plain tokens, and they are tidy. -/
theorem exists_build_iff_isFormula {ts : List Token} (plain : ∀ t ∈ ts, t.Plain) :
    ((∃ T, Draft.build ts = .ok T) ↔ Grammar.IsFormula ts) ∧
      ∀ T, Draft.build ts = .ok T → Grammar.Tidy ts :=
  ⟨⟨fun ⟨_, built⟩ => isFormula_of_build plain built, exists_build_of_isFormula⟩,
    fun _ built => Draft.tidy_of_build plain built⟩

/-- `*-1` is accepted: in front of the first operand any operator may stand. -/
theorem isFormula_star_minus :
    Grammar.IsFormula [⟨.operator, "*"⟩, ⟨.operator, "-"⟩, ⟨.number, "1"⟩] ∧
      Grammar.Tidy [⟨.operator, "*"⟩, ⟨.operator, "-"⟩, ⟨.number, "1"⟩] := by
  have built : Draft.build [⟨.operator, "*"⟩, ⟨.operator, "-"⟩, ⟨.number, "1"⟩] =
      .ok (.node .nil ⟨0, .group⟩ (.node .nil ⟨1, .operator "*"⟩
        (.node .nil ⟨2, .operator "-"⟩ (.leaf ⟨3, .number "1"⟩)))) := rfl
  have accepted := exists_build_iff_isFormula (show ∀ t ∈ [⟨.operator, "*"⟩, ⟨.operator, "-"⟩,
    ⟨.number, "1"⟩], Token.Plain t by decide)
  exact ⟨accepted.1.1 ⟨_, built⟩, accepted.2 _ built⟩

end Formula
