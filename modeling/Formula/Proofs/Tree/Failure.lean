import Formula.Proofs.Decimal.Literal
import Formula.Proofs.Parse
import Formula.Proofs.Tree.Finished
import Formula.Tree.Value

/-!
# How a value can be missing

The tree of a text fails to have a value for two reasons only: a variable without a value, and an
operator that needs a left operand and has none. The first of them, operands before operators and
left before right, is what is reported.

## Main definitions

* `Law.readable` — numbers denote floats.
* `Tree.Legible` — what holds of the trees of texts, and of their parts.
* `Tree.flaws` — everything that keeps a tree from having a value, in the order of evaluation.

`Tree.Legible.value_cases` says that the value of a tree is missing exactly if there is a flaw, and
that the first flaw is the report.
-/

namespace Formula

/-! ## Legible trees -/

def Law.readable : Law := fun _ l _ =>
  ∀ s, l = .number s → (Decimal.read? s).isSome = true

/-- A finished tree whose numbers denote floats. -/
structure Tree.Legible (t : Tree) : Prop extends Tree.Finished t where
  readable : t.Obeys Law.readable

/-- The numbers of a tree denote floats if they are spelled as numbers of a text are. -/
theorem Tree.readable_of_tokens {t : Tree} (proper : t.Obeys Law.proper)
    (spelled : ∀ u ∈ t.tokens, u.WellSpelled) : t.Obeys Law.readable := by
  induction t with
  | nil => trivial
  | node left n right ihl ihr =>
    obtain ⟨⟨-, bare, leaf⟩, properLeft, properRight⟩ := proper
    obtain ⟨serial, label⟩ := n
    cases label with
    | number s =>
      obtain rfl : left = .nil := bare rfl
      obtain rfl : right = .nil := top?_eq_none_iff.1 (leaf rfl)
      refine ⟨?_, trivial, trivial⟩
      rintro s ⟨⟩
      exact Decimal.isSome_read? (spelled _ List.mem_cons_self)
    | var s | constant s =>
      obtain rfl : left = .nil := bare rfl
      obtain rfl : right = .nil := top?_eq_none_iff.1 (leaf rfl)
      exact ⟨fun _ same => Label.noConfusion same, trivial, trivial⟩
    | operator s =>
      refine ⟨fun _ same => Label.noConfusion same, ihl properLeft fun u member => spelled u ?_,
        ihr properRight fun u member => spelled u ?_⟩
      · exact List.mem_append_left _ member
      · exact List.mem_append_right _ (List.mem_cons_of_mem _ member)
    | group | call f opened =>
      obtain rfl : left = .nil := bare rfl
      exact ⟨fun _ same => Label.noConfusion same, trivial,
        ihr properRight fun u member => spelled u (by simp [tokens, member])⟩

/-- The tree of a text is legible. -/
theorem legible_of_parse {text : String} {T : Tree} (h : parse text = .ok T) : T.Legible := by
  have read := formulaTokens_of_parse h
  obtain ⟨ts, -, built⟩ := parse_eq_ok_iff.1 h
  have finished := Draft.finished_of_build built
  obtain ⟨content, rfl⟩ := Draft.exists_content_of_build built
  refine ⟨finished, nofun, trivial, ?_⟩
  exact Tree.readable_of_tokens finished.right.proper (Token.wellSpelled_of_tokenize read)

namespace Label

theorem Proper.exists_constant {name : String} (h : (Label.constant name).Proper) :
    ∃ c, Constant.ofName? name = some c := by
  refine Option.isSome_iff_exists.1 (Bool.of_not_eq_false fun absent => ?_)
  rw [Proper, ofName, absent, if_neg Bool.false_ne_true] at h
  split at h <;> cases h

theorem Proper.exists_function {f : String} {opened : Bool} (h : (Label.call f opened).Proper) :
    ∃ g, UnaryFunction.ofName? f = some g := by
  refine Option.isSome_iff_exists.1 (Bool.of_not_eq_false fun absent => ?_)
  rw [Proper, ofName, absent] at h
  split at h <;> cases h

end Label

namespace Tree

variable {bindings : Bindings} {t l r : Tree} {n : Node}

/-! ## Values of single nodes -/

/-- The value of an operator in front of its operand. -/
theorem value_signed {o : Operator} (label : n.label = .operator o.symbol) (filled : r ≠ .nil) :
    (node .nil n r).value bindings = (do
      let y ← r.value bindings
      if o.isSign then .ok (o.combine 0 y) else .error (.missingOperand o.symbol)) := by
  rw [value, label]
  simp only [Operator.ofSymbol?_symbol, isNil_eq_false_iff.2 filled, Operator.apply]
  cases r.value bindings <;> cases o.isSign <;> rfl

/-- The value of an operator between its operands. -/
theorem value_between {o : Operator} (label : n.label = .operator o.symbol) (taken : l ≠ .nil)
    (filled : r ≠ .nil) :
    (node l n r).value bindings = (do
      let x ← l.value bindings
      let y ← r.value bindings
      .ok (o.combine x y)) := by
  rw [value, label]
  simp only [Operator.ofSymbol?_symbol, isNil_eq_false_iff.2 taken, isNil_eq_false_iff.2 filled]
  cases l.value bindings <;> rfl

theorem value_call {f : String} {opened : Bool} {g : UnaryFunction}
    (label : n.label = .call f opened) (function : UnaryFunction.ofName? f = some g)
    (filled : r ≠ .nil) :
    (node l n r).value bindings = g.apply <$> r.value bindings := by
  rw [value, label]
  simp [function, isNil_eq_false_iff.2 filled]

/-! ## Flaws -/

/-- What keeps a node with `left` on its left from having a value. -/
def flaw (bindings : Bindings) (left : Tree) : Label → List EvalError
  | .var name => if (bindings name).isNone then [.undefinedVariable name] else []
  | .operator s =>
    if left.isNil && !(Operator.ofSymbol? s).any Operator.isSign then [.missingOperand s] else []
  | .number _ | .constant _ | .group | .call _ _ => []

/-- Everything that keeps a tree from having a value, in the order of evaluation. -/
def flaws (bindings : Bindings) : Tree → List EvalError
  | .nil => []
  | .node left n right => left.flaws bindings ++ right.flaws bindings ++ flaw bindings left n.label

theorem missingOperand_mem_flaw_iff {left : Tree} {l : Label} {s : String} :
    .missingOperand s ∈ flaw bindings left l ↔
      l = .operator s ∧ left = .nil ∧ ¬ ∃ o : Operator, o.isSign = true ∧ o.symbol = s := by
  cases l with
  | operator s' =>
    rw [← Draft.isSign_iff, flaw]
    cases left with
    | nil => grind [isNil]
    | node => simp [isNil]
  | var name => cases bound : bindings name <;> simp [flaw, bound]
  | _ => simp [flaw]

/-- A flaw of a tree is that of one of its parts. -/
theorem mem_flaws_iff {e : EvalError} :
    e ∈ t.flaws bindings ↔
      ∃ left n right, .node left n right ∈ t.parts ∧ e ∈ flaw bindings left n.label := by
  induction t with
  | nil => simp [flaws, parts]
  | node l m r ihl ihr =>
    rw [flaws, List.mem_append, List.mem_append, ihl, ihr]
    constructor
    · rintro ((⟨left, n, right, part, found⟩ | ⟨left, n, right, part, found⟩) | found)
      · exact ⟨left, n, right, mem_parts_node.2 (.inr (.inl part)), found⟩
      · exact ⟨left, n, right, mem_parts_node.2 (.inr (.inr part)), found⟩
      · exact ⟨l, m, r, mem_parts_node.2 (.inl rfl), found⟩
    · rintro ⟨left, n, right, part, found⟩
      rcases mem_parts_node.1 part with same | inLeft | inRight
      · cases same
        exact .inr found
      · exact .inl (.inl ⟨left, n, right, inLeft, found⟩)
      · exact .inl (.inr ⟨left, n, right, inRight, found⟩)

/-- A flaw is a variable without a value or a missing operand. -/
theorem cases_of_mem_flaws {e : EvalError} (h : e ∈ t.flaws bindings) :
    (∃ x, bindings x = none ∧ e = .undefinedVariable x) ∨ ∃ s, e = .missingOperand s := by
  obtain ⟨left, n, right, -, found⟩ := mem_flaws_iff.1 h
  cases label : n.label with
  | var name => cases bound : bindings name <;> simp_all [flaw]
  | operator s => grind [flaw]
  | _ => simp [label, flaw] at found

/-- If every variable is bound, nothing but an operand can be missing. -/
theorem eq_missingOperand_of_mem_flaws {x : Float} {e : EvalError}
    (h : e ∈ t.flaws fun _ => some x) : ∃ s, e = .missingOperand s :=
  (cases_of_mem_flaws h).resolve_left fun ⟨_, unbound, _⟩ => nomatch unbound

/-- The first flaw of a tree is that of a part with nothing wrong below it. -/
theorem exists_part_of_head? {e : EvalError} (h : (t.flaws bindings).head? = some e) :
    ∃ left n right, .node left n right ∈ t.parts ∧ right.flaws bindings = [] ∧
      e ∈ flaw bindings left n.label := by
  induction t with
  | nil => cases h
  | node l m r ihl ihr =>
    rw [flaws, List.head?_append, List.head?_append] at h
    cases atLeft : l.flaws bindings with
    | cons first later =>
      obtain ⟨left, n, right, part, sound, found⟩ := ihl (by simpa [atLeft] using h)
      exact ⟨left, n, right, mem_parts_node.2 (.inr (.inl part)), sound, found⟩
    | nil =>
      cases atRight : r.flaws bindings with
      | cons first later =>
        obtain ⟨left, n, right, part, sound, found⟩ := ihr (by simpa [atLeft, atRight] using h)
        exact ⟨left, n, right, mem_parts_node.2 (.inr (.inr part)), sound, found⟩
      | nil =>
        refine ⟨l, m, r, mem_parts_node.2 (.inl rfl), atRight, List.mem_of_mem_head? ?_⟩
        simpa [atLeft, atRight] using h

/-- A value and what is in the way of it: there is a value if nothing is, and else the first thing
in the way is the report. -/
inductive Settles : Except EvalError Float → List EvalError → Prop where
  | value (x : Float) : Settles (.ok x) []
  | failure (e : EvalError) (later : List EvalError) : Settles (.error e) (e :: later)

namespace Settles

variable {v : Except EvalError Float} {fs gs : List EvalError}

theorem bind {next : Float → Except EvalError Float} (h : Settles v fs)
    (then' : ∀ x, Settles (next x) gs) : Settles (v >>= next) (fs ++ gs) := by
  cases h with
  | value x => exact then' x
  | failure e later => exact .failure e (later ++ gs)

theorem map (f : Float → Float) (h : Settles v fs) : Settles (f <$> v) fs := by
  cases h with
  | value x => exact .value (f x)
  | failure e later => exact .failure e later

theorem exists_value (h : Settles v []) : ∃ x, v = .ok x := by
  cases h with
  | value x => exact ⟨x, rfl⟩

theorem eq_error_iff {e : EvalError} (h : Settles v fs) : v = .error e ↔ fs.head? = some e := by
  cases h with
  | value x => simp
  | failure e later => simp

end Settles

namespace Legible

theorem left (h : (node l n r).Legible) : l.Legible :=
  ⟨h.toFinished.left, h.readable.2.1⟩

theorem right (h : (node l n r).Legible) : r.Legible :=
  ⟨h.toFinished.right, h.readable.2.2⟩

theorem of_mem_parts (h : t.Legible) {u : Tree} (part : u ∈ t.parts) : u.Legible :=
  ⟨h.toFinished.of_mem_parts part, h.readable.of_mem_parts part⟩

/-- The value of a legible tree is missing exactly if there is a flaw. -/
theorem value_cases (h : t.Legible) (filled : t ≠ .nil) :
    Settles (t.value bindings) (t.flaws bindings) := by
  induction t with
  | nil => exact absurd rfl filled
  | node left n right ihl ihr =>
    have proper := h.proper.1.1
    have atRight : n.label.isLeaf = false → Settles (right.value bindings) (right.flaws bindings) :=
      fun inner => ihr h.right (h.right_ne_nil inner)
    obtain ⟨serial, label⟩ := n
    cases label with
    | number s =>
      obtain ⟨rfl, rfl⟩ := h.eq_leaf rfl
      obtain ⟨x, read⟩ := Option.isSome_iff_exists.1 (h.readable.1 s rfl)
      simpa [value, read, flaws, flaw] using Settles.value x
    | var name =>
      obtain ⟨rfl, rfl⟩ := h.eq_leaf rfl
      cases bound : bindings name with
      | none => simpa [value, bound, flaws, flaw] using Settles.failure _ _
      | some x => simpa [value, bound, flaws, flaw] using Settles.value x
    | constant name =>
      obtain ⟨rfl, rfl⟩ := h.eq_leaf rfl
      obtain ⟨c, known⟩ := proper.exists_constant
      simpa [value, known, flaws, flaw] using Settles.value c.value
    | group =>
      obtain rfl : left = .nil := h.proper.1.2.1 rfl
      simpa [value, flaws, flaw] using atRight rfl
    | call f opened =>
      obtain rfl : left = .nil := h.proper.1.2.1 rfl
      obtain ⟨g, known⟩ := proper.exists_function
      rw [value_call rfl known (h.right_ne_nil rfl)]
      simpa [flaws, flaw] using (atRight rfl).map g.apply
    | operator s =>
      obtain ⟨o, rfl⟩ := proper
      by_cases taken : left = .nil
      · subst taken
        rw [value_signed rfl (h.right_ne_nil rfl), flaws, flaws, List.nil_append]
        refine (atRight rfl).bind fun y => ?_
        cases sign : o.isSign with
        | true => simpa [flaw, sign] using Settles.value _
        | false => simpa [flaw, sign, isNil] using Settles.failure _ _
      · rw [value_between rfl taken (h.right_ne_nil rfl), flaws, List.append_assoc]
        refine (ihl h.left taken).bind fun x => (atRight rfl).bind fun y => ?_
        simpa [flaw, isNil_eq_false_iff.2 taken] using Settles.value _

end Legible

/-- Values of parts that are not numbers are no failures of their own. -/
theorem evaluate_eq_error_iff {e : EvalError} (h : e ≠ .notANumber) :
    t.evaluate bindings = .error e ↔ t.value bindings = .error e := by
  rw [evaluate]
  cases t.value bindings with
  | error e' => rfl
  | ok x =>
    constructor
    · intro failed
      have nan : (if x.isNaN then Except.error .notANumber else .ok x : Except EvalError Float) =
        .error e := failed
      split at nan <;> cases nan
      exact absurd rfl h
    · exact nofun

end Tree

end Formula
