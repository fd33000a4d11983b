import Formula.Proofs.Distinct
import Formula.Proofs.Parse

/-!
# The variables of a text

The variables of a formula can be told from its tokens without building a tree: they are the names
that stand for neither a constant nor a function, in the order in which they first occur. However
the nodes of the tree have been moved on the way, a walk over it from left to right meets them in
this order.

## Main definitions

* `Token.IsVariable` — the tokens that name a variable.
* `Tree.collect` — the names met on a walk over a tree, each once.

`Tree.collect_eraseDups` says what a walk collects, `Tree.Finished.map_text_tokens` that nodes and
tokens agree, and `variableNames_of_parse` puts the two together.
-/

namespace Formula

/-! ## Names of variables -/

/-- A name that neither the table of constants nor that of functions holds. -/
def Token.IsVariable (t : Token) : Prop :=
  t.kind = .name ∧ Constant.ofName? t.text = none ∧ UnaryFunction.ofName? t.text = none

instance : DecidablePred Token.IsVariable := fun t =>
  inferInstanceAs (Decidable (t.kind = .name ∧ Constant.ofName? t.text = none ∧
    UnaryFunction.ofName? t.text = none))

theorem Label.ofName_eq_var_iff {name : String} : Label.ofName name = .var name ↔
    Constant.ofName? name = none ∧ UnaryFunction.ofName? name = none := by
  rw [ofName]
  cases Constant.ofName? name with
  | some c => simp
  | none => cases UnaryFunction.ofName? name <;> simp

/-- A name token is that of a variable if a node made of it is. -/
theorem Token.isVariable_name_iff {name : String} :
    Token.IsVariable ⟨.name, name⟩ ↔ Label.ofName name = .var name := by
  simp [IsVariable, Label.ofName_eq_var_iff]

@[simp] theorem Token.not_isVariable_opening : ¬ Token.opening.IsVariable := by
  decide

@[simp] theorem Token.not_isVariable_closing : ¬ Token.closing.IsVariable := by
  decide

/-! ## Walking over a tree -/

/-- The names that have been met once a node is visited. -/
def Label.meet (names : List String) (l : Label) : List String :=
  match l.varName? with
  | some name => if name ∈ names then names else names ++ [name]
  | none => names

/-- The names met on a walk from left to right, each once, after those that have been met before. -/
def Tree.collect (names : List String) : Tree → List String
  | .nil => names
  | .node left n right => right.collect (n.label.meet (left.collect names))

theorem Label.meet_eraseDups (names : List String) (l : Label) :
    l.meet names.eraseDups = (names ++ l.varName?.toList).eraseDups := by
  rw [meet]
  cases l.varName? with
  | none => simp
  | some name => simp [Distinct.eraseDups_concat, List.mem_eraseDups]

/-- A walk adds the names of the variables that it meets, without repetitions. -/
theorem Tree.collect_eraseDups (t : Tree) (names : List String) :
    t.collect names.eraseDups =
      (names ++ t.inorder.filterMap fun n => n.label.varName?).eraseDups := by
  induction t generalizing names with
  | nil => simp [collect]
  | node left n right ihl ihr =>
    have here : (n :: right.inorder).filterMap (fun n => n.label.varName?) =
        n.label.varName?.toList ++ right.inorder.filterMap fun n => n.label.varName? := by
      cases found : n.label.varName? <;> simp [found]
    rw [collect, ihl, Label.meet_eraseDups, ihr, inorder_node, List.filterMap_append, here]
    simp only [List.append_assoc]

/-- The variables of a tree are what a walk over it collects. -/
theorem Tree.collect_nil (t : Tree) : t.collect [] = t.variableNames :=
  t.collect_eraseDups []

/-! ## Nodes and tokens -/

/-- The names of variables stand in the same order in a tree and in its tokens. -/
theorem Tree.Finished.map_text_tokens {t : Tree} (h : t.Finished) :
    (t.tokens.filter fun u => u.IsVariable).map Token.text =
      t.inorder.filterMap fun n => n.label.varName? := by
  induction t with
  | nil => rfl
  | node left n right ihl ihr =>
    have proper := h.proper.1.1
    have atLeft := ihl h.left
    have atRight := ihr h.right
    have bare : n.label.isOperator = false → left = .nil := h.proper.1.2.1
    have leaf : n.label.isLeaf = true → left = .nil ∧ right = .nil := h.eq_leaf
    cases label : n.label with
    | number s =>
      obtain ⟨rfl, rfl⟩ := leaf (by rw [label]; rfl)
      have other : ¬ Token.IsVariable ⟨.number, s⟩ := by simp [Token.IsVariable]
      simp [tokens, label, Label.varName?, other]
    | var s =>
      obtain ⟨rfl, rfl⟩ := leaf (by rw [label]; rfl)
      rw [label] at proper
      simp [tokens, label, Label.varName?, Token.isVariable_name_iff.2 proper]
    | constant s =>
      obtain ⟨rfl, rfl⟩ := leaf (by rw [label]; rfl)
      have known : Label.ofName s = .constant s := by rwa [label] at proper
      simp [tokens, label, Label.varName?, Token.isVariable_name_iff, known]
    | operator s =>
      have other : ¬ Token.IsVariable ⟨.operator, s⟩ := by simp [Token.IsVariable]
      simp [tokens, label, Label.varName?, other, atLeft, atRight]
    | group =>
      obtain rfl := bare (by rw [label]; rfl)
      simp [tokens, label, Label.varName?, atRight]
    | call f opened =>
      obtain rfl := bare (by rw [label]; rfl)
      have known : Label.ofName f = .call f false := by rwa [label] at proper
      simp [tokens, label, Label.varName?, Token.isVariable_name_iff, known, atRight]

/-- The variables of a formula are the names of variables among its tokens, each where it first
occurs, and a walk over the tree collects them in this order. -/
theorem variableNames_of_parse {text : String} {T : Tree} (h : parse text = .ok T) :
    ∃ ts, tokenize text = .ok ts ∧
      T.variableNames = ((ts.filter fun t => t.IsVariable).map Token.text).eraseDups ∧
        T.collect [] = T.variableNames := by
  refine ⟨_, formulaTokens_of_parse h, ?_, T.collect_nil⟩
  have finished := finished_of_parse h
  obtain ⟨_, -, built⟩ := parse_eq_ok_iff.1 h
  obtain ⟨content, rfl⟩ := Draft.exists_content_of_build built
  -- the outermost group, which is not among the tokens, has no name
  rw [Tree.formulaTokens, finished.right.map_text_tokens]
  rfl

/-- In `y*E+sin(y)*x` the names `E` and `sin` are no variables, and `y` comes first. -/
theorem variableNames_of_parse_mixed :
    ∃ T, parse "y*E+sin(y)*x" = .ok T ∧ T.variableNames = ["y", "x"] ∧
      T.collect [] = ["y", "x"] := by
  have read : tokenize "y*E+sin(y)*x" = .ok [⟨.name, "y"⟩, ⟨.operator, "*"⟩, ⟨.name, "E"⟩,
      ⟨.operator, "+"⟩, ⟨.name, "sin"⟩, .opening, ⟨.name, "y"⟩, .closing, ⟨.operator, "*"⟩,
      ⟨.name, "x"⟩] := by
    iterate 10 refine Token.tokenizeChars_of_next? rfl ?_
    exact Token.tokenizeChars_nil
  obtain ⟨T, parsed⟩ : ∃ T, parse "y*E+sin(y)*x" = .ok T := ⟨_, parse_eq_ok_iff.2 ⟨_, read, rfl⟩⟩
  obtain ⟨ts, read', names, walk⟩ := variableNames_of_parse parsed
  obtain rfl := Except.ok.inj (read.symm.trans read')
  have first : T.variableNames = ["y", "x"] := names.trans (by decide)
  exact ⟨T, parsed, first, walk.trans first⟩

end Formula
