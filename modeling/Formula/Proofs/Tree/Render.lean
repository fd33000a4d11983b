import Formula.Proofs.Tree.Finished
import Formula.Proofs.Token.Written
import Formula.Tree.Printer
import Formula.Tree.Tokens

/-!
# The tokens of a rendering

What a tree is written out as is read as tokens again: those of its leaves, operators and calls, and
a pair of parentheses around every operator.

## Main definitions

* `Tree.renderTokens` — the tokens of a rendering.
* `Token.WrittenAfter` — written forms in parts.

The main results are `Tree.tokenize_render` and `Tree.Finished.renderTokens_isInfix`.
-/

namespace Formula

namespace Tree

/-- The tokens that a tree is written out with. -/
def renderTokens : Tree → List Token
  | .nil => []
  | .node left n right =>
    match n.label with
    | .number s => [⟨.number, s⟩]
    | .var s | .constant s => [⟨.name, s⟩]
    | .group => right.renderTokens
    | .call f _ =>
      ⟨.name, f⟩ ::
        if right.isOperator then right.renderTokens
        else .opening :: right.renderTokens ++ [.closing]
    | .operator s =>
      .opening :: left.renderTokens ++ ⟨.operator, s⟩ :: right.renderTokens ++ [.closing]

/-- An operator is written out in parentheses. -/
theorem head?_renderTokens_of_isOperator {t : Tree} (h : t.isOperator = true) :
    t.renderTokens.head? = some .opening := by
  cases t with
  | nil => cases h
  | node left n right =>
    rw [isOperator] at h
    cases label : n.label with
    | operator s => simp [renderTokens, label]
    | _ => simp [label, Label.isOperator] at h

end Tree

/-! ## Written forms in parts -/

namespace Token

/-- Whether `cs` is a written form of `us` after `b`, whatever tokens that may stand anywhere
follow. -/
def WrittenAfter (b : Token) (us : List Token) (cs : List Char) : Prop :=
  ∀ ts rest, (∀ u, Written (some u) ts rest) → Written (some b) (us ++ ts) (cs ++ rest)

theorem WrittenAfter.nil (b : Token) : WrittenAfter b [] [] :=
  fun _ _ next => next b

theorem WrittenAfter.append {b : Token} {us vs : List Token} {cs ds : List Char}
    (h : WrittenAfter b us cs) (h' : ∀ u, WrittenAfter u vs ds) :
    WrittenAfter b (us ++ vs) (cs ++ ds) := by
  intro ts rest next
  rw [List.append_assoc, List.append_assoc]
  exact h _ _ fun u => h' u ts rest next

theorem WrittenAfter.cons {b t : Token} {us : List Token} {blanks cs : List Char}
    (blank : ∀ c ∈ blanks, Text.isBlank c = true) (spelled : t.WellSpelled)
    (apart : RunsInto b t → blanks ≠ []) (h : WrittenAfter t us cs) :
    WrittenAfter b (t :: us) (blanks ++ t.text.toList ++ cs) := by
  intro ts rest next
  rw [List.append_assoc]
  refine .cons blank spelled (fun b' same => ?_) (h ts rest next)
  obtain rfl := Option.some.inj same
  exact apart

/-- Parentheses and operators do not run into anything, nor does anything run into them. -/
theorem not_runsInto {t u : Token} (h : t.kind = .parenthesis ∨ t.kind = .operator) :
    ¬ RunsInto t u ∧ ¬ RunsInto u t := by
  rcases h with kind | kind <;> simp [RunsInto, kind]

theorem WrittenAfter.separate {b t : Token} {us : List Token} {blanks cs : List Char}
    (blank : ∀ c ∈ blanks, Text.isBlank c = true) (spelled : t.WellSpelled)
    (kind : t.kind = .parenthesis ∨ t.kind = .operator) (h : WrittenAfter t us cs) :
    WrittenAfter b (t :: us) (blanks ++ t.text.toList ++ cs) :=
  .cons blank spelled (fun runs => absurd runs (not_runsInto kind).2) h

theorem WrittenAfter.parentheses {b : Token} {us : List Token} {blanks cs : List Char}
    (blank : ∀ c ∈ blanks, Text.isBlank c = true) (h : WrittenAfter .opening us cs) :
    WrittenAfter b (.opening :: us ++ [.closing]) (blanks ++ '(' :: cs ++ [')']) := by
  have opened : WrittenAfter b (.opening :: us) (blanks ++ ['('] ++ cs) :=
    .separate blank .opening (.inl rfl) h
  have closed : ∀ u, WrittenAfter u [.closing] ([] ++ [')'] ++ []) := fun u =>
    .separate nofun .closing (.inl rfl) (.nil _)
  simpa using opened.append closed

/-- A written form at the beginning of a text. -/
theorem WrittenAfter.written {b : Token} {us : List Token} {cs : List Char}
    (h : WrittenAfter b us cs) : Written none us cs := by
  have alone := h [] [] fun u => .nil
  rw [List.append_nil, List.append_nil] at alone
  cases alone with
  | nil => exact .nil
  | cons blank spelled _ next => exact .cons blank spelled nofun next

end Token

/-! ## Reading a rendering -/

namespace Tree

open Token

/-- A rendering is a written form of its tokens, wherever it may stand. -/
theorem writtenAfter_render {t : Tree} (complete : t.Complete) (h : t ≠ .nil)
    (spelled : ∀ u ∈ t.tokens, u.WellSpelled) {b : Token} {blanks : List Char}
    (blank : ∀ c ∈ blanks, Text.isBlank c = true)
    (apart : ∀ u ∈ t.renderTokens.head?, RunsInto b u → blanks ≠ []) :
    WrittenAfter b t.renderTokens (blanks ++ t.render.toList) := by
  induction t generalizing b blanks with
  | nil => exact absurd rfl h
  | node left n right ihl ihr =>
    have content : n.label.isLeaf = false → right ≠ .nil := fun inner none => by
      simp [complete.2.1 none] at inner
    cases label : n.label with
    | number s | var s | constant s =>
      simp only [tokens, label, List.forall_mem_singleton] at spelled
      simp only [renderTokens, label, List.head?_cons, Option.mem_some_iff, forall_eq'] at apart
      simpa [renderTokens, label, render] using WrittenAfter.cons blank spelled apart (.nil _)
    | group =>
      simp only [tokens, label, List.forall_mem_append, List.forall_mem_cons] at spelled
      simp only [renderTokens, label] at apart
      simp only [renderTokens, label, render]
      exact ihr complete.2.2 (content (by rw [label]; rfl)) spelled.1.2 blank apart
    | operator s =>
      simp only [tokens, label, List.forall_mem_append, List.forall_mem_cons] at spelled
      obtain ⟨leftSpelled, spelled, rightSpelled⟩ := spelled
      have operand : ∀ {blanks : List Char}, (∀ c ∈ blanks, Text.isBlank c = true) →
          WrittenAfter ⟨.operator, s⟩ right.renderTokens (blanks ++ right.render.toList) :=
        fun blank => ihr complete.2.2 (content (by rw [label]; rfl)) rightSpelled blank
          fun _ _ runs => absurd runs (not_runsInto (.inr rfl)).1
      cases left with
      | nil =>
        have inner : WrittenAfter .opening (⟨.operator, s⟩ :: right.renderTokens)
            ([] ++ s.toList ++ ([] ++ right.render.toList)) :=
          .separate nofun spelled (.inr rfl) (operand nofun)
        simpa [renderTokens, label, render, isNil] using WrittenAfter.parentheses blank inner
      | node l m r =>
        have space : ∀ c ∈ [' '], Text.isBlank c = true := List.forall_mem_singleton.2 (by decide)
        have before : WrittenAfter .opening (renderTokens (.node l m r))
            ([] ++ (render (.node l m r)).toList) :=
          ihl complete.1 Tree.noConfusion leftSpelled nofun
            fun _ _ runs => absurd runs (not_runsInto (.inl rfl)).1
        have inner := before.append fun u =>
          WrittenAfter.separate (b := u) space spelled (.inr rfl) (operand space)
        have shown : (render (.node (.node l m r) n right)).toList =
            '(' :: ([] ++ (render (.node l m r)).toList ++
              ([' '] ++ s.toList ++ ([' '] ++ right.render.toList))) ++ [')'] := by
          rw [render, label]
          simp [isNil]
        rw [shown]
        simpa [renderTokens, label] using WrittenAfter.parentheses blank inner
    | call f opened =>
      simp only [tokens, label, List.forall_mem_append, List.forall_mem_cons] at spelled
      obtain ⟨⟨named, -, rightSpelled⟩, -⟩ := spelled
      simp only [renderTokens, label, List.head?_cons, Option.mem_some_iff, forall_eq'] at apart
      have argument : ∀ {b : Token}, (∀ u ∈ right.renderTokens.head?, ¬ RunsInto b u) →
          WrittenAfter b right.renderTokens ([] ++ right.render.toList) := fun free =>
        ihr complete.2.2 (content (by rw [label]; rfl)) rightSpelled nofun
          fun u head runs => absurd runs (free u head)
      cases operator : right.isOperator with
      | true =>
        have free : ∀ u ∈ right.renderTokens.head?, ¬ RunsInto ⟨.name, f⟩ u := by
          rw [head?_renderTokens_of_isOperator operator]
          intro u same
          cases same
          exact (not_runsInto (.inl rfl)).2
        simpa [renderTokens, label, render, operator] using
          WrittenAfter.cons blank named apart (argument free)
      | false =>
        have inner : WrittenAfter .opening right.renderTokens ([] ++ right.render.toList) :=
          argument fun u _ => (not_runsInto (.inl rfl)).1
        have group : WrittenAfter ⟨.name, f⟩ (.opening :: right.renderTokens ++ [.closing])
            ([] ++ '(' :: ([] ++ right.render.toList) ++ [')']) := .parentheses nofun inner
        simpa [renderTokens, label, render, operator] using
          WrittenAfter.cons blank named apart group

/-- The rendering of a complete tree with well spelled tokens is read as the tokens that it is
written out with. -/
theorem tokenize_render {t : Tree} (complete : t.Complete) (h : t ≠ .nil)
    (spelled : ∀ u ∈ t.tokens, u.WellSpelled) : tokenize t.render = .ok t.renderTokens := by
  have written : WrittenAfter .opening t.renderTokens ([] ++ t.render.toList) :=
    writtenAfter_render complete h spelled nofun
      fun u _ runs => absurd runs (not_runsInto (.inl rfl)).1
  exact tokenizeChars_of_written written.written

/-! ## Parts of a rendering -/

theorem infix_wrap (ts us vs : List Token) : us <:+: ts ++ us ++ vs :=
  ⟨ts, vs, rfl⟩

namespace Finished

variable {l r t u : Tree} {n : Node}

theorem infix_right (h : (Tree.node l n r).Finished) :
    r.renderTokens <:+: (Tree.node l n r).renderTokens := by
  have leaf := h.eq_leaf
  cases label : n.label with
  | number s | var s | constant s =>
    obtain ⟨-, rfl⟩ := leaf (by rw [label]; rfl)
    exact List.nil_infix
  | group => simp [renderTokens, label]
  | operator s =>
    have wrapped := infix_wrap (.opening :: l.renderTokens ++ [⟨.operator, s⟩]) r.renderTokens
      [.closing]
    simpa [renderTokens, label] using wrapped
  | call f opened =>
    cases operator : r.isOperator with
    | true => simpa [renderTokens, label, operator] using infix_wrap [⟨.name, f⟩] r.renderTokens []
    | false =>
      have wrapped := infix_wrap [⟨.name, f⟩, .opening] r.renderTokens [.closing]
      simpa [renderTokens, label, operator] using wrapped

theorem infix_left (h : (Tree.node l n r).Finished) :
    l.renderTokens <:+: (Tree.node l n r).renderTokens := by
  have bare := h.proper.1.2.1
  cases label : n.label with
  | operator s =>
    have wrapped := infix_wrap [.opening] l.renderTokens
      (⟨.operator, s⟩ :: r.renderTokens ++ [.closing])
    simpa [renderTokens, label] using wrapped
  | _ =>
    obtain rfl := bare (by rw [label]; rfl)
    exact List.nil_infix

/-- What a part of a tree is written out with stands within what the tree is written out with. -/
theorem renderTokens_isInfix (h : t.Finished) (part : u ∈ t.parts) :
    u.renderTokens <:+: t.renderTokens := by
  induction t with
  | nil => cases part
  | node l n r ihl ihr =>
    rcases mem_parts_node.1 part with rfl | part | part
    · exact List.infix_rfl
    · exact (ihl h.left part).trans h.infix_left
    · exact (ihr h.right part).trans h.infix_right

end Finished

end Tree

end Formula
