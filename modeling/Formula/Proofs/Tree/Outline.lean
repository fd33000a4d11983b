import Formula.Proofs.RoundTrip
import Formula.Tree.Outline

/-!
# Reading outlines

A tree is written out as its outline says, and the outline can be read off the written form. To see
this, no formula is parsed: an outline is shown by tokens in which every operator stands in
parentheses, and such tokens can be cut off the front of any list in one way only.

## Main definitions

* `Outline.Shown` — the tokens that show an outline.
* `Outline.Content` — what stands between two parentheses.

The main results are `Outline.Shown.unique` and `Tree.Finished.shown`.
-/

namespace Formula

/-! ## Trees and outlines -/

namespace Tree

theorem core_outline (t : Tree) : t.outline.core = t.core := by
  induction t with
  | nil => rfl
  | node left n right ihl ihr =>
    cases label : n.label with
    | operator s | group | call f opened => simp [outline, core, label, Outline.core, ihl, ihr]
    | number s | var s | constant s => simp [outline, core, label, Outline.core, Core.ofLabel]

theorem isNil_outline (t : Tree) : t.outline.isNil = t.core.isNil := by
  induction t with
  | nil => rfl
  | node left n right _ ih =>
    cases label : n.label with
    | group => simpa [outline, core, label] using ih
    | _ => simp [outline, core, label, Outline.isNil, Core.isNil]

/-- A complete tree is written out as its outline. -/
theorem render_outline {t : Tree} (h : t.Complete) : t.outline.render = t.render := by
  induction t with
  | nil => rfl
  | node left n right ihl ihr =>
    cases label : n.label with
    | operator s =>
      have first : left.outline.isNil = left.isNil := (isNil_outline left).trans (isNil_core h.1)
      simp [outline, render, label, Outline.render, first, ihl h.1, ihr h.2.2]
    | group | call f opened => simp [outline, render, label, Outline.render, ihr h.2.2]
    | number s | var s | constant s => simp [outline, render, label, Outline.render, Label.text]

end Tree

/-! ## Tokens that show an outline -/

theorem Token.cons_inj {kind : Token.Kind} {s s' : String} {xs ys : List Token} :
    (⟨kind, s⟩ : Token) :: xs = ⟨kind, s'⟩ :: ys ↔ s = s' ∧ xs = ys := by
  simp

theorem Token.closing_ne_operator {xs ys : List Token} {s : String} :
    Token.closing :: xs ≠ ⟨.operator, s⟩ :: ys := by
  simp [closing]

namespace Outline

mutual

/-- The tokens that show an outline where an operand may stand. -/
inductive Shown : Outline → List Token → Prop where
  | number (s : String) : Shown (.leaf (.number s)) [⟨.number, s⟩]
  | name {s : String} (isLeaf : (Label.ofName s).isLeaf = true) :
    Shown (.leaf (Label.ofName s)) [⟨.name, s⟩]
  | operator {o : Outline} {ts : List Token} (h : Content true o ts) :
    Shown o (.opening :: ts ++ [.closing])
  | call {f : String} {shared : Bool} {o : Outline} {ts : List Token}
    (known : Label.ofName f = .call f false) (h : Content shared o ts) :
    Shown (.call f shared o) (⟨.name, f⟩ :: .opening :: ts ++ [.closing])

/-- The tokens that show an outline between two parentheses; the flag says whether it is an operator
that these parentheses belong to. -/
inductive Content : Bool → Outline → List Token → Prop where
  | operand {o : Outline} {ts : List Token} (h : Shown o ts) : Content false o ts
  | signed {s : String} {o : Outline} {ts : List Token} (h : Shown o ts) :
    Content true (.operator .nil s o) (⟨.operator, s⟩ :: ts)
  | between {s : String} {l r : Outline} {ts us : List Token} (h : Shown l ts) (h' : Shown r us) :
    Content true (.operator l s r) (ts ++ ⟨.operator, s⟩ :: us)

end

/-- An operand starts with something else than an operator. -/
theorem Shown.exists_head {o : Outline} {ts : List Token} (h : Shown o ts) :
    ∃ t us, ts = t :: us ∧ t.kind ≠ .operator := by
  cases h with
  | number | name | operator | call => exact ⟨_, _, rfl, nofun⟩

theorem Shown.ne_operator {o : Outline} {ts xs ys : List Token} {s : String} (h : Shown o ts) :
    ts ++ xs ≠ ⟨.operator, s⟩ :: ys := by
  obtain ⟨t, us, rfl, other⟩ := h.exists_head
  rintro same
  cases same
  exact other rfl

mutual

/-- The tokens of an operand can be cut off the front of a list in one way only, and they show one
outline only. -/
theorem Shown.unique {o : Outline} {ts : List Token} (h : Shown o ts) :
    ∀ {o' : Outline} {ts' xs ys : List Token}, Shown o' ts' → ts ++ xs = ts' ++ ys →
      o = o' ∧ xs = ys := by
  intro o' ts' xs ys h' same
  match h with
  | .number s =>
    cases h' with
    | number s' => simpa using same
    | name | operator | call => simp [Token.opening] at same
  | .name isLeaf =>
    cases h' with
    | name =>
      obtain ⟨rfl, rest⟩ := Token.cons_inj.1 same
      exact ⟨rfl, rest⟩
    | call known =>
      obtain ⟨rfl, -⟩ := Token.cons_inj.1 same
      simp [known, Label.isLeaf] at isLeaf
    | number | operator => simp [Token.opening] at same
  | .operator content =>
    cases h' with
    | operator content' =>
      obtain ⟨-, shown, rest⟩ := content.unique content' (by simpa using same)
      exact ⟨shown, rest⟩
    | number | name | call => simp [Token.opening] at same
  | .call known content =>
    cases h' with
    | call known' content' =>
      obtain ⟨rfl, inside⟩ := Token.cons_inj.1 same
      obtain ⟨rfl, rfl, rest⟩ := content.unique content' (by simpa using inside)
      exact ⟨rfl, rest⟩
    | name isLeaf =>
      obtain ⟨rfl, -⟩ := Token.cons_inj.1 same
      simp [known, Label.isLeaf] at isLeaf
    | number | operator => simp [Token.opening] at same

/-- What stands between two parentheses ends at the second one, and shows one outline only. -/
theorem Content.unique {b : Bool} {o : Outline} {ts : List Token} (h : Content b o ts) :
    ∀ {b' : Bool} {o' : Outline} {ts' xs ys : List Token}, Content b' o' ts' →
      ts ++ .closing :: xs = ts' ++ .closing :: ys → b = b' ∧ o = o' ∧ xs = ys := by
  intro b' o' ts' xs ys h' same
  -- after a first operand the next token decides: it closes the parenthesis or is an operator
  match h with
  | .operand shown =>
    cases h' with
    | operand shown' =>
      obtain ⟨rfl, rest⟩ := shown.unique shown' same
      exact ⟨rfl, rfl, (List.cons.inj rest).2⟩
    | signed => exact absurd same shown.ne_operator
    | between shown' =>
      obtain ⟨-, rest⟩ := shown.unique shown' (same.trans (List.append_assoc ..))
      exact absurd rest Token.closing_ne_operator
  | .signed shown =>
    cases h' with
    | operand shown' => exact absurd same.symm shown'.ne_operator
    | signed shown' =>
      obtain ⟨rfl, inside⟩ := Token.cons_inj.1 same
      obtain ⟨rfl, rest⟩ := shown.unique shown' inside
      exact ⟨rfl, rfl, (List.cons.inj rest).2⟩
    | between shown' =>
      have front := (List.append_assoc ..).symm.trans same.symm
      exact absurd front shown'.ne_operator
  | .between shown behind =>
    have front := (List.append_assoc ..).symm.trans same
    cases h' with
    | operand shown' =>
      obtain ⟨-, rest⟩ := shown.unique shown' front
      exact absurd rest.symm Token.closing_ne_operator
    | signed => exact absurd front shown.ne_operator
    | between shown' behind' =>
      obtain ⟨rfl, rest⟩ := shown.unique shown' (front.trans (List.append_assoc ..))
      obtain ⟨rfl, inside⟩ := Token.cons_inj.1 rest
      obtain ⟨rfl, rest⟩ := behind.unique behind' inside
      exact ⟨rfl, rfl, (List.cons.inj rest).2⟩

end

end Outline

/-! ## Renderings -/

namespace Tree

open Outline

variable {l r t u : Tree} {n : Node}

theorem Finished.shown_leaf (h : (Tree.node l n r).Finished) (leaf : n.label.isLeaf = true) :
    Shown (Tree.node l n r).outline (Tree.node l n r).renderTokens := by
  have proper := h.proper.1.1
  cases label : n.label with
  | number s => simpa [outline, renderTokens, label] using Shown.number s
  | var s | constant s =>
    rw [label] at proper leaf
    have known : Label.ofName s = _ := proper
    rw [← known] at leaf
    simpa [outline, renderTokens, label, known] using Shown.name leaf
  | _ => simp [label, Label.isLeaf] at leaf

/-- Without its outermost parentheses, an operator is shown by its operands. -/
theorem Finished.content_operator (h : (Tree.node l n r).Finished)
    (operator : n.label.isOperator = true) (left : l ≠ .nil → Shown l.outline l.renderTokens)
    (right : Shown r.outline r.renderTokens) :
    Content true (Tree.node l n r).outline (Tree.node l n r).contentTokens := by
  obtain ⟨o, label⟩ := h.exists_operator operator
  by_cases bare : l = .nil
  · subst bare
    simpa [outline, contentTokens, label, Label.isOperator, Label.tokens, renderTokens] using
      Content.signed right
  · simpa [outline, contentTokens, label, Label.isOperator, Label.tokens] using
      Content.between (left bare) right

/-- What a finished tree is written out with shows its outline. -/
theorem Finished.shown (h : t.Finished) (filled : t ≠ .nil) :
    Shown t.outline t.renderTokens ∧ Content t.isOperator t.outline t.contentTokens := by
  induction t with
  | nil => exact absurd rfl filled
  | node l n r ihl ihr =>
    have right := fun inner => ihr h.right (h.right_ne_nil inner)
    cases operator : n.label.isOperator with
    | true =>
      have whole : (Tree.node l n r).isOperator = true := operator
      have inner : n.label.isLeaf = false := Label.isLeaf_of_isOperator operator
      have left := fun taken => (ihl h.left taken).1
      have content := h.content_operator operator left (right inner).1
      rw [renderTokens_of_isOperator whole, whole]
      exact ⟨.operator content, content⟩
    | false =>
      have other : (Tree.node l n r).isOperator = false := operator
      have shown : Shown (Tree.node l n r).outline (Tree.node l n r).renderTokens := by
        have proper := h.proper.1.1
        cases label : n.label with
        | number s | var s | constant s => exact h.shown_leaf (by rw [label]; rfl)
        | operator s => simp [label, Label.isOperator] at operator
        | group => simpa [outline, renderTokens, label] using (right (by rw [label]; rfl)).1
        | call f opened =>
          rw [label] at proper
          rw [renderTokens_call label]
          simpa [outline, label] using Shown.call proper (right (by rw [label]; rfl)).2
      rw [contentTokens_of_not_isOperator other, other]
      exact ⟨shown, .operand shown⟩

/-- Finished trees that are written out with the same tokens have the same outline. -/
theorem Finished.outline_eq (ht : t.Finished) (hu : u.Finished) (filled : t ≠ .nil)
    (filled' : u ≠ .nil) (same : t.renderTokens = u.renderTokens) : t.outline = u.outline := by
  have ends : t.renderTokens ++ [] = u.renderTokens ++ [] := by rw [same]
  exact ((ht.shown filled).1.unique (hu.shown filled').1 ends).1

end Tree

end Formula
