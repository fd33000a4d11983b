import Formula.Evaluation
import Formula.Proofs.Draft.Tokens
import Formula.Proofs.Token.Written
import Formula.Proofs.Tree.Finished
import Formula.Proofs.Tree.Listing

/-!
# A formula and its tokens

A text that is a formula has one list of tokens and one tree, and each determines the other: the
tree reads back as the tokens, and building is a function of them.

The main results are `parse_eq_ok_iff`, `formulaTokens_of_parse` and `formula_reads_back`.
-/

namespace Formula

/-! ## Texts and tokens -/

theorem parse_eq_ok_iff {text : String} {T : Tree} :
    parse text = .ok T ↔ ∃ ts, tokenize text = .ok ts ∧ Draft.build ts = .ok T := by
  rw [parse]
  cases tokenize text with
  | error e => simp
  | ok ts => cases build : Draft.build ts <;> simp [Except.mapError, build]

theorem finished_of_parse {text : String} {T : Tree} (h : parse text = .ok T) : T.Finished := by
  obtain ⟨_, -, built⟩ := parse_eq_ok_iff.1 h
  exact Draft.finished_of_build built

/-- There is at least the outermost group. -/
theorem ne_nil_of_parse {text : String} {T : Tree} (h : parse text = .ok T) : T ≠ .nil := by
  obtain ⟨_, -, built⟩ := parse_eq_ok_iff.1 h
  obtain ⟨content, rfl⟩ := Draft.exists_content_of_build built
  exact Tree.noConfusion

/-- A well spelled token is no parenthesis in disguise. -/
theorem Token.WellSpelled.plain {t : Token} (h : t.WellSpelled) : t.Plain := by
  intro kind spelled
  rw [WellSpelled, spelled] at h
  obtain ⟨c, rest, same, start⟩ := exists_starts_of_spells h
  obtain ⟨rfl, -⟩ := List.cons.inj (same : ['('] = c :: rest)
  rcases kind with kind | kind <;> rw [kind] at start <;> exact absurd start (by decide)

/-- The tree of a text reads back as the tokens of the text. -/
theorem formulaTokens_of_parse {text : String} {T : Tree} (h : parse text = .ok T) :
    tokenize text = .ok T.formulaTokens := by
  obtain ⟨ts, read, built⟩ := parse_eq_ok_iff.1 h
  rw [read, Draft.formulaTokens_of_build (fun t member => ?_) built]
  exact (Token.wellSpelled_of_tokenize read t member).plain

/-! ## Serial numbers -/

namespace Draft

theorem serials_tree_opened (d : Draft) (f : String) :
    (d.opened f).tree.serials = d.tree.serials := by
  simp [Tree.serials, inorder_tree, opened]

/-- The nodes of a draft are numbered from left to right. -/
theorem Move.serials {d e : Draft} {t : Token} (move : Move d t e)
    (h : d.tree.serials = List.range d.size) : e.tree.serials = List.range e.size := by
  have growing : ∀ l : Label, d.demand ≠ .none →
      (d.descend l).tree.serials = List.range (d.size + 1) := by
    intro l called
    rw [Tree.serials, inorder_tree_descend d l (right_of_demand called), List.map_append,
      List.range_succ, ← h]
    rfl
  cases move with
  | descend operand called free => exact growing _ (ne_none_of_called called)
  | attach operand called isSign => exact growing _ (by simp [called])
  | openCall label => exact (serials_tree_opened d _).trans h
  | lead o called free => exact growing _ (by simp [called])
  | sign o called isSign => exact growing _ (ne_none_of_operator called)
  | splice o called free climbed =>
    have grown := inorder_tree_splice (splice_eq_ok_iff.2 ⟨_, _, climbed, rfl⟩)
    rw [Tree.serials, grown, List.map_append, spliced, List.range_succ, ← h]
    rfl
  | close free found => rwa [tree_of_toGroup? found]

theorem nodup_serials_of_build {ts : List Token} {T : Tree} (h : build ts = .ok T) :
    T.serials.Nodup := by
  obtain ⟨d, moves, -, rfl, -⟩ := exists_viable_of_build h
  rw [moves.preserves (P := fun d => d.tree.serials = List.range d.size) rfl Move.serials]
  exact List.nodup_range

end Draft

/-! ## Trees and tokens -/

/-- Building loses nothing: a tree reads back as the tokens that it was built from, so two formulas
have the same tree, and the same listing of it, exactly if they have the same tokens. -/
theorem formula_reads_back :
    (∀ ts T, (∀ t ∈ ts, t.Plain) → Draft.build ts = .ok T → T.formulaTokens = ts) ∧
      ∀ a b T U, parse a = .ok T → parse b = .ok U →
        (T = U ↔ tokenize a = tokenize b) ∧ (T.entries = U.entries ↔ tokenize a = tokenize b) := by
  refine ⟨fun ts T plain built => Draft.formulaTokens_of_build plain built, ?_⟩
  intro a b T U parsed parsed'
  have trees : T = U ↔ tokenize a = tokenize b := by
    constructor
    · rintro rfl
      rw [formulaTokens_of_parse parsed, formulaTokens_of_parse parsed']
    · intro same
      rw [parse, same] at parsed
      exact Except.ok.inj (parsed.symm.trans parsed')
  obtain ⟨ts, -, built⟩ := parse_eq_ok_iff.1 parsed
  exact ⟨trees, (Tree.entries_inj (Draft.nodup_serials_of_build built)).trans trees⟩

/-- Blanks make no difference to `-x`. -/
theorem formula_reads_back_signed :
    let T := Tree.node .nil ⟨0, .group⟩ (.node .nil ⟨1, .operator "-"⟩ (.leaf ⟨2, .var "x"⟩))
    T.formulaTokens = [⟨.operator, "-"⟩, ⟨.name, "x"⟩] ∧
      (T = T ↔ tokenize "-x" = tokenize " - x") ∧
        (T.entries = T.entries ↔ tokenize "-x" = tokenize " - x") := by
  have built : Draft.build [⟨.operator, "-"⟩, ⟨.name, "x"⟩] = .ok (.node .nil ⟨0, .group⟩
      (.node .nil ⟨1, .operator "-"⟩ (.leaf ⟨2, .var "x"⟩))) := rfl
  have read : tokenize "-x" = .ok [⟨.operator, "-"⟩, ⟨.name, "x"⟩] :=
    Token.tokenizeChars_of_next? rfl (Token.tokenizeChars_of_next? rfl Token.tokenizeChars_nil)
  have read' : tokenize " - x" = .ok [⟨.operator, "-"⟩, ⟨.name, "x"⟩] :=
    Token.tokenizeChars_of_next? rfl (Token.tokenizeChars_of_next? rfl Token.tokenizeChars_nil)
  exact ⟨formula_reads_back.1 _ _ (by decide) built, formula_reads_back.2 _ _ _ _
    (parse_eq_ok_iff.2 ⟨_, read, built⟩) (parse_eq_ok_iff.2 ⟨_, read', built⟩)⟩

end Formula
