import Formula.Proofs.Token.Written

/-!
# Reading is the inverse of writing

A text is read as a list of tokens exactly if it is a written form of them. A token ends where no
character follows that would go on with it, so what two neighbours would make of each other's
characters never goes unnoticed: where they would run together, there are blanks between them.

## Main definitions

* `Token.Kind.goesOn` — the characters that would make a token of a kind longer.

`Token.written_of_tokenizeChars` is the induction and `tokenize_eq_ok_iff_written` the result.
`Token.length_le_of_lexeme?` says that the token that is read is the longest one.
-/

namespace Formula

namespace Token

/-! ## Where a token stops -/

/-- Whether a token of a kind would be read on into a character behind it. -/
def Kind.goesOn : Kind → Char → Bool
  | .name => isNamePart
  | .number => Char.isDigit
  | .parenthesis | .operator => fun _ => false

/-- A token that runs into another one would be read on into its first character. -/
theorem goesOn_of_runsInto {t u : Token} {c : Char} (runs : RunsInto t u)
    (start : u.kind.starts c = true) : t.kind.goesOn c = true := by
  rcases runs with ⟨name, name' | number⟩ | ⟨number, number'⟩
  · rw [name'] at start
    rw [name]
    exact isNamePart_iff.2 (.inl (isNameStart_iff.1 start))
  · rw [number] at start
    rw [name]
    exact isNamePart_iff.2 (.inr start)
  · rw [number'] at start
    rw [number]
    exact start

theorem head?_dropWhile {p : Char → Bool} {cs : List Char} :
    ∀ c ∈ (cs.dropWhile p).head?, p c = false := by
  intro c head
  have stopped := List.head?_dropWhile_not p cs
  rw [Option.mem_def.1 head] at stopped
  exact stopped

/-- No digit follows the digits behind a point. -/
theorem isDigit_head?_fraction {cs : List Char} (ends : ∀ c ∈ cs.head?, c.isDigit = false) :
    ∀ c ∈ (fraction cs).2.head?, c.isDigit = false := by
  unfold fraction
  split
  · split
    · exact head?_dropWhile
    · exact ends
  · exact ends

/-- What follows a token that has been read does not go on with it. -/
theorem goesOn_of_lexeme? {cs rest : List Char} {t : Token} (h : lexeme? cs = some (t, rest)) :
    ∀ c ∈ rest.head?, t.kind.goesOn c = false := by
  cases cs with
  | nil => cases h
  | cons c cs =>
    simp only [lexeme?] at h
    split at h
    · cases h
      exact head?_dropWhile
    · split at h
      · cases h
        exact isDigit_head?_fraction head?_dropWhile
      · split at h
        · cases h
          exact fun _ _ => rfl
        · split at h <;> cases h
          exact fun _ _ => rfl

/-! ## What is read has been written -/

/-- A text is a written form of the tokens that are read from it, after any token that does not go
on with its first character. -/
theorem written_of_tokenizeChars {before : Option Token} {ts : List Token} {cs : List Char}
    (h : tokenizeChars cs = .ok ts)
    (stops : ∀ b ∈ before, ∀ c ∈ cs.head?, b.kind.goesOn c = false) : Written before ts cs := by
  induction ts generalizing before cs with
  | nil =>
    obtain rfl := tokenizeChars_eq_nil_iff.1 h
    exact .nil
  | cons t ts ih =>
    obtain ⟨rest, found, more⟩ := tokenizeChars_eq_cons_iff.1 h
    have spelled := wellSpelled_of_lexeme? found
    have next : Written (some t) ts rest := ih more fun b same =>
      Option.some.inj same ▸ goesOn_of_lexeme? found
    have whole : cs.takeWhile Text.isBlank ++ t.text.toList ++ rest = cs := by
      obtain ⟨c, tail, text, split⟩ := exists_cons_of_lexeme? found
      rw [text, String.toList_ofList, List.append_assoc, split, List.takeWhile_append_dropWhile]
    -- without a blank the token before would have been read on into this one
    have apart : ∀ b ∈ before, RunsInto b t → cs.takeWhile Text.isBlank ≠ [] := by
      intro b preceding runs none
      obtain ⟨c, tail, same, start⟩ := exists_starts_of_spells spelled
      have head : c ∈ cs.head? := by
        rw [← whole, none, same]
        exact rfl
      have stopped := stops b preceding c head
      rw [goesOn_of_runsInto runs start] at stopped
      cases stopped
    have written := Written.cons (List.all_eq_true.1 List.all_takeWhile) spelled apart next
    rwa [whole] at written

/-! ## The longest token -/

theorem length_le_takeWhile {p : Char → Bool} {cs : List Char} (run : ∀ c ∈ cs, p c = true)
    (rest : List Char) : cs.length ≤ ((cs ++ rest).takeWhile p).length := by
  rw [List.takeWhile_append_of_pos run, List.length_append]
  omega

/-- Of all beginnings of a text that spell a token, the one that is read is the longest. -/
theorem length_le_of_lexeme? {kind : Kind} {cs more rest : List Char} {t : Token}
    (spelled : kind.Spells cs) (h : lexeme? (cs ++ more) = some (t, rest)) :
    cs.length ≤ t.text.toList.length := by
  have single : 1 ≤ t.text.toList.length := by
    obtain ⟨c, tail, text, -⟩ := exists_cons_of_lexeme? h
    simp [text]
  cases spelled with
  | @name c cs start part =>
    have run := length_le_takeWhile (p := isNamePart)
      (fun d member => isNamePart_iff.2 (part d member)) more
    simp only [List.cons_append, lexeme?, isNameStart_iff.2 start, if_true, Option.some.injEq,
      Prod.mk.injEq] at h
    rw [← h.1, String.toList_ofList]
    simp only [List.length_cons]
    omega
  | whole digits =>
    obtain ⟨nonempty, all⟩ := digits
    cases cs with
    | nil => exact absurd rfl nonempty
    | cons d cs =>
      obtain ⟨digit, others⟩ := List.forall_mem_cons.1 all
      have run := length_le_takeWhile others more
      have name : isNameStart d = false := @starts_eq_false .number .name d digit (by decide)
      simp only [List.cons_append, lexeme?, name, digit, Bool.false_eq_true, if_false, if_true,
        Option.some.injEq, Prod.mk.injEq] at h
      rw [← h.1, String.toList_ofList]
      simp only [List.length_cons, List.length_append]
      omega
  | @fraction digits places whole' part =>
    obtain ⟨nonempty, all⟩ := part
    cases places with
    | nil => exact absurd rfl nonempty
    | cons d places =>
      obtain ⟨digit, others⟩ := List.forall_mem_cons.1 all
      have run := length_le_takeWhile others more
      rw [List.append_assoc, lexeme?_of_digits whole' (by simp)] at h
      simp only [List.cons_append, fraction, digit, if_true, Option.some.injEq, Prod.mk.injEq] at h
      rw [← h.1, String.toList_ofList]
      simp only [List.length_cons, List.length_append]
      omega
  | opening | closing | operator o => exact single

/-! ## Written forms -/

/-- Written forms are put together where the second one goes on from the last token of the first. -/
theorem Written.append {before : Option Token} {ts us : List Token} {cs ds : List Char}
    (h : Written before ts cs) (h' : Written (ts.getLast?.or before) us ds) :
    Written before (ts ++ us) (cs ++ ds) := by
  induction h with
  | nil => exact h'
  | @cons _ t ts blanks rest blank spelled apart next ih =>
    rw [List.append_assoc]
    refine .cons blank spelled apart (ih ?_)
    rwa [List.getLast?_cons, Option.some_or, ← Option.or_some] at h'

/-- Blanks may be added in front of any token, and behind them it may follow any other one. -/
theorem Written.blanks {before before' : Option Token} {ts : List Token} {blanks cs : List Char}
    (h : Written before ts cs) (some : ts ≠ []) (blank : ∀ c ∈ blanks, Text.isBlank c = true)
    (place : blanks = [] → before' = before) : Written before' ts (blanks ++ cs) := by
  cases h with
  | nil => exact absurd rfl some
  | @cons _ t ts gap rest blank' spelled apart next =>
    rw [← List.append_assoc, ← List.append_assoc]
    refine .cons (List.forall_mem_append.2 ⟨blank, blank'⟩) spelled ?_ next
    intro b preceding runs none
    obtain ⟨bare, bare'⟩ := List.append_eq_nil_iff.1 none
    exact apart b (place bare ▸ preceding) runs bare'

/-- Well spelled tokens are written with a space between any two of them. -/
theorem written_intercalate {ts : List Token} (spelled : ∀ t ∈ ts, t.WellSpelled) :
    Written none ts ([' '].intercalate (ts.map fun t => t.text.toList)) := by
  induction ts with
  | nil => exact .nil
  | cons t ts ih =>
    obtain ⟨first, others⟩ := List.forall_mem_cons.1 spelled
    have alone : Written none [t] ([] ++ t.text.toList ++ []) := .cons nofun first nofun .nil
    cases ts with
    | nil => simpa using alone
    | cons u ts =>
      have behind : Written (some t) (u :: ts) ([' '] ++ _) :=
        (ih others).blanks (List.cons_ne_nil _ _) (List.all_eq_true.1 rfl) (nomatch ·)
      simpa using alone.append behind

end Token

/-! ## Texts -/

open Token

/-- A text is read as a list of tokens exactly if it is a written form of them. So it is one of no
other list, blanks may be added wherever a token starts, and tokens with spaces between them are
read as they are. The token that is read at the head of a text is the longest one there. -/
theorem tokenize_eq_ok_iff_written :
    (∀ text ts, tokenize text = .ok ts ↔ Written none ts text.toList) ∧
    (∀ (text : String) ts us, Written none ts text.toList → Written none us text.toList →
      ts = us) ∧
    (∀ ts us cs ds blanks, Written none ts cs → Written ts.getLast? us ds → us ≠ [] →
      (∀ c ∈ blanks, Text.isBlank c = true) →
        tokenize (.ofList (cs ++ blanks ++ ds)) = .ok (ts ++ us)) ∧
    (∀ ts, (∀ t ∈ ts, t.WellSpelled) →
      tokenize (" ".intercalate (ts.map Token.text)) = .ok ts) ∧
    ∀ blanks cs more t rest kind, (∀ c ∈ blanks, Text.isBlank c = true) → Kind.Spells kind cs →
      next? (blanks ++ cs ++ more) = some (t, rest) → cs.length ≤ t.text.toList.length := by
  have reading : ∀ text ts, tokenize text = .ok ts ↔ Written none ts text.toList := fun text ts =>
    ⟨fun read => written_of_tokenizeChars read nofun, tokenizeChars_of_written⟩
  refine ⟨reading, ?_, ?_, ?_, ?_⟩
  · intro text ts us written written'
    exact Except.ok.inj (((reading text ts).2 written).symm.trans ((reading text us).2 written'))
  · intro ts us cs ds blanks written written' some blank
    rw [reading, String.toList_ofList, List.append_assoc]
    exact written.append (written'.blanks some blank fun _ => Option.or_none)
  · intro ts spelled
    rw [reading, String.toList_intercalate, List.map_map]
    exact written_intercalate spelled
  · intro blanks cs more t rest kind blank spelled found
    rw [next?, dropWhile_isBlank_append blank spelled] at found
    exact length_le_of_lexeme? spelled found

/-- Neither in `2x` nor between `x` and `10` does anything change if there are more blanks. -/
theorem tokenize_two_x :
    let ts : List Token := [⟨.number, "2"⟩, ⟨.name, "x"⟩, ⟨.number, "10"⟩]
    tokenize "2x 10" = .ok ts ∧ (∀ us, Written none us "2x 10".toList → ts = us) ∧
      tokenize (.ofList (['2'] ++ ['\t', ' '] ++ "x 10".toList)) = .ok ts ∧
      tokenize (" ".intercalate ["2", "x", "10"]) = .ok ts ∧ ['1'].length ≤ ['1', '0'].length := by
  have two : Kind.Spells .number ['2'] := .whole ⟨List.cons_ne_nil _ _, List.all_eq_true.1 rfl⟩
  have ten : Kind.Spells .number ['1', '0'] := .whole ⟨List.cons_ne_nil _ _, List.all_eq_true.1 rfl⟩
  have x : Kind.Spells .name ['x'] := .name (.inl rfl) nofun
  have last : Written (some ⟨.name, "x"⟩) [⟨.number, "10"⟩] ([' '] ++ ['1', '0'] ++ []) :=
    .cons (List.all_eq_true.1 rfl) ten (by simp) .nil
  have behind : Written (some ⟨.number, "2"⟩) [⟨.name, "x"⟩, ⟨.number, "10"⟩]
      ([] ++ ['x'] ++ [' ', '1', '0']) := .cons (by simp) x (by simp [RunsInto]) last
  have first : Written none [⟨.number, "2"⟩] ([] ++ ['2'] ++ []) :=
    .cons (by simp) two (by simp) .nil
  have whole := first.append behind
  obtain ⟨reading, unique, blanks, spaces, longest⟩ := tokenize_eq_ok_iff_written
  refine ⟨(reading _ _).2 whole, fun us => unique "2x 10" _ us whole, ?_, ?_, ?_⟩
  · exact blanks _ _ _ _ _ first behind (List.cons_ne_nil _ _) (List.all_eq_true.1 rfl)
  · refine spaces [⟨.number, "2"⟩, ⟨.name, "x"⟩, ⟨.number, "10"⟩] ?_
    simp [WellSpelled, two, ten, x]
  · exact longest [' '] ['1'] ['0'] ⟨.number, "10"⟩ [] .number (List.all_eq_true.1 rfl)
      (.whole ⟨List.cons_ne_nil _ _, List.all_eq_true.1 rfl⟩) rfl

end Formula
