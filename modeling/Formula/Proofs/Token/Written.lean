import Formula.Token.Lexer
import Formula.Token.Spelling

/-!
# Reading what has been written

A written form of a list of tokens is read back as that list, and every token that is read from a
text is well spelled.

## Main definitions

* `Token.Kind.starts` — the characters that a token of a kind can start with.
* `Token.Kind.Ends` — what may follow a token of a kind without being read on into it.

The main results are `tokenizeChars_of_written` and `wellSpelled_of_tokenize`.
-/

namespace Formula

namespace Token

/-! ## Character classes -/

theorem isDigit_iff {c : Char} : c.isDigit = true ↔ 48 ≤ c.toNat ∧ c.toNat ≤ 57 := by
  simp only [Char.isDigit, Bool.and_eq_true, decide_eq_true_eq, ge_iff_le, UInt32.le_iff_toNat_le]
  rfl

theorem isAlpha_iff {c : Char} :
    c.isAlpha = true ↔ (65 ≤ c.toNat ∧ c.toNat ≤ 90) ∨ (97 ≤ c.toNat ∧ c.toNat ≤ 122) := by
  have ranges : c.isAlpha =
      (decide (65 ≤ c.val ∧ c.val ≤ 90) || decide (97 ≤ c.val) && decide (c.val ≤ 122)) :=
    rfl
  simp only [ranges, Bool.or_eq_true, Bool.and_eq_true, decide_eq_true_eq,
    UInt32.le_iff_toNat_le]
  rfl

theorem isNameStart_iff {c : Char} : isNameStart c = true ↔ IsNameStart c := by
  simp [isNameStart, IsNameStart]

theorem isNamePart_iff {c : Char} : isNamePart c = true ↔ IsNamePart c := by
  simp only [isNamePart, IsNamePart, IsNameStart, Char.isAlphanum, Bool.or_eq_true, beq_iff_eq]
  grind

theorem isOperator_iff {c : Char} : isOperator c = true ↔ ∃ o : Operator, o.char = c := by
  rw [isOperator, Option.isSome_iff_exists]
  refine exists_congr fun o => ?_
  rw [Operator.ofSymbol?_eq_some_iff, Operator.symbol]
  constructor
  · intro same
    simpa using congrArg String.toList same
  · rintro rfl
    rfl

/-- What a token of a kind can start with. -/
def Kind.starts : Kind → Char → Bool
  | .name => isNameStart
  | .number => Char.isDigit
  | .parenthesis => isParenthesis
  | .operator => isOperator

/-- The codes of the characters that a token of a kind can start with. -/
def Kind.Codes : Kind → Nat → Prop
  | .name, code => (65 ≤ code ∧ code ≤ 90) ∨ code = 95 ∨ (97 ≤ code ∧ code ≤ 122)
  | .number, code => 48 ≤ code ∧ code ≤ 57
  | .parenthesis, code => code = 40 ∨ code = 41
  | .operator, code => code = 42 ∨ code = 43 ∨ code = 45 ∨ code = 47 ∨ code = 94

theorem codes_of_starts {kind : Kind} {c : Char} (h : kind.starts c = true) :
    kind.Codes c.toNat := by
  cases kind with
  | name =>
    rcases isNameStart_iff.1 h with letter | rfl
    · rcases isAlpha_iff.1 letter with upper | lower
      · exact .inl upper
      · exact .inr (.inr lower)
    · exact .inr (.inl rfl)
  | number => exact isDigit_iff.1 h
  | parenthesis =>
    simp only [Kind.starts, isParenthesis, Bool.or_eq_true, beq_iff_eq] at h
    rcases h with rfl | rfl
    · exact .inl rfl
    · exact .inr rfl
  | operator =>
    obtain ⟨o, rfl⟩ := isOperator_iff.1 h
    cases o <;> simp [Kind.Codes, Operator.char]

theorem toNat_of_isBlank {c : Char} (h : Text.isBlank c = true) :
    c.toNat ≤ 32 ∨ 133 ≤ c.toNat := by
  simp only [Text.isBlank, Text.blankRanges, List.any_cons, List.any_nil, Bool.or_false,
    Bool.or_eq_true, Bool.and_eq_true, decide_eq_true_eq] at h
  omega

theorem isBlank_of_starts {kind : Kind} {c : Char} (h : kind.starts c = true) :
    Text.isBlank c = false := by
  refine Bool.eq_false_iff.2 fun blank => ?_
  have code := codes_of_starts h
  have range := toNat_of_isBlank blank
  cases kind <;> simp only [Kind.Codes] at code <;> omega

/-- No character starts tokens of two kinds. -/
theorem starts_unique {kind kind' : Kind} {c : Char} (h : kind.starts c = true)
    (h' : kind'.starts c = true) : kind = kind' := by
  have code := codes_of_starts h
  have code' := codes_of_starts h'
  cases kind <;> cases kind' <;> simp only [Kind.Codes] at code code' <;> first | rfl | omega

/-! ## Where a token ends -/

/-- What may follow a token of a kind directly. -/
def Kind.Ends : Kind → Char → Prop
  | .name, c => isNamePart c = false
  | .number, c => c.isDigit = false ∧ c ≠ '.'
  | .parenthesis, _ | .operator, _ => True

theorem isNamePart_eq_false {c : Char} (name : isNameStart c = false) (digit : c.isDigit = false) :
    isNamePart c = false := by
  refine Bool.eq_false_iff.2 fun part => ?_
  rcases isNamePart_iff.1 part with start | isDigit
  · simp [isNameStart_iff.2 start] at name
  · simp [isDigit] at digit

theorem ends_of_isBlank {c : Char} (kind : Kind) (h : Text.isBlank c = true) : kind.Ends c := by
  have other : ∀ kind : Kind, kind.starts c = false := fun kind =>
    Bool.eq_false_iff.2 fun start => by simp [isBlank_of_starts start] at h
  cases kind with
  | name => exact isNamePart_eq_false (other .name) (other .number)
  | number =>
    refine ⟨other .number, ?_⟩
    rintro rfl
    exact absurd h (by decide)
  | parenthesis | operator => trivial

/-- The first character of a token that an earlier one does not run into ends the earlier one. -/
theorem ends_of_starts {t u : Token} {c : Char} (start : u.kind.starts c = true)
    (apart : ¬ RunsInto t u) : t.kind.Ends c := by
  have point : c ≠ '.' := by
    rintro rfl
    have code := codes_of_starts start
    cases kind : u.kind <;> simp [Kind.Codes, kind] at code
  have other : ∀ kind : Kind, u.kind ≠ kind → kind.starts c = false := fun kind differs =>
    Bool.eq_false_iff.2 fun start' => differs (starts_unique start start')
  cases kind : t.kind with
  | name =>
    have apart : u.kind ≠ .name ∧ u.kind ≠ .number := by
      simpa [RunsInto, kind] using apart
    exact isNamePart_eq_false (other .name apart.1) (other .number apart.2)
  | number =>
    have apart : u.kind ≠ .number := by simpa [RunsInto, kind] using apart
    exact ⟨other .number apart, point⟩
  | parenthesis | operator => trivial

theorem exists_starts_of_spells {kind : Kind} {cs : List Char} (h : kind.Spells cs) :
    ∃ c rest, cs = c :: rest ∧ kind.starts c = true := by
  have digits : ∀ {ds : List Char}, IsDigits ds → ∃ c rest, ds = c :: rest ∧ c.isDigit = true := by
    rintro (_ | ⟨c, rest⟩) ⟨nonempty, all⟩
    · exact absurd rfl nonempty
    · exact ⟨c, rest, rfl, all c List.mem_cons_self⟩
  cases h with
  | name start part => exact ⟨_, _, rfl, isNameStart_iff.2 start⟩
  | whole h => exact digits h
  | fraction h h' =>
    obtain ⟨c, rest, rfl, digit⟩ := digits h
    exact ⟨c, _, rfl, digit⟩
  | opening | closing => exact ⟨_, _, rfl, rfl⟩
  | operator o => exact ⟨_, _, rfl, isOperator_iff.2 ⟨o, rfl⟩⟩

/-! ## Reading one token -/

theorem starts_eq_false {kind kind' : Kind} {c : Char} (h : kind.starts c = true)
    (differs : kind ≠ kind') : kind'.starts c = false :=
  Bool.eq_false_iff.2 fun h' => differs (starts_unique h h')

/-- A run of characters that all satisfy `p` is cut off where one follows that does not. -/
theorem span_append {p : Char → Bool} {cs rest : List Char} (run : ∀ c ∈ cs, p c = true)
    (ends : ∀ c ∈ rest.head?, p c = false) :
    (cs ++ rest).takeWhile p = cs ∧ (cs ++ rest).dropWhile p = rest := by
  rw [List.takeWhile_append_of_pos run, List.dropWhile_append_of_pos run]
  cases rest with
  | nil => simp
  | cons c rest => simp [ends c rfl]

theorem fraction_eq_nil {rest : List Char} (ends : ∀ c ∈ rest.head?, c ≠ '.') :
    fraction rest = ([], rest) := by
  unfold fraction
  split
  · exact absurd rfl (ends _ rfl)
  · rfl

theorem fraction_append_of_digits {places rest : List Char} (digits : IsDigits places)
    (ends : ∀ c ∈ rest.head?, c.isDigit = false) :
    fraction ('.' :: places ++ rest) = ('.' :: places, rest) := by
  obtain ⟨nonempty, all⟩ := digits
  cases places with
  | nil => exact absurd rfl nonempty
  | cons d places =>
    obtain ⟨digit, more⟩ := List.forall_mem_cons.1 all
    obtain ⟨run, after⟩ := span_append more ends
    simp [fraction, digit, run, after]

/-- A number is read up to where its digits and what `fraction` takes end. -/
theorem lexeme?_of_digits {digits rest : List Char} (h : IsDigits digits)
    (ends : ∀ c ∈ rest.head?, c.isDigit = false) :
    lexeme? (digits ++ rest) =
      some (⟨.number, String.ofList (digits ++ (fraction rest).1)⟩, (fraction rest).2) := by
  obtain ⟨nonempty, all⟩ := h
  cases digits with
  | nil => exact absurd rfl nonempty
  | cons d digits =>
    obtain ⟨digit, more⟩ := List.forall_mem_cons.1 all
    obtain ⟨run, after⟩ := span_append more ends
    have other : isNameStart d = false :=
      @starts_eq_false .number .name d digit (by decide)
    simp [lexeme?, digit, other, run, after]

theorem lexeme?_parenthesis {c : Char} (rest : List Char) (h : isParenthesis c = true) :
    lexeme? (c :: rest) = some (⟨.parenthesis, String.singleton c⟩, rest) := by
  have other := fun kind => @starts_eq_false .parenthesis kind c h
  have name : isNameStart c = false := other .name (by decide)
  have digit : c.isDigit = false := other .number (by decide)
  simp [lexeme?, h, name, digit, Char.toString]

theorem lexeme?_operator (o : Operator) (rest : List Char) :
    lexeme? (o.char :: rest) = some (⟨.operator, String.singleton o.char⟩, rest) := by
  have h := isOperator_iff.2 ⟨o, rfl⟩
  have other := fun kind => @starts_eq_false .operator kind o.char h
  have name : isNameStart o.char = false := other .name (by decide)
  have digit : o.char.isDigit = false := other .number (by decide)
  have parenthesis : isParenthesis o.char = false := other .parenthesis (by decide)
  simp [lexeme?, h, name, digit, parenthesis, Char.toString]

/-- A token is read off the head of a text if what follows ends it. -/
theorem lexeme?_append {kind : Kind} {cs rest : List Char} (spelled : kind.Spells cs)
    (ends : ∀ c ∈ rest.head?, kind.Ends c) :
    lexeme? (cs ++ rest) = some (⟨kind, String.ofList cs⟩, rest) := by
  cases spelled with
  | @name c cs start part =>
    obtain ⟨run, after⟩ := span_append (fun d member => isNamePart_iff.2 (part d member)) ends
    simp [lexeme?, isNameStart_iff.2 start, run, after]
  | whole digits =>
    rw [lexeme?_of_digits digits fun c head => (ends c head).1,
      fraction_eq_nil fun c head => (ends c head).2, List.append_nil]
  | fraction digits places =>
    rw [List.append_assoc, lexeme?_of_digits digits (by simp),
      fraction_append_of_digits places fun c head => (ends c head).1]
  | opening | closing => exact lexeme?_parenthesis rest rfl
  | operator o => exact lexeme?_operator o rest

/-! ## Reading what has been written -/

theorem tokenizeChars_nil : tokenizeChars [] = .ok [] := by
  rw [tokenizeChars]
  rfl

theorem tokenizeChars_of_next? {cs rest : List Char} {t : Token} {ts : List Token}
    (h : next? cs = some (t, rest)) (h' : tokenizeChars rest = .ok ts) :
    tokenizeChars cs = .ok (t :: ts) := by
  rw [tokenizeChars]
  split
  · next u rest' h'' =>
    obtain ⟨rfl, rfl⟩ := Prod.mk.inj (Option.some.inj (h.symm.trans h''))
    rw [h']
    rfl
  · next h'' => cases h.symm.trans h''

/-- What is written after a token ends it. -/
theorem Written.ends {t : Token} {ts : List Token} {cs : List Char} (h : Written (some t) ts cs) :
    ∀ c ∈ cs.head?, t.kind.Ends c := by
  cases h with
  | nil => nofun
  | @cons _ u us blanks rest blank spelled apart next =>
    obtain ⟨c, more, text, start⟩ := exists_starts_of_spells spelled
    cases blanks with
    | nil =>
      rw [text]
      rintro _ ⟨⟩
      exact ends_of_starts start fun runs => apart t rfl runs rfl
    | cons b blanks =>
      rintro _ ⟨⟩
      exact ends_of_isBlank t.kind (blank _ List.mem_cons_self)

/-- Blanks in front of a token are skipped, and nothing else is. -/
theorem dropWhile_isBlank_append {kind : Kind} {blanks cs : List Char}
    (blank : ∀ c ∈ blanks, Text.isBlank c = true) (spelled : kind.Spells cs) (rest : List Char) :
    (blanks ++ cs ++ rest).dropWhile Text.isBlank = cs ++ rest := by
  obtain ⟨c, more, rfl, start⟩ := exists_starts_of_spells spelled
  rw [List.append_assoc, List.dropWhile_append_of_pos blank]
  simp [isBlank_of_starts start]

/-- A written form of a list of tokens is read as that list. -/
theorem tokenizeChars_of_written {before : Option Token} {ts : List Token} {cs : List Char}
    (h : Written before ts cs) : tokenizeChars cs = .ok ts := by
  induction h with
  | nil => exact tokenizeChars_nil
  | @cons _ t ts blanks rest blank spelled apart next ih =>
    refine tokenizeChars_of_next? ?_ ih
    rw [next?, dropWhile_isBlank_append blank spelled, lexeme?_append spelled next.ends,
      String.ofList_toList]

/-! ## What tokens are read -/

theorem isDigits_cons {c : Char} (digit : c.isDigit = true) (cs : List Char) :
    IsDigits (c :: cs.takeWhile Char.isDigit) :=
  ⟨List.cons_ne_nil _ _, List.forall_mem_cons.2 ⟨digit, List.all_eq_true.1 List.all_takeWhile⟩⟩

theorem fraction_fst_eq_nil_or (cs : List Char) :
    (fraction cs).1 = [] ∨ ∃ places, IsDigits places ∧ (fraction cs).1 = '.' :: places := by
  unfold fraction
  split
  · split
    · next digit => exact .inr ⟨_, isDigits_cons digit _, rfl⟩
    · exact .inl rfl
  · exact .inl rfl

theorem wellSpelled_of_lexeme? {cs rest : List Char} {t : Token}
    (h : lexeme? cs = some (t, rest)) : t.WellSpelled := by
  cases cs with
  | nil => cases h
  | cons c cs =>
    simp only [lexeme?] at h
    split at h
    · next start =>
      cases h
      rw [WellSpelled, String.toList_ofList]
      exact .name (isNameStart_iff.1 start) fun d member =>
        isNamePart_iff.1 (List.all_eq_true.1 List.all_takeWhile d member)
    · split at h
      · next digit =>
        cases h
        rw [WellSpelled, String.toList_ofList]
        rcases fraction_fst_eq_nil_or (cs.dropWhile Char.isDigit) with none | ⟨places, digits, some⟩
        · rw [none, List.append_nil]
          exact .whole (isDigits_cons digit cs)
        · rw [some]
          exact .fraction (isDigits_cons digit cs) digits
      · split at h
        · next parenthesis =>
          cases h
          simp only [isParenthesis, Bool.or_eq_true, beq_iff_eq] at parenthesis
          rcases parenthesis with rfl | rfl
          · exact .opening
          · exact .closing
        · split at h
          · next operator =>
            cases h
            obtain ⟨o, rfl⟩ := isOperator_iff.1 operator
            simpa [WellSpelled, Char.toString] using Kind.Spells.operator o
          · cases h

theorem tokenizeChars_eq_nil_iff {cs : List Char} : tokenizeChars cs = .ok [] ↔ cs = [] := by
  constructor
  · intro h
    rw [tokenizeChars] at h
    split at h
    · next rest found =>
      cases more : tokenizeChars rest <;> rw [more] at h <;> cases h
    · split at h
      · next empty => exact List.isEmpty_iff.1 empty
      · cases h
  · rintro rfl
    exact tokenizeChars_nil

/-- A first token is read, and then the others from what it leaves. -/
theorem tokenizeChars_eq_cons_iff {cs : List Char} {t : Token} {ts : List Token} :
    tokenizeChars cs = .ok (t :: ts) ↔
      ∃ rest, next? cs = some (t, rest) ∧ tokenizeChars rest = .ok ts := by
  constructor
  · intro h
    rw [tokenizeChars] at h
    split at h
    · next u rest found =>
      cases more : tokenizeChars rest with
      | error e =>
        rw [more] at h
        cases h
      | ok us =>
        rw [more] at h
        cases h
        exact ⟨rest, found, more⟩
    · split at h <;> cases h
  · rintro ⟨rest, found, more⟩
    exact tokenizeChars_of_next? found more

/-- The tokens of a text are well spelled. -/
theorem wellSpelled_of_tokenize {text : String} {ts : List Token} (h : tokenize text = .ok ts) :
    ∀ t ∈ ts, t.WellSpelled := by
  rw [tokenize] at h
  generalize text.toList = cs at h
  induction ts generalizing cs with
  | nil => simp
  | cons t ts ih =>
    obtain ⟨rest, found, more⟩ := tokenizeChars_eq_cons_iff.1 h
    exact List.forall_mem_cons.2 ⟨wellSpelled_of_lexeme? found, ih rest more⟩

end Token

end Formula
