import Formula.Error
import Formula.Text.Blank
import Formula.Token
import Formula.Vocabulary.Operator

/-!
# Reading tokens from a text

A text is read from its head: blanks are skipped, then the longest token is taken, and so on until
nothing is left. Blanks are skipped in front of a token only, so a text that ends in one is refused.

## Main definitions

* `Token.lexeme?` — the longest token at the head of a text, with what follows it.
* `Token.next?` — the same after skipping blanks.
* `tokenize` — all tokens of a text, or the remainder at which no token was found.

`Token.length_lt_of_next?` says that every token takes at least one character, which is why reading
ends.
-/

namespace Formula

namespace Token

/-! ## Character classes -/

def isNameStart (c : Char) : Bool :=
  c.isAlpha || c == '_'

def isNamePart (c : Char) : Bool :=
  c.isAlphanum || c == '_'

def isParenthesis (c : Char) : Bool :=
  c == '(' || c == ')'

def isOperator (c : Char) : Bool :=
  (Operator.ofSymbol? c.toString).isSome

/-! ## One token -/

/-- A point with the digits after it, if the text starts so; paired with the rest of the text. -/
def fraction : List Char → List Char × List Char
  | '.' :: d :: rest =>
    if d.isDigit then ('.' :: d :: rest.takeWhile Char.isDigit, rest.dropWhile Char.isDigit)
    else ([], '.' :: d :: rest)
  | rest => ([], rest)

/-- The longest token at the head of a text, with the rest of the text. -/
def lexeme? : List Char → Option (Token × List Char)
  | [] => none
  | c :: rest =>
    if isNameStart c then
      some (⟨.name, String.ofList (c :: rest.takeWhile isNamePart)⟩, rest.dropWhile isNamePart)
    else if c.isDigit then
      let (point, after) := fraction (rest.dropWhile Char.isDigit)
      some (⟨.number, String.ofList (c :: rest.takeWhile Char.isDigit ++ point)⟩, after)
    else if isParenthesis c then some (⟨.parenthesis, c.toString⟩, rest)
    else if isOperator c then some (⟨.operator, c.toString⟩, rest)
    else none

/-- The first token after any blanks, with the rest of the text. -/
def next? (cs : List Char) : Option (Token × List Char) :=
  lexeme? (cs.dropWhile Text.isBlank)

/-! ## What a token leaves behind -/

theorem fraction_append (cs : List Char) : (fraction cs).1 ++ (fraction cs).2 = cs := by
  unfold fraction
  split
  · split
    · simp
    · rfl
  · rfl

/-- A token is cut off the head of the text: it has a first character, and nothing is lost. -/
theorem exists_cons_of_lexeme? {cs rest : List Char} {t : Token}
    (h : lexeme? cs = some (t, rest)) :
    ∃ c more, t.text = String.ofList (c :: more) ∧ c :: more ++ rest = cs := by
  cases cs with
  | nil => simp [lexeme?] at h
  | cons c r =>
    simp only [lexeme?] at h
    split at h
    · obtain ⟨rfl, rfl⟩ := Prod.mk.inj (Option.some.inj h)
      exact ⟨c, _, rfl, by simp⟩
    · split at h
      · obtain ⟨rfl, rfl⟩ := Prod.mk.inj (Option.some.inj h)
        exact ⟨c, _, rfl, by simp [fraction_append]⟩
      · split at h
        · obtain ⟨rfl, rfl⟩ := Prod.mk.inj (Option.some.inj h)
          exact ⟨c, [], rfl, rfl⟩
        · split at h
          · obtain ⟨rfl, rfl⟩ := Prod.mk.inj (Option.some.inj h)
            exact ⟨c, [], rfl, rfl⟩
          · cases h

theorem length_lt_of_next? {cs rest : List Char} {t : Token} (h : next? cs = some (t, rest)) :
    rest.length < cs.length := by
  obtain ⟨c, more, -, split⟩ := exists_cons_of_lexeme? h
  have bound := (cs.dropWhile_sublist Text.isBlank).length_le
  rw [← split] at bound
  simp only [List.cons_append, List.length_cons, List.length_append] at bound
  omega

end Token

/-! ## All tokens -/

/-- The tokens of a text given by its characters. -/
def tokenizeChars (cs : List Char) : Except LexError (List Token) :=
  match h : Token.next? cs with
  | some (t, rest) =>
    have _shorter := Token.length_lt_of_next? h
    (t :: ·) <$> tokenizeChars rest
  | none => if cs.isEmpty then .ok [] else .error (.invalidSequence (String.ofList cs))
termination_by cs.length

/-- The tokens of a text in order. -/
def tokenize (text : String) : Except LexError (List Token) :=
  tokenizeChars text.toList

end Formula
