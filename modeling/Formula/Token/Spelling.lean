import Formula.Text.Blank
import Formula.Token
import Formula.Vocabulary.Operator

/-!
# How tokens are spelled

Which texts spell a token of a kind, and which texts are written forms of a list of tokens: the
tokens in order with blanks in front of any of them. Where two tokens would run together there has
to be a blank.

## Main definitions

* `Token.IsNameStart`, `Token.IsNamePart` — the letters of names.
* `Token.Kind.Spells` — the texts of each kind.
* `Token.RunsInto` — a token that would go on into the next one.
* `Token.Written` — the written forms of a list of tokens.
-/

namespace Formula.Token

/-- A letter or an underscore. -/
def IsNameStart (c : Char) : Prop :=
  c.isAlpha = true ∨ c = '_'

/-- A letter, a digit or an underscore. -/
def IsNamePart (c : Char) : Prop :=
  IsNameStart c ∨ c.isDigit = true

/-- At least one character, and digits only. -/
def IsDigits (cs : List Char) : Prop :=
  cs ≠ [] ∧ ∀ c ∈ cs, c.isDigit = true

/-- The texts that spell a token of a kind. -/
inductive Kind.Spells : Kind → List Char → Prop where
  | name {c : Char} {rest : List Char} (start : IsNameStart c) (part : ∀ d ∈ rest, IsNamePart d) :
    Spells .name (c :: rest)
  | whole {digits : List Char} (h : IsDigits digits) : Spells .number digits
  | fraction {digits places : List Char} (h : IsDigits digits) (h' : IsDigits places) :
    Spells .number (digits ++ '.' :: places)
  | opening : Spells .parenthesis ['(']
  | closing : Spells .parenthesis [')']
  | operator (o : Operator) : Spells .operator [o.char]

def WellSpelled (t : Token) : Prop :=
  t.kind.Spells t.text.toList

/-- Whether a token directly followed by another one would be read on into it. -/
def RunsInto (t u : Token) : Prop :=
  t.kind = .name ∧ (u.kind = .name ∨ u.kind = .number) ∨ t.kind = .number ∧ u.kind = .number

/-- The written forms of a list of tokens that follows `before`, if it follows any token. -/
inductive Written : Option Token → List Token → List Char → Prop where
  | nil {before : Option Token} : Written before [] []
  | cons {before : Option Token} {t : Token} {ts : List Token} {blanks rest : List Char}
      (blank : ∀ c ∈ blanks, Text.isBlank c = true)
      (spelled : t.WellSpelled)
      (apart : ∀ b ∈ before, RunsInto b t → blanks ≠ [])
      (next : Written (some t) ts rest) :
    Written before (t :: ts) (blanks ++ t.text.toList ++ rest)

end Formula.Token
