/-!
# Tokens

A token is a piece of text that has a kind.

## Main definitions

* `Token.Kind` — the four kinds.
* `Token` — a kind with a text. Any text may be paired with any kind; `Token.WellSpelled` says which
  pairs can be read from a text.
* `Token.opening`, `Token.closing` — the parentheses.
-/

namespace Formula

inductive Token.Kind where
  | number | name | operator | parenthesis
  deriving DecidableEq, Repr

structure Token where
  kind : Token.Kind
  text : String
  deriving DecidableEq, Repr

namespace Token

def opening : Token := ⟨.parenthesis, "("⟩

def closing : Token := ⟨.parenthesis, ")"⟩

end Token

end Formula
