import Formula.Draft
import Formula.Token.Lexer
import Formula.Tree.Value

/-!
# From text to value

## Main definitions

* `parse` — the tree of a text.
* `evaluate` — the value of a text.
-/

namespace Formula

/-- The tree of a text. -/
def parse (text : String) : Except Error Tree :=
  match tokenize text with
  | .error e => .error (.lex e)
  | .ok tokens => (Draft.build tokens).mapError .parse

/-- The value of a text under bindings for its variables. -/
def evaluate (text : String) (bindings : Bindings) : Except Error Float :=
  match parse text with
  | .error e => .error e
  | .ok t => (t.evaluate bindings).mapError .eval

end Formula
