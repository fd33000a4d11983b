import Formula.Error
import Formula.Tree

/-!
# Messages

What is told about the work on a text while it is done.

## Main definitions

* `Message`, `Message.text` — the messages and their wording.
* `Message.ofParse` — what is told while a text is parsed, given what comes of it.
-/

namespace Formula

inductive Message where
  | tokenizing (text : String)
  | built (size : Nat)
  /-- The tree of the text was remembered. -/
  | hit (text : String)
  | evaluatingAll (text : String) (count : Nat)
  deriving DecidableEq, Repr

namespace Message

def text : Message → String
  | .tokenizing s => "Tokenizing expression: " ++ s
  | .built size => "Built expression tree with " ++ toString size ++ " nodes"
  | .hit s => "Cache hit for expression: " ++ s
  | .evaluatingAll s count => "Evaluating " ++ s ++ " against " ++ toString count ++ " contexts"

/-- Reading tokens is told when it starts, a tree when it is finished. -/
def ofParse (source : String) (outcome : Except Error Tree) : List Message :=
  .tokenizing source ::
    match outcome with
    | .ok t => [.built t.size]
    | .error _ => []

end Message

end Formula
