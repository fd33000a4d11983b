import Formula.Draft

/-!
# Writing on after a refusal

A draft that goes on after refused tokens: each of them is passed over.

## Main definitions

* `Draft.attempt` — the draft after a token, or the same draft if the token is refused.
* `Draft.transcript` — what every token of a list does, and what finishing after it gives.
* `Draft.taken` — the tokens of a list that are not refused.
-/

namespace Formula.Draft

/-- The draft after a token; a refused one changes nothing. -/
def attempt (d : Draft) (t : Token) : Draft :=
  (d.push t).toOption.getD d

/-- What became of one token: why it was refused, if it was, and what finishing after it gives. -/
structure Step where
  refusal : Option ParseError
  outcome : Except ParseError Tree

def refusal? (d : Draft) (t : Token) : Option ParseError :=
  match d.push t with
  | .ok _ => none
  | .error e => some e

/-- The steps of a list of tokens, in order. -/
def transcript (d : Draft) : List Token → List Step
  | [] => []
  | t :: tokens =>
    ⟨d.refusal? t, (d.attempt t).finish⟩ :: (d.attempt t).transcript tokens

/-- The draft after all tokens of a list, refused ones passed over. -/
def attemptAll (d : Draft) (tokens : List Token) : Draft :=
  tokens.foldl attempt d

/-- The tokens of a list that are not refused. -/
def taken (d : Draft) : List Token → List Token
  | [] => []
  | t :: tokens =>
    match d.push t with
    | .ok e => t :: e.taken tokens
    | .error _ => d.taken tokens

end Formula.Draft
