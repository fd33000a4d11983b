import Formula.Engine

/-!
# Calls to an engine

Everything that an engine can be asked for, one call after another, and what the same calls come to
if nothing is ever remembered.

## Main definitions

* `Call`, `Call.Answer` — what can be asked for, and what comes of it.
* `Engine.call`, `Engine.run` — the answer to one call, and to a list of them.
* `Call.answer` — the answer of parsing and evaluating anew.
-/

namespace Formula

inductive Call where
  | parse (text : String)
  | evaluate (text : String) (bindings : Bindings)
  | evaluateAll (text : String) (contexts : List Bindings)
  | clear

inductive Call.Answer where
  | tree (result : Except Error Tree)
  | value (result : Except Error Float)
  | values (result : Except Error (List (Except EvalError Float)))
  | done

/-- The answer without an engine: every call parses its text. -/
def Call.answer : Call → Answer
  | .parse text => .tree (Formula.parse text)
  | .evaluate text bindings => .value (Formula.evaluate text bindings)
  | .evaluateAll text contexts =>
    .values ((Formula.parse text).map fun t => contexts.map fun bindings => t.evaluate bindings)
  | .clear => .done

namespace Engine

variable {σ : Type} [Store σ Shared]

/-- The answer to a call, with the messages meanwhile and the engine afterwards. -/
def call (e : Engine σ) : Call → Reply σ Call.Answer
  | .parse text =>
    let reply := e.request text
    { reply with result := .tree (reply.result.map Shared.tree) }
  | .evaluate text bindings =>
    let reply := e.evaluate text bindings
    { reply with result := .value reply.result }
  | .evaluateAll text contexts =>
    let reply := e.evaluateAll text contexts
    { reply with result := .values reply.result }
  | .clear => { result := .done, messages := [], engine := e.clear }

/-- The answers to a list of calls, in order. -/
def run (e : Engine σ) : List Call → List Call.Answer
  | [] => []
  | c :: calls => (e.call c).result :: (e.call c).engine.run calls

end Engine

end Formula
