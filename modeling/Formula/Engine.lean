import Formula.Engine.Recent
import Formula.Evaluation
import Formula.Message

/-!
# An engine that remembers trees

An engine parses texts and remembers their trees in a store. A text whose tree is remembered is not
parsed again; the very same tree is handed out. Whether a tree was remembered shows in the messages
and in which trees are the same, never in a value.

## Main definitions

* `Shared` — a tree that can be handed out more than once, with a number that no other one has.
* `Engine`, `Engine.ofStore` — the engine, and one that has made no tree yet.
* `Engine.ofCapacity` — an engine that remembers the trees it was asked for last.
* `Engine.request` — the tree of a text; every other use of the engine goes through it.
* `Engine.evaluate`, `Engine.evaluateAll` — values under one set of bindings, or under several.
-/

namespace Formula

structure Shared where
  serial : Nat
  tree : Tree
  deriving DecidableEq, Repr

/-- `made` counts the trees made so far, which numbers the next one. -/
structure Engine (σ : Type) where
  remembered : σ
  made : Nat

namespace Engine

variable {σ : Type}

def ofStore (remembered : σ) : Engine σ where
  remembered := remembered
  made := 0

/-- How many trees are remembered if nothing else is asked for. -/
def defaultCapacity : Nat := 100

/-- An engine that remembers at most `capacity` trees. -/
def ofCapacity (capacity : Nat) : Engine (Recent Shared) :=
  .ofStore (.empty capacity)

/-- What an engine answers, what it tells meanwhile, and the engine afterwards. -/
structure Reply (σ α : Type) where
  result : α
  messages : List Message
  engine : Engine σ

variable [Store σ Shared]

/-- The tree of a text. A text that does not parse leaves the engine as it was. -/
def request (e : Engine σ) (text : String) : Reply σ (Except Error Shared) :=
  match Store.touch? e.remembered text with
  | some (shared, remembered) =>
    { result := .ok shared
      messages := [.hit text]
      engine := { e with remembered := remembered } }
  | none =>
    match parse text with
    | .ok t =>
      { result := .ok ⟨e.made, t⟩
        messages := Message.ofParse text (.ok t)
        engine := ⟨Store.insert e.remembered text ⟨e.made, t⟩, e.made + 1⟩ }
    | .error cause =>
      { result := .error cause
        messages := Message.ofParse text (.error cause)
        engine := e }

/-- The value of a text. -/
def evaluate (e : Engine σ) (text : String) (bindings : Bindings) : Reply σ (Except Error Float) :=
  let reply := e.request text
  { reply with
    result := reply.result.bind fun shared => (shared.tree.evaluate bindings).mapError .eval }

/-- The values of a text under several bindings, in their order. -/
def evaluateAll (e : Engine σ) (text : String) (contexts : List Bindings) :
    Reply σ (Except Error (List (Except EvalError Float))) :=
  let reply := e.request text
  match reply.result with
  | .error cause => { reply with result := .error cause }
  | .ok shared =>
    { reply with
      result := .ok (shared.tree.evaluateAll contexts)
      messages := reply.messages ++ [.evaluatingAll text contexts.length] }

/-- The engine with nothing remembered. -/
def clear (e : Engine σ) : Engine σ :=
  { e with remembered := Store.clear e.remembered }

end Engine

end Formula
