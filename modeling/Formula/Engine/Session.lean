import Formula.Engine
import Formula.Tree.Printer

/-!
# Sessions with an engine

A session is a run of commands on one engine. Trees that are asked for are registered in order of
first return, so that later commands can refer to them.

## Main definitions

* `Session`, `Session.ofCapacity` — an engine with the register of trees handed out.
* `Session.Command`, `Session.Answer` — what can be asked for and what comes of it.
* `Session.step`, `Session.run` — one command, and a list of them.
-/

namespace Formula

structure Session where
  engine : Engine (Recent Shared)
  register : List Shared

namespace Session

def ofCapacity (capacity : Nat) : Session where
  engine := .ofCapacity capacity
  register := []

inductive Command where
  | parse (text : String)
  | evaluate (text : String) (bindings : Bindings)
  | evaluateAll (text : String) (contexts : List Bindings)
  /-- Evaluates a registered tree. -/
  | evaluateTree (index : Nat) (bindings : Bindings)
  | clear
  /-- Asks for nothing but the number of trees remembered. -/
  | count

inductive Answer where
  | tree (index : Nat) (rendered : String)
  | value (x : Except Error Float)
  | values (xs : List (Except EvalError Float))
  | valueOfTree (x : Except EvalError Float)
  | failure (cause : Error)
  | done

/-- What came of one command, what was told meanwhile, and how many trees are remembered then. -/
structure Report where
  answer : Answer
  messages : List Message
  remembered : Nat

/-- The place of a tree in the register, with the register in which it has one. -/
def enter (register : List Shared) (shared : Shared) : Nat × List Shared :=
  match register.findIdx? fun other => other.serial == shared.serial with
  | some index => (index, register)
  | none => (register.length, register ++ [shared])

def report (answer : Answer) (messages : List Message) (s : Session) : Option Report × Session :=
  (some ⟨answer, messages, s.engine.remembered.size⟩, s)

/-- One command. A reference to a tree that is not registered is not answered. -/
def step (s : Session) : Command → Option Report × Session
  | .parse text =>
    let reply := s.engine.request text
    match reply.result with
    | .error cause => report (.failure cause) reply.messages { s with engine := reply.engine }
    | .ok shared =>
      let (index, register) := enter s.register shared
      report (.tree index shared.tree.render) reply.messages ⟨reply.engine, register⟩
  | .evaluate text bindings =>
    let reply := s.engine.evaluate text bindings
    report (.value reply.result) reply.messages { s with engine := reply.engine }
  | .evaluateAll text contexts =>
    let reply := s.engine.evaluateAll text contexts
    match reply.result with
    | .error cause => report (.failure cause) reply.messages { s with engine := reply.engine }
    | .ok xs => report (.values xs) reply.messages { s with engine := reply.engine }
  | .evaluateTree index bindings =>
    match s.register[index]? with
    | none => (none, s)
    | some shared => report (.valueOfTree (shared.tree.evaluate bindings)) [] s
  | .clear => report .done [] { s with engine := s.engine.clear }
  | .count => report .done [] s

/-- The reports of a list of commands, in order. -/
def run (s : Session) : List Command → List (Option Report)
  | [] => []
  | command :: commands =>
    let (answer, next) := s.step command
    answer :: next.run commands

end Session

end Formula
