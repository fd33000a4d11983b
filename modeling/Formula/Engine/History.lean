import Formula.Engine.Call

/-!
# What an engine was asked for

The calls made to an engine say which texts were asked for last, whatever the engine remembers.

## Main definitions

* `Call.text?`, `Call.recent` — the text a call asks for, and the texts that parse among those asked
  for since everything was forgotten, the latest first.
* `Engine.after` — the engine after a list of calls.
* `Engine.given` — the trees handed out meanwhile, each with its text.
-/

namespace Formula

namespace Call

/-- The text whose tree is asked for. -/
def text? : Call → Option String
  | .parse text | .evaluate text _ | .evaluateAll text _ => some text
  | .clear => none

/-- The texts that were asked for and parse, without repetitions and with the latest first, going
back no further than the last time that everything was to be forgotten. -/
def recent (calls : List Call) : List String :=
  let sinceClear := calls.reverse.takeWhile fun c => c.text?.isSome
  ((sinceClear.filterMap text?).filter fun text => (Formula.parse text).isOk).eraseDups

end Call

namespace Engine

variable {σ : Type} [Store σ Shared]

/-- The engine after a list of calls. -/
def after (e : Engine σ) (calls : List Call) : Engine σ :=
  calls.foldl (fun e c => (e.call c).engine) e

/-- The tree that answers a call or is evaluated for it, with its text. -/
def given? (e : Engine σ) (c : Call) : Option (String × Shared) :=
  c.text?.bind fun text => (e.request text).result.toOption.map fun shared => (text, shared)

/-- The trees that are handed out while a list of calls is answered, the latest last. -/
def given (e : Engine σ) : List Call → List (String × Shared)
  | [] => []
  | c :: calls => (e.given? c).toList ++ (e.call c).engine.given calls

end Engine

end Formula
