import Formula.Decimal.Shortest
import Formula.Engine
import Formula.Tree.Printer

/-!
# Worked samples

Three short programs that evaluate a formula under several bindings and report every result in a
line of text.

## Main definitions

* `Sample` — the samples.
* `Sample.lines` — the report of a sample.
-/

namespace Formula

inductive Sample where
  /-- A text given to an engine once for every set of bindings. -/
  | simpleExpression
  /-- A text parsed once and evaluated for several times of flight. -/
  | parsedOnce
  /-- A text given to an engine with all bindings together. -/
  | batch
  deriving DecidableEq, Repr

namespace Sample

/-- Reports for reading: a whole number stands without a point. -/
def plain : Decimal.Style := ⟨false⟩

/-- Reports for inspection: every number has a point. -/
def inspected : Decimal.Style := ⟨true⟩

/-! ## Values under one binding after another, through an engine -/

def resultLine (index : Nat) : Except Error Float → String
  | .ok x => "Result " ++ toString index ++ ": " ++ Decimal.write plain x
  | .error cause => "Error " ++ toString index ++ ": " ++ cause.message

def resultLines (engine : Engine (Recent Shared)) (text : String) :
    Nat → List Bindings → List String
  | _, [] => []
  | index, bindings :: contexts =>
    let reply := engine.evaluate text bindings
    resultLine index reply.result :: resultLines reply.engine text (index + 1) contexts

def simpleExpressionLines : List String :=
  resultLines (.ofCapacity Engine.defaultCapacity) "price * volume / 1000 - sqrt(volume)" 0
    [.ofList [("price", some 120), ("volume", some 3000)],
      .ofList [("price", some 80), ("volume", some 6000)]]

/-! ## Values of one tree -/

def quoted (s : String) : String :=
  "\"" ++ s ++ "\""

def timeLine (t : Nat) : Except EvalError Float → String
  | .ok x => "t = " ++ toString t ++ ": " ++ Decimal.write plain x
  | .error cause => "t = " ++ toString t ++ ": error: " ++ cause.message

def parsedOnceLines : List String :=
  match parse "-G * t ^ 2 / 2 + v * t" with
  | .error _ => []
  | .ok tree =>
    ["Parsed: " ++ tree.render,
      "Variables: [" ++ ", ".intercalate (tree.variableNames.map quoted) ++ "]"] ++
    (List.range 5).map fun t =>
      timeLine t (tree.evaluate (.ofList [("t", some t.toFloat), ("v", some 20)]))

/-! ## Values under all bindings together -/

def inspectedLine (index : Nat) : Except EvalError Float → String
  | .ok x => "Result " ++ toString index ++ ": Ok(" ++ Decimal.write inspected x ++ ")"
  | .error cause => "Result " ++ toString index ++ ": Err(" ++ cause.name ++ ")"

def batchLines : List String :=
  let contexts := (List.range 10).map fun i => Bindings.ofList [("x", some (i.toFloat - 5))]
  match ((Engine.ofCapacity Engine.defaultCapacity).evaluateAll "sqrt(x) + abs(x)" contexts).result
  with
  | .error _ => []
  | .ok results => results.mapIdx inspectedLine

def lines : Sample → List String
  | .simpleExpression => simpleExpressionLines
  | .parsedOnce => parsedOnceLines
  | .batch => batchLines

end Sample

end Formula
