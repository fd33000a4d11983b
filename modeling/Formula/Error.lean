/-!
# Errors

What can be wrong with a text, with its tokens, and with the value of a finished tree, each with
the message that reports it.

## Main definitions

* `LexError`, `ParseError`, `EvalError` — the causes, one type for each stage.
* `Error` — a cause from any stage.
* `Error.message` and its three parts — the report; that of `Error` names the stage first.
-/

namespace Formula

/-- Why a text is not a list of tokens. -/
inductive LexError where
  /-- No token stands at the head of `remainder`, blanks in front of it included. -/
  | invalidSequence (remainder : String)
  deriving DecidableEq, Repr

/-- Why a list of tokens is not a formula. -/
inductive ParseError where
  | unexpectedToken (token : String)
  /-- The name of a function has to be followed by an opening parenthesis. -/
  | expectedOpening (function found : String)
  /-- The operator stands in front of its first operand but is no sign. -/
  | notSign (symbol : String)
  | unbalancedParentheses
  | missingOperand (symbol : String)
  /-- Nothing stands between two parentheses, or nothing at all was given. -/
  | emptyExpression
  deriving DecidableEq, Repr

/-- Why a tree has no value. -/
inductive EvalError where
  | undefinedVariable (name : String)
  | undefinedConstant (name : String)
  | undefinedOperator (symbol : String)
  | undefinedFunction (name : String)
  | invalidNumber (literal : String)
  | missingOperand (node : String)
  /-- The value of the whole tree is not a number. -/
  | notANumber
  deriving DecidableEq, Repr

inductive Error where
  | lex (cause : LexError)
  | parse (cause : ParseError)
  | eval (cause : EvalError)
  deriving DecidableEq, Repr

def LexError.message : LexError → String
  | .invalidSequence remainder => "Tokenization failed, invalid sequence: " ++ remainder

def ParseError.message : ParseError → String
  | .unexpectedToken token => "Unexpected token: " ++ token
  | .expectedOpening function found => "Expected '(' after " ++ function ++ ", found " ++ found
  | .notSign symbol => "Operator " ++ symbol ++ " can't be unary"
  | .unbalancedParentheses => "Invalid parentheses balance"
  | .missingOperand symbol => "Operator " ++ symbol ++ " is missing its operand"
  | .emptyExpression => "Empty expression"

/-- The cause in one word. -/
def EvalError.name : EvalError → String
  | .undefinedVariable _ => "UndefinedVariable"
  | .undefinedConstant _ => "UndefinedConstant"
  | .undefinedOperator _ => "UndefinedOperator"
  | .undefinedFunction _ => "UndefinedFunction"
  | .invalidNumber _ => "InvalidNumber"
  | .missingOperand _ => "MissingOperand"
  | .notANumber => "NotANumber"

def EvalError.message : EvalError → String
  | .undefinedVariable name => "Undefined variable: " ++ name
  | .undefinedConstant name => "Undefined constant: " ++ name
  | .undefinedOperator symbol => "Undefined operator: " ++ symbol
  | .undefinedFunction name => "Undefined function: " ++ name
  | .invalidNumber literal => "Invalid number literal: " ++ literal
  | .missingOperand node => "Missing operand for " ++ node
  | .notANumber => "Error while evaluating: result is not a number"

def Error.message : Error → String
  | .lex cause => "Lex error: " ++ cause.message
  | .parse cause => "Parse error: " ++ cause.message
  | .eval cause => "Evaluation error: " ++ cause.message

end Formula
