import Formula.Token
import Formula.Vocabulary.Operator
import Formula.Vocabulary.UnaryFunction

/-!
# The grammar of formulas

Which lists of tokens are formulas. A formula is a first operand and then any number of operators
with an operand each. An operand is a leaf, a leaf with signs in front, a call, or a formula in
parentheses; the first operand may also be a leaf with signs in front and any operator before them.

## Main definitions

* `Token.IsLeaf`, `Token.IsFunction`, `Token.IsOperator`, `Token.IsSign` — what tokens stand for.
* `Grammar.SignedLeaf` — a leaf with at least one sign in front.
* `Grammar.IsFormula`, `Grammar.IsOperand` — the grammar.
-/

namespace Formula

namespace Token

/-- A name that the table of functions holds. -/
def IsFunction (t : Token) : Prop :=
  t.kind = .name ∧ (UnaryFunction.ofName? t.text).isSome

/-- A number, or a name of anything but a function. -/
def IsLeaf (t : Token) : Prop :=
  t.kind = .number ∨ t.kind = .name ∧ ¬ t.IsFunction

def IsOperator (t : Token) : Prop :=
  t.kind = .operator ∧ ∃ o : Operator, o.symbol = t.text

def IsSign (t : Token) : Prop :=
  t.kind = .operator ∧ ∃ o : Operator, o.isSign = true ∧ o.symbol = t.text

end Token

namespace Grammar

/-- At least one sign, then a leaf. -/
inductive SignedLeaf : List Token → Prop where
  | one {sign leaf : Token} (h : sign.IsSign) (h' : leaf.IsLeaf) : SignedLeaf [sign, leaf]
  | more {sign : Token} {ts : List Token} (h : sign.IsSign) (h' : SignedLeaf ts) :
    SignedLeaf (sign :: ts)

mutual

/-- The content of a group. -/
inductive IsFormula : List Token → Prop where
  | operand {ts : List Token} (h : IsOperand ts) : IsFormula ts
  | prefixed {t : Token} {ts : List Token} (h : t.IsOperator) (h' : SignedLeaf ts) :
    IsFormula (t :: ts)
  | extend {ts us : List Token} {t : Token} (h : IsFormula ts) (h' : t.IsOperator)
    (h'' : IsOperand us) : IsFormula (ts ++ t :: us)

inductive IsOperand : List Token → Prop where
  | leaf {t : Token} (h : t.IsLeaf) : IsOperand [t]
  | signed {ts : List Token} (h : SignedLeaf ts) : IsOperand ts
  | group {ts : List Token} (h : IsFormula ts) :
    IsOperand (.opening :: ts ++ [.closing])
  | call {f : Token} {ts : List Token} (h : f.IsFunction) (h' : IsFormula ts) :
    IsOperand (f :: .opening :: ts ++ [.closing])

end

end Grammar

end Formula
