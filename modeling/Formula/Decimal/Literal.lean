/-!
# Numbers written in decimal

Reads the text of a number: an optional sign, and then either a word for an infinity or for what is
not a number, in letters of any case, or digits with an optional point and an optional exponent.
At least one digit has to stand before or after the point, and at least one in the exponent.

## Main definitions

* `Decimal.Magnitude` — what a text without its sign denotes, exactly.
* `Decimal.magnitude?` — reads it.
* `Decimal.read?` — the nearest float to the number that a text denotes.
-/

namespace Formula.Decimal

/-- What a numeral denotes: `digits * 10 ^ exponent`, or one of the two special values. -/
inductive Magnitude where
  | finite (digits : Nat) (exponent : Int)
  | infinite
  | notANumber
  deriving DecidableEq, Repr

/-- The nearest float; of two that are equally near the one with the even last bit. -/
def Magnitude.toFloat : Magnitude → Float
  | .finite digits exponent => Float.ofScientific digits (exponent < 0) exponent.natAbs
  | .infinite => 1 / 0
  | .notANumber => 0 / 0

/-! ## The parts of a numeral -/

/-- The number that a row of digits denotes. -/
def ofDigits (ds : List Char) : Nat :=
  ds.foldl (fun n d => 10 * n + (d.toNat - '0'.toNat)) 0

/-- Whether a minus sign stands in front, and the text without its sign. -/
def splitSign : List Char → Bool × List Char
  | '-' :: rest => (true, rest)
  | '+' :: rest => (false, rest)
  | rest => (false, rest)

/-- The exponent after its letter: an optional sign and digits to the end. -/
def exponent? (cs : List Char) : Option Int :=
  let (negative, ds) := splitSign cs
  if ds.isEmpty || !ds.all Char.isDigit then none
  else some (if negative then -(ofDigits ds : Int) else ofDigits ds)

/-- The exponent part at the end of a numeral; an absent one counts as zero. -/
def scale? : List Char → Option Int
  | [] => some 0
  | c :: rest => if c == 'e' || c == 'E' then exponent? rest else none

/-- The digits after the point, if a point comes first, and the rest. -/
def splitFraction : List Char → List Char × List Char
  | '.' :: rest => (rest.takeWhile Char.isDigit, rest.dropWhile Char.isDigit)
  | rest => ([], rest)

/-- Digits around an optional point, then the exponent part. -/
def numeral? (cs : List Char) : Option Magnitude :=
  let whole := cs.takeWhile Char.isDigit
  let (fraction, rest) := splitFraction (cs.dropWhile Char.isDigit)
  if whole.isEmpty && fraction.isEmpty then none
  else (scale? rest).map fun scale =>
    .finite (ofDigits (whole ++ fraction)) (scale - fraction.length)

/-- What a text without its sign denotes. -/
def magnitude? (cs : List Char) : Option Magnitude :=
  let word := String.ofList (cs.map Char.toLower)
  if word = "inf" ∨ word = "infinity" then some .infinite
  else if word = "nan" then some .notANumber
  else numeral? cs

/-- The float that a text denotes. The sign is applied last, so that a negative zero keeps it. -/
def read? (text : String) : Option Float :=
  let (negative, cs) := splitSign text.toList
  (magnitude? cs).map fun m => if negative then -m.toFloat else m.toFloat

end Formula.Decimal
