/-!
# Floats in the fewest digits

A float stands for all reals that round to it. It is written as the multiple of a power of ten
among them, for the greatest power that has one; of two multiples of that power the nearer.

## Main definitions

* `Decimal.Dyadic` — a positive finite float as an integer times a power of two, with the reals
  that round to it.
* `Decimal.Dyadic.shortest` — the multiple of a power of ten that it is written as.
* `Decimal.Style`, `Decimal.write` — the text of a float, without exponent.
-/

namespace Formula.Decimal

/-! ## The reals that a float stands for -/

/-- A positive finite float `mantissa * 2 ^ exponent`. If `narrow`, its lower neighbour is half as
far away as the upper one. -/
structure Dyadic where
  mantissa : Nat
  exponent : Int
  narrow : Bool
  deriving DecidableEq, Repr

namespace Dyadic

/-- Reads the bits of a finite float without its sign: the mantissa in the lower 52 bits has a
hidden leading one unless the exponent above them is zero. -/
def ofBits (bits : Nat) : Dyadic :=
  let biased : Nat := bits / Nat.pow 2 52
  let fraction := bits % Nat.pow 2 52
  if biased = 0 then ⟨fraction, -1074, false⟩
  else ⟨Nat.pow 2 52 + fraction, (biased : Int) - 1075, fraction = 0 ∧ 1 < biased⟩

/-- How `n * 10 ^ power` compares with `quarters` quarters of the unit in the last place. -/
def compareMultiple (x : Dyadic) (n : Nat) (power : Int) (quarters : Nat) : Ordering :=
  compare (n * Nat.pow 10 power.toNat * Nat.pow 2 (2 - x.exponent).toNat)
    (quarters * Nat.pow 2 (x.exponent - 2).toNat * Nat.pow 10 (-power).toNat)

/-- Whether `n * 10 ^ power` rounds to the float: it lies between the points half way to either
neighbour, which themselves round to the neighbour with an even mantissa. -/
def readsBack (x : Dyadic) (n : Nat) (power : Int) : Bool :=
  let lower := x.compareMultiple n power (4 * x.mantissa - if x.narrow then 1 else 2)
  let upper := x.compareMultiple n power (4 * x.mantissa + 2)
  let even := x.mantissa % 2 = 0
  (lower = .gt ∨ even ∧ lower = .eq) ∧ (upper = .lt ∨ even ∧ upper = .eq)

/-- The greatest multiple of `10 ^ power` that does not exceed the float, as a factor. -/
def floor (x : Dyadic) (power : Int) : Nat :=
  x.mantissa * Nat.pow 2 x.exponent.toNat * Nat.pow 10 (-power).toNat /
    (Nat.pow 2 (-x.exponent).toNat * Nat.pow 10 power.toNat)

/-- Whether the float lies nearer to the next multiple of `10 ^ power` than to its `floor`; half
way between them the even factor wins. -/
def nearerAbove (x : Dyadic) (power : Int) : Bool :=
  match x.compareMultiple (2 * x.floor power + 1) power (8 * x.mantissa) with
  | .lt => true
  | .eq => x.floor power % 2 = 1
  | .gt => false

/-- The nearest factor of `10 ^ power` that reads back, if there is one. -/
def nearestMultiple? (x : Dyadic) (power : Int) : Option Nat :=
  let below := x.floor power
  match x.readsBack below power, x.readsBack (below + 1) power with
  | true, true => some (if x.nearerAbove power then below + 1 else below)
  | true, false => some below
  | false, true => some (below + 1)
  | false, false => none

/-- The value itself as a multiple of a power of ten. -/
def exact (x : Dyadic) : Nat × Int :=
  if 0 ≤ x.exponent then (x.mantissa * Nat.pow 2 x.exponent.toNat, 0)
  else (x.mantissa * Nat.pow 5 (-x.exponent).toNat, x.exponent)

/-- Tries `steps` powers of ten downwards from `power`. -/
def shortestFrom (x : Dyadic) (power : Int) : Nat → Nat × Int
  | 0 => x.exact
  | steps + 1 =>
    match x.nearestMultiple? power with
    | some n => (n, power)
    | none => x.shortestFrom (power - 1) steps

/-- The factor and the power of ten that the float is written as. No float reaches `10 ^ 309`, and
the powers go down to one of which every float is a multiple. -/
def shortest (x : Dyadic) : Nat × Int :=
  x.shortestFrom 309 (310 + 1074)

end Dyadic

/-! ## Layout -/

/-- Whether a whole number is written with a point and a zero after it. -/
structure Style where
  pointsWhole : Bool
  deriving DecidableEq, Repr

/-- The decimal digits of `n * 10 ^ power`, with a point where it belongs. -/
def layOut (style : Style) (n : Nat) (power : Int) : String :=
  let digits := (toString n).toList
  if 0 ≤ power then
    String.ofList (digits ++ List.replicate power.toNat '0') ++
      if style.pointsWhole then ".0" else ""
  else
    let places := (-power).toNat
    let padded := List.replicate (places + 1 - digits.length) '0' ++ digits
    let whole := padded.length - places
    String.ofList (padded.take whole ++ '.' :: padded.drop whole)

/-- The text of a float. The sign of a zero is kept. -/
def write (style : Style) (x : Float) : String :=
  let bits := x.toBits.toNat % Nat.pow 2 63
  let magnitude :=
    if bits = 0 then layOut style 0 0
    else if x.isInf then "inf"
    else
      let (n, power) := (Dyadic.ofBits bits).shortest
      layOut style n power
  if x.isNaN then "NaN" else if x.toBits.toNat < Nat.pow 2 63 then magnitude else "-" ++ magnitude

end Formula.Decimal
