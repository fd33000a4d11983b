/-!
# Blank characters

The characters that may stand in front of a token without belonging to it: the Unicode property
`White_Space`.

## Main definitions

* `Text.blankRanges` — the property as ranges of code points, in increasing order.
* `Text.isBlank` — whether a character has the property.
-/

namespace Formula.Text

/-- First and last code point of every run of blank characters. -/
def blankRanges : List (Nat × Nat) :=
  [(0x0009, 0x000D), (0x0020, 0x0020), (0x0085, 0x0085), (0x00A0, 0x00A0), (0x1680, 0x1680),
    (0x2000, 0x200A), (0x2028, 0x2029), (0x202F, 0x202F), (0x205F, 0x205F), (0x3000, 0x3000)]

def isBlank (c : Char) : Bool :=
  blankRanges.any fun range => range.1 ≤ c.toNat && c.toNat ≤ range.2

end Formula.Text
