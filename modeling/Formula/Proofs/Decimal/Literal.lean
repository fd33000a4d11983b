import Formula.Decimal.Literal
import Formula.Proofs.Token.Written

/-!
# Numbers in formulas are readable

A number in a formula is digits with at most one fraction, so it denotes a float: it starts with a
digit and is therefore neither signed nor a word, and what stands around its point is all digits.

The main result is `Decimal.isSome_read?`.
-/

namespace Formula.Decimal

variable {c : Char} {cs digits places : List Char}

/-- A text that starts with a digit has no sign. -/
theorem splitSign_of_isDigit (digit : c.isDigit = true) :
    splitSign (c :: cs) = (false, c :: cs) := by
  rw [splitSign.eq_def]
  split
  · next same =>
    obtain rfl := (List.cons.inj same).1
    cases digit
  · next same =>
    obtain rfl := (List.cons.inj same).1
    cases digit
  · rfl

theorem toLower_of_isDigit (digit : c.isDigit = true) : c.toLower = c := by
  have code := Token.isDigit_iff.1 digit
  refine dif_neg fun upper => ?_
  have low : 65 ≤ c.toNat := UInt32.le_iff_toNat_le.1 upper.1
  omega

/-- A text that starts with a digit is no word. -/
theorem magnitude?_of_isDigit (digit : c.isDigit = true) :
    magnitude? (c :: cs) = numeral? (c :: cs) := by
  have differs : ∀ (d : Char) (word : List Char), d.isDigit = false →
      String.ofList ((c :: cs).map Char.toLower) ≠ String.ofList (d :: word) := by
    intro d word letter same
    have heads := (List.cons.inj (String.ofList_injective same)).1
    rw [toLower_of_isDigit digit] at heads
    rw [heads, letter] at digit
    cases digit
  rw [magnitude?, if_neg, if_neg]
  · exact differs 'n' ['a', 'n'] rfl
  · rintro (inf | infinity)
    · exact differs 'i' ['n', 'f'] rfl inf
    · exact differs 'i' ['n', 'f', 'i', 'n', 'i', 't', 'y'] rfl infinity

theorem isSome_numeral?_whole (h : Token.IsDigits digits) : (numeral? digits).isSome = true := by
  obtain ⟨filled, run⟩ := h
  have ends : ∀ c ∈ ([] : List Char).head?, c.isDigit = false := nofun
  obtain ⟨whole, rest⟩ := Token.span_append run ends
  rw [List.append_nil] at whole rest
  rw [numeral?, whole, rest]
  simp [splitFraction, scale?, filled]

theorem isSome_numeral?_fraction (h : Token.IsDigits digits) (h' : Token.IsDigits places) :
    (numeral? (digits ++ '.' :: places)).isSome = true := by
  obtain ⟨filled, run⟩ := h
  have point : ∀ c ∈ ('.' :: places).head?, c.isDigit = false := by simp
  have ends : ∀ c ∈ ([] : List Char).head?, c.isDigit = false := nofun
  obtain ⟨whole, rest⟩ := Token.span_append run point
  obtain ⟨fraction, last⟩ := Token.span_append h'.2 ends
  rw [List.append_nil] at fraction last
  rw [numeral?, whole, rest]
  simp [splitFraction, scale?, fraction, last, filled]

theorem isSome_numeral? (h : Token.Kind.Spells .number cs) : (numeral? cs).isSome = true := by
  cases h with
  | whole digits => exact isSome_numeral?_whole digits
  | fraction digits places => exact isSome_numeral?_fraction digits places

/-- A number as it is spelled in a formula denotes a float. -/
theorem isSome_read? {text : String} (h : Token.Kind.Spells .number text.toList) :
    (read? text).isSome = true := by
  obtain ⟨c, rest, same, digit⟩ := Token.exists_starts_of_spells h
  have numeral := isSome_numeral? h
  rw [same] at numeral
  rw [read?, same, splitSign_of_isDigit digit]
  simpa [magnitude?_of_isDigit digit] using numeral

end Formula.Decimal
