import Mathlib.Data.PFun
import Formula.Proofs.Token.Reading

/-!
# Where reading fails

A text that is not a list of tokens is read as far as there are tokens, and what remains is
reported. The part in front of it is a list of tokens, and no longer beginning of the text is: a
token is taken in the same way when less is left of what follows it, and where none is found, none
is found when less is left.

## Main definitions

* `Token.Reads` — the tokens at the head of a text, with what they leave of it.
* `Token.round`, `Token.rounds` — one round of a loop that reads tokens, and the loop.
* `Token.LongestRead` — the longest beginning of a text that is a list of tokens.

`Token.Reads.of_isPrefix` is the induction and `tokenize_eq_error_iff` the result.
-/

namespace Formula

namespace Token

/-! ## One token -/

theorem mem_head?_of_isPrefix {cs ds : List Char} (h : cs <+: ds) :
    ∀ c ∈ cs.head?, c ∈ ds.head? := by
  obtain ⟨more, rfl⟩ := h
  intro c head
  rw [List.head?_append, Option.mem_def.1 head]
  rfl

theorem text_append_of_lexeme? {cs rest : List Char} {t : Token}
    (h : lexeme? cs = some (t, rest)) : t.text.toList ++ rest = cs := by
  obtain ⟨c, more, text, split⟩ := exists_cons_of_lexeme? h
  rw [text, String.toList_ofList, split]

/-- Where no fraction starts, none starts when less is left. -/
theorem fraction_eq_nil_of_isPrefix {cs ds : List Char} (h : (fraction ds).1 = [])
    (shorter : cs <+: ds) : fraction cs = ([], cs) := by
  unfold fraction
  split
  · next d more =>
    obtain ⟨rest, rfl⟩ := shorter
    split
    · next digit => simp [fraction, digit] at h
    · rfl
  · rfl

/-- A token is taken in the same way when less is left of what follows it. -/
theorem lexeme?_of_isPrefix {cs rest rest' : List Char} {t : Token}
    (h : lexeme? cs = some (t, rest)) (shorter : rest' <+: rest) :
    lexeme? (t.text.toList ++ rest') = some (t, rest') := by
  have spelled := wellSpelled_of_lexeme? h
  have stops := goesOn_of_lexeme? h
  have whole := text_append_of_lexeme? h
  obtain ⟨kind, text⟩ := t
  generalize chars : text.toList = token at *
  obtain rfl : text = String.ofList token := by rw [← chars, String.ofList_toList]
  have ends : ∀ c ∈ rest'.head?, kind.goesOn c = false := fun c head =>
    stops c (mem_head?_of_isPrefix shorter c head)
  subst whole
  simp only [WellSpelled, String.toList_ofList] at spelled
  cases spelled with
  | name start part => exact lexeme?_append (.name start part) ends
  | whole digits =>
    -- no fraction was found behind the digits, so none is found when less is left
    rw [lexeme?_of_digits digits stops, Option.some.injEq, Prod.mk.injEq] at h
    have cut := fraction_append rest
    rw [h.2, List.append_left_eq_self] at cut
    rw [lexeme?_of_digits digits ends, fraction_eq_nil_of_isPrefix cut shorter, List.append_nil]
  | fraction digits places =>
    rw [List.append_assoc, lexeme?_of_digits digits (by simp),
      fraction_append_of_digits places ends]
  | opening | closing => exact lexeme?_parenthesis rest' rfl
  | operator o => exact lexeme?_operator o rest'

theorem next?_of_isPrefix {cs rest : List Char} {t : Token} (h : next? cs = some (t, rest)) :
    ∃ front, cs = front ++ rest ∧ ∀ rest', rest' <+: rest →
      next? (front ++ rest') = some (t, rest') := by
  refine ⟨cs.takeWhile Text.isBlank ++ t.text.toList, ?_, fun rest' shorter => ?_⟩
  · rw [List.append_assoc, text_append_of_lexeme? h, List.takeWhile_append_dropWhile]
  · rw [next?, dropWhile_isBlank_append (List.all_eq_true.1 List.all_takeWhile)
      (wellSpelled_of_lexeme? h)]
    exact lexeme?_of_isPrefix h shorter

/-! ## No token -/

theorem lexeme?_eq_none_iff {cs : List Char} :
    lexeme? cs = none ↔ ∀ c ∈ cs.head?, ∀ kind : Kind, kind.starts c = false := by
  cases cs with
  | nil => simp [lexeme?]
  | cons c cs =>
    have kinds : (∀ kind : Kind, kind.starts c = false) ↔ isNameStart c = false ∧
        c.isDigit = false ∧ isParenthesis c = false ∧ isOperator c = false := by
      constructor
      · exact fun h => ⟨h .name, h .number, h .parenthesis, h .operator⟩
      · rintro ⟨name, number, parenthesis, operator⟩ (_ | _ | _ | _) <;> assumption
    simp only [List.head?_cons, Option.mem_some_iff, forall_eq', kinds, lexeme?]
    cases isNameStart c <;> cases c.isDigit <;> cases isParenthesis c <;> cases isOperator c <;>
      simp

theorem next?_eq_none_of_isPrefix {cs ds : List Char} (h : next? ds = none) (shorter : cs <+: ds) :
    next? cs = none := by
  obtain ⟨more, rfl⟩ := shorter
  refine lexeme?_eq_none_iff.2 fun c head => lexeme?_eq_none_iff.1 h c ?_
  rw [List.dropWhile_append]
  split
  · next blank =>
    rw [List.isEmpty_iff.1 blank] at head
    cases head
  · exact mem_head?_of_isPrefix (List.prefix_append _ more) c head

/-- Where no token is found, the first character that is no blank belongs to none. -/
theorem not_mem_of_next?_eq_none {cs : List Char} (h : next? cs = none) :
    ∀ c ∈ (cs.dropWhile Text.isBlank).head?,
      ¬ IsNamePart c ∧ c ∉ ['(', ')', '+', '-', '*', '/', '^'] := by
  intro c head
  have other := lexeme?_eq_none_iff.1 h c head
  refine ⟨fun part => ?_, fun member => ?_⟩
  · exact Bool.noConfusion
      ((isNamePart_eq_false (other .name) (other .number)).symm.trans (isNamePart_iff.2 part))
  · have parenthesis := other .parenthesis
    have operator := other .operator
    simp only [List.mem_cons, List.not_mem_nil, or_false] at member
    rcases member with rfl | rfl | rfl | rfl | rfl | rfl | rfl <;>
      first | exact absurd parenthesis (by decide) | exact absurd operator (by decide)

/-! ## All tokens up to where none is found -/

/-- Tokens that are read one after the other from the head of a text, with what they leave. -/
inductive Reads : List Char → List Token → List Char → Prop where
  | nil (cs : List Char) : Reads cs [] cs
  | cons {cs mid rest : List Char} {t : Token} {ts : List Token} (first : next? cs = some (t, mid))
      (more : Reads mid ts rest) : Reads cs (t :: ts) rest

theorem exists_reads (cs : List Char) : ∃ ts rest, Reads cs ts rest ∧ next? rest = none := by
  induction cs using tokenizeChars.induct with
  | case1 cs t rest found _ ih =>
    obtain ⟨ts, last, reads, stuck⟩ := ih
    exact ⟨t :: ts, last, .cons found reads, stuck⟩
  | case2 cs stuck | case3 cs stuck => exact ⟨[], cs, .nil cs, stuck⟩

theorem tokenizeChars_of_next?_eq_none {cs : List Char} (h : next? cs = none) :
    tokenizeChars cs = if cs.isEmpty then .ok [] else .error (.invalidSequence (.ofList cs)) := by
  rw [tokenizeChars]
  split
  · next found => cases h.symm.trans found
  · rfl

theorem tokenizeChars_eq_of_next? {cs rest : List Char} {t : Token}
    (h : next? cs = some (t, rest)) : tokenizeChars cs = (t :: ·) <$> tokenizeChars rest := by
  rw [tokenizeChars]
  split
  · next found =>
    cases h.symm.trans found
    rfl
  · next found => cases h.symm.trans found

namespace Reads

variable {cs rest : List Char} {ts : List Token}

theorem tokenizeChars_eq (h : Reads cs ts rest) :
    tokenizeChars cs = (ts ++ ·) <$> tokenizeChars rest := by
  induction h with
  | nil cs => cases tokenizeChars cs <;> rfl
  | @cons cs mid rest t ts first _ ih =>
    rw [tokenizeChars_eq_of_next? first, ih]
    cases tokenizeChars rest <;> rfl

/-- The same tokens are read when less is left of what they leave. -/
theorem of_isPrefix (h : Reads cs ts rest) :
    ∃ front, cs = front ++ rest ∧ ∀ rest', rest' <+: rest → Reads (front ++ rest') ts rest' := by
  induction h with
  | nil cs => exact ⟨[], rfl, fun rest' _ => .nil rest'⟩
  | @cons cs mid rest t ts first _ ih =>
    obtain ⟨behind, rfl, reads⟩ := ih
    obtain ⟨front, rfl, found⟩ := next?_of_isPrefix first
    refine ⟨front ++ behind, (List.append_assoc _ _ _).symm, fun rest' shorter => ?_⟩
    rw [List.append_assoc]
    exact .cons (found _ (List.prefix_append_right_inj behind |>.2 shorter)) (reads rest' shorter)

end Reads

/-! ## Reading as a loop -/

/-- One round of the loop: it ends where nothing is left or no token is found, and goes on with one
token more otherwise. -/
def round : List Token × List Char →
    Except LexError (List Token) ⊕ List Token × List Char
  | (ts, cs) =>
    if cs.isEmpty then .inl (.ok ts)
    else
      match next? cs with
      | some (t, rest) => .inr (ts ++ [t], rest)
      | none => .inl (.error (.invalidSequence (.ofList cs)))

/-- The loop, which has no value if it does not end. -/
def rounds : List Token × List Char →. Except LexError (List Token) :=
  PFun.fix fun state => .some (round state)

/-- A round that finds a token leads to the same end. -/
theorem rounds_of_reads {cs rest : List Char} {ts us : List Token} (h : Reads cs ts rest) :
    rounds (us, cs) = rounds (us ++ ts, rest) := by
  induction h generalizing us with
  | nil cs => rw [List.append_nil]
  | @cons cs mid rest t ts first _ ih =>
    have nonempty : cs.isEmpty = false := by
      cases cs with
      | nil => cases first
      | cons c cs => rfl
    have found : round (us, cs) = .inr (us ++ [t], mid) := by
      rw [round, nonempty, first]
      rfl
    rw [List.append_cons, ← ih]
    exact PFun.fix_fwd_eq (by rw [found]; exact Part.mem_some _)

/-- The loop ends on every text, with the tokens of the text or with what remains. -/
theorem rounds_eq (cs : List Char) : rounds ([], cs) = .some (tokenizeChars cs) := by
  obtain ⟨ts, rest, reads, stuck⟩ := exists_reads cs
  have last : round (ts, rest) = .inl ((ts ++ ·) <$> tokenizeChars rest) := by
    rw [round, tokenizeChars_of_next?_eq_none stuck, stuck]
    cases rest <;> simp
  rw [rounds_of_reads reads, List.nil_append, reads.tokenizeChars_eq]
  refine Part.eq_some_iff.2 (PFun.fix_stop ?_)
  rw [last]
  exact Part.mem_some _

/-! ## The longest beginning -/

/-- Tokens are read up to where none is found. Of what is left there, any beginning but the empty
one is refused whole. -/
theorem exists_stuck (cs : List Char) :
    ∃ ts front rest, cs = front ++ rest ∧ next? rest = none ∧ ∀ more, more <+: rest →
      tokenizeChars (front ++ more) =
        if more.isEmpty then .ok ts else .error (.invalidSequence (.ofList more)) := by
  obtain ⟨ts, rest, reads, stuck⟩ := exists_reads cs
  obtain ⟨front, rfl, shorter⟩ := reads.of_isPrefix
  refine ⟨ts, front, rest, rfl, stuck, fun more inside => ?_⟩
  rw [(shorter more inside).tokenizeChars_eq,
    tokenizeChars_of_next?_eq_none (next?_eq_none_of_isPrefix stuck inside)]
  cases more <;> simp

/-- A text is cut behind its longest beginning that is a list of tokens. -/
structure LongestRead (text front remainder : String) : Prop where
  split : text = front ++ remainder
  accepted : ∃ ts, tokenize front = .ok ts
  longest : ∀ longer rest, text = longer ++ rest → front.length < longer.length →
    ¬ ∃ ts, tokenize longer = .ok ts

/-- There is one such beginning only. -/
theorem LongestRead.unique {text front remainder front' remainder' : String}
    (h : LongestRead text front remainder) (h' : LongestRead text front' remainder') :
    remainder = remainder' := by
  have same : front.length = front'.length := by
    refine Nat.le_antisymm (Nat.le_of_not_lt fun less => ?_) (Nat.le_of_not_lt fun less => ?_)
    · exact h'.longest front remainder h.split less h.accepted
    · exact h.longest front' remainder' h'.split less h'.accepted
  have cut : front.toList ++ remainder.toList = front'.toList ++ remainder'.toList := by
    rw [← String.toList_append, ← String.toList_append, ← h.split, ← h'.split]
  refine String.toList_inj.1 (List.append_inj_right cut ?_)
  rw [String.length_toList, String.length_toList, same]

/-- What is reported is what remains behind the longest beginning. -/
theorem longestRead_of_tokenize {text remainder : String}
    (h : tokenize text = .error (.invalidSequence remainder)) :
    remainder ≠ "" ∧ next? remainder.toList = none ∧
      ∃ front, LongestRead text front remainder := by
  obtain ⟨ts, front, rest, split, stuck, reading⟩ := exists_stuck text.toList
  have whole := reading rest (List.prefix_refl rest)
  rw [tokenize, split, whole] at h
  cases rest with
  | nil => cases h
  | cons c rest =>
    cases h
    refine ⟨by simp, by rwa [String.toList_ofList], .ofList front, ?_, ⟨ts, ?_⟩, ?_⟩
    · rw [← String.ofList_append, ← split, String.ofList_toList]
    · rw [tokenize, String.toList_ofList]
      simpa using reading [] List.nil_prefix
    · rintro longer last same less ⟨us, accepted⟩
      have cut : front ++ c :: rest = longer.toList ++ last.toList := by
        rw [← split, same, String.toList_append]
      -- a longer beginning ends inside what is left
      obtain ⟨more, within⟩ : front <+: longer.toList := by
        refine List.prefix_of_prefix_length_le ⟨_, rfl⟩ ⟨_, cut.symm⟩ ?_
        rw [String.length_ofList] at less
        rw [String.length_toList]
        exact less.le
      rw [← within, List.append_assoc, List.append_cancel_left_eq] at cut
      rw [tokenize, ← within, reading more ⟨_, cut.symm⟩] at accepted
      cases more with
      | nil => simp [← String.length_toList, ← within] at less
      | cons d more => cases accepted

end Token

open Token

/-- A text is refused exactly if something remains behind its longest beginning that is a list of
tokens, and this is what is reported. The first character of it that is no blank, if there is one,
is neither a letter, digit or underscore nor a parenthesis nor an operator. There is no other way to
refuse a text, and a loop that takes one token a round ends on every text. -/
theorem tokenize_eq_error_iff :
    (∀ text remainder, tokenize text = .error (.invalidSequence remainder) ↔
      remainder ≠ "" ∧ ∃ front, LongestRead text front remainder) ∧
    (∀ text remainder, tokenize text = .error (.invalidSequence remainder) →
      ∀ c ∈ (remainder.toList.dropWhile Text.isBlank).head?,
        ¬ IsNamePart c ∧ c ∉ ['(', ')', '+', '-', '*', '/', '^']) ∧
    (∀ text, (¬ ∃ ts, tokenize text = .ok ts) →
      ∃ remainder, tokenize text = .error (.invalidSequence remainder)) ∧
    ∀ text, rounds ([], text.toList) = .some (tokenize text) := by
  have refused : ∀ text, (¬ ∃ ts, tokenize text = .ok ts) →
      ∃ remainder, tokenize text = .error (.invalidSequence remainder) := by
    intro text other
    cases read : tokenize text with
    | ok ts => exact absurd ⟨ts, read⟩ other
    | error e =>
      cases e with
      | invalidSequence remainder => exact ⟨remainder, rfl⟩
  refine ⟨fun text remainder => ⟨fun h => ?_, ?_⟩, ?_, refused, fun text => rounds_eq text.toList⟩
  · obtain ⟨nonempty, -, longest⟩ := longestRead_of_tokenize h
    exact ⟨nonempty, longest⟩
  · rintro ⟨nonempty, front, longest⟩
    -- the text itself is longer than the longest beginning
    have shorter : front.length < text.length := by
      rw [longest.split, String.length_append]
      have : remainder.length ≠ 0 := fun none => nonempty (by simpa using none)
      omega
    obtain ⟨remainder', h⟩ := refused text (longest.longest text "" (by simp) shorter)
    obtain ⟨-, -, front', longest'⟩ := longestRead_of_tokenize h
    rw [h, longest.unique longest']
  · exact fun text remainder h => not_mem_of_next?_eq_none (longestRead_of_tokenize h).2.1

/-- Of `1.x`, in which no fraction follows the point, all but `1` remains. -/
theorem tokenize_dangling_point :
    tokenize "1.x" = .error (.invalidSequence ".x") ∧
      (".x" ≠ "" ∧ ∃ front, LongestRead "1.x" front ".x") ∧
      (¬ IsNamePart '.' ∧ '.' ∉ ['(', ')', '+', '-', '*', '/', '^']) ∧
      (∃ remainder, tokenize "1.x" = .error (.invalidSequence remainder)) ∧
      rounds ([], "1.x".toList) = .some (tokenize "1.x") := by
  have read : tokenize "1.x" = .error (.invalidSequence ".x") := by
    have one : next? "1.x".toList = some (⟨.number, "1"⟩, ['.', 'x']) := rfl
    have stuck : next? ['.', 'x'] = none := rfl
    rw [tokenize, tokenizeChars_eq_of_next? one, tokenizeChars_of_next?_eq_none stuck]
    rfl
  obtain ⟨remains, stops, refused, ends⟩ := tokenize_eq_error_iff
  refine ⟨read, (remains _ _).1 read, stops _ _ read '.' rfl, refused _ ?_, ends _⟩
  rintro ⟨ts, accepted⟩
  cases read.symm.trans accepted

end Formula
