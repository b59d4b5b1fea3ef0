import SuperChip.Expr.Operator
import SuperChip.Text.Blank
import SuperChip.Text.Name

/-!
# Tokens of an expression

Numbers are decimal, hexadecimal after `#`, or binary after `$`, where a point stands for a zero;
decimal ones have a limited number of digits.
Names, parentheses and single characters for operators are the other tokens. Each token takes at
least one character, which is why reading a text token by token ends.
-/

set_option autoImplicit false

namespace SuperChip

/-- A token of an expression. -/
inductive Token where
  | number (n : Nat)
  | name (s : String)
  | openParen
  | closeParen
  /-- Any other character; which of them are operators is decided by the evaluator. -/
  | symbol (c : Char)
  deriving DecidableEq, Repr

namespace Token

/-- Whether the character is a binary digit. -/
def isBinaryDigit (c : Char) : Bool := c == '0' || c == '1' || c == '.'

/-- The number that binary digits write, where a point counts as zero. -/
def ofBinary (digits : List Char) : Nat :=
  Text.ofDigits 2 (digits.map fun c => if c == '.' then '0' else c)

/-- The longest run of digits at the front of a text, read as a number, and the text after it. -/
def takeNumber? (isDigit : Char → Bool) (value : List Char → Nat) (cs : List Char) :
    Option (Token × List Char) :=
  match cs.takeWhile isDigit with
  | [] => none
  | digits => some (.number (value digits), cs.dropWhile isDigit)

/-- Taking a number adds no text. -/
theorem length_le_of_takeNumber? {isDigit : Char → Bool} {value : List Char → Nat}
    {cs rest : List Char} {t : Token} (h : takeNumber? isDigit value cs = some (t, rest)) :
    rest.length ≤ cs.length := by
  simp only [takeNumber?] at h
  split at h
  · simp at h
  · simp only [Option.some.injEq, Prod.mk.injEq] at h
    rw [← h.2]
    exact (List.dropWhile_sublist _).length_le

/-- The token that starts with `c` and goes on in `rest`, and the text after it. -/
def read (c : Char) (rest : List Char) : Except ExprError (Token × List Char) :=
  if c = '#' then
    match takeNumber? Text.isHexDigit (Text.ofDigits 16) rest with
    | some r => .ok r
    | none => .error .hexExpected
  else if c = '$' then
    match takeNumber? isBinaryDigit ofBinary rest with
    | some r => .ok r
    | none => .error .binaryExpected
  else if c.isDigit then
    let digits := c :: rest.takeWhile Char.isDigit
    if Text.digitLimit < digits.length then .error (.longNumeral digits.length)
    else .ok (.number (Text.ofDigits 10 digits), rest.dropWhile Char.isDigit)
  else match Text.takeName? (c :: rest) with
    | some (s, r) => .ok (.name s, r)
    | none =>
      if c = '(' then .ok (.openParen, rest)
      else if c = ')' then .ok (.closeParen, rest)
      else .ok (.symbol c, rest)

/-- Reading a token adds no text behind its first character. -/
theorem length_le_of_read {c : Char} {rest r : List Char} {t : Token}
    (h : read c rest = .ok (t, r)) : r.length ≤ rest.length := by
  have drop_le : (rest.dropWhile Char.isDigit).length ≤ rest.length :=
    (List.dropWhile_sublist _).length_le
  simp only [read] at h
  split at h
  · split at h
    · next hn => cases h; exact length_le_of_takeNumber? hn
    · cases h
  · split at h
    · split at h
      · next hn => cases h; exact length_le_of_takeNumber? hn
      · cases h
    · split at h
      · split at h
        · cases h
        · cases h; exact drop_le
      · split at h
        · next hn =>
          cases h
          have := Text.length_lt_of_takeName? hn
          simp only [List.length_cons] at this
          omega
        · split at h
          · cases h; exact Nat.le_refl _
          · split at h <;> cases h <;> exact Nat.le_refl _

end Token

end SuperChip
