/-!
# Names and numerals in ASCII

A name is a letter or underscore and the letters, digits and underscores after it. The values of
digits are those of the base they are read in. Only ASCII letters and digits count here.
-/

set_option autoImplicit false

namespace SuperChip.Text

/-- Whether a name may start with the character. -/
def isNameStart (c : Char) : Bool := c.isAlpha || c == '_'

/-- Whether a name may go on with the character. -/
def isNameChar (c : Char) : Bool := c.isAlphanum || c == '_'

/-- The name at the front of a text, and the text after it. -/
def takeName? : List Char → Option (String × List Char)
  | [] => none
  | c :: rest =>
    if isNameStart c then
      some (String.ofList (c :: rest.takeWhile isNameChar), rest.dropWhile isNameChar)
    else none

/-- Taking a name leaves less text. -/
theorem length_lt_of_takeName? {cs rest : List Char} {name : String}
    (h : takeName? cs = some (name, rest)) : rest.length < cs.length := by
  cases cs with
  | nil => simp [takeName?] at h
  | cons c cs =>
    simp only [takeName?] at h
    split at h
    · have hle := (List.dropWhile_sublist (l := cs) isNameChar).length_le
      simp only [Option.some.injEq, Prod.mk.injEq] at h
      rw [← h.2]
      simp only [List.length_cons]
      omega
    · simp at h

/-- Whether the character is a hexadecimal digit. -/
def isHexDigit (c : Char) : Bool :=
  c.isDigit || ('a' ≤ c && c ≤ 'f') || ('A' ≤ c && c ≤ 'F')

/-- The value of a digit in bases up to thirty-six. -/
def digitValue (c : Char) : Nat :=
  if c.isDigit then c.toNat - '0'.toNat else c.toLower.toNat - 'a'.toNat + 10

/-- The number that digits write in a base. -/
def ofDigits (base : Nat) (digits : List Char) : Nat :=
  digits.foldl (fun n c => base * n + digitValue c) 0

end SuperChip.Text
