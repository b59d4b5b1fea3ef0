/-!
# Lines of a text

A text is cut at its line breaks. A carriage return and a line feed after it are one break, and a
break at the end of the text opens no further line.
-/

set_option autoImplicit false

namespace SuperChip.Text

/-- Whether a character ends a line. -/
def isLineBreak (c : Char) : Bool :=
  let n := c.toNat
  (0x0A ≤ n && n ≤ 0x0D) || (0x1C ≤ n && n ≤ 0x1E) || n == 0x85 || n == 0x2028 || n == 0x2029

/-- Whether a character ends a line of what is typed: of the line breaks only a line feed or a
carriage return does. -/
def isNewline (c : Char) : Bool := c == '\n' || c == '\r'

/-- The lines of a text whose first line begins with `current`, given backwards. -/
def linesFrom (ends : Char → Bool) (current : List Char) : List Char → List (List Char)
  | [] => if current.isEmpty then [] else [current.reverse]
  | '\r' :: '\n' :: rest => current.reverse :: linesFrom ends [] rest
  | c :: rest =>
    if ends c then current.reverse :: linesFrom ends [] rest
    else linesFrom ends (c :: current) rest

/-- The lines of a text, without their breaks. -/
def lines (text : String) : List String :=
  (linesFrom isLineBreak [] text.toList).map String.ofList

/-- The lines of typed input, without their breaks. -/
def inputLines (text : String) : List String :=
  (linesFrom isNewline [] text.toList).map String.ofList

end SuperChip.Text
