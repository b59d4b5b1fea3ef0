/-!
# Blank characters

The characters that separate tokens: the blanks and line breaks of Unicode and the four ASCII
separators. `skipBlanks` drops them in front, `trimEnd` behind, `trim` on both sides.
-/

set_option autoImplicit false

namespace SuperChip.Text

/-- Whether a character is blank. -/
def isBlank (c : Char) : Bool :=
  let n := c.toNat
  (0x09 ≤ n && n ≤ 0x0D) || (0x1C ≤ n && n ≤ 0x20) || n == 0x85 || n == 0xA0 || n == 0x1680 ||
    (0x2000 ≤ n && n ≤ 0x200A) || n == 0x2028 || n == 0x2029 || n == 0x202F || n == 0x205F ||
    n == 0x3000

/-- The text after its leading blanks. -/
def skipBlanks (cs : List Char) : List Char := cs.dropWhile isBlank

/-- The text before its trailing blanks. -/
def trimEnd (cs : List Char) : List Char := (cs.reverse.dropWhile isBlank).reverse

/-- The text between its leading and trailing blanks. -/
def trim (cs : List Char) : List Char := trimEnd (skipBlanks cs)

/-- Skipping blanks adds no text. -/
theorem length_skipBlanks_le (cs : List Char) : (skipBlanks cs).length ≤ cs.length :=
  (List.dropWhile_sublist _).length_le

end SuperChip.Text
