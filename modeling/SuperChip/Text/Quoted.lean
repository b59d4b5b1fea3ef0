import SuperChip.Text.Hex
import SuperChip.Text.Printable

/-!
# Quoted text

A text in messages stands between single quotes, or between double quotes if it holds single quotes
and no double ones. The quote, the backslash and what cannot be shown are escaped.
-/

set_option autoImplicit false

namespace SuperChip.Text

/-- The quote that a text is put into. -/
def quoteOf (cs : List Char) : Char := if cs.contains '\'' && !cs.contains '"' then '"' else '\''

/-- Lower-case hexadecimal digits of a code point, at least `width`. -/
def codeDigits (width : Nat) (c : Char) : List Char := padded 16 width c.toNat

/-- A character within a text quoted by `quote`. -/
def escape (quote c : Char) : List Char :=
  if c = quote ∨ c = '\\' then ['\\', c]
  else if c = '\t' then ['\\', 't']
  else if c = '\n' then ['\\', 'n']
  else if c = '\r' then ['\\', 'r']
  else if isPrintable c then [c]
  else if c.toNat < 0x100 then '\\' :: 'x' :: codeDigits 2 c
  else if c.toNat < 0x10000 then '\\' :: 'u' :: codeDigits 4 c
  else '\\' :: 'U' :: codeDigits 8 c

/-- A text in quotes. -/
def quoted (s : String) : String :=
  let cs := s.toList
  let quote := quoteOf cs
  String.ofList (quote :: cs.flatMap (escape quote) ++ [quote])

end SuperChip.Text
