/-!
# Numerals of fixed width

Hexadecimal and binary numerals as the toolkit prints them: most significant digit first, filled
with zeros to a width that counts a minus sign and a `0x` mark.
-/

set_option autoImplicit false

namespace SuperChip.Text

/-- The digits of `n`, filled on the left with zeros up to `width` characters. -/
def padded (base width n : Nat) : List Char :=
  (Nat.toDigits base n).leftpad width '0'

/-- A numeral in `base` of at least `width` characters; a minus sign, then `mark`, stand before the
digits and count in the width. -/
def numeral (base width : Nat) (mark : String) (n : Int) : List Char :=
  if n < 0 then '-' :: mark.toList ++ padded base (width - 1 - mark.length) n.natAbs
  else mark.toList ++ padded base (width - mark.length) n.natAbs

/-- Upper-case hexadecimal of at least `width` characters. -/
def hex (width : Nat) (n : Int) : String :=
  String.ofList ((numeral 16 width "" n).map Char.toUpper)

/-- Lower-case hexadecimal after `0x`, of at least `width` characters in all. -/
def hexMarked (width : Nat) (n : Int) : String :=
  String.ofList (numeral 16 width "0x" n)

/-- Binary of at least `width` characters. -/
def binary (width : Nat) (n : Int) : String :=
  String.ofList (numeral 2 width "" n)

/-- Two lower-case hexadecimal digits for a byte. -/
def hexByte (b : UInt8) : String :=
  String.ofList (padded 16 2 b.toNat)

end SuperChip.Text
