/-!
# Capital letters

Keywords are compared in capitals. They hold ASCII letters only, so the capitals that matter are
those of the ASCII letters and of the few other letters whose capital form is ASCII throughout.
-/

set_option autoImplicit false

namespace SuperChip.Text

/-- The capital form of a character, where that is ASCII; any other character stays. -/
def upperChar (c : Char) : List Char :=
  match c.toNat with
  | 0x00DF => ['S', 'S']
  | 0x0131 => ['I']
  | 0x017F => ['S']
  | 0xFB00 => ['F', 'F']
  | 0xFB01 => ['F', 'I']
  | 0xFB02 => ['F', 'L']
  | 0xFB03 => ['F', 'F', 'I']
  | 0xFB04 => ['F', 'F', 'L']
  | 0xFB05 | 0xFB06 => ['S', 'T']
  | _ => [c.toUpper]

/-- A text in capitals. -/
def upper (s : String) : String := String.ofList (s.toList.flatMap upperChar)

end SuperChip.Text
