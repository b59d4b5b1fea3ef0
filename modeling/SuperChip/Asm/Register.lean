import SuperChip.Text.Name

/-!
# Names of registers

A register is named `V` or `v` and one hexadecimal digit.
-/

set_option autoImplicit false

namespace SuperChip

/-- The number of the register that a text names. -/
def registerNumber? (name : String) : Option Nat :=
  match name.toList with
  | [v, d] => if (v = 'V' ∨ v = 'v') ∧ Text.isHexDigit d then some (Text.digitValue d) else none
  | _ => none

end SuperChip
