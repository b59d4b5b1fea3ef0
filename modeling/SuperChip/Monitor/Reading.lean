import SuperChip.Machine.Machine
import SuperChip.Text.Lower
import SuperChip.Text.Numeral
import SuperChip.Text.ShellWords
import SuperChip.Text.Utf8

/-!
# Numbers and addresses in monitor commands

A count is a numeral whose mark tells its base. An address may also be written with a number sign
for base sixteen, or as `pc` or `i` for the registers that hold addresses; capitals do not matter.
-/

set_option autoImplicit false

namespace SuperChip.Monitor

/-- Why an argument cannot be read. -/
inductive Complaint where
  | numeral (cause : Text.NumeralError)
  | words (cause : Text.WordsError)
  | text (cause : Text.Utf8Error)
  deriving DecidableEq, Repr

/-- The wording of a complaint. -/
def Complaint.message : Complaint → String
  | .numeral cause => cause.message
  | .words cause => cause.message
  | .text cause => cause.message

/-- A text without blanks around it. -/
def trimmed (text : String) : String := String.ofList (Text.trim text.toList)

/-- The number that a text writes in a base. -/
def readNumeral (base : Nat) (text : String) : Except Complaint Int :=
  (Text.readInt base text).mapError .numeral

/-- The number that a text writes, in the base that its mark tells. -/
def readCount (text : String) : Except Complaint Int := readNumeral 0 (trimmed text)

/-- The address that a text writes, for a machine. -/
def readAddress (m : Machine) (text : String) : Except Complaint Int :=
  let name := Text.lower (trimmed text)
  if name = "pc" then .ok m.pc
  else if name = "i" then .ok m.index
  else match name.toList with
    | '#' :: digits => readNumeral 16 (String.ofList digits)
    | _ => readNumeral 0 name

/-- The words of an argument. -/
def readWords (text : String) : Except Complaint (List String) :=
  (Text.words text).mapError .words

end SuperChip.Monitor
