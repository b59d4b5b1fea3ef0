import SuperChip.Text.Numeral

/-!
# Values of options

Options take decimal numbers. Some must be positive, and a volume is a percentage.
-/

set_option autoImplicit false

namespace SuperChip.Tool

/-- Why a text is no value for an option. -/
inductive ValueError where
  | notNumber (cause : Text.NumeralError)
  | notPositive
  | notVolume
  deriving DecidableEq, Repr

/-- The wording of each refusal. -/
def ValueError.message : ValueError → String
  | .notNumber cause => cause.message
  | .notPositive => "must be a positive integer"
  | .notVolume => "volume must be between 0 and 100"

/-- What an option takes. -/
inductive ValueKind where
  | text
  | number
  | positive
  | volume
  deriving DecidableEq, Repr

/-- The name of a kind of number in refusals. -/
def ValueKind.name : ValueKind → String
  | .text => "str"
  | .number => "int"
  | .positive => "_positive"
  | .volume => "_volume"

/-- The number that a text writes. -/
def readNumber (text : String) : Except ValueError Int := (Text.readInt 10 text).mapError .notNumber

/-- The positive number that a text writes. -/
def readPositive (text : String) : Except ValueError Int := do
  let n ← readNumber text
  if 0 < n then return n else throw .notPositive

/-- The percentage that a text writes. -/
def readVolume (text : String) : Except ValueError Int := do
  let n ← readNumber text
  if 0 ≤ n ∧ n ≤ 100 then return n else throw .notVolume

end SuperChip.Tool
