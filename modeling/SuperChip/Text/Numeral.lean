import SuperChip.Text.Blank
import SuperChip.Text.Digit
import SuperChip.Text.Name
import SuperChip.Text.Quoted

/-!
# Whole numbers as text

A numeral is a sign, a mark of its base and digits; single underscores may stand between digits and
after the mark, and blanks around the whole. Base zero takes the base from the mark: `0x`, `0o`,
`0b`, or none for ten, where leading zeros are allowed for zero only. Digits of any script count. A
numeral in base ten has a limited number of digits, which are counted before anything behind them is
looked at.
-/

set_option autoImplicit false

namespace SuperChip.Text

/-- Why a text is not read as a number. -/
inductive NumeralError where
  /-- It is no numeral in the base. -/
  | invalid (base : Nat) (text : String)
  /-- It has more decimal digits than can be read. -/
  | tooLong (digits : Nat)
  deriving DecidableEq, Repr

/-- How much of a quoted text a refusal shows. -/
def shownQuote : Nat := 200

/-- The wording of the refusal. -/
def NumeralError.message : NumeralError → String
  | .invalid base text =>
    s!"invalid literal for int() with base {base}: " ++
      String.ofList ((quoted text).toList.take shownQuote)
  | .tooLong digits => tooManyDigits digits

/-- A character as numerals see it: a digit of any script as an ASCII digit, and a blank that is not
ASCII as a space. -/
def plainChar (c : Char) : Char :=
  if c.toNat < 0x7F then c
  else if isBlank c then ' '
  else match decimalValue? c with
    | some d => Char.ofNat ('0'.toNat + d)
    | none => c

/-- Whether a blank may stand before or after a numeral; of ASCII, separators do not count. -/
def isNumeralBlank (c : Char) : Bool := c == ' ' || (0x09 ≤ c.toNat && c.toNat ≤ 0x0D)

/-- The value of a character as a digit in a base. -/
def digitIn? (base : Nat) (c : Char) : Option Nat :=
  if c.isAlphanum && digitValue c < base then some (digitValue c) else none

/-- The number that digits go on to write, with single underscores between them. -/
def restOfDigits (base n : Nat) : List Char → Option Nat
  | [] => some n
  | '_' :: c :: rest => (digitIn? base c).bind fun d => restOfDigits base (base * n + d) rest
  | c :: rest => (digitIn? base c).bind fun d => restOfDigits base (base * n + d) rest

/-- The number that digits write, at least one of them. -/
def digits? (base : Nat) : List Char → Option Nat
  | [] => none
  | c :: rest => (digitIn? base c).bind fun d => restOfDigits base d rest

/-- Digits after a mark, which an underscore may follow. -/
def markedDigits? (base : Nat) : List Char → Option Nat
  | '_' :: rest => digits? base rest
  | rest => digits? base rest

/-- A number without a sign. -/
def magnitude? (base : Nat) (cs : List Char) : Option Nat :=
  match base, cs with
  | 0, '0' :: 'x' :: rest | 0, '0' :: 'X' :: rest => markedDigits? 16 rest
  | 0, '0' :: 'o' :: rest | 0, '0' :: 'O' :: rest => markedDigits? 8 rest
  | 0, '0' :: 'b' :: rest | 0, '0' :: 'B' :: rest => markedDigits? 2 rest
  | 0, '0' :: rest => (digits? 10 ('0' :: rest)).filter (· == 0)
  | 0, cs => digits? 10 cs
  | 16, '0' :: 'x' :: rest | 16, '0' :: 'X' :: rest => markedDigits? 16 rest
  | base, cs => digits? base cs

/-- Whether a numeral without its sign is read in base ten. -/
def isDecimal (base : Nat) (cs : List Char) : Bool :=
  match base, cs with
  | 0, '0' :: mark :: _ => !(['x', 'X', 'o', 'O', 'b', 'B'].contains mark)
  | base, _ => base == 0 || base == 10

/-- The number of digits that a text without a sign begins with, if it is more than a numeral in
base ten may have. Single underscores may stand between them. -/
def excess? (base : Nat) (cs : List Char) : Option Nat :=
  let front := cs.takeWhile fun c => c.isDigit || c == '_'
  let count := front.countP Char.isDigit
  if isDecimal base cs && (digits? 10 front).isSome && digitLimit < count then some count else none

/-- A text without its sign. -/
def unsigned : List Char → List Char
  | '-' :: cs | '+' :: cs => cs
  | cs => cs

/-- A number with or without a sign. -/
def signed? (base : Nat) : List Char → Option Int
  | '-' :: cs => (magnitude? base cs).map fun n => -(n : Int)
  | '+' :: cs => (magnitude? base cs).map Int.ofNat
  | cs => (magnitude? base cs).map Int.ofNat

/-- The number that a text writes in a base: ten, sixteen, or zero for a base that its mark
tells. -/
def readInt (base : Nat) (text : String) : Except NumeralError Int :=
  let cs := (text.toList.map plainChar).dropWhile isNumeralBlank
  match excess? base (unsigned cs) with
  | some digits => .error (.tooLong digits)
  | none =>
    match signed? base (cs.reverse.dropWhile isNumeralBlank).reverse with
    | some n => .ok n
    | none => .error (.invalid base text)

end SuperChip.Text
