import SuperChip.Text.Digit

/-!
# Why an expression has no value

An expression is refused for one of several causes. A decimal number of too many digits is no cause
for a refusal: where one is met, the evaluation fails.
-/

set_option autoImplicit false

namespace SuperChip

/-- The causes for which an expression has no value. -/
inductive ExprError where
  /-- No hexadecimal digit follows `#`. -/
  | hexExpected
  /-- No binary digit follows `$`. -/
  | binaryExpected
  /-- A name is not in the label table. -/
  | unknownName (name : String)
  /-- A closing parenthesis has no opening one. -/
  | unopened
  /-- An opening parenthesis has no closing one. -/
  | unclosed
  /-- A complement stands where no operand may start. -/
  | strayComplement
  /-- A character is no operator. -/
  | unknownOperator (c : Char)
  /-- An operator lacks an operand. -/
  | missingArgument
  /-- A quotient or remainder by zero. -/
  | divisionByZero
  /-- Operands are left over, or there is none. -/
  | missingOperation
  /-- Too many operators wait at once. -/
  | tooManyOperators
  /-- Too many operands wait at once. -/
  | tooManyNumbers
  /-- A decimal number has more digits than can be read. -/
  | longNumeral (digits : Nat)
  deriving DecidableEq, Repr

/-- Whether the expression is refused. A number that is too long to be read is a failure instead. -/
def ExprError.isRefusal : ExprError → Bool
  | .longNumeral _ => false
  | _ => true

/-- The wording of each cause. -/
def ExprError.message : ExprError → String
  | .hexExpected => "expected hexadecimal number"
  | .binaryExpected => "expected binary number"
  | .unknownName name => "unknown identifier '" ++ name ++ "'"
  | .unopened => "found ')' with no matching '('"
  | .unclosed => "found '(' with no matching ')'"
  | .strayComplement => "did not expect unary operator '~'"
  | .unknownOperator c => "unknown operator '" ++ c.toString ++ "'"
  | .missingArgument => "expected argument to operator"
  | .divisionByZero => "division by zero"
  | .missingOperation => "expected operation"
  | .tooManyOperators => "operator stack overflowed (too many operators)"
  | .tooManyNumbers => "number stack overflowed (too many numbers/identifiers)"
  | .longNumeral digits => Text.tooManyDigits digits

end SuperChip
