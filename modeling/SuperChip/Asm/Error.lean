import SuperChip.Expr.Error

/-!
# Why source text is refused

A line, or an item recorded from it, is refused for one of several causes. An expression that holds
a number too long to be read is no cause for a refusal: the assembler fails there, and what it had
done with the line by then stays done.
-/

set_option autoImplicit false

namespace SuperChip

/-- The causes for which a line, or an item recorded from it, is not taken. -/
inductive AsmCause where
  /-- A second label before one statement. -/
  | secondLabel (found : String)
  /-- Nothing stands between two commas, or after the last one. -/
  | emptyOperand
  /-- More operands than any statement takes. -/
  | operandOverflow
  /-- Fewer operands than the mnemonic takes. -/
  | tooFewOperands (mnemonic : String)
  /-- More operands than the mnemonic takes. -/
  | tooManyOperands (mnemonic : String)
  /-- An assignment without exactly one operand. -/
  | assignmentOperands
  /-- A name that already has a value. -/
  | duplicateName (name : String)
  /-- An `ELSE` outside a conditional. -/
  | unexpectedElse
  /-- An `ENDIF` outside a conditional. -/
  | unexpectedEndif
  /-- Operands in no form that the mnemonic has. -/
  | invalidOperands (mnemonic : String)
  /-- No such mnemonic. -/
  | invalidMnemonic (mnemonic : String)
  /-- An operand that must be a register and is none. -/
  | notRegister (operand : String)
  /-- A recorded operation whose operands do not fit its layout. -/
  | invalidOperation
  /-- Bytes before the start or past the end of program memory. -/
  | programTooLarge
  /-- An assigned expression without a value. -/
  | expression (cause : ExprError)
  /-- An operand without a value. -/
  | operand (text : String) (cause : ExprError)
  deriving DecidableEq, Repr

namespace AsmCause

/-- Whether the source is refused. A number that is too long to be read is a failure instead. -/
def isRefusal : AsmCause → Bool
  | expression cause | operand _ cause => cause.isRefusal
  | _ => true

/-- The wording of each cause. A failure does not name the operand. -/
def message : AsmCause → String
  | secondLabel found =>
    "cannot associate more than one label with a statement; already found label '" ++ found ++ "'"
  | emptyOperand => "empty operand"
  | operandOverflow => "too many operands"
  | tooFewOperands mnemonic => "too few operands to " ++ mnemonic
  | tooManyOperands mnemonic => "too many operands to " ++ mnemonic
  | assignmentOperands => "wrong number of operands given to '='"
  | duplicateName name => "duplicate label or variable '" ++ name ++ "' found"
  | unexpectedElse => "unexpected ELSE"
  | unexpectedEndif => "unexpected ENDIF"
  | invalidOperands mnemonic => "invalid operands to " ++ mnemonic
  | invalidMnemonic mnemonic => "invalid instruction '" ++ mnemonic ++ "'"
  | notRegister text => "'" ++ text ++ "' is not the name of a register"
  | invalidOperation => "invalid operation"
  | programTooLarge => "program is too large"
  | expression cause => cause.message
  | operand text cause =>
    if cause.isRefusal then "could not evaluate operand '" ++ text ++ "': " ++ cause.message
    else cause.message

/-- Whether the source is refused for an expression. -/
def isExpression : AsmCause → Bool
  | expression cause | operand _ cause => cause.isRefusal
  | _ => false

end AsmCause

/-- A cause and the number of the line it concerns. -/
structure AsmError where
  line : Int
  cause : AsmCause
  deriving DecidableEq, Repr

/-- The wording of a refusal, with its line; a failure names no line. -/
def AsmError.message (e : AsmError) : String :=
  if e.cause.isRefusal then s!"Line {e.line}: " ++ e.cause.message else e.cause.message

end SuperChip
