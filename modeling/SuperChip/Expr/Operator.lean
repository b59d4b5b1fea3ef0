import SuperChip.Expr.Error

/-!
# Operators on 16-bit values

Two unary and ten binary operators. Operands and results are unsigned 16-bit values; a result is cut
to its low sixteen bits. A shift to the left by sixteen or more gives zero, and a quotient or
remainder by zero is refused.
-/

set_option autoImplicit false

namespace SuperChip

/-- The operators with one operand. -/
inductive UnaryOp where
  | complement
  | negate
  deriving DecidableEq, Repr

/-- The operators with two operands. -/
inductive BinaryOp where
  | or
  | xor
  | and
  | shiftRight
  | shiftLeft
  | add
  | sub
  | mul
  | div
  | mod
  deriving DecidableEq, Repr

/-- The number of 16-bit values. -/
def wordSize : Nat := 0x10000

/-- The low sixteen bits of a number. -/
def toWord (n : Int) : Nat := (n % wordSize).toNat

/-- The value of a unary operator. -/
def UnaryOp.apply (op : UnaryOp) (a : Nat) : Nat :=
  match op with
  | .complement => toWord (-a - 1)
  | .negate => toWord (-a)

namespace BinaryOp

/-- The operator a character stands for. -/
def ofChar? : Char → Option BinaryOp
  | '|' => some .or
  | '^' => some .xor
  | '&' => some .and
  | '>' => some .shiftRight
  | '<' => some .shiftLeft
  | '+' => some .add
  | '-' => some .sub
  | '*' => some .mul
  | '/' => some .div
  | '%' => some .mod
  | _ => none

/-- The character of an operator. -/
def toChar : BinaryOp → Char
  | .or => '|'
  | .xor => '^'
  | .and => '&'
  | .shiftRight => '>'
  | .shiftLeft => '<'
  | .add => '+'
  | .sub => '-'
  | .mul => '*'
  | .div => '/'
  | .mod => '%'

/-- The character of an operator leads back to it. -/
theorem ofChar?_toChar (op : BinaryOp) : ofChar? op.toChar = some op := by
  cases op <;> rfl

/-- How tightly an operator binds; operators of one rank group to the left. -/
def rank : BinaryOp → Nat
  | .or => 1
  | .xor => 2
  | .and => 3
  | .shiftRight | .shiftLeft => 4
  | .add | .sub => 5
  | .mul | .div | .mod => 6

/-- The value of a binary operator, or why it has none. -/
def apply (op : BinaryOp) (a b : Nat) : Except ExprError Nat :=
  match op with
  | .or => .ok (toWord (a ||| b : Nat))
  | .xor => .ok (toWord (a ^^^ b : Nat))
  | .and => .ok (toWord (a &&& b : Nat))
  | .shiftRight => .ok (toWord (a >>> b : Nat))
  | .shiftLeft => .ok (if b < 16 then toWord (a <<< b : Nat) else 0)
  | .add => .ok (toWord (a + b))
  | .sub => .ok (toWord (a - b))
  | .mul => .ok (toWord (a * b))
  | .div => if b = 0 then .error .divisionByZero else .ok (toWord (a / b : Nat))
  | .mod => if b = 0 then .error .divisionByZero else .ok (toWord (a % b : Nat))

end BinaryOp

end SuperChip
