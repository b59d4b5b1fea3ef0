import SuperChip.Expr.Token
import SuperChip.Labels

/-!
# The value of an expression

An expression is evaluated in one pass with two stacks: values that wait for an operator, and
operators and parentheses that wait for an operand. A binary operator first applies the waiting
operators that bind at least as tightly, so that equal ranks group to the left; a unary operator
binds tightest and groups to the right. Each stack holds fewer than a hundred entries.
-/

set_option autoImplicit false

namespace SuperChip

namespace Expr

/-- An operator that waits for its right operand. -/
inductive Operator where
  | unary (op : UnaryOp)
  | binary (op : BinaryOp)
  deriving DecidableEq, Repr

/-- An entry of the operator stack. -/
inductive Pending where
  | paren
  | operator (op : Operator)
  deriving DecidableEq, Repr

/-- The state between two tokens. -/
structure State where
  pending : List Pending := []
  values : List Nat := []
  /-- Whether an operand may start here; a minus sign is then a negation. -/
  expectsOperand : Bool := true
  deriving DecidableEq, Repr

/-- The number of entries at which a stack overflows. -/
def stackLimit : Nat := 100

/-- Takes the operands of an operator from the values and puts its value in their place. -/
def Operator.apply (op : Operator) (values : List Nat) : Except ExprError (List Nat) :=
  match op, values with
  | .unary op, a :: rest => .ok (op.apply a :: rest)
  | .binary op, b :: a :: rest =>
    match op.apply a b with
    | .ok v => .ok (v :: rest)
    | .error e => .error e
  | _, _ => .error .missingArgument

/-- Whether a waiting operator binds at least as tightly as a binary operator that follows. -/
def Operator.precedes (waiting : Operator) (next : BinaryOp) : Bool :=
  match waiting with
  | .unary _ => true
  | .binary op => next.rank ≤ op.rank

/-- Applies waiting operators from the top while they satisfy `p`, down to a parenthesis at most. -/
def reduceWhile (p : Operator → Bool) :
    List Pending → List Nat → Except ExprError (List Pending × List Nat)
  | .operator op :: pending, values =>
    if p op then
      match op.apply values with
      | .ok values => reduceWhile p pending values
      | .error e => .error e
    else .ok (.operator op :: pending, values)
  | pending, values => .ok (pending, values)

namespace State

/-- The state after a value. -/
def pushValue (s : State) (v : Nat) : State :=
  { s with values := v :: s.values, expectsOperand := false }

/-- The state after a unary operator. -/
def pushUnary (s : State) (op : UnaryOp) : State :=
  { s with pending := .operator (.unary op) :: s.pending }

/-- The state after a closing parenthesis. -/
def close (s : State) : Except ExprError State :=
  match reduceWhile (fun _ => true) s.pending s.values with
  | .ok (_ :: pending, values) => .ok ⟨pending, values, false⟩
  | .ok ([], _) => .error .unopened
  | .error e => .error e

/-- The state after a binary operator. -/
def pushBinary (s : State) (op : BinaryOp) : Except ExprError State :=
  match reduceWhile (·.precedes op) s.pending s.values with
  | .ok (pending, values) => .ok ⟨.operator (.binary op) :: pending, values, true⟩
  | .error e => .error e

/-- The state after one more token, before the limits are checked. -/
def shift (labels : Labels) (s : State) : Token → Except ExprError State
  | .number n => .ok (s.pushValue (toWord n))
  | .name name =>
    match labels.find? name with
    | some v => .ok (s.pushValue (toWord v))
    | none => .error (.unknownName name)
  | .openParen => .ok { s with pending := .paren :: s.pending, expectsOperand := true }
  | .closeParen => s.close
  | .symbol c =>
    if c = '-' ∧ s.expectsOperand then .ok (s.pushUnary .negate)
    else if c = '~' then
      if s.expectsOperand then .ok (s.pushUnary .complement) else .error .strayComplement
    else match BinaryOp.ofChar? c with
      | some op => s.pushBinary op
      | none => .error (.unknownOperator c)

/-- The state, if both stacks keep within their limit. -/
def checkLimits (s : State) : Except ExprError State :=
  if stackLimit ≤ s.pending.length then .error .tooManyOperators
  else if stackLimit ≤ s.values.length then .error .tooManyNumbers
  else .ok s

/-- The state after one more token. -/
def step (labels : Labels) (s : State) (t : Token) : Except ExprError State :=
  match s.shift labels t with
  | .ok s => s.checkLimits
  | .error e => .error e

end State

/-- The state after all tokens of a text. -/
def run (labels : Labels) (s : State) (cs : List Char) : Except ExprError State :=
  match hcs : Text.skipBlanks cs with
  | [] => .ok s
  | c :: rest =>
    match hread : Token.read c rest with
    | .error e => .error e
    | .ok (t, r) =>
      match s.step labels t with
      | .error e => .error e
      | .ok s =>
        have : r.length < cs.length := by
          have h := Text.length_skipBlanks_le cs
          have hr := Token.length_le_of_read hread
          rw [hcs, List.length_cons] at h
          omega
        run labels s r
termination_by cs.length

/-- Applies the operators that still wait at the end of the text; one value must be left. -/
def finish : List Pending → List Nat → Except ExprError Nat
  | [], [v] => .ok v
  | [], _ => .error .missingOperation
  | .paren :: _, _ => .error .unclosed
  | .operator op :: pending, values =>
    match op.apply values with
    | .ok values => finish pending values
    | .error e => .error e

/-- The 16-bit value of an expression, its names looked up in `labels`. -/
def eval (labels : Labels) (text : String) : Except ExprError Nat :=
  match run labels {} text.toList with
  | .ok s => finish s.pending s.values
  | .error e => .error e

end Expr

end SuperChip
