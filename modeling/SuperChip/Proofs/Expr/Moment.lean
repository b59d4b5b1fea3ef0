import Mathlib.Data.Int.Bitwise
import SuperChip.Expr.Eval

/-!
# The evaluator, moment by moment

An evaluation is a sequence of moments, each with the text still unread, the two stacks and what is
being done: a token is read, an operator that waits is applied, or the limits are checked. The
values are whole numbers of any size here. What a runtime would trip over (an entry taken from an
empty stack, a divisor of zero, a shift by a negative amount) is an ending of its own, so that it
can be said that no evaluation has it.
-/

set_option autoImplicit false

namespace SuperChip

namespace Expr

/-- What a runtime trips over. -/
inductive Fault where
  /-- An entry is taken from an empty stack. -/
  | emptyStack
  /-- A number is divided by zero. -/
  | zeroDivisor
  /-- A number is shifted by a negative amount. -/
  | negativeShift
  deriving DecidableEq, Repr

/-- How an evaluation ends. -/
inductive Ending where
  | value (v : Int)
  /-- There is no value, for this cause. -/
  | stopped (e : ExprError)
  | fault (f : Fault)
  deriving DecidableEq, Repr

/-- The ending with the same result. -/
def Ending.ofResult : Except ExprError Nat → Ending
  | .ok v => .value v
  | .error e => .stopped e

/-! ## Operators that may trip -/

/-- The top of a stack, which must not be empty, and the stack below it. -/
def pop {α : Type} : List α → Except Ending (α × List α)
  | [] => .error (.fault .emptyStack)
  | a :: rest => .ok (a, rest)

/-- The places that a shift by `b` moves by. -/
def places (b : Int) : Except Ending Nat :=
  if b < 0 then .error (.fault .negativeShift) else .ok b.toNat

/-- The divisor `b`, which must not be zero. -/
def divisor (b : Int) : Except Ending Int :=
  if b = 0 then .error (.fault .zeroDivisor) else .ok b

/-- The number that a unary operator makes of another, before it is cut to a word. -/
def computeUnary (op : UnaryOp) (a : Int) : Int :=
  match op with
  | .complement => -a - 1
  | .negate => -a

/-- The number that a binary operator makes of two, before it is cut to a word. -/
def computeBinary (op : BinaryOp) (a b : Int) : Except Ending Int :=
  match op with
  | .or => .ok (a.lor b)
  | .xor => .ok (a.xor b)
  | .and => .ok (a.land b)
  | .shiftRight => (places b).map fun (n : Nat) => a >>> n
  | .shiftLeft => if b < 16 then (places b).map (fun (n : Nat) => a <<< n) else .ok 0
  | .add => .ok (a + b)
  | .sub => .ok (a - b)
  | .mul => .ok (a * b)
  | .div => if b = 0 then .error (.stopped .divisionByZero) else (divisor b).map a.fdiv
  | .mod => if b = 0 then .error (.stopped .divisionByZero) else (divisor b).map a.fmod

/-- The values after an operator has taken its operands and left its value, cut to a word. -/
def applyTo (op : Operator) (values : List Int) : Except Ending (List Int) :=
  match op with
  | .unary op =>
    if values.length < 1 then .error (.stopped .missingArgument)
    else do
      let (a, rest) ← pop values
      return toWord (computeUnary op a) :: rest
  | .binary op =>
    if values.length < 2 then .error (.stopped .missingArgument)
    else do
      let (b, rest) ← pop values
      let (a, rest) ← pop rest
      let v ← computeBinary op a b
      return toWord v :: rest

/-- A unary operator takes one value, and its result is a word. -/
theorem applyTo_unary (op : UnaryOp) (a : Int) (rest : List Int) :
    applyTo (.unary op) (a :: rest) = .ok ((toWord (computeUnary op a) : Int) :: rest) := by
  rw [applyTo, if_neg (by simp)]
  rfl

/-- A binary operator takes two values, and its result is a word. -/
theorem applyTo_binary (op : BinaryOp) (b a : Int) (rest : List Int) :
    applyTo (.binary op) (b :: a :: rest) =
      (computeBinary op a b).map fun v => (toWord v : Int) :: rest := by
  rw [applyTo, if_neg (by simp)]
  change (computeBinary op a b >>= fun v => pure ((toWord v : Int) :: rest)) = _
  cases computeBinary op a b <;> rfl

/-! ## Moments -/

/-- What is being done. -/
inductive Stage where
  /-- The next token is read. -/
  | reading
  /-- Operators are applied that bind at least as tightly as one that then waits. -/
  | reducing (next : BinaryOp)
  /-- Operators are applied down to an opening parenthesis. -/
  | closing
  /-- The sizes of the stacks are checked. -/
  | checking
  /-- All operators are applied, since the text has ended. -/
  | finishing
  deriving DecidableEq, Repr

/-- A moment of an evaluation. -/
structure Moment where
  unread : List Char
  pending : List Pending := []
  values : List Int := []
  expectsOperand : Bool := true
  stage : Stage := .reading
  deriving DecidableEq, Repr

namespace Moment

/-- The first moment of the evaluation of a text. -/
def start (text : String) : Moment := { unread := text.toList }

/-- The moment after a value has come on top. -/
def pushValue (m : Moment) (v : Int) : Moment :=
  { m with values := toWord v :: m.values, expectsOperand := false, stage := .checking }

/-- The moment after an operator or a parenthesis has come on top. -/
def pushPending (m : Moment) (p : Pending) (expectsOperand : Bool) : Moment :=
  { m with pending := p :: m.pending, expectsOperand, stage := .checking }

/-- Applies an operator that has been taken from the stack. -/
def applyOperator (m : Moment) (op : Operator) (pending : List Pending) : Except Ending Moment := do
  let values ← applyTo op m.values
  return { m with pending, values }

/-- The moment after a token has been read. -/
def take (labels : Labels) (m : Moment) : Token → Except Ending Moment
  | .number n => .ok (m.pushValue n)
  | .name name =>
    match labels.find? name with
    | some v => .ok (m.pushValue v)
    | none => .error (.stopped (.unknownName name))
  | .openParen => .ok (m.pushPending .paren true)
  | .closeParen => .ok { m with stage := .closing }
  | .symbol c =>
    if c = '-' ∧ m.expectsOperand then
      .ok (m.pushPending (.operator (.unary .negate)) m.expectsOperand)
    else if c = '~' then
      if m.expectsOperand then
        .ok (m.pushPending (.operator (.unary .complement)) m.expectsOperand)
      else .error (.stopped .strayComplement)
    else match BinaryOp.ofChar? c with
      | some op => .ok { m with stage := .reducing op }
      | none => .error (.stopped (.unknownOperator c))

/-- The next moment, or how the evaluation ends. -/
def next (labels : Labels) (m : Moment) : Except Ending Moment :=
  match m.stage with
  | .reading =>
    match Text.skipBlanks m.unread with
    | [] => .ok { m with unread := [], stage := .finishing }
    | c :: rest =>
      match Token.read c rest with
      | .error e => .error (.stopped e)
      | .ok (t, unread) => { m with unread }.take labels t
  | .reducing op =>
    match m.pending.head? with
    | some (.operator waiting) =>
      if waiting.precedes op then do
        let (_, pending) ← pop m.pending
        m.applyOperator waiting pending
      else .ok (m.pushPending (.operator (.binary op)) true)
    | _ => .ok (m.pushPending (.operator (.binary op)) true)
  | .closing =>
    if m.pending.isEmpty then .error (.stopped .unopened)
    else do
      let (top, pending) ← pop m.pending
      match top with
      | .paren => return { m with pending, expectsOperand := false, stage := .checking }
      | .operator op => m.applyOperator op pending
  | .checking =>
    if stackLimit ≤ m.pending.length then .error (.stopped .tooManyOperators)
    else if stackLimit ≤ m.values.length then .error (.stopped .tooManyNumbers)
    else .ok { m with stage := .reading }
  | .finishing =>
    if m.pending.isEmpty then
      if m.values.length = 1 then do
        let (v, _) ← pop m.values
        throw (.value v)
      else .error (.stopped .missingOperation)
    else do
      let (top, pending) ← pop m.pending
      match top with
      | .paren => throw (.stopped .unclosed)
      | .operator op => m.applyOperator op pending

/-- The moment `n` steps later, or how the evaluation ends before that. -/
def after (labels : Labels) : Nat → Moment → Except Ending Moment
  | 0, m => .ok m
  | n + 1, m => m.next labels >>= after labels n

end Moment

end Expr

end SuperChip
