import Mathlib.Data.List.Chain
import Mathlib.Data.Nat.Digits.Defs
import SuperChip.Expr.Eval

/-!
# Expression trees and the texts that write them

A tree is built from literals and names with the two unary and the ten binary operators. Its value
is a sixteen-bit vector, computed from the leaves up; a name without a value and a quotient or
remainder by zero leave it without one, and `Tree.Faulty` says where in the tree that comes from.

`Renders k t u` says that the lexemes `u` write the tree `t` where an operand of rank `k` or tighter
is due: an operator of a smaller rank needs parentheses there, and any tree may stand in more
parentheses than it needs. `Spaced u cs` says that the characters `cs` are the lexemes `u` with
blanks around them.
-/

set_option autoImplicit false

namespace SuperChip.Expr

/-! ## Literals and names -/

/-- The base a literal is written in. -/
inductive Base where
  | decimal
  | hexadecimal
  | binary
  deriving DecidableEq, Repr

namespace Base

/-- The number of a base. -/
def size : Base → Nat
  | .decimal => 10
  | .hexadecimal => 16
  | .binary => 2

/-- The characters in front of the digits. -/
def mark : Base → List Char
  | .decimal => []
  | .hexadecimal => ['#']
  | .binary => ['$']

/-- Whether a character is a digit of the base. -/
def isDigit : Base → Char → Bool
  | .decimal, c => c.isDigit
  | .hexadecimal, c => Text.isHexDigit c
  | .binary, c => Token.isBinaryDigit c

/-- The value of a digit; the point is a binary zero. -/
def digitValue : Base → Char → Nat
  | .binary, c => if c = '.' then 0 else Text.digitValue c
  | _, c => Text.digitValue c

end Base

/-- A literal: its base and its digits, of which there is at least one. -/
structure Literal where
  base : Base
  digits : List Char
  nonempty : digits ≠ []
  valid : ∀ c ∈ digits, base.isDigit c = true
  deriving DecidableEq, Repr

namespace Literal

/-- The number that a literal writes. -/
def value (l : Literal) : Nat :=
  Nat.ofDigits l.base.size (l.digits.reverse.map l.base.digitValue)

/-- The characters of a literal. -/
def chars (l : Literal) : List Char := l.base.mark ++ l.digits

/-- The literal has no more digits than can be read; only those of a decimal one are limited. -/
def Readable (l : Literal) : Prop := l.base = .decimal → l.digits.length ≤ Text.digitLimit

instance (l : Literal) : Decidable l.Readable := inferInstanceAs (Decidable (_ → _))

end Literal

/-- A name: a letter or underscore, then letters, digits and underscores. -/
structure Name where
  first : Char
  rest : List Char
  start : Text.isNameStart first = true
  more : ∀ c ∈ rest, Text.isNameChar c = true
  deriving DecidableEq, Repr

namespace Name

/-- The characters of a name. -/
def chars (n : Name) : List Char := n.first :: n.rest

/-- The name as a text. -/
def text (n : Name) : String := String.ofList n.chars

end Name

end Expr

open SuperChip.Expr

/-! ## Operators on bit vectors -/

/-- The character of a unary operator. -/
def UnaryOp.toChar : UnaryOp → Char
  | .complement => '~'
  | .negate => '-'

/-- The value of a unary operator on sixteen bits. -/
def UnaryOp.onBits (op : UnaryOp) (a : BitVec 16) : BitVec 16 :=
  match op with
  | .complement => ~~~a
  | .negate => -a

/-- Whether the operator takes no zero on its right. -/
def BinaryOp.divides : BinaryOp → Bool
  | .div | .mod => true
  | _ => false

/-- The value of a binary operator on sixteen bits. -/
def BinaryOp.onBits (op : BinaryOp) (a b : BitVec 16) : BitVec 16 :=
  match op with
  | .or => a ||| b
  | .xor => a ^^^ b
  | .and => a &&& b
  | .shiftRight => a >>> b
  | .shiftLeft => a <<< b
  | .add => a + b
  | .sub => a - b
  | .mul => a * b
  | .div => a / b
  | .mod => a % b

namespace Expr

/-! ## Trees -/

/-- An expression. -/
inductive Tree where
  | literal (l : Literal)
  | name (n : Name)
  | unary (op : UnaryOp) (a : Tree)
  | binary (op : BinaryOp) (a b : Tree)
  deriving DecidableEq, Repr

namespace Tree

/-- The value of a tree, from the leaves up. -/
def value (labels : Labels) : Tree → Option (BitVec 16)
  | .literal l => some (.ofNat 16 l.value)
  | .name n => (labels.find? n.text).map (.ofInt 16)
  | .unary op a => (a.value labels).map op.onBits
  | .binary op a b =>
    match a.value labels, b.value labels with
    | some v, some w => if op.divides ∧ w = 0 then none else some (op.onBits v w)
    | _, _ => none

/-- The tree holds a name without a value, or a quotient or remainder whose right operand has the
value zero. -/
inductive Faulty (labels : Labels) : Tree → Prop where
  | missing {n : Name} (h : labels.find? n.text = none) : Faulty labels (.name n)
  | zero {op : BinaryOp} {a b : Tree} (hop : op.divides = true) (h : b.value labels = some 0) :
      Faulty labels (.binary op a b)
  | unary {op : UnaryOp} {a : Tree} (h : Faulty labels a) : Faulty labels (.unary op a)
  | left {op : BinaryOp} {a b : Tree} (h : Faulty labels a) : Faulty labels (.binary op a b)
  | right {op : BinaryOp} {a b : Tree} (h : Faulty labels b) : Faulty labels (.binary op a b)

/-- The trees without a value are the faulty ones. -/
theorem value_eq_none_iff (labels : Labels) (t : Tree) :
    t.value labels = none ↔ t.Faulty labels := by
  constructor
  · intro h
    induction t with
    | literal l => simp [value] at h
    | name n =>
      rw [value, Option.map_eq_none_iff] at h
      exact .missing h
    | unary op a ih =>
      rw [value, Option.map_eq_none_iff] at h
      exact .unary (ih h)
    | binary op a b iha ihb =>
      cases ha : a.value labels with
      | none => exact .left (iha ha)
      | some v =>
        cases hb : b.value labels with
        | none => exact .right (ihb hb)
        | some w =>
          simp only [value, ha, hb, ite_eq_left_iff, reduceCtorEq, imp_false,
            Decidable.not_not] at h
          exact .zero h.1 (by rw [hb, h.2])
  · intro h
    induction h with
    | missing h => rw [value, h, Option.map_none]
    | @zero op a b hop hb =>
      rw [value, hb]
      cases a.value labels <;> simp [hop]
    | unary _ ih => rw [value, ih, Option.map_none]
    | left _ ih => rw [value, ih]
    | @right op a b _ ih =>
      rw [value, ih]
      cases a.value labels <;> rfl

end Tree

/-! ## Renderings -/

/-- A piece of an expression between which blanks may stand. -/
inductive Lexeme where
  | literal (l : Literal)
  | name (n : Name)
  | unary (op : UnaryOp)
  | binary (op : BinaryOp)
  | openParen
  | closeParen
  deriving DecidableEq, Repr

namespace Lexeme

/-- The characters of a lexeme. -/
def chars : Lexeme → List Char
  | .literal l => l.chars
  | .name n => n.chars
  | .unary op => [op.toChar]
  | .binary op => [op.toChar]
  | .openParen => ['(']
  | .closeParen => [')']

/-- Whether a lexeme is a literal or a name. -/
def isOperand : Lexeme → Bool
  | .literal _ | .name _ => true
  | _ => false

/-- A literal has no more digits than can be read. -/
def Readable : Lexeme → Prop
  | .literal l => l.Readable
  | _ => True

instance (x : Lexeme) : Decidable x.Readable := by
  cases x <;> unfold Readable <;> infer_instance

end Lexeme

/-- The rank of an operand of a unary operator: tighter than every binary operator. -/
def unaryRank : Nat := 7

/-- The lexemes that write a tree where an operand of rank `k` or tighter is due. -/
inductive Renders : Nat → Tree → List Lexeme → Prop where
  | literal (k : Nat) (l : Literal) : Renders k (.literal l) [.literal l]
  | name (k : Nat) (n : Name) : Renders k (.name n) [.name n]
  | unary (k : Nat) {op : UnaryOp} {a : Tree} {u : List Lexeme} (h : Renders unaryRank a u) :
      Renders k (.unary op a) (.unary op :: u)
  | binary {k : Nat} {op : BinaryOp} {a b : Tree} {u w : List Lexeme} (hk : k ≤ op.rank)
      (ha : Renders op.rank a u) (hb : Renders (op.rank + 1) b w) :
      Renders k (.binary op a b) (u ++ .binary op :: w)
  | parens (k : Nat) {t : Tree} {u : List Lexeme} (h : Renders 0 t u) :
      Renders k t (.openParen :: (u ++ [.closeParen]))

/-- The characters of lexemes with any blanks before, between and after them. -/
inductive Spaced : List Lexeme → List Char → Prop where
  | nil {g : List Char} (hg : ∀ c ∈ g, Text.isBlank c = true) : Spaced [] g
  | cons {g cs : List Char} {x : Lexeme} {u : List Lexeme}
      (hg : ∀ c ∈ g, Text.isBlank c = true) (h : Spaced u cs) :
      Spaced (x :: u) (g ++ (x.chars ++ cs))

/-- The characters of a lexeme space it out. -/
theorem spaced_single (x : Lexeme) : Spaced [x] x.chars := by
  have h := Spaced.cons (g := []) (x := x) nofun (.nil (g := []) nofun)
  rwa [List.nil_append, List.append_nil] at h

/-- No two operands stand side by side. -/
def Separated (u : List Lexeme) : Prop :=
  u.IsChain fun x y => x.isOperand = false ∨ y.isOperand = false

/-- In a rendering no two operands stand side by side. -/
theorem Renders.separated {k : Nat} {t : Tree} {u : List Lexeme} (h : Renders k t u) :
    Separated u := by
  unfold Separated
  induction h with
  | literal => exact .singleton _
  | name => exact .singleton _
  | unary _ _ ih => exact ih.cons fun _ _ => .inl rfl
  | binary _ _ _ iha ihb =>
    refine List.isChain_append.2 ⟨iha, ihb.cons fun _ _ => .inl rfl, ?_⟩
    intro x _ y hy
    cases hy
    exact .inr rfl
  | parens _ _ ih =>
    refine .cons (List.isChain_append.2 ⟨ih, .singleton _, ?_⟩) fun _ _ => .inl rfl
    intro x _ y hy
    cases hy
    exact .inr rfl

end SuperChip.Expr
