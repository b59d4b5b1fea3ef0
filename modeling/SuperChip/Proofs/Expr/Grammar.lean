import SuperChip.Proofs.Expr.Value

/-!
# The grammar of expressions

An expression is a chain of operands with binary operators between them; an operand is a literal, a
name or an expression in parentheses, with any number of unary operators in front. Lexemes derive
from this grammar exactly if each stands where it may, the parentheses close in pairs, and there is
one literal or name more than there are binary operators (`derives_iff`).

Read from left to right, the lexemes are at each point either in front of an operand or behind one.
The proof follows the parentheses that are open by then: what is behind the innermost of them is an
expression (`Complete`), or becomes one with any operand (`Reached`).
-/

set_option autoImplicit false

namespace SuperChip.Expr

/-- The phrases of the grammar. -/
inductive Phrase where
  | expr
  | unary
  | primary
  deriving DecidableEq, Repr

/-- The lexemes that each phrase derives. -/
inductive Derives : Phrase → List Lexeme → Prop where
  | operand {u : List Lexeme} (h : Derives .unary u) : Derives .expr u
  | binary {u w : List Lexeme} (op : BinaryOp) (hu : Derives .expr u) (hw : Derives .unary w) :
      Derives .expr (u ++ .binary op :: w)
  | primary {u : List Lexeme} (h : Derives .primary u) : Derives .unary u
  | unary {u : List Lexeme} (op : UnaryOp) (h : Derives .unary u) : Derives .unary (.unary op :: u)
  | literal (l : Literal) : Derives .primary [.literal l]
  | name (n : Name) : Derives .primary [.name n]
  | parens {u : List Lexeme} (h : Derives .expr u) :
      Derives .primary (.openParen :: (u ++ [.closeParen]))

/-- The text is an expression, with blanks between its lexemes. -/
def IsExpression (text : String) : Prop := ∃ u, Spaced u text.toList ∧ Derives .expr u

namespace Lexeme

/-- Whether the lexeme may stand first in an operand. -/
def startsOperand : Lexeme → Bool
  | .binary _ | .closeParen => false
  | _ => true

/-- Whether the lexeme may stand last in an operand. -/
def endsOperand : Lexeme → Bool
  | .literal _ | .name _ | .closeParen => true
  | _ => false

/-- The number of open parentheses behind the lexeme, of `d` in front of it. -/
def nest? : Lexeme → Nat → Option Nat
  | .openParen, d => some (d + 1)
  | .closeParen, 0 => none
  | .closeParen, d + 1 => some d
  | _, d => some d

/-- Whether the lexeme is a binary operator. -/
def isBinary : Lexeme → Bool
  | .binary _ => true
  | _ => false

end Lexeme

/-- Each lexeme starts an operand exactly where one is expected: at first as told, and then behind
any lexeme that ends none. -/
def Ordered : Bool → List Lexeme → Prop
  | _, [] => True
  | expecting, x :: u => x.startsOperand = expecting ∧ Ordered (!x.endsOperand) u

/-- The number of open parentheses behind the lexemes, unless one closes that was never opened. -/
def depth? (d : Nat) (u : List Lexeme) : Option Nat := u.foldlM (fun d x => x.nest? d) d

/-- The number of binary operators. -/
def countBinaries (u : List Lexeme) : Nat := u.countP Lexeme.isBinary

/-- The parentheses close in pairs, and there are operands for all binary operators. -/
structure Balanced (u : List Lexeme) : Prop where
  depth : depth? 0 u = some 0
  operands : countOperands u = countBinaries u + 1

/-- Of lexemes with `d` open parentheses, those behind the innermost are an expression. What is in
front of that parenthesis lacks just an operand. -/
def Complete : Nat → List Lexeme → Prop
  | 0, p => Derives .expr p
  | d + 1, p => ∃ q u, p = q ++ .openParen :: u ∧ Derives .expr u ∧
      ∀ v, Derives .unary v → Complete d (q ++ v)

/-- Lexemes in front of an operand are complete with any operand; others are complete. -/
def Reached (expecting : Bool) (d : Nat) (p : List Lexeme) : Prop :=
  if expecting then ∀ v, Derives .unary v → Complete d (p ++ v) else Complete d p

variable {d d' : Nat} {p u : List Lexeme}

/-- A complete front goes on with an operator and an operand. -/
theorem Complete.binary (h : Complete d p) (op : BinaryOp) {v : List Lexeme}
    (hv : Derives .unary v) : Complete d (p ++ .binary op :: v) := by
  cases d with
  | zero => exact .binary op h hv
  | succ d =>
    obtain ⟨q, u, rfl, hu, hq⟩ := h
    exact ⟨q, u ++ .binary op :: v, by simp, .binary op hu hv, hq⟩

/-- A complete front inside parentheses is closed to one outside. -/
theorem Complete.close (h : Complete (d + 1) p) : Complete d (p ++ [.closeParen]) := by
  obtain ⟨q, u, rfl, hu, hq⟩ := h
  have hoperand := hq _ (.primary (.parens hu))
  simpa using hoperand

/-- One more lexeme in its place. -/
theorem Reached.next {expecting : Bool} (h : Reached expecting d p) {x : Lexeme}
    (hx : x.startsOperand = expecting) (hd : x.nest? d = some d') :
    Reached (!x.endsOperand) d' (p ++ [x]) := by
  subst hx
  cases x with
  | literal l =>
    cases hd
    exact h _ (.primary (.literal l))
  | name n =>
    cases hd
    exact h _ (.primary (.name n))
  | unary op =>
    cases hd
    intro v hv
    simpa using h _ (.unary op hv)
  | openParen =>
    cases hd
    intro v hv
    exact ⟨p, v, by simp, .operand hv, h⟩
  | binary op =>
    cases hd
    intro v hv
    have hcomplete : Complete d p := h
    simpa using hcomplete.binary op hv
  | closeParen =>
    cases d with
    | zero => cases hd
    | succ d =>
      cases hd
      exact Complete.close h

/-- One lexeme in front is one operand more, if it is one. -/
theorem countOperands_cons (x : Lexeme) (u : List Lexeme) :
    countOperands (x :: u) = countOperands u + if x.isOperand then 1 else 0 := List.countP_cons

/-- One lexeme in front is one binary operator more, if it is one. -/
theorem countBinaries_cons (x : Lexeme) (u : List Lexeme) :
    countBinaries (x :: u) = countBinaries u + if x.isBinary then 1 else 0 := List.countP_cons

/-- The operands of joined lexemes are those of both parts. -/
theorem countOperands_append (u w : List Lexeme) :
    countOperands (u ++ w) = countOperands u + countOperands w := List.countP_append

/-- The binary operators of joined lexemes are those of both parts. -/
theorem countBinaries_append (u w : List Lexeme) :
    countBinaries (u ++ w) = countBinaries u + countBinaries w := List.countP_append

/-- A lexeme that both starts and ends an operand counts for one, and one that does neither against
one. -/
theorem balance_cons (x : Lexeme) (u : List Lexeme) :
    countOperands (x :: u) + (if x.startsOperand then 0 else 1) + countBinaries u =
      countOperands u + (if !x.endsOperand then 0 else 1) + countBinaries (x :: u) := by
  rw [countOperands_cons, countBinaries_cons]
  cases x <;> simp [Lexeme.startsOperand, Lexeme.endsOperand, Lexeme.isOperand, Lexeme.isBinary]
  all_goals omega

/-- What is reached is completed to an expression by lexemes in order that close it and leave one
operand more than binary operators. -/
theorem derives_of_reached {expecting : Bool} (h : Reached expecting d p) (hu : Ordered expecting u)
    (hdepth : depth? d u = some 0)
    (hcount : countOperands u + (if expecting then 0 else 1) = countBinaries u + 1) :
    Derives .expr (p ++ u) := by
  induction u generalizing expecting d p with
  | nil =>
    cases expecting with
    -- in front of an operand there are as many operands as binary operators so far
    | true => simp [countOperands, countBinaries] at hcount
    | false =>
      cases hdepth
      rw [List.append_nil]
      exact h
  | cons x u ih =>
    obtain ⟨hx, hu⟩ := hu
    obtain ⟨d', hd, hdepth⟩ := Option.bind_eq_some_iff.mp hdepth
    have hbalance := balance_cons x u
    rw [hx] at hbalance
    have hrest := ih (h.next hx hd) hu hdepth (by omega)
    rwa [List.append_assoc] at hrest

/-- In front of any lexemes a phrase stands in order and leaves them to follow an operand. -/
theorem Derives.ordered_append {part : Phrase} (h : Derives part u) (rest : List Lexeme) :
    Ordered true (u ++ rest) ↔ Ordered false rest := by
  induction h generalizing rest with
  | operand _ ih => exact ih rest
  | binary op _ _ ihu ihw =>
    rw [List.append_assoc, ihu]
    simpa [Ordered, Lexeme.startsOperand, Lexeme.endsOperand] using ihw rest
  | primary _ ih => exact ih rest
  | unary op _ ih => simpa [Ordered, Lexeme.startsOperand, Lexeme.endsOperand] using ih rest
  | literal l => simp [Ordered, Lexeme.startsOperand, Lexeme.endsOperand]
  | name n => simp [Ordered, Lexeme.startsOperand, Lexeme.endsOperand]
  | parens _ ih =>
    simpa [Ordered, Lexeme.startsOperand, Lexeme.endsOperand] using ih (.closeParen :: rest)

/-- In front of any lexemes a phrase leaves the open parentheses as they are. -/
theorem Derives.depth?_append {part : Phrase} (h : Derives part u) (rest : List Lexeme) (d : Nat) :
    depth? d (u ++ rest) = depth? d rest := by
  induction h generalizing rest d with
  | operand _ ih => exact ih rest d
  | binary op _ _ ihu ihw =>
    rw [List.append_assoc, ihu]
    exact ihw rest d
  | primary _ ih => exact ih rest d
  | unary op _ ih => exact ih rest d
  | literal l => rfl
  | name n => rfl
  | @parens u _ ih =>
    have hinner := ih (.closeParen :: rest) (d + 1)
    rwa [← List.singleton_append, ← List.append_assoc] at hinner

/-- A phrase has one operand more than it has binary operators. -/
theorem Derives.operands {part : Phrase} (h : Derives part u) :
    countOperands u = countBinaries u + 1 := by
  induction h with
  | operand _ ih => exact ih
  | binary op _ _ ihu ihw =>
    rw [countOperands_append, countBinaries_append, countOperands_cons, countBinaries_cons]
    simp [Lexeme.isOperand, Lexeme.isBinary]
    omega
  | primary _ ih => exact ih
  | unary op _ ih =>
    rw [countOperands_cons, countBinaries_cons]
    exact ih
  | literal l => rfl
  | name n => rfl
  | parens _ ih =>
    rw [countOperands_cons, countBinaries_cons, countOperands_append, countBinaries_append]
    exact ih

/-- The lexemes of expressions are those that stand in order and are balanced. -/
theorem derives_iff : Derives .expr u ↔ Ordered true u ∧ Balanced u := by
  constructor
  · intro h
    have hordered := h.ordered_append []
    have hdepth := h.depth?_append [] 0
    rw [List.append_nil] at hordered hdepth
    exact ⟨hordered.mpr trivial, hdepth, h.operands⟩
  · rintro ⟨hordered, hbalanced⟩
    have hstart : Reached true 0 [] := fun v hv => .operand hv
    exact derives_of_reached hstart hordered hbalanced.depth hbalanced.operands

end SuperChip.Expr
