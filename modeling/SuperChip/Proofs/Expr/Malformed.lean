import SuperChip.Proofs.Expr.Reading

/-!
# Texts that are no expressions

A text that does not derive from the grammar is refused, unless its lexemes are balanced and only
stand in another order than the grammar has them in (`eval_of_not_isExpression`). The evaluator does
not ask whether an operand is expected where it meets one, nor whether one precedes a binary
operator; so it gives a value to an operator in front of its operands or behind them. Where it comes
to a decimal number of more digits than can be read it fails, and this is no refusal.
-/

set_option autoImplicit false

namespace SuperChip.Expr

/-- Of a text that has a value the evaluator reads lexemes that are balanced. -/
theorem exists_balanced_of_eval {labels : Labels} {text : String} {v : Nat}
    (h : eval labels text = .ok v) : ∃ u, Reads true u text.toList ∧ Balanced u := by
  unfold eval at h
  split at h
  · next s hrun =>
    obtain ⟨u, hreads, hdepth, hbalance⟩ := exists_reads_of_run hrun
    obtain ⟨hparens, hvalues⟩ := balance_of_finish h
    rw [hparens] at hdepth
    refine ⟨u, hreads, hdepth, ?_⟩
    have hstart : countWaiting [] = 0 := rfl
    simp only [hstart, List.length_nil] at hbalance
    omega
  · cases h

/-- A text that is no expression is refused, unless the evaluator reads lexemes that are balanced
but do not stand in order, or comes to a decimal number of more digits than can be read. -/
theorem eval_of_not_isExpression (labels : Labels) {text : String} (h : ¬ IsExpression text) :
    (∃ e, eval labels text = .error e ∧ e.isRefusal = true) ∨
      (∃ u, Reads true u text.toList ∧ Balanced u ∧ ¬ Ordered true u) ∨
      ∃ n, MeetsLong text.toList n ∧ eval labels text = .error (.longNumeral n) := by
  cases heval : eval labels text with
  | error e =>
    obtain hrefusal | ⟨n, hmeets, rfl⟩ := refused_or_meetsLong heval
    · exact .inl ⟨e, rfl, hrefusal⟩
    · exact .inr (.inr ⟨n, hmeets, rfl⟩)
  | ok v =>
    obtain ⟨u, hreads, hbalanced⟩ := exists_balanced_of_eval heval
    refine .inr (.inl ⟨u, hreads, hbalanced, fun hordered => ?_⟩)
    exact h ⟨u, hreads.spaced, derives_iff.mpr ⟨hordered, hbalanced⟩⟩

/-! ## Texts that no expression begins like -/

/-- Whether an operand may begin with the character. -/
def beginsOperand (c : Char) : Bool :=
  c.isDigit || Text.isNameStart c || ['#', '$', '(', '-', '~'].contains c

/-- A lexeme that may stand first in an operand begins with a character that an operand may begin
with. -/
theorem beginsOperand_of_startsOperand {x : Lexeme} (hx : x.startsOperand = true) {c : Char}
    {rest : List Char} (hchars : x.chars = c :: rest) : beginsOperand c = true := by
  cases x with
  | literal l =>
    obtain ⟨base, digits, hne, hvalid⟩ := l
    cases base with
    | decimal =>
      have hdigits : digits = c :: rest := hchars
      have hdigit : c.isDigit = true := hvalid c (hdigits ▸ .head _)
      rw [beginsOperand, hdigit]
      rfl
    | hexadecimal =>
      cases hchars
      decide
    | binary =>
      cases hchars
      decide
  | name n =>
    cases hchars
    rw [beginsOperand, n.start, Bool.or_true, Bool.true_or]
  | unary op =>
    cases op <;> cases hchars <;> decide
  | openParen =>
    cases hchars
    decide
  | binary op => cases hx
  | closeParen => cases hx

/-- A text that begins with none of these characters is no expression. -/
theorem not_isExpression_of_front {text : String} {c : Char} {rest : List Char}
    (hfront : Text.skipBlanks text.toList = c :: rest) (hc : beginsOperand c = false) :
    ¬ IsExpression text := by
  rintro ⟨u, hspaced, hderives⟩
  obtain ⟨hordered, hbalanced⟩ := derives_iff.mp hderives
  generalize text.toList = cs at hfront hspaced
  cases hspaced with
  | nil => cases hbalanced.operands
  | @cons g cs x w hg h =>
    obtain ⟨d, more, hchars, -⟩ := x.exists_chars_eq_cons
    rw [x.skipBlanks_append hg, hchars, List.cons_append] at hfront
    obtain ⟨rfl, -⟩ := List.cons.inj hfront
    rw [beginsOperand_of_startsOperand hordered.1 hchars] at hc
    cases hc

/-- An operator in front of its operands is applied to them. -/
theorem eval_plus : ¬ IsExpression "+ 1 2" ∧ eval {} "+ 1 2" = .ok 3 :=
  ⟨not_isExpression_of_front (c := '+') rfl (by decide), by decide +kernel⟩

/-- A parenthesis that closes where none is open is refused: no lexemes that are read from it are
balanced, and no number stands in it. -/
theorem eval_of_not_isExpression_unopened : ¬ IsExpression ")" ∧
    ∃ e, eval {} ")" = .error e ∧ e.isRefusal = true := by
  have hmalformed : ¬ IsExpression ")" := not_isExpression_of_front (c := ')') rfl (by decide)
  have hread : Token.read ')' [] = .ok (.closeParen, []) := by decide
  refine ⟨hmalformed, ?_⟩
  obtain hrefused | ⟨u, hreads, hbalanced, -⟩ | ⟨n, hmeets, -⟩ :=
    eval_of_not_isExpression {} hmalformed
  · exact hrefused
  · have hdepth := hbalanced.depth
    have htext : ")".toList = [')'] := by decide
    generalize ")".toList = cs at htext hreads
    cases hreads with
    | nil => cases hbalanced.operands
    | @cons _ g rest r c x w hg hx hchars hfits hrest =>
      obtain ⟨rfl, rfl, rfl⟩ : g = [] ∧ c = ')' ∧ rest = [] := by
        simpa [List.append_eq_singleton_iff] using htext
      have htoken : x.token = .closeParen :=
        (Prod.mk.inj (Except.ok.inj (hx.symm.trans hread))).1
      cases x <;> cases htoken
      cases hdepth
  · cases hmeets with
    | here hskip hdigit =>
      cases hskip
      cases hdigit
    | behind hskip hread' hmeets =>
      cases hskip
      cases hread.symm.trans hread'
      cases hmeets with
      | here hskip => cases hskip
      | behind hskip => cases hskip

end SuperChip.Expr
