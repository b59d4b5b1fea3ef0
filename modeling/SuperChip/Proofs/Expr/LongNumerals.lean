import Mathlib.Data.List.TakeWhile
import SuperChip.Proofs.Expr.Lexing

/-!
# Numbers that are too long

A decimal number of more digits than can be read ends an evaluation in a failure that is no refusal.
The evaluator reads a text token by token, so this happens exactly in texts in which it comes to
such a number (`MeetsLong`) before it refuses anything else: every error of an evaluation is a
refusal, or it is the failure at such a number (`refused_or_meetsLong`).
-/

set_option autoImplicit false

namespace SuperChip.Expr

open Text

/-- Read token by token, the text comes to a decimal number of `n` digits, more than can be read. -/
inductive MeetsLong : List Char → Nat → Prop where
  | here {cs rest : List Char} {c : Char} (hskip : skipBlanks cs = c :: rest)
      (hdigit : c.isDigit = true)
      (hlong : digitLimit < (c :: rest.takeWhile Char.isDigit).length) :
      MeetsLong cs (c :: rest.takeWhile Char.isDigit).length
  | behind {cs rest r : List Char} {c : Char} {t : Token} {n : Nat}
      (hskip : skipBlanks cs = c :: rest) (hread : Token.read c rest = .ok (t, r))
      (h : MeetsLong r n) : MeetsLong cs n

/-! ## Tokens -/

/-- What is no token is refused, or it is a number that is too long. -/
theorem read_eq_error {c : Char} {rest : List Char} {e : ExprError}
    (h : Token.read c rest = .error e) :
    e.isRefusal = true ∨ c.isDigit = true ∧
      digitLimit < (c :: rest.takeWhile Char.isDigit).length ∧
      e = .longNumeral (c :: rest.takeWhile Char.isDigit).length := by
  unfold Token.read at h
  split at h
  · split at h <;> cases h
    exact .inl rfl
  split at h
  · split at h <;> cases h
    exact .inl rfl
  split at h
  · next hdigit =>
    dsimp only at h
    split at h
    · next hlong =>
      cases h
      exact .inr ⟨hdigit, hlong, rfl⟩
    · cases h
  split at h
  · cases h
  · split at h
    · cases h
    · split at h <;> cases h

/-- A number that is too long is not read. -/
theorem read_of_long {c : Char} {rest : List Char} (hdigit : c.isDigit = true)
    (hlong : digitLimit < (c :: rest.takeWhile Char.isDigit).length) :
    Token.read c rest = .error (.longNumeral (c :: rest.takeWhile Char.isDigit).length) := by
  have hhash : c ≠ '#' := by rintro rfl; revert hdigit; decide
  have hdollar : c ≠ '$' := by rintro rfl; revert hdigit; decide
  rw [Token.read, if_neg hhash, if_neg hdollar, if_pos hdigit]
  exact if_pos hlong

/-! ## Operators and stacks -/

section Refusals

variable {labels : Labels} {s s' : State} {e : ExprError}

/-- An operator is only refused. -/
theorem isRefusal_of_apply {op : Operator} {values : List Nat} (h : op.apply values = .error e) :
    e.isRefusal = true := by
  unfold Operator.apply at h
  split at h
  · cases h
  · next op b a rest =>
    split at h
    · cases h
    · next happly =>
      cases h
      unfold BinaryOp.apply at happly
      split at happly <;> try split at happly
      all_goals cases happly
      all_goals rfl
  · cases h
    rfl

/-- What operators refuse is a refusal. -/
theorem isRefusal_of_reduceWhile {p : Operator → Bool} {pending : List Pending}
    {values : List Nat} (h : reduceWhile p pending values = .error e) : e.isRefusal = true := by
  fun_induction reduceWhile p pending values with
  | case1 op pending values hp next hnext ih => exact ih h
  | case2 op pending values hp e' happly =>
    cases h
    exact isRefusal_of_apply happly
  | case3 => cases h
  | case4 => cases h

/-- What a token is refused for is a refusal. -/
theorem isRefusal_of_shift {t : Token} (h : s.shift labels t = .error e) :
    e.isRefusal = true := by
  cases t with
  | number n => cases h
  | name name =>
    rw [State.shift] at h
    split at h <;> cases h
    rfl
  | openParen => cases h
  | closeParen =>
    rw [State.shift, State.close] at h
    split at h
    · cases h
    · cases h
      rfl
    · next hreduce =>
      cases h
      exact isRefusal_of_reduceWhile hreduce
  | symbol c =>
    rw [State.shift] at h
    split at h
    · cases h
    split at h
    · split at h <;> cases h
      rfl
    split at h
    · rw [State.pushBinary] at h
      split at h
      · cases h
      · next hreduce =>
        cases h
        exact isRefusal_of_reduceWhile hreduce
    · cases h
      rfl

/-- A token that is read is taken or refused. -/
theorem isRefusal_of_step {t : Token} (h : s.step labels t = .error e) : e.isRefusal = true := by
  unfold State.step at h
  split at h
  · unfold State.checkLimits at h
    split at h
    · cases h
      rfl
    · split at h <;> cases h
      rfl
  · next hshift =>
    cases h
    exact isRefusal_of_shift hshift

/-- What is found at the end of a text is a refusal. -/
theorem isRefusal_of_finish {pending : List Pending} {values : List Nat}
    (h : finish pending values = .error e) : e.isRefusal = true := by
  induction pending generalizing values with
  | nil =>
    cases values with
    | nil =>
      cases h
      rfl
    | cons v rest =>
      cases rest <;> cases h
      rfl
  | cons mark pending ih =>
    cases mark with
    | paren =>
      cases h
      rfl
    | operator op =>
      rw [finish] at h
      split at h
      · exact ih h
      · next happly =>
        cases h
        exact isRefusal_of_apply happly

end Refusals

/-! ## Texts -/

variable {labels : Labels} {e : ExprError}

/-- A text that leads to no state is refused, or met a number that is too long. -/
theorem refused_or_meetsLong_of_run {s : State} {cs : List Char}
    (h : run labels s cs = .error e) :
    e.isRefusal = true ∨ ∃ n, MeetsLong cs n ∧ e = .longNumeral n := by
  fun_induction run labels s cs with
  | case1 => cases h
  | case2 s cs c rest hskip e' hread =>
    cases h
    obtain hrefusal | ⟨hdigit, hlong, heq⟩ := read_eq_error hread
    · exact .inl hrefusal
    · exact .inr ⟨_, .here hskip hdigit hlong, heq⟩
  | case3 s cs c rest hskip t r hread e' hstep =>
    cases h
    exact .inl (isRefusal_of_step hstep)
  | case4 s cs c rest hskip t r hread next hstep hlt ih =>
    obtain hrefusal | ⟨n, hmeets, heq⟩ := ih h
    · exact .inl hrefusal
    · exact .inr ⟨n, .behind hskip hread hmeets, heq⟩

/-- A text without a value is refused, or the evaluator comes to a number in it that is too long. -/
theorem refused_or_meetsLong {text : String} (h : eval labels text = .error e) :
    e.isRefusal = true ∨ ∃ n, MeetsLong text.toList n ∧ e = .longNumeral n := by
  unfold eval at h
  split at h
  · exact .inl (isRefusal_of_finish h)
  · next hrun =>
    cases h
    exact refused_or_meetsLong_of_run hrun

/-- A text that is a decimal literal with too many digits has no value. -/
theorem eval_of_longLiteral (labels : Labels) {l : Literal} {text : String}
    (hbase : l.base = .decimal) (hlong : digitLimit < l.digits.length)
    (htext : text.toList = l.chars) : eval labels text = .error (.longNumeral l.digits.length) := by
  obtain ⟨base, digits, hne, hvalid⟩ := l
  cases hbase
  cases digits with
  | nil => exact absurd rfl hne
  | cons c rest =>
    have hdigit : c.isDigit = true := hvalid c (.head _)
    have hrest : rest.takeWhile Char.isDigit = rest :=
      List.takeWhile_eq_self_iff.2 fun d hd => hvalid d (.tail _ hd)
    have hskip : skipBlanks text.toList = c :: rest := by
      have hblank := isBlank_of_isWordChar (Base.isWordChar_of_isDigit (b := .decimal) hdigit)
      rw [htext, skipBlanks]
      exact List.dropWhile_cons_of_neg (by rw [hblank]; decide)
    have hread : Token.read c rest = .error (.longNumeral (c :: rest).length) := by
      have hdigits : digitLimit < (c :: rest.takeWhile Char.isDigit).length := by
        rwa [hrest]
      have htoken := read_of_long hdigit hdigits
      rwa [hrest] at htoken
    rw [eval, run_eq_error hskip hread]

/-- A decimal literal with one digit more than can be read. -/
def longLiteral : Literal where
  base := .decimal
  digits := List.replicate 4301 '1'
  nonempty := List.cons_ne_nil _ _
  valid := by
    intro c hc
    rw [List.eq_of_mem_replicate hc]
    decide

/-- Its text has no value. -/
theorem eval_longLiteral (labels : Labels) :
    eval labels (String.ofList longLiteral.chars) = .error (.longNumeral 4301) := by
  have hlength : longLiteral.digits.length = 4301 := List.length_replicate
  have hlong : digitLimit < longLiteral.digits.length := by
    rw [hlength]
    decide
  rw [eval_of_longLiteral labels rfl hlong String.toList_ofList, hlength]

/-- In a text that spaces out lexemes no number is too long, unless it is one of the lexemes. -/
theorem Spaced.not_meetsLong {u : List Lexeme} {cs : List Char} (h : Spaced u cs)
    (hu : Separated u) (hreadable : ∀ x ∈ u, x.Readable) (n : Nat) : ¬MeetsLong cs n := by
  induction h with
  | @nil g hg =>
    have hskip : skipBlanks g = [] := List.dropWhile_eq_nil_iff.2 hg
    intro hmeets
    cases hmeets with
    | here hcons => cases hskip.symm.trans hcons
    | behind hcons => cases hskip.symm.trans hcons
  | @cons g cs x u hg h ih =>
    obtain ⟨hx, hrest⟩ := List.forall_mem_cons.1 hreadable
    obtain ⟨c, rest, hchars, -, -⟩ := x.exists_chars_eq_cons
    have hskip : skipBlanks (g ++ (x.chars ++ cs)) = c :: (rest ++ cs) := by
      rw [x.skipBlanks_append hg, hchars, List.cons_append]
    have hread := h.read_first hu hx hchars
    intro hmeets
    cases hmeets with
    | here hcons hdigit hlong =>
      cases hskip.symm.trans hcons
      cases hread.symm.trans (read_of_long hdigit hlong)
    | behind hcons hread' hmeets =>
      cases hskip.symm.trans hcons
      cases hread.symm.trans hread'
      exact ih hu.tail hrest hmeets

end SuperChip.Expr
