import SuperChip.Proofs.Expr.LongNumerals
import SuperChip.Proofs.Expr.Stacks

/-!
# Expressions evaluate to their values

The evaluator, given any text that writes a tree, returns the value of the tree, and refuses the
text exactly if the tree is faulty (`eval_rendering`). The two stacks stay within their limits
because every lexeme adds at most one entry: an operator or a parenthesis to the one, an operand to
the other.
-/

set_option autoImplicit false

namespace SuperChip.Expr

/-! ## Limits -/

/-- An operator leaves no more values than it finds. -/
theorem Operator.length_le_of_apply {op : Operator} {values values' : List Nat}
    (h : op.apply values = .ok values') : values'.length ≤ values.length := by
  revert h
  fun_cases Operator.apply op values with
  | case1 op a rest => rintro ⟨⟩; exact Nat.le_refl _
  | case2 op b a rest v hv => rintro ⟨⟩; exact Nat.le_succ _
  | case3 => rintro ⟨⟩
  | case4 => rintro ⟨⟩

/-- Operators that are applied leave no more on either stack. -/
theorem length_le_of_reduceWhile {p : Operator → Bool} {pending pending' : List Pending}
    {values values' : List Nat} (h : reduceWhile p pending values = .ok (pending', values')) :
    pending'.length ≤ pending.length ∧ values'.length ≤ values.length := by
  revert h
  fun_induction reduceWhile p pending values with
  | case1 op pending values hp next hnext ih =>
    intro h
    obtain ⟨hpending, hvalues⟩ := ih h
    have hnext' := Operator.length_le_of_apply hnext
    exact ⟨Nat.le_succ_of_le hpending, Nat.le_trans hvalues hnext'⟩
  | case2 => rintro ⟨⟩
  | case3 => rintro ⟨⟩; exact ⟨Nat.le_refl _, Nat.le_refl _⟩
  | case4 => rintro ⟨⟩; exact ⟨Nat.le_refl _, Nat.le_refl _⟩

/-- At most so many operators and parentheses, and so many values, are on the stacks. -/
structure State.Within (marks operands : Nat) (s : State) : Prop where
  pending : s.pending.length ≤ marks
  values : s.values.length ≤ operands

/-- The number of operators and parentheses. -/
def countMarks (u : List Lexeme) : Nat := u.countP fun x => !x.isOperand

/-- The number of literals and names. -/
def countOperands (u : List Lexeme) : Nat := u.countP Lexeme.isOperand

section Limits

variable {labels : Labels} {m n : Nat} {s s' : State}

/-- A binary operator adds at most one operator. -/
theorem State.Within.pushBinary (h : s.Within m n) {op : BinaryOp}
    (hs : s.pushBinary op = .ok s') : s'.Within (m + 1) n := by
  revert hs
  fun_cases State.pushBinary s op with
  | case1 pending values hreduce =>
    rintro ⟨⟩
    obtain ⟨hpending, hvalues⟩ := length_le_of_reduceWhile hreduce
    exact ⟨Nat.succ_le_succ (Nat.le_trans hpending h.pending), Nat.le_trans hvalues h.values⟩
  | case2 => rintro ⟨⟩

/-- A closing parenthesis adds at most one operator. -/
theorem State.Within.close (h : s.Within m n) (hs : s.close = .ok s') : s'.Within (m + 1) n := by
  revert hs
  fun_cases State.close s with
  | case1 w pending values hreduce =>
    rintro ⟨⟩
    obtain ⟨hpending, hvalues⟩ := length_le_of_reduceWhile hreduce
    refine ⟨?_, Nat.le_trans hvalues h.values⟩
    calc pending.length
      _ ≤ (w :: pending).length := Nat.le_succ _
      _ ≤ s.pending.length := hpending
      _ ≤ m := h.pending
      _ ≤ m + 1 := Nat.le_succ m
  | case2 => rintro ⟨⟩
  | case3 => rintro ⟨⟩

/-- A character for an operator adds one operator at most. -/
theorem State.Within.shift_symbol (h : s.Within m n) {c : Char}
    (hs : s.shift labels (.symbol c) = .ok s') : s'.Within (m + 1) n := by
  have hpush : ∀ op, (s.pushUnary op).Within (m + 1) n :=
    fun _ => ⟨Nat.succ_le_succ h.pending, h.values⟩
  rw [State.shift] at hs
  split at hs
  · cases hs
    exact hpush _
  · split at hs
    · split at hs
      · cases hs
        exact hpush _
      · cases hs
    · split at hs
      · exact h.pushBinary hs
      · cases hs

/-- A lexeme adds at most one entry: an operand to the values, another one to the operators. -/
theorem State.Within.shift (h : s.Within m n) {x : Lexeme}
    (hs : s.shift labels x.token = .ok s') :
    s'.Within (m + countMarks [x]) (n + countOperands [x]) := by
  have hpush : ∀ v, (s.pushValue v).Within m (n + 1) :=
    fun v => ⟨h.pending, Nat.succ_le_succ h.values⟩
  cases x with
  | literal l =>
    cases hs
    exact hpush _
  | name name =>
    rw [Lexeme.token, State.shift] at hs
    split at hs
    · cases hs
      exact hpush _
    · cases hs
  | unary op => exact h.shift_symbol hs
  | binary op => exact h.shift_symbol hs
  | openParen =>
    cases hs
    exact ⟨Nat.succ_le_succ h.pending, h.values⟩
  | closeParen => exact h.close hs

/-- Within the limits a state is let through. -/
theorem State.Within.checkLimits (h : s.Within m n) (hm : m < 100) (hn : n < 100) :
    s.checkLimits = .ok s := by
  have hpending : ¬stackLimit ≤ s.pending.length :=
    Nat.not_le_of_lt (Nat.lt_of_le_of_lt h.pending hm)
  have hvalues : ¬stackLimit ≤ s.values.length :=
    Nat.not_le_of_lt (Nat.lt_of_le_of_lt h.values hn)
  rw [State.checkLimits, if_neg hpending, if_neg hvalues]

/-- Lexemes that keep within the limits are read as if there were none. -/
theorem State.Within.foldlM_step {u : List Lexeme} (h : s.Within m n) (hm : m + countMarks u < 100)
    (hn : n + countOperands u < 100) :
    u.foldlM (fun s x => s.step labels x.token) s = shiftAll labels s u := by
  induction u generalizing s m n with
  | nil => rfl
  | cons x u ih =>
    have hmarks : countMarks (x :: u) = countMarks [x] + countMarks u := by
      rw [countMarks, ← List.singleton_append, List.countP_append]
      rfl
    have hoperands : countOperands (x :: u) = countOperands [x] + countOperands u := by
      rw [countOperands, ← List.singleton_append, List.countP_append]
      rfl
    rw [hmarks, ← Nat.add_assoc] at hm
    rw [hoperands, ← Nat.add_assoc] at hn
    rw [List.foldlM_cons, shiftAll_cons, State.step]
    cases hs : s.shift labels x.token with
    | error e => rfl
    | ok s' =>
      have hwithin := h.shift hs
      have hlimits := hwithin.checkLimits (by omega) (by omega)
      simp only [hlimits]
      exact ih hwithin hm hn

end Limits

/-! ## The value of a text -/

/-- The evaluator's answer to a text that writes a tree: the value of the tree, or some refusal if
it has none. -/
theorem Renders.eval (labels : Labels) {t : Tree} {u : List Lexeme} {text : String}
    (hu : Renders 0 t u) (htext : Spaced u text.toList) (hreadable : ∀ x ∈ u, x.Readable)
    (hmarks : countMarks u < 100) (hoperands : countOperands u < 100) :
    (t.value labels = none ∧ ∃ e, Expr.eval labels text = .error e ∧ e.isRefusal = true) ∨
      ∃ v, t.value labels = some v ∧ Expr.eval labels text = .ok v.toNat := by
  have hrefused : ∀ e, Expr.eval labels text = .error e → e.isRefusal = true := by
    intro e he
    obtain hrefusal | ⟨n, hmeets, -⟩ := refused_or_meetsLong he
    · exact hrefusal
    · exact absurd hmeets (htext.not_meetsLong hu.separated hreadable n)
  have heval : (t.value labels = none ∧ ∃ e, Expr.eval labels text = .error e) ∨
      ∃ v, t.value labels = some v ∧ Expr.eval labels text = .ok v.toNat := by
    have hwithin : State.Within 0 0 {} := ⟨Nat.le_refl _, Nat.le_refl _⟩
    have hleft := hu.leaves labels (s := {}) ⟨rfl, nofun⟩
    rw [Expr.eval, run_spaced labels htext hu.separated hreadable,
      hwithin.foldlM_step (by rwa [Nat.zero_add]) (by rwa [Nat.zero_add])]
    generalize shiftAll labels {} u = r at hleft
    cases hleft with
    | failed hnone => exact .inl ⟨hnone, _, rfl⟩
    | @waiting ops values hops hgains =>
      simp only [List.append_nil, finish_map]
      obtain ⟨hnone, e, he⟩ | ⟨v, hv, happly⟩ := hgains.elim
      · exact .inl ⟨hnone, e, by rw [he]; rfl⟩
      · exact .inr ⟨v, hv, by rw [happly]; rfl⟩
  obtain ⟨hnone, e, he⟩ | hvalue := heval
  · exact .inl ⟨hnone, e, he, hrefused e he⟩
  · exact .inr hvalue

/-- A text that writes a tree, with fewer than a hundred operators and parentheses, fewer than a
hundred literals and names, and no decimal literal of more digits than can be read, evaluates to the
value of the tree. It is refused exactly if the tree holds a name without a value or a quotient or
remainder by zero, and nothing else can happen. -/
theorem eval_rendering (labels : Labels) {t : Tree} {u : List Lexeme} {text : String}
    (hu : Renders 0 t u) (htext : Spaced u text.toList) (hreadable : ∀ x ∈ u, x.Readable)
    (hmarks : countMarks u < 100) (hoperands : countOperands u < 100) :
    (∀ v, t.value labels = some v → eval labels text = .ok v.toNat) ∧
      ((∃ e, eval labels text = .error e ∧ e.isRefusal = true) ↔ t.Faulty labels) := by
  rw [← t.value_eq_none_iff]
  obtain ⟨hnone, e, he, hrefusal⟩ | ⟨v, hv, heval⟩ :=
    hu.eval labels htext hreadable hmarks hoperands
  · refine ⟨fun v hv => ?_, fun _ => hnone, fun _ => ⟨e, he, hrefusal⟩⟩
    rw [hnone] at hv
    cases hv
  · refine ⟨fun w hw => ?_, fun ⟨e, he, _⟩ => ?_, fun hnone => ?_⟩
    · rw [hv] at hw
      cases hw
      exact heval
    · rw [heval] at he
      cases he
    · rw [hv] at hnone
      cases hnone

/-- A single decimal literal with one digit more than can be read has a value, and its text is
neither given this value nor refused. -/
theorem longLiteral_not_rendered :
    let t : Tree := .literal longLiteral
    let text := String.ofList longLiteral.chars
    Renders 0 t [.literal longLiteral] ∧ Spaced [.literal longLiteral] text.toList ∧
      countMarks [.literal longLiteral] < 100 ∧ countOperands [.literal longLiteral] < 100 ∧
      t.value {} = some (.ofNat 16 longLiteral.value) ∧ ¬t.Faulty {} ∧
      eval {} text = .error (.longNumeral 4301) ∧
      (ExprError.longNumeral 4301).isRefusal = false := by
  intro t text
  have htext : text.toList = longLiteral.chars := String.toList_ofList
  have hspaced : Spaced [.literal longLiteral] text.toList :=
    htext ▸ spaced_single (.literal longLiteral)
  have hfaulty : ¬(Tree.literal longLiteral).Faulty {} := nofun
  exact ⟨.literal 0 longLiteral, hspaced, by decide, by decide, rfl, hfaulty,
    eval_longLiteral {}, rfl⟩

/-- A difference whose right operand is a product of a negation and a shift in parentheses. -/
theorem eval_rendering_nested : eval ⟨[("A", 6)]⟩ "2 - -#F*( A>1)" = .ok 47 := by
  let two : Literal := ⟨.decimal, ['2'], by decide, List.all_eq_true.1 (by decide)⟩
  let fifteen : Literal := ⟨.hexadecimal, ['F'], by decide, List.all_eq_true.1 (by decide)⟩
  let one : Literal := ⟨.decimal, ['1'], by decide, List.all_eq_true.1 (by decide)⟩
  let a : Name := ⟨'A', [], by decide, nofun⟩
  let t : Tree := .binary .sub (.literal two)
    (.binary .mul (.unary .negate (.literal fifteen))
      (.binary .shiftRight (.name a) (.literal one)))
  have hrenders : Renders 0 t _ := .binary (by decide) (.literal _ two)
    (.binary (by decide) (.unary _ (.literal _ fifteen))
      (.parens _ (.binary (by decide) (.name _ a) (.literal _ one))))
  have hspaced : Spaced _ "2 - -#F*( A>1)".toList :=
    .cons (x := .literal two) (List.forall_mem_nil _) <|
    .cons (x := .binary .sub) Text.isBlank_of_mem_space <|
    .cons (x := .unary .negate) Text.isBlank_of_mem_space <|
    .cons (x := .literal fifteen) (List.forall_mem_nil _) <|
    .cons (x := .binary .mul) (List.forall_mem_nil _) <|
    .cons (x := .openParen) (List.forall_mem_nil _) <|
    .cons (x := .name a) Text.isBlank_of_mem_space <|
    .cons (x := .binary .shiftRight) (List.forall_mem_nil _) <|
    .cons (x := .literal one) (List.forall_mem_nil _) <|
    .cons (x := .closeParen) (List.forall_mem_nil _) <|
    .nil (List.forall_mem_nil _)
  exact (eval_rendering _ hrenders hspaced (by decide) (by decide) (by decide)).1 47 (by decide)

end SuperChip.Expr
