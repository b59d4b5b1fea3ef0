import SuperChip.Asm.Error
import SuperChip.Proofs.Expr.Growth
import SuperChip.Proofs.Expr.LongNumerals
import SuperChip.Proofs.Expr.Progress

/-!
# Evaluations end, in sixteen bits

Moment by moment an evaluation does what the evaluator does at once: from a state at which both have
come to, each waiting operator, each token and each check of the limits has the same effect, so the
ending is the result of the evaluator (`ending_start`). That is a value or a refusal, and none of
the faults that a moment might end with. `eval_in_words` says so for every text, together with the
bound on the moments and on all values; only a decimal number of more digits than can be read ends
an evaluation in another way.
-/

set_option autoImplicit false

namespace SuperChip

namespace Expr

/-! ## Operators on words -/

/-- What a unary operator computes is its value as a word. -/
theorem toWord_computeUnary (op : UnaryOp) (a : Nat) : toWord (computeUnary op a) = op.apply a := by
  cases op <;> rfl

/-- On natural numbers a binary operator is refused or has its value, and does not trip. -/
theorem computeBinary_natCast (op : BinaryOp) (a b : Nat) :
    (computeBinary op a b).map toWord = (op.apply a b).mapError .stopped := by
  have hplaces : places (b : Int) = .ok b := if_neg (Int.not_lt.mpr (Int.natCast_nonneg b))
  cases op with
  | or | xor | and | add | sub | mul => rfl
  | shiftRight =>
    rw [computeBinary, hplaces]
    rfl
  | shiftLeft =>
    rw [computeBinary, hplaces, BinaryOp.apply]
    by_cases hb : b < 16
    · rw [if_pos (by omega), if_pos hb]
      rfl
    · rw [if_neg (by omega), if_neg hb]
      rfl
  | div =>
    rw [computeBinary, BinaryOp.apply]
    by_cases hb : b = 0
    · rw [if_pos (by omega), if_pos hb]
      rfl
    · rw [if_neg (by omega), if_neg hb, divisor, if_neg (by omega), Int.ofNat_fdiv]
      rfl
  | mod =>
    rw [computeBinary, BinaryOp.apply]
    by_cases hb : b = 0
    · rw [if_pos (by omega), if_pos hb]
      rfl
    · rw [if_neg (by omega), if_neg hb, divisor, if_neg (by omega), Int.ofNat_fmod]
      rfl

/-- On natural numbers an operator does what the evaluator does with it. -/
theorem applyTo_natCast (op : Operator) (values : List Nat) :
    applyTo op (values.map Int.ofNat) =
      ((op.apply values).map (List.map Int.ofNat)).mapError .stopped := by
  match op, values with
  | .unary op, [] => rfl
  | .unary op, a :: rest =>
    rw [List.map_cons, applyTo_unary, Operator.apply, ← toWord_computeUnary]
    rfl
  | .binary op, [] => rfl
  | .binary op, [_] => rfl
  | .binary op, b :: a :: rest =>
    have hmap : applyTo (.binary op) ((b :: a :: rest).map Int.ofNat) =
        ((computeBinary op a b).map toWord).map fun w => (w : Int) :: rest.map Int.ofNat := by
      rw [List.map_cons, List.map_cons, applyTo_binary]
      change (computeBinary op a b).map _ = _
      cases computeBinary op a b <;> rfl
    rw [hmap, computeBinary_natCast, Operator.apply]
    cases op.apply a b <;> rfl

namespace Moment

variable {labels : Labels}

/-! ## The ending is the result of the evaluator -/

/-- The moment at which the evaluator has come to a state. -/
def ofState (s : State) (unread : List Char) (stage : Stage) : Moment where
  unread
  pending := s.pending
  values := s.values.map Int.ofNat
  expectsOperand := s.expectsOperand
  stage

/-- How an evaluation ends that goes on at a state, or has stopped before. -/
def endingAt (labels : Labels) (unread : List Char) (stage : Stage) :
    Except ExprError State → Ending
  | .ok s => (ofState s unread stage).ending labels
  | .error e => .stopped e

variable {s : State} {cs : List Char} {stage : Stage} {pending : List Pending} {values : List Nat}
  {expects : Bool}

/-- An operator is applied next, whatever happens after it. -/
theorem ending_of_applyOperator {op : Operator}
    (h : (ofState s cs stage).next labels = (ofState s cs stage).applyOperator op pending) :
    (ofState s cs stage).ending labels = endingAt labels cs stage
      ((op.apply s.values).map fun values => ⟨pending, values, s.expectsOperand⟩) := by
  rw [ending_eq, h, applyOperator, ofState, applyTo_natCast]
  cases op.apply s.values <;> rfl

/-- After the check of the limits reading goes on. -/
theorem ending_checking (labels : Labels) (s : State) (cs : List Char) :
    (ofState s cs .checking).ending labels = endingAt labels cs .reading s.checkLimits := by
  rw [ending_eq, State.checkLimits]
  simp only [next, ofState, List.length_map]
  split
  · rfl
  · split <;> rfl

/-- At the end of the text the pending operators are applied as by the evaluator. -/
theorem ending_finishing (labels : Labels) (pending : List Pending) (values : List Nat)
    (expects : Bool) (cs : List Char) :
    (ofState ⟨pending, values, expects⟩ cs .finishing).ending labels =
      .ofResult (finish pending values) := by
  fun_induction finish pending values with
  | case1 v =>
    rw [ending_eq]
    rfl
  | case2 values hne =>
    rw [ending_eq]
    cases values with
    | nil => rfl
    | cons v rest =>
      cases rest with
      | nil => exact absurd rfl (hne v)
      | cons w rest => rfl
  | case3 pending values =>
    rw [ending_eq]
    rfl
  | case4 op pending values values' happly ih =>
    rw [ending_of_applyOperator rfl, happly]
    exact ih
  | case5 op pending values e happly =>
    rw [ending_of_applyOperator rfl, happly]
    rfl

/-- An operator that precedes the new one is applied first. -/
theorem next_reducing {waiting : Operator} {op : BinaryOp} (h : waiting.precedes op = true) :
    (ofState ⟨.operator waiting :: pending, values, expects⟩ cs (.reducing op)).next labels =
      (ofState ⟨.operator waiting :: pending, values, expects⟩ cs (.reducing op)).applyOperator
        waiting pending :=
  if_pos h

/-- Before a binary operator waits, those that bind at least as tightly are applied. -/
theorem ending_reducing (labels : Labels) (op : BinaryOp) (pending : List Pending)
    (values : List Nat) (expects : Bool) (cs : List Char) :
    (ofState ⟨pending, values, expects⟩ cs (.reducing op)).ending labels =
      endingAt labels cs .checking (State.pushBinary ⟨pending, values, expects⟩ op) := by
  unfold State.pushBinary
  dsimp only
  fun_induction reduceWhile (·.precedes op) pending values with
  | case1 waiting pending values hp values' happly ih =>
    rw [ending_of_applyOperator (next_reducing hp), happly]
    exact ih
  | case2 waiting pending values hp e happly =>
    rw [ending_of_applyOperator (next_reducing hp), happly]
    rfl
  | case3 waiting pending values hp =>
    rw [ending_eq]
    exact congrArg (endingOf labels) (if_neg hp)
  | case4 pending values hstop =>
    rw [ending_eq]
    cases pending with
    | nil => rfl
    | cons top pending =>
      cases top with
      | paren => rfl
      | operator w => exact absurd rfl (hstop w pending)

/-- A parenthesis is closed as by the evaluator. -/
theorem ending_closing (labels : Labels) (pending : List Pending)
    (values : List Nat) (expects : Bool) (cs : List Char) :
    (ofState ⟨pending, values, expects⟩ cs .closing).ending labels =
      endingAt labels cs .checking (State.close ⟨pending, values, expects⟩) := by
  unfold State.close
  dsimp only
  fun_induction reduceWhile (fun _ => true) pending values with
  | case1 waiting pending values hp values' happly ih =>
    rw [ending_of_applyOperator rfl, happly]
    exact ih
  | case2 waiting pending values hp e happly =>
    rw [ending_of_applyOperator rfl, happly]
    rfl
  | case3 waiting pending values hp => exact absurd rfl hp
  | case4 pending values hstop =>
    rw [ending_eq]
    cases pending with
    | nil => rfl
    | cons top pending =>
      cases top with
      | paren => rfl
      | operator w => exact absurd rfl (hstop w pending)

/-- A token that is read has the effect that it has on the state. -/
theorem endingOf_take (labels : Labels) (s : State) (t : Token) (cs : List Char) :
    endingOf labels ((ofState s cs .reading).take labels t) =
      endingAt labels cs .checking (s.shift labels t) := by
  cases t with
  | number n => rfl
  | name name =>
    unfold take State.shift
    dsimp only
    cases labels.find? name <;> rfl
  | openParen => rfl
  | closeParen => exact ending_closing labels s.pending s.values s.expectsOperand cs
  | symbol c =>
    have hexpects : (ofState s cs .reading).expectsOperand = s.expectsOperand := rfl
    unfold take State.shift
    dsimp only
    rw [hexpects]
    split
    · rfl
    · split
      · split <;> rfl
      · cases BinaryOp.ofChar? c with
        | none => rfl
        | some op => exact ending_reducing labels op s.pending s.values s.expectsOperand cs

/-- A token that is read is shifted as by the evaluator. -/
theorem ending_of_read {c : Char} {rest r : List Char} {t : Token}
    (hskip : Text.skipBlanks cs = c :: rest) (hread : Token.read c rest = .ok (t, r)) :
    (ofState s cs .reading).ending labels = endingAt labels r .reading (s.step labels t) := by
  have hnext : (ofState s cs .reading).next labels = (ofState s r .reading).take labels t := by
    simp only [next, ofState, hskip, hread]
  rw [ending_eq, hnext, endingOf_take, State.step]
  cases s.shift labels t with
  | error e => rfl
  | ok s' => exact ending_checking labels s' r

/-- An evaluation ends as the evaluator says that goes on with the text. -/
theorem ending_reading (labels : Labels) (s : State) (cs : List Char) :
    (ofState s cs .reading).ending labels =
      match run labels s cs with
      | .ok s => .ofResult (finish s.pending s.values)
      | .error e => .stopped e := by
  fun_induction run labels s cs with
  | case1 s cs hskip =>
    have hnext : (ofState s cs .reading).next labels = .ok (ofState s [] .finishing) := by
      simp only [next, ofState, hskip]
    rw [ending_eq, hnext]
    exact ending_finishing labels s.pending s.values s.expectsOperand []
  | case2 s cs c rest hskip e hread =>
    have hnext : (ofState s cs .reading).next labels = .error (.stopped e) := by
      simp only [next, ofState, hskip, hread]
    rw [ending_eq, hnext, endingOf]
  | case3 s cs c rest hskip t r hread e hstep =>
    rw [ending_of_read hskip hread, hstep, endingAt]
  | case4 s cs c rest hskip t r hread s' hstep hlt ih =>
    rw [ending_of_read hskip hread, hstep]
    exact ih

/-- From its start on a text ends as the evaluator does. -/
theorem ending_start (labels : Labels) (text : String) :
    (start text).ending labels = .ofResult (eval labels text) := by
  refine (ending_reading labels {} text.toList).trans ?_
  rw [eval]
  cases run labels {} text.toList <;> rfl

/-- There are no values at the start. -/
theorem hasWords_start (text : String) : (start text).HasWords := nofun

/-- At the start the whole text is ahead. -/
theorem measure_start (text : String) : (start text).measure = 4 * text.length + 1 := rfl

end Moment

/-- The value of an expression on a line of source, or why it has none, with the line. -/
def evalOnLine (line : Int) (labels : Labels) (text : String) : Except AsmError Nat :=
  (eval labels text).mapError fun e => ⟨line, .expression e⟩

/-- Whatever the text, the evaluation ends after no more moments than four for each character and
two, with a word or with a refusal for the line, unless it comes to a decimal number of more digits
than can be read. No moment before that has a value that is no word, and at none is an entry taken
from an empty stack, a number divided by zero or shifted by a negative amount. A value is kept by
every table that extends the one it was found with. -/
theorem eval_in_words (labels : Labels) (text : String) (line : Int) :
    (∃ ending, (Moment.start text).after labels (4 * text.length + 2) = .error ending ∧
      ((∃ v : Nat, v < 0x10000 ∧ ending = .value v ∧ evalOnLine line labels text = .ok v) ∨
        (∃ e, ending = .stopped e ∧ e.isRefusal = true ∧
          evalOnLine line labels text = .error ⟨line, .expression e⟩) ∨
        ∃ n, MeetsLong text.toList n ∧ ending = .stopped (.longNumeral n) ∧
          evalOnLine line labels text = .error ⟨line, .expression (.longNumeral n)⟩)) ∧
      (∀ n m, (Moment.start text).after labels n = .ok m → ∀ v ∈ m.values, 0 ≤ v ∧ v < 0x10000) ∧
      (∀ n f, (Moment.start text).after labels n ≠ .error (.fault f)) ∧
      ∀ more v, more.Extends labels → evalOnLine line labels text = .ok v →
        evalOnLine line more text = .ok v := by
  have hending := Moment.ending_start labels text
  refine ⟨?_, ?_, ?_, ?_⟩
  · refine ⟨(Moment.start text).ending labels, ?_, ?_⟩
    · obtain hend | ⟨m, -, -, hmeasure⟩ :=
        Moment.after_cases labels (4 * text.length + 2) (.start text)
      · exact hend
      · rw [Moment.measure_start] at hmeasure
        omega
    · rw [hending, evalOnLine]
      cases heval : eval labels text with
      | ok v => exact .inl ⟨v, eval_lt heval, rfl, rfl⟩
      | error e =>
        obtain hrefusal | ⟨n, hmeets, rfl⟩ := refused_or_meetsLong heval
        · exact .inr (.inl ⟨e, rfl, hrefusal, rfl⟩)
        · exact .inr (.inr ⟨n, hmeets, rfl, rfl⟩)
  · intro n m hafter
    exact (Moment.hasWords_start text).after hafter
  · intro n f hafter
    obtain hend | ⟨m, hm, -, -⟩ := Moment.after_cases labels n (.start text)
    · have hfault : Ending.ofResult (eval labels text) = .fault f :=
        hending.symm.trans (Except.error.inj (hend.symm.trans hafter))
      cases heval : eval labels text <;> rw [heval] at hfault <;> cases hfault
    · cases hm.symm.trans hafter
  · intro more v hmore hv
    rw [evalOnLine] at hv ⊢
    cases heval : eval labels text with
    | error e =>
      rw [heval] at hv
      cases hv
    | ok w =>
      rw [heval] at hv
      cases hv
      rw [eval_of_extends hmore heval]
      rfl

/-- A product is taken from a negative label. In the last moment but two the stack holds the product
and the label. -/
theorem eval_in_words_difference :
    let labels : Labels := ({} : Labels).insert "x" (-1)
    let more := labels.insert "y" 70000
    more.Extends labels ∧ evalOnLine 9 labels "x - 3*2" = .ok 65529 ∧
      evalOnLine 9 more "x - 3*2" = .ok 65529 ∧
      (∃ m, (Moment.start "x - 3*2").after labels 14 = .ok m ∧ m.values = [6, 65535] ∧
        ∀ v ∈ m.values, 0 ≤ v ∧ v < 0x10000) ∧
      (Moment.start "x - 3*2").after labels 30 = .error (.value 65529) := by
  intro labels more
  have hmore : more.Extends labels := Labels.extends_insert (by decide) 70000
  have hvalue : evalOnLine 9 labels "x - 3*2" = .ok 65529 := by decide +kernel
  have hstacks : ((Moment.start "x - 3*2").after labels 14).map Moment.values = .ok [6, 65535] := by
    decide +kernel
  obtain ⟨⟨ending, hend, hresult⟩, hwords, -, hkept⟩ := eval_in_words labels "x - 3*2" 9
  have hending : ending = .value 65529 := by
    obtain ⟨v, -, rfl, hv⟩ | ⟨e, -, -, he⟩ | ⟨n, -, -, he⟩ := hresult
    · cases hvalue.symm.trans hv
      rfl
    · cases hvalue.symm.trans he
    · cases hvalue.symm.trans he
  rw [hending] at hend
  refine ⟨hmore, hvalue, hkept more 65529 hmore hvalue, ?_, hend⟩
  cases hafter : (Moment.start "x - 3*2").after labels 14 with
  | error e =>
    rw [hafter] at hstacks
    cases hstacks
  | ok m =>
    rw [hafter] at hstacks
    exact ⟨m, rfl, Except.ok.inj hstacks, hwords 14 m hafter⟩

end Expr

end SuperChip
