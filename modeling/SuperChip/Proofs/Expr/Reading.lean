import Mathlib.Data.List.TakeWhile
import SuperChip.Proofs.Expr.Grammar

/-!
# What the evaluator reads

Of every text that it gets through, the evaluator reads lexemes: each token is one, and of the two
that a minus sign may be it is a negation exactly where an operand is expected
(`exists_reads_of_run`). Nothing is said about the order of the lexemes, since the evaluator takes
an operand wherever it meets one. What it does keep are three counts: of the parentheses that are
open, of the values, and of the binary operators that wait (`State.Moves`).
-/

set_option autoImplicit false

namespace SuperChip.Expr

open Text

/-- Whether the lexeme is taken here: a unary operator only where an operand is expected, and a
minus sign for a difference only where none is. -/
def Lexeme.fits (expecting : Bool) : Lexeme → Bool
  | .unary _ => expecting
  | .binary .sub => !expecting
  | _ => true

/-- The lexemes that the tokens of a text stand for, where an operand is expected or not. -/
inductive Reads : Bool → List Lexeme → List Char → Prop where
  | nil {expecting : Bool} {g : List Char} (hg : ∀ c ∈ g, isBlank c = true) : Reads expecting [] g
  | cons {expecting : Bool} {g rest r : List Char} {c : Char} {x : Lexeme} {u : List Lexeme}
      (hg : ∀ c ∈ g, isBlank c = true) (hread : Token.read c rest = .ok (x.token, r))
      (hchars : x.chars ++ r = c :: rest) (hfits : x.fits expecting = true)
      (h : Reads (!x.endsOperand) u r) : Reads expecting (x :: u) (g ++ c :: rest)

/-- Lexemes that are read one by one stand in the text with blanks between them. -/
theorem Reads.spaced {expecting : Bool} {u : List Lexeme} {cs : List Char}
    (h : Reads expecting u cs) : Spaced u cs := by
  induction h with
  | nil hg => exact .nil hg
  | cons hg _ hchars _ _ ih =>
    rw [← hchars]
    exact .cons hg ih

/-! ## Tokens -/

section Read

variable {c : Char} {rest r : List Char} {t : Token}

/-- A number is read from all of its digits. -/
theorem takeNumber?_eq_some {isDigit : Char → Bool} {value : List Char → Nat}
    (h : Token.takeNumber? isDigit value rest = some (t, r)) :
    rest.takeWhile isDigit ≠ [] ∧ t = .number (value (rest.takeWhile isDigit)) ∧
      r = rest.dropWhile isDigit := by
  unfold Token.takeNumber? at h
  split at h
  · cases h
  · next hdigits =>
    cases h
    exact ⟨hdigits, rfl, rfl⟩

/-- Digits at the front of a text are those of a literal. -/
theorem exists_literal (b : Base) {cs : List Char} (h : cs.takeWhile b.isDigit ≠ []) :
    ∃ l : Literal, l.chars ++ cs.dropWhile b.isDigit = b.mark ++ cs ∧
      l.value = Nat.ofDigits b.size ((cs.takeWhile b.isDigit).reverse.map b.digitValue) := by
  refine ⟨⟨b, cs.takeWhile b.isDigit, h, List.all_eq_true.1 List.all_takeWhile⟩, ?_, rfl⟩
  rw [Literal.chars, List.append_assoc, List.takeWhile_append_dropWhile]

/-- A token is a lexeme unless it is a character that no literal, name or parenthesis begins
with. -/
theorem exists_lexeme_of_read (h : Token.read c rest = .ok (t, r)) :
    (∃ x : Lexeme, x.token = t ∧ x.chars ++ r = c :: rest ∧ ∀ expecting, x.fits expecting = true) ∨
      (t = .symbol c ∧ r = rest) := by
  unfold Token.read at h
  split at h
  · next hmark =>
    split at h
    · next htake =>
      cases h
      obtain ⟨hne, rfl, rfl⟩ := takeNumber?_eq_some htake
      obtain ⟨l, hchars, hvalue⟩ := exists_literal .hexadecimal hne
      have htoken : l.value = ofDigits 16 _ := hvalue.trans (ofDigits_eq 16 _).symm
      exact .inl ⟨.literal l, congrArg Token.number htoken, hmark ▸ hchars, fun _ => rfl⟩
    · cases h
  split at h
  · next hmark =>
    split at h
    · next htake =>
      cases h
      obtain ⟨hne, rfl, rfl⟩ := takeNumber?_eq_some htake
      obtain ⟨l, hchars, hvalue⟩ := exists_literal .binary hne
      have htoken : l.value = Token.ofBinary _ := hvalue.trans (ofBinary_eq _).symm
      exact .inl ⟨.literal l, congrArg Token.number htoken, hmark ▸ hchars, fun _ => rfl⟩
    · cases h
  split at h
  · next hdigit =>
    dsimp only at h
    split at h
    · cases h
    cases h
    have htake : (c :: rest).takeWhile Base.decimal.isDigit = c :: rest.takeWhile Char.isDigit :=
      List.takeWhile_cons_of_pos hdigit
    have hdrop : (c :: rest).dropWhile Base.decimal.isDigit = rest.dropWhile Char.isDigit :=
      List.dropWhile_cons_of_pos hdigit
    have hne := htake.trans_ne (List.cons_ne_nil c (rest.takeWhile Char.isDigit))
    obtain ⟨l, hchars, hvalue⟩ := exists_literal .decimal hne
    rw [hdrop] at hchars
    rw [htake] at hvalue
    have htoken : l.value = ofDigits 10 _ := hvalue.trans (ofDigits_eq 10 _).symm
    exact .inl ⟨.literal l, congrArg Token.number htoken, hchars, fun _ => rfl⟩
  split at h
  · next htake =>
    cases h
    obtain ⟨n, rfl, hchars⟩ := exists_name_of_takeName? htake
    exact .inl ⟨.name n, rfl, hchars.symm, fun _ => rfl⟩
  split at h
  · next hopen =>
    cases h
    exact .inl ⟨.openParen, rfl, by rw [hopen]; rfl, fun _ => rfl⟩
  split at h
  · next hclose =>
    cases h
    exact .inl ⟨.closeParen, rfl, by rw [hclose]; rfl, fun _ => rfl⟩
  · cases h
    exact .inr ⟨rfl, rfl⟩

end Read

/-! ## What a lexeme does -/

/-- Whether the entry is a parenthesis. -/
def Pending.isParen : Pending → Bool
  | .paren => true
  | .operator _ => false

/-- Whether the entry is a binary operator. -/
def Pending.isBinary : Pending → Bool
  | .operator (.binary _) => true
  | _ => false

/-- The number of parentheses that wait. -/
def countParens (pending : List Pending) : Nat := pending.countP Pending.isParen

/-- The number of binary operators that wait. -/
def countWaiting (pending : List Pending) : Nat := pending.countP Pending.isBinary

/-- What a lexeme does to a state: where an operand is expected, how many parentheses are open, and
how many values there are for the binary operators that wait. -/
structure State.Moves (s s' : State) (x : Lexeme) : Prop where
  expects : s'.expectsOperand = !x.endsOperand
  depth : x.nest? (countParens s.pending) = some (countParens s'.pending)
  balance : s'.values.length + countWaiting s.pending + (if x.isBinary then 1 else 0) =
    s.values.length + countWaiting s'.pending + if x.isOperand then 1 else 0

section Apply

variable {op : Operator} {p : Operator → Bool} {pending pending' : List Pending}
  {values values' : List Nat}

/-- An operator is no parenthesis. -/
@[simp] theorem countParens_operator (op : Operator) (pending : List Pending) :
    countParens (.operator op :: pending) = countParens pending :=
  List.countP_cons_of_neg Bool.false_ne_true

/-- A parenthesis counts as one. -/
@[simp] theorem countParens_paren (pending : List Pending) :
    countParens (.paren :: pending) = countParens pending + 1 :=
  List.countP_cons_of_pos rfl

/-- A parenthesis waits for no operand. -/
@[simp] theorem countWaiting_paren (pending : List Pending) :
    countWaiting (.paren :: pending) = countWaiting pending :=
  List.countP_cons_of_neg Bool.false_ne_true

/-- A unary operator needs no second operand. -/
@[simp] theorem countWaiting_unary (op : UnaryOp) (pending : List Pending) :
    countWaiting (.operator (.unary op) :: pending) = countWaiting pending :=
  List.countP_cons_of_neg Bool.false_ne_true

/-- A binary operator waits for its second operand. -/
@[simp] theorem countWaiting_binary (op : BinaryOp) (pending : List Pending) :
    countWaiting (.operator (.binary op) :: pending) = countWaiting pending + 1 :=
  List.countP_cons_of_pos rfl

/-- An operator that is applied leaves as many values for the operators that still wait. -/
theorem balance_of_apply (h : op.apply values = .ok values') (pending : List Pending) :
    values'.length + countWaiting (.operator op :: pending) =
      values.length + countWaiting pending := by
  revert h
  fun_cases Operator.apply op values with
  | case1 op a rest =>
    rintro ⟨⟩
    rw [countWaiting_unary]
    rfl
  | case2 op b a rest v hv =>
    rintro ⟨⟩
    rw [countWaiting_binary]
    simp only [List.length_cons]
    omega
  | case3 => rintro ⟨⟩
  | case4 => rintro ⟨⟩

/-- Operators that are applied leave the parentheses, and values and waiting operators in
balance. -/
theorem balance_of_reduceWhile (h : reduceWhile p pending values = .ok (pending', values')) :
    countParens pending' = countParens pending ∧
      values'.length + countWaiting pending = values.length + countWaiting pending' := by
  revert h
  fun_induction reduceWhile p pending values with
  | case1 op pending values hp next hnext ih =>
    intro h
    obtain ⟨hparens, hbalance⟩ := ih h
    have happly := balance_of_apply hnext pending
    exact ⟨hparens.trans (countParens_operator op pending).symm, by omega⟩
  | case2 => rintro ⟨⟩
  | case3 => rintro ⟨⟩; exact ⟨rfl, rfl⟩
  | case4 => rintro ⟨⟩; exact ⟨rfl, rfl⟩

/-- Operators that are all applied leave a parenthesis on top, if they leave any entry. -/
theorem eq_paren_of_reduceWhile {mark : Pending}
    (h : reduceWhile (fun _ => true) pending values = .ok (mark :: pending', values')) :
    mark = .paren := by
  revert h
  fun_induction reduceWhile (fun _ => true) pending values with
  | case1 op pending values hp next hnext ih => exact ih
  | case2 => rintro ⟨⟩
  | case3 op pending values hp => exact absurd rfl hp
  | case4 pending values hnone =>
    rintro ⟨⟩
    cases mark with
    | paren => rfl
    | operator op => exact absurd rfl (hnone op pending')

/-- At the end no parenthesis is open, and there was a value for each operator and one more. -/
theorem balance_of_finish {v : Nat} (h : finish pending values = .ok v) :
    countParens pending = 0 ∧ values.length = countWaiting pending + 1 := by
  induction pending generalizing values with
  | nil =>
    cases values with
    | nil => cases h
    | cons v rest =>
      cases rest with
      | nil => exact ⟨rfl, rfl⟩
      | cons => cases h
  | cons mark pending ih =>
    cases mark with
    | paren => cases h
    | operator op =>
      rw [finish] at h
      split at h
      · next hnext =>
        obtain ⟨hparens, hvalues⟩ := ih h
        have happly := balance_of_apply hnext pending
        exact ⟨(countParens_operator op pending).trans hparens, by omega⟩
      · cases h

end Apply

section Shift

variable {labels : Labels} {s s' : State}

/-- A value moves the state as an operand. -/
theorem State.moves_pushValue (v : Nat) {x : Lexeme} (hx : x.isOperand = true) :
    s.Moves (s.pushValue v) x := by
  have hlength : (s.pushValue v).values.length = s.values.length + 1 := rfl
  have hpending : (s.pushValue v).pending = s.pending := rfl
  cases x <;> cases hx
  all_goals
    refine ⟨rfl, rfl, ?_⟩
    rw [hlength, hpending]
    simp [Lexeme.isOperand, Lexeme.isBinary]
    omega

/-- A binary operator is taken as such wherever it is no negation. -/
theorem State.shift_of_fits {op : BinaryOp} (h : (Lexeme.binary op).fits s.expectsOperand = true) :
    s.shift labels (Lexeme.binary op).token = s.pushBinary op := by
  have htilde : op.toChar ≠ '~' := by cases op <;> decide
  have hminus : ¬ (op.toChar = '-' ∧ s.expectsOperand = true) := by
    rintro ⟨hchar, hexpects⟩
    cases op <;> cases hchar
    rw [Lexeme.fits, hexpects] at h
    cases h
  rw [Lexeme.token, shift, if_neg hminus, if_neg htilde, BinaryOp.ofChar?_toChar]

/-- A binary operator moves the state as one. -/
theorem State.moves_of_pushBinary {op : BinaryOp} (h : s.pushBinary op = .ok s') :
    s.Moves s' (.binary op) := by
  unfold pushBinary at h
  split at h
  · next hreduce =>
    cases h
    obtain ⟨hparens, hbalance⟩ := balance_of_reduceWhile hreduce
    refine ⟨rfl, congrArg some ?_, ?_⟩
    · rw [countParens_operator, hparens]
    · rw [countWaiting_binary]
      simp [Lexeme.isOperand, Lexeme.isBinary]
      omega
  · cases h

/-- A closing parenthesis moves the state as one. -/
theorem State.moves_of_close (h : s.close = .ok s') : s.Moves s' .closeParen := by
  unfold close at h
  split at h
  · next mark pending values hreduce =>
    cases h
    obtain ⟨hparens, hbalance⟩ := balance_of_reduceWhile hreduce
    rw [eq_paren_of_reduceWhile hreduce, countParens_paren] at hparens
    rw [eq_paren_of_reduceWhile hreduce, countWaiting_paren] at hbalance
    refine ⟨rfl, ?_, hbalance⟩
    rw [← hparens]
    rfl
  · cases h
  · cases h

/-- What each lexeme does where it is taken. -/
theorem State.moves_of_shift {x : Lexeme} (hfits : x.fits s.expectsOperand = true)
    (h : s.shift labels x.token = .ok s') : s.Moves s' x := by
  cases x with
  | literal l =>
    cases h
    exact moves_pushValue _ rfl
  | name n =>
    rw [Lexeme.token, shift] at h
    split at h
    · cases h
      exact moves_pushValue _ rfl
    · cases h
  | unary op =>
    rw [shift_unary op hfits] at h
    cases h
    refine ⟨hfits, congrArg some (countParens_operator _ _).symm, ?_⟩
    rw [pushUnary, countWaiting_unary]
    rfl
  | binary op =>
    rw [shift_of_fits hfits] at h
    exact moves_of_pushBinary h
  | openParen =>
    cases h
    exact ⟨rfl, congrArg some (countParens_paren s.pending).symm, rfl⟩
  | closeParen => exact moves_of_close h

/-- A step within the limits is the shift alone. -/
theorem State.shift_of_step {t : Token} (h : s.step labels t = .ok s') :
    s.shift labels t = .ok s' := by
  unfold step checkLimits at h
  split at h
  · next hshift =>
    split at h
    · cases h
    · split at h
      · cases h
      · rw [hshift, h]
  · cases h

/-- A binary operator is read from its own character. -/
theorem ofChar?_eq_some {c : Char} {op : BinaryOp} (h : BinaryOp.ofChar? c = some op) :
    c = op.toChar := by
  unfold BinaryOp.ofChar? at h
  split at h <;> cases h <;> rfl

/-- A character that is taken as an operator is that of a unary operator or of a binary one. -/
theorem exists_lexeme_of_symbol {c : Char} (h : s.shift labels (.symbol c) = .ok s') :
    ∃ x : Lexeme, x.token = .symbol c ∧ x.chars = [c] ∧ x.fits s.expectsOperand = true := by
  rw [State.shift] at h
  split at h
  · next hminus =>
    obtain ⟨rfl, hexpects⟩ := hminus
    exact ⟨.unary .negate, rfl, rfl, hexpects⟩
  · next hminus =>
    split at h
    · next htilde =>
      subst htilde
      split at h
      · next hexpects => exact ⟨.unary .complement, rfl, rfl, hexpects⟩
      · cases h
    · split at h
      · next op hop =>
        obtain rfl := ofChar?_eq_some hop
        refine ⟨.binary op, rfl, rfl, ?_⟩
        cases op
        case sub => simpa [Lexeme.fits, BinaryOp.toChar] using hminus
        all_goals rfl
      · cases h

end Shift

/-! ## Texts -/

/-- Where the evaluator gets through a text it reads lexemes, and keeps count of the parentheses and
of the operands. -/
theorem exists_reads_of_run {labels : Labels} {s s' : State} {cs : List Char}
    (h : run labels s cs = .ok s') : ∃ u, Reads s.expectsOperand u cs ∧
      depth? (countParens s.pending) u = some (countParens s'.pending) ∧
      s'.values.length + countWaiting s.pending + countBinaries u =
        s.values.length + countWaiting s'.pending + countOperands u := by
  revert h
  fun_induction run labels s cs with
  | case1 s cs hcs =>
    rintro ⟨⟩
    exact ⟨[], .nil (List.dropWhile_eq_nil_iff.mp hcs), rfl, rfl⟩
  | case2 => rintro ⟨⟩
  | case3 => rintro ⟨⟩
  | case4 s cs c rest hcs t r hread next hstep hlt ih =>
    intro h
    have hshift := State.shift_of_step hstep
    have hlexeme : ∃ x : Lexeme, x.token = t ∧ x.chars ++ r = c :: rest ∧
        x.fits s.expectsOperand = true := by
      obtain ⟨x, htoken, hchars, hfits⟩ | ⟨rfl, rfl⟩ := exists_lexeme_of_read hread
      · exact ⟨x, htoken, hchars, hfits _⟩
      · obtain ⟨x, htoken, hchars, hfits⟩ := exists_lexeme_of_symbol hshift
        exact ⟨x, htoken, by rw [hchars]; rfl, hfits⟩
    obtain ⟨x, rfl, hchars, hfits⟩ := hlexeme
    obtain ⟨u, hreads, hdepth, hbalance⟩ := ih h
    have hmoves := State.moves_of_shift hfits hshift
    rw [hmoves.expects] at hreads
    have hblank : ∀ d ∈ cs.takeWhile isBlank, isBlank d = true :=
      List.all_eq_true.1 List.all_takeWhile
    have hsplit : cs.takeWhile isBlank ++ c :: rest = cs := by
      rw [← hcs]
      exact List.takeWhile_append_dropWhile
    refine ⟨x :: u, hsplit ▸ .cons hblank hread hchars hfits hreads, ?_, ?_⟩
    · exact Option.bind_eq_some_iff.mpr ⟨_, hmoves.depth, hdepth⟩
    · have hcounts := hmoves.balance
      rw [countOperands_cons, countBinaries_cons]
      omega

end SuperChip.Expr
