import SuperChip.Proofs.Expr.Value

/-!
# Values stay in sixteen bits

Whatever text is evaluated, numbers are cut to sixteen bits when they are read and results when they
are computed, so that all values on the stack are words at every moment, and so is the value in the
end (`eval_lt`).
-/

set_option autoImplicit false

namespace SuperChip

/-- A word has sixteen bits. -/
theorem toWord_lt (n : Int) : toWord n < wordSize := by
  simp only [toWord, wordSize]
  omega

/-- A unary operator gives a word. -/
theorem UnaryOp.apply_lt (op : UnaryOp) (a : Nat) : op.apply a < wordSize := by
  cases op <;> exact toWord_lt _

/-- A binary operator gives a word. -/
theorem BinaryOp.apply_lt {op : BinaryOp} {a b v : Nat} (h : op.apply a b = .ok v) :
    v < wordSize := by
  cases op
  all_goals
    simp only [apply] at h
  case shiftLeft =>
    cases h
    -- a shift by sixteen or more is zero and needs no cut
    split
    · exact toWord_lt _
    · decide
  case div | mod =>
    split at h <;> cases h
    exact toWord_lt _
  all_goals
    cases h
    exact toWord_lt _

namespace Expr

/-- The values are words. -/
def InWords (values : List Nat) : Prop := ∀ v ∈ values, v < wordSize

variable {labels : Labels} {s t : State} {values rest : List Nat} {pending left : List Pending}

/-- A word in front of words leaves them words. -/
theorem InWords.cons {v : Nat} (hv : v < wordSize) (h : InWords values) : InWords (v :: values) :=
  List.forall_mem_cons.mpr ⟨hv, h⟩

/-- An operator leaves words. -/
theorem InWords.apply {op : Operator} (h : InWords values) (happly : op.apply values = .ok rest) :
    InWords rest := by
  unfold Operator.apply at happly
  split at happly
  · cases happly
    exact .cons (UnaryOp.apply_lt _ _) (List.forall_mem_cons.mp h).2
  · split at happly
    · next v hv =>
      cases happly
      have hbelow := (List.forall_mem_cons.mp (List.forall_mem_cons.mp h).2).2
      exact .cons (BinaryOp.apply_lt hv) hbelow
    · cases happly
  · cases happly

/-- Operators that are applied in turn leave words. -/
theorem InWords.reduceWhile {p : Operator → Bool} (h : InWords values)
    (hreduce : reduceWhile p pending values = .ok (left, rest)) : InWords rest := by
  fun_induction Expr.reduceWhile p pending values with
  | case1 op pending values hp values' happly ih => exact ih (h.apply happly) hreduce
  | case2 op pending values hp e happly => cases hreduce
  | case3 op pending values hp =>
    cases hreduce
    exact h
  | case4 pending values hstop =>
    cases hreduce
    exact h

/-- A closed parenthesis leaves words. -/
theorem InWords.close (h : InWords s.values) (hclose : s.close = .ok t) : InWords t.values := by
  unfold State.close at hclose
  split at hclose
  · next hreduce =>
    cases hclose
    exact h.reduceWhile hreduce
  · cases hclose
  · cases hclose

/-- A binary operator that is put aside leaves words. -/
theorem InWords.pushBinary {op : BinaryOp} (h : InWords s.values)
    (hpush : s.pushBinary op = .ok t) : InWords t.values := by
  unfold State.pushBinary at hpush
  split at hpush
  · next hreduce =>
    cases hpush
    exact h.reduceWhile hreduce
  · cases hpush

/-- A token leaves words. -/
theorem InWords.shift {token : Token} (h : InWords s.values)
    (hshift : s.shift labels token = .ok t) : InWords t.values := by
  unfold State.shift at hshift
  cases token with
  | number n =>
    cases hshift
    exact .cons (toWord_lt _) h
  | name name =>
    dsimp only at hshift
    split at hshift <;> cases hshift
    exact .cons (toWord_lt _) h
  | openParen =>
    cases hshift
    exact h
  | closeParen => exact h.close hshift
  | symbol c =>
    -- a unary operator only waits; a binary one may reduce those that wait
    dsimp only at hshift
    split at hshift
    · cases hshift
      exact h
    · split at hshift
      · split at hshift <;> cases hshift
        exact h
      · split at hshift
        · exact h.pushBinary hshift
        · cases hshift

/-- A token leaves words, with the limits checked. -/
theorem InWords.step {token : Token} (h : InWords s.values) (hstep : s.step labels token = .ok t) :
    InWords t.values := by
  unfold State.step at hstep
  split at hstep
  · next u hshift =>
    unfold State.checkLimits at hstep
    split at hstep
    · cases hstep
    · split at hstep <;> cases hstep
      exact h.shift hshift
  · cases hstep

/-- A text leaves words. -/
theorem InWords.run {cs : List Char} (h : InWords s.values) (hrun : run labels s cs = .ok t) :
    InWords t.values := by
  fun_induction Expr.run labels s cs with
  | case1 s cs hcs =>
    cases hrun
    exact h
  | case2 s cs c rest hcs e hread => cases hrun
  | case3 s cs c rest hcs token r hread e hstep => cases hrun
  | case4 s cs c rest hcs token r hread u hstep hlt ih => exact ih (h.step hstep) hrun

/-- The value at the end of a text is a word. -/
theorem InWords.finish {v : Nat} (h : InWords values) (hfinish : finish pending values = .ok v) :
    v < wordSize := by
  fun_induction Expr.finish pending values with
  | case1 =>
    cases hfinish
    exact h v (List.mem_singleton_self v)
  | case2 values hne => cases hfinish
  | case3 pending values => cases hfinish
  | case4 op pending values values' happly ih => exact ih (h.apply happly) hfinish
  | case5 op pending values e happly => cases hfinish

/-- The value of a text is a word. -/
theorem eval_lt {text : String} {v : Nat} (h : eval labels text = .ok v) : v < wordSize := by
  have hstart : InWords ({} : State).values := fun _ hv => absurd hv List.not_mem_nil
  unfold eval at h
  split at h
  · next s hrun => exact (hstart.run hrun).finish h
  · cases h

end Expr

end SuperChip
