import SuperChip.Proofs.Expr.Bits
import SuperChip.Proofs.Expr.Lexing

/-!
# What an operand leaves on the two stacks

While the evaluator reads the lexemes of a tree it applies some operators and leaves others waiting:
those that bind as tightly as the place of the tree asks for, on top of what waited before. The
invariant `Leaves` says that applying these would put the value of the tree on top of the values
that were there before, or fail if the tree has no value. `Renders.leaves` proves it by induction on
the rendering; a following operator of a lower rank, a closing parenthesis and the end of the text
then apply the waiting operators.
-/

set_option autoImplicit false

namespace SuperChip.Expr

/-- The values after waiting operators have been applied, the first one first. -/
def applyAll (ops : List Operator) (values : List Nat) : Except ExprError (List Nat) :=
  ops.foldlM (fun values op => op.apply values) values

/-- The state after lexemes, whatever the limits. -/
def shiftAll (labels : Labels) (s : State) (u : List Lexeme) : Except ExprError State :=
  u.foldlM (fun s x => s.shift labels x.token) s

/-- The value `v` has come on top of the values `rest`, or there is none and an error instead. -/
def Gains (v : Option (BitVec 16)) (rest : List Nat) (r : Except ExprError (List Nat)) : Prop :=
  match v with
  | some v => r = .ok (v.toNat :: rest)
  | none => ∃ e, r = .error e

/-- The operator binds at rank `k` or tighter. -/
def Operator.BindsAt (k : Nat) : Operator → Prop
  | .unary _ => True
  | .binary op => k ≤ op.rank

/-- The state expects an operand, and no operator that waits on top of the stack is applied before a
binary operator of rank `k` or tighter. -/
structure State.Open (k : Nat) (s : State) : Prop where
  expects : s.expectsOperand = true
  below : ∀ op, s.pending.head? = some (.operator op) →
    ∀ next : BinaryOp, k ≤ next.rank → op.precedes next = false

/-- What the lexemes of a tree with the value `v` leave of a state, at a place of rank `k`. -/
inductive Leaves (v : Option (BitVec 16)) (k : Nat) (s : State) :
    Except ExprError State → Prop where
  | failed {e : ExprError} (h : v = none) : Leaves v k s (.error e)
  | waiting {ops : List Operator} {values : List Nat} (hops : ∀ op ∈ ops, op.BindsAt k)
      (h : Gains v s.values (applyAll ops values)) :
      Leaves v k s (.ok ⟨ops.map .operator ++ s.pending, values, false⟩)

/-! ## Operators -/

/-- Unary operators bind tightest. -/
theorem rank_lt_unaryRank (op : BinaryOp) : op.rank < unaryRank := by
  cases op <;> decide

/-- An operator that binds at a rank precedes every binary operator of that rank. -/
theorem Operator.BindsAt.precedes {op : Operator} {next : BinaryOp} (h : op.BindsAt next.rank) :
    op.precedes next = true := by
  cases op with
  | unary op => rfl
  | binary op => exact decide_eq_true h

/-- An operator that binds tightly enough does so for looser ranks. -/
theorem Operator.BindsAt.mono {op : Operator} {j k : Nat} (h : op.BindsAt j) (hk : k ≤ j) :
    op.BindsAt k := by
  cases op with
  | unary op => trivial
  | binary op => exact Nat.le_trans hk h

/-- An operator that binds at the rank of unary operators binds at every rank. -/
theorem Operator.BindsAt.of_unaryRank {op : Operator} (h : op.BindsAt unaryRank) (k : Nat) :
    op.BindsAt k := by
  cases op with
  | unary op => trivial
  | binary op => exact absurd h (Nat.not_le_of_lt (rank_lt_unaryRank op))

/-- A state that is open to a rank is open to tighter ones. -/
theorem State.Open.mono {s : State} {j k : Nat} (h : s.Open j) (hk : j ≤ k) : s.Open k :=
  ⟨h.expects, fun op hop next hnext => h.below op hop next (Nat.le_trans hk hnext)⟩

/-- The last operator is applied to what the others leave. -/
theorem applyAll_concat (ops : List Operator) (op : Operator) (values : List Nat) :
    applyAll (ops ++ [op]) values = applyAll ops values >>= op.apply := by
  rw [applyAll, List.foldlM_append]
  congr 1
  funext values
  simp only [List.foldlM_cons, List.foldlM_nil, bind_pure]

/-- The operators in front are applied, and those behind them stay. -/
theorem reduceWhile_append {p : Operator → Bool} {ops : List Operator}
    (hops : ∀ op ∈ ops, p op = true) {pending : List Pending}
    (hp : ∀ op, pending.head? = some (.operator op) → p op = false) (values : List Nat) :
    reduceWhile p (ops.map .operator ++ pending) values =
      applyAll ops values >>= fun values => .ok (pending, values) := by
  induction ops generalizing values with
  | nil =>
    cases pending with
    | nil => rfl
    | cons w pending =>
      cases w with
      | paren => rfl
      | operator op =>
        rw [List.map_nil, List.nil_append, reduceWhile, hp op rfl]
        rfl
  | cons op ops ih =>
    rw [List.map_cons, List.cons_append, reduceWhile, if_pos (hops op (.head _)), applyAll,
      List.foldlM_cons]
    cases op.apply values with
    | error e => rfl
    | ok values => exact ih (fun op h => hops op (.tail _ h)) values

/-- At the end all operators are applied in turn. -/
theorem finish_map (ops : List Operator) (values : List Nat) :
    finish (ops.map .operator) values = applyAll ops values >>= finish [] := by
  induction ops generalizing values with
  | nil => rfl
  | cons op ops ih =>
    rw [List.map_cons, finish, applyAll, List.foldlM_cons]
    cases op.apply values with
    | error e => rfl
    | ok values => exact ih values

/-! ## Values -/

section Gains

variable {rest : List Nat} {r : Except ExprError (List Nat)}

/-- Either a value has come on top, or there is none. -/
theorem Gains.elim {v : Option (BitVec 16)} (h : Gains v rest r) :
    (v = none ∧ ∃ e, r = .error e) ∨ ∃ x, v = some x ∧ r = .ok (x.toNat :: rest) := by
  cases v with
  | none => exact .inl ⟨rfl, h⟩
  | some x => exact .inr ⟨x, rfl, h⟩

/-- A value that is gained is gained with a unary operator in front. -/
theorem Gains.unary {v : Option (BitVec 16)} (h : Gains v rest r) (op : UnaryOp) :
    Gains (v.map op.onBits) rest (r >>= (Operator.unary op).apply) := by
  cases v with
  | none =>
    obtain ⟨e, rfl⟩ := h
    exact ⟨e, rfl⟩
  | some v =>
    rw [show r = .ok (v.toNat :: rest) from h]
    exact congrArg (fun n => Except.ok (n :: rest)) (op.apply_toNat v)

/-- A binary operator replaces two values by its own, if it has one. -/
theorem Gains.binary {v : BitVec 16} {w : Option (BitVec 16)} (h : Gains w (v.toNat :: rest) r)
    (op : BinaryOp) :
    Gains (w.bind fun w => if op.divides ∧ w = 0 then none else some (op.onBits v w)) rest
      (r >>= (Operator.binary op).apply) := by
  cases w with
  | none =>
    obtain ⟨e, rfl⟩ := h
    exact ⟨e, rfl⟩
  | some w =>
    rw [show r = .ok (w.toNat :: v.toNat :: rest) from h, Option.bind_some]
    have happly := op.apply_toNat v w
    by_cases hzero : op.divides ∧ w = 0
    · rw [if_pos hzero] at happly ⊢
      exact ⟨.divisionByZero, by simp only [bind, Except.bind, Operator.apply, happly]⟩
    · rw [if_neg hzero] at happly ⊢
      simp only [Gains, bind, Except.bind, Operator.apply, happly]

end Gains

/-- A binary tree has the value of its operator at both values, unless it divides by zero. -/
theorem Tree.value_binary {labels : Labels} {op : BinaryOp} {a b : Tree} {v : BitVec 16}
    (ha : a.value labels = some v) :
    (Tree.binary op a b).value labels =
      (b.value labels).bind fun w => if op.divides ∧ w = 0 then none else some (op.onBits v w) := by
  rw [value, ha]
  cases b.value labels <;> rfl

/-! ## Lexemes -/

section Shift

variable {labels : Labels}

/-- Where an operand is due a unary operator is put aside. -/
theorem State.shift_unary (op : UnaryOp) {s : State} (hs : s.expectsOperand = true) :
    s.shift labels (Lexeme.unary op).token = .ok (s.pushUnary op) := by
  cases op <;> simp [shift, Lexeme.token, UnaryOp.toChar, hs]

/-- Behind an operand the character of a binary operator is that operator. -/
theorem State.shift_binary (op : BinaryOp) {s : State} (hs : s.expectsOperand = false) :
    s.shift labels (Lexeme.binary op).token = s.pushBinary op := by
  have htilde : op.toChar ≠ '~' := by cases op <;> decide
  rw [Lexeme.token, shift, if_neg (by rw [hs]; exact fun h => nomatch h.2), if_neg htilde,
    BinaryOp.ofChar?_toChar]

/-- A binary operator applies what its left operand left waiting. -/
theorem State.pushBinary_waiting {k : Nat} {s : State} (hs : s.Open k) {op : BinaryOp}
    (hk : k ≤ op.rank) {ops : List Operator} (hops : ∀ w ∈ ops, w.BindsAt op.rank)
    (values : List Nat) :
    State.pushBinary ⟨ops.map .operator ++ s.pending, values, false⟩ op =
      applyAll ops values >>= fun values =>
        .ok ⟨.operator (.binary op) :: s.pending, values, true⟩ := by
  rw [pushBinary, reduceWhile_append (fun w hw => (hops w hw).precedes)
    (fun w hw => hs.below w hw op hk)]
  cases applyAll ops values <;> rfl

/-- A closing parenthesis applies what the tree before it left waiting. -/
theorem State.close_waiting (pending : List Pending) (ops : List Operator) (values : List Nat) :
    State.close ⟨ops.map .operator ++ .paren :: pending, values, false⟩ =
      applyAll ops values >>= fun values => .ok ⟨pending, values, false⟩ := by
  rw [close, reduceWhile_append (fun _ _ => rfl) (by intro op h; cases h)]
  cases applyAll ops values <;> rfl

/-- Joined lexemes are shifted one part behind the other. -/
theorem shiftAll_append (s : State) (u w : List Lexeme) :
    shiftAll labels s (u ++ w) = shiftAll labels s u >>= fun s => shiftAll labels s w :=
  List.foldlM_append

/-- The first lexeme is shifted, then the others. -/
theorem shiftAll_cons (s : State) (x : Lexeme) (u : List Lexeme) :
    shiftAll labels s (x :: u) = s.shift labels x.token >>= fun s => shiftAll labels s u :=
  List.foldlM_cons

/-- One lexeme alone is just shifted. -/
theorem shiftAll_singleton (s : State) (x : Lexeme) :
    shiftAll labels s [x] = s.shift labels x.token := by
  rw [shiftAll_cons]
  cases s.shift labels x.token <;> rfl

end Shift

namespace Leaves

variable {v : Option (BitVec 16)} {k : Nat} {s : State}

/-- A value has come on top, and no operator waits for it. -/
theorem ofValue (x : BitVec 16) :
    Leaves (some x) k s (.ok ⟨s.pending, x.toNat :: s.values, false⟩) :=
  have hops : ∀ op ∈ ([] : List Operator), op.BindsAt k := nofun
  .waiting hops rfl

/-- Under the operators of an operand one more operator waits. -/
theorem concat {ops : List Operator} {op : Operator} {values : List Nat}
    (hops : ∀ w ∈ ops, w.BindsAt k) (hop : op.BindsAt k)
    (h : Gains v s.values (applyAll ops values >>= op.apply)) :
    Leaves v k s (.ok ⟨ops.map .operator ++ .operator op :: s.pending, values, false⟩) := by
  have hpending : ops.map Pending.operator ++ .operator op :: s.pending =
      (ops ++ [op]).map .operator ++ s.pending := by
    rw [List.map_append, List.append_assoc]
    rfl
  rw [hpending]
  refine .waiting (fun w hw => ?_) (by rwa [applyAll_concat])
  obtain hw | hw := List.mem_append.1 hw
  · exact hops w hw
  · rwa [List.mem_singleton.1 hw]

/-- A binary operator behind its left operand finds the value of that on top, and waits for its
right operand. -/
theorem shift_binary (labels : Labels) {op : BinaryOp} {r : Except ExprError State}
    (h : Leaves v op.rank s r) (hs : s.Open k) (hk : k ≤ op.rank) :
    (v = none ∧ ∃ e, (r >>= fun s => s.shift labels (Lexeme.binary op).token) = .error e) ∨
      ∃ x, v = some x ∧ (r >>= fun s => s.shift labels (Lexeme.binary op).token) =
        .ok ⟨.operator (.binary op) :: s.pending, x.toNat :: s.values, true⟩ := by
  cases h with
  | failed hnone => exact .inl ⟨hnone, _, rfl⟩
  | @waiting ops values hops hgains =>
    have hshift : State.shift labels ⟨ops.map .operator ++ s.pending, values, false⟩
        (Lexeme.binary op).token = applyAll ops values >>= fun values =>
          .ok ⟨.operator (.binary op) :: s.pending, values, true⟩ := by
      rw [State.shift_binary op rfl, State.pushBinary_waiting hs hk hops]
    obtain ⟨hnone, e, he⟩ | ⟨x, hsome, hx⟩ := hgains.elim
    · exact .inl ⟨hnone, e, by rw [he] at hshift; exact hshift⟩
    · exact .inr ⟨x, hsome, by rw [hx] at hshift; exact hshift⟩

/-- A closing parenthesis puts the value of the tree before it on top. -/
theorem shift_closeParen (labels : Labels) {r : Except ExprError State}
    (h : Leaves v 0 ⟨.paren :: s.pending, s.values, true⟩ r) :
    Leaves v k s (r >>= fun s => s.shift labels Lexeme.closeParen.token) := by
  cases h with
  | failed hnone => exact .failed hnone
  | @waiting ops values hops hgains =>
    change Leaves v k s (State.close ⟨ops.map .operator ++ .paren :: s.pending, values, false⟩)
    rw [State.close_waiting]
    obtain ⟨hnone, e, he⟩ | ⟨x, hsome, hx⟩ := hgains.elim
    · rw [he]
      exact .failed hnone
    · rw [hx, hsome]
      exact .ofValue x

end Leaves

/-- The lexemes of a tree leave its value and operators that bind at its place. -/
theorem Renders.leaves (labels : Labels) {k : Nat} {t : Tree} {u : List Lexeme}
    (h : Renders k t u) {s : State} (hs : s.Open k) :
    Leaves (t.value labels) k s (shiftAll labels s u) := by
  induction h generalizing s with
  | literal k l =>
    rw [shiftAll_singleton, Lexeme.token, State.shift, State.pushValue, toWord_eq_toNat_ofInt]
    exact .ofValue (.ofInt 16 l.value)
  | name k n =>
    rw [shiftAll_singleton, Lexeme.token, State.shift, Tree.value]
    cases labels.find? n.text with
    | none => exact .failed rfl
    | some v =>
      simp only [State.pushValue, toWord_eq_toNat_ofInt]
      exact .ofValue (.ofInt 16 v)
  | @unary k op a u h ih =>
    have hopen : (s.pushUnary op).Open unaryRank :=
      ⟨hs.expects, fun _ _ next hnext => absurd hnext (Nat.not_le_of_lt (rank_lt_unaryRank next))⟩
    have hleft := ih hopen
    rw [shiftAll_cons, State.shift_unary op hs.expects]
    change Leaves _ k s (shiftAll labels (s.pushUnary op) u)
    generalize shiftAll labels (s.pushUnary op) u = r at hleft
    cases hleft with
    | failed hnone => exact .failed (by rw [Tree.value, hnone]; rfl)
    | waiting hops hgains =>
      exact .concat (fun w hw => (hops w hw).of_unaryRank k) trivial (hgains.unary op)
  | @binary k op a b u w hk ha hb iha ihb =>
    have hmiddle := (iha (hs.mono hk)).shift_binary labels hs hk
    rw [shiftAll_append]
    simp only [shiftAll_cons]
    rw [← bind_assoc]
    obtain ⟨hnone, e, he⟩ | ⟨v, hv, hs'⟩ := hmiddle
    · rw [he]
      exact .failed (by rw [Tree.value, hnone])
    · rw [hs', Tree.value_binary hv]
      -- the right operand is read on top of the operator, which nothing in it applies
      have hright := ihb (s := ⟨.operator (.binary op) :: s.pending, v.toNat :: s.values, true⟩)
        ⟨rfl, fun _ hop next hnext => by cases hop; exact decide_eq_false (Nat.not_le_of_lt hnext)⟩
      change Leaves _ k s (shiftAll labels ⟨.operator (.binary op) :: s.pending, _, true⟩ w)
      generalize shiftAll labels _ w = r at hright
      cases hright with
      | failed hnone => exact .failed (by rw [hnone]; rfl)
      | waiting hops hgains =>
        have hrank : k ≤ op.rank + 1 := Nat.le_succ_of_le hk
        exact .concat (fun w hw => (hops w hw).mono hrank) hk (hgains.binary op)
  | @parens k t u h ih =>
    have hinner := ih (s := ⟨.paren :: s.pending, s.values, true⟩)
      ⟨rfl, fun _ hop => by cases hop⟩
    rw [shiftAll_cons]
    change Leaves _ k s (shiftAll labels ⟨.paren :: s.pending, s.values, true⟩ (u ++ [.closeParen]))
    rw [shiftAll_append]
    simp only [shiftAll_singleton]
    exact hinner.shift_closeParen labels

end SuperChip.Expr
