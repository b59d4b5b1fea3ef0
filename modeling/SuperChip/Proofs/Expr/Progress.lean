import SuperChip.Proofs.Expr.Moment
import SuperChip.Proofs.Expr.Range

/-!
# What one moment of an evaluation leads to

A moment follows another in one of eight ways (`leadsTo_of_next`). In each of them the text gets
shorter or an operator less waits, which bounds the moments that may follow (`LeadsTo.measure_lt`),
and every new value is cut to a word (`HasWords.leadsTo`). So an evaluation ends, and all values at
all moments are words.
-/

set_option autoImplicit false

namespace SuperChip

namespace Expr

/-- The weight of what is being done among the moments that may follow. -/
def Stage.weight : Stage → Nat
  | .reading => 1
  | .reducing _ => 4
  | .closing | .checking => 2
  | .finishing => 0

namespace Moment

/-! ## From one moment to the next -/

variable {labels : Labels} {m m' : Moment}

/-- All ways in which a moment follows another. -/
inductive LeadsTo (m : Moment) : Moment → Prop where
  /-- The text has ended. -/
  | ended (hstage : m.stage = .reading) : LeadsTo m { m with unread := [], stage := .finishing }
  /-- A number or a name was read. -/
  | operand {rest : List Char} {v : Int} (hstage : m.stage = .reading)
    (hrest : rest.length < m.unread.length) : LeadsTo m ({ m with unread := rest }.pushValue v)
  /-- A unary operator or an opening parenthesis was read. -/
  | opening {rest : List Char} {p : Pending} {expects : Bool} (hstage : m.stage = .reading)
    (hrest : rest.length < m.unread.length) :
    LeadsTo m ({ m with unread := rest }.pushPending p expects)
  /-- A binary operator or a closing parenthesis was read. -/
  | behind {rest : List Char} {stage : Stage} (hstage : m.stage = .reading)
    (hrest : rest.length < m.unread.length)
    (hturn : stage = .closing ∨ ∃ op, stage = .reducing op) :
    LeadsTo m { m with unread := rest, stage }
  /-- An operator that waited was applied. -/
  | applied {op : Operator} {pending : List Pending} {values : List Int}
    (hpending : m.pending = .operator op :: pending) (hvalues : applyTo op m.values = .ok values) :
    LeadsTo m { m with pending, values }
  /-- A binary operator waits now. -/
  | reduced {op : BinaryOp} (hstage : m.stage = .reducing op) :
    LeadsTo m (m.pushPending (.operator (.binary op)) true)
  /-- An opening parenthesis was removed. -/
  | closed {pending : List Pending} (hstage : m.stage = .closing)
    (hpending : m.pending = .paren :: pending) :
    LeadsTo m { m with pending, expectsOperand := false, stage := .checking }
  /-- The stacks keep within their limits. -/
  | checked (hstage : m.stage = .checking) : LeadsTo m { m with stage := .reading }

/-- To take a token is to go on. -/
theorem leadsTo_of_take {t : Token} {rest : List Char} (hstage : m.stage = .reading)
    (hrest : rest.length < m.unread.length)
    (h : { m with unread := rest }.take labels t = .ok m') : m.LeadsTo m' := by
  cases t with
  | number n =>
    cases h
    exact .operand hstage hrest
  | name name =>
    unfold take at h
    dsimp only at h
    split at h <;> cases h
    exact .operand hstage hrest
  | openParen =>
    cases h
    exact .opening hstage hrest
  | closeParen =>
    cases h
    exact .behind hstage hrest (.inl rfl)
  | symbol c =>
    unfold take at h
    dsimp only at h
    split at h
    · cases h
      exact .opening hstage hrest
    · split at h
      · split at h <;> cases h
        exact .opening hstage hrest
      · split at h <;> cases h
        exact .behind hstage hrest (.inr ⟨_, rfl⟩)

/-- To apply an operator is to go on. -/
theorem leadsTo_of_applyOperator {op : Operator} {pending : List Pending}
    (hpending : m.pending = .operator op :: pending)
    (h : m.applyOperator op pending = .ok m') : m.LeadsTo m' := by
  unfold applyOperator at h
  cases hvalues : applyTo op m.values with
  | error e =>
    rw [hvalues] at h
    cases h
  | ok values =>
    rw [hvalues] at h
    cases h
    exact .applied hpending hvalues

/-- Each next moment is one that the rules lead to. -/
theorem leadsTo_of_next (h : m.next labels = .ok m') : m.LeadsTo m' := by
  unfold next at h
  cases hstage : m.stage with
  | reading =>
    simp only [hstage] at h
    split at h
    · cases h
      exact .ended hstage
    · next c rest hskip =>
      split at h
      · cases h
      · next t r hread =>
        have hskipped := Text.length_skipBlanks_le m.unread
        have hshorter := Token.length_le_of_read hread
        rw [hskip, List.length_cons] at hskipped
        exact leadsTo_of_take hstage (by omega) h
  | reducing op =>
    simp only [hstage] at h
    split at h
    · next waiting hhead =>
      obtain ⟨pending, hpending⟩ := List.head?_eq_some_iff.mp hhead
      split at h
      · rw [hpending] at h
        exact leadsTo_of_applyOperator hpending h
      · cases h
        exact .reduced hstage
    · cases h
      exact .reduced hstage
  | closing =>
    simp only [hstage] at h
    split at h
    · cases h
    · next hsome =>
      cases hpending : m.pending with
      | nil => exact absurd (congrArg List.isEmpty hpending) hsome
      | cons top pending =>
        rw [hpending] at h
        cases top with
        | paren =>
          cases h
          exact .closed hstage hpending
        | operator op => exact leadsTo_of_applyOperator hpending h
  | checking =>
    simp only [hstage] at h
    split at h
    · cases h
    · split at h <;> cases h
      exact .checked hstage
  | finishing =>
    simp only [hstage] at h
    split at h
    · split at h
      · cases hvalues : m.values with
        | nil =>
          rw [hvalues] at h
          cases h
        | cons v rest =>
          rw [hvalues] at h
          cases h
      · cases h
    · next hsome =>
      cases hpending : m.pending with
      | nil => exact absurd (congrArg List.isEmpty hpending) hsome
      | cons top pending =>
        rw [hpending] at h
        cases top with
        | paren => cases h
        | operator op => exact leadsTo_of_applyOperator hpending h

/-! ## The end comes nearer -/

/-- A bound on the moments that follow: four for each character, one for each entry that waits. -/
def measure (m : Moment) : Nat := 4 * m.unread.length + m.pending.length + m.stage.weight

/-- Each moment has less ahead than the one before. -/
theorem LeadsTo.measure_lt (h : m.LeadsTo m') : m'.measure < m.measure := by
  unfold measure
  cases h with
  | ended hstage | checked hstage =>
    rw [hstage]
    simp only [Stage.weight, List.length_nil]
    omega
  | operand hstage hrest | opening hstage hrest =>
    rw [hstage]
    simp only [pushValue, pushPending, Stage.weight, List.length_cons]
    omega
  | @behind rest stage hstage hrest hturn =>
    have hweight : stage.weight ≤ 4 := by
      obtain rfl | ⟨op, rfl⟩ := hturn
      · decide
      · exact Nat.le_refl 4
    have hreading : Stage.reading.weight = 1 := rfl
    rw [hstage, hreading]
    dsimp only
    omega
  | applied hpending hvalues =>
    rw [hpending, List.length_cons]
    dsimp only
    omega
  | reduced hstage =>
    rw [hstage]
    simp only [pushPending, Stage.weight, List.length_cons]
    omega
  | closed hstage hpending =>
    rw [hstage, hpending]
    simp only [Stage.weight, List.length_cons]
    omega

/-- How the evaluation ends that has come to a moment. -/
def ending (labels : Labels) (m : Moment) : Ending :=
  match h : m.next labels with
  | .error e => e
  | .ok m' =>
    have := (leadsTo_of_next h).measure_lt
    ending labels m'
termination_by m.measure

/-- How an evaluation ends that goes on at a moment, or has ended. -/
def endingOf (labels : Labels) : Except Ending Moment → Ending
  | .ok m => m.ending labels
  | .error e => e

/-- A moment ends as the next one does, or at once. -/
theorem ending_eq (labels : Labels) (m : Moment) :
    m.ending labels = endingOf labels (m.next labels) := by
  rw [ending]
  split
  · next h => exact (congrArg (endingOf labels) h).symm
  · next h => exact (congrArg (endingOf labels) h).symm

/-- The moments after the next one are those after this, one step earlier. -/
theorem after_succ {m₁ : Moment} (h : m.next labels = .ok m₁) (n : Nat) :
    m.after labels (n + 1) = m₁.after labels n := by
  rw [after, h]
  rfl

/-- No more moments follow than the measure says, and at all of them the ending is the same. -/
theorem after_cases (labels : Labels) (n : Nat) (m : Moment) :
    m.after labels n = .error (m.ending labels) ∨
      ∃ m', m.after labels n = .ok m' ∧ m'.ending labels = m.ending labels ∧
        m'.measure + n ≤ m.measure := by
  induction n generalizing m with
  | zero => exact .inr ⟨m, rfl, rfl, Nat.le_refl _⟩
  | succ n ih =>
    rw [ending_eq]
    cases hnext : m.next labels with
    | error e =>
      refine .inl ?_
      rw [after, hnext]
      rfl
    | ok m₁ =>
      have hlt := (leadsTo_of_next hnext).measure_lt
      rw [after_succ hnext, endingOf]
      obtain hend | ⟨m', hm', hending, hmeasure⟩ := ih m₁
      · exact .inl hend
      · exact .inr ⟨m', hm', hending, by omega⟩

/-! ## All values are words -/

/-- The values are words. -/
def HasWords (m : Moment) : Prop := ∀ v ∈ m.values, 0 ≤ v ∧ v < wordSize

/-- Words are numbers of sixteen bits. -/
theorem isWord_toWord (n : Int) : 0 ≤ (toWord n : Int) ∧ (toWord n : Int) < wordSize :=
  ⟨Int.natCast_nonneg _, Int.ofNat_lt.mpr (toWord_lt n)⟩

/-- An operator takes some values and leaves one that is cut to a word. -/
theorem exists_of_applyTo {op : Operator} {values result : List Int}
    (h : applyTo op values = .ok result) :
    ∃ v rest, result = (toWord v : Int) :: rest ∧ ∀ w ∈ rest, w ∈ values := by
  cases op with
  | unary op =>
    cases values with
    | nil => cases h
    | cons a rest =>
      rw [applyTo_unary] at h
      cases h
      exact ⟨_, rest, rfl, fun w => List.mem_cons_of_mem a⟩
  | binary op =>
    match values with
    | [] => cases h
    | [_] => cases h
    | b :: a :: rest =>
      rw [applyTo_binary] at h
      cases hv : computeBinary op a b with
      | error e =>
        rw [hv] at h
        cases h
      | ok v =>
        rw [hv] at h
        cases h
        exact ⟨v, rest, rfl, fun w hw => List.mem_cons_of_mem b (List.mem_cons_of_mem a hw)⟩

/-- All values stay words from one moment to the next. -/
theorem HasWords.leadsTo (h : m.HasWords) (hnext : m.LeadsTo m') : m'.HasWords := by
  cases hnext with
  | ended | opening | behind | reduced | closed | checked => exact h
  | operand => exact List.forall_mem_cons.mpr ⟨isWord_toWord _, h⟩
  | applied hpending hvalues =>
    obtain ⟨v, rest, rfl, hrest⟩ := exists_of_applyTo hvalues
    exact List.forall_mem_cons.mpr ⟨isWord_toWord v, fun w hw => h w (hrest w hw)⟩

/-- All values at all moments are words, if they are at the first. -/
theorem HasWords.after {n : Nat} (h : m.HasWords) (hafter : m.after labels n = .ok m') :
    m'.HasWords := by
  induction n generalizing m with
  | zero =>
    cases hafter
    exact h
  | succ n ih =>
    cases hnext : m.next labels with
    | error e =>
      rw [Moment.after, hnext] at hafter
      cases hafter
    | ok m₁ =>
      rw [after_succ hnext] at hafter
      exact ih (h.leadsTo (leadsTo_of_next hnext)) hafter

end Moment

end Expr

end SuperChip
