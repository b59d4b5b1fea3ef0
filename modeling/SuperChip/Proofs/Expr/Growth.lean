import SuperChip.Proofs.Expr.Lexing

/-!
# Expressions over a growing label table

A table extends another if it gives every name of the other the same value. The evaluator asks the
table for the value of a name and for nothing else, so an expression that has a value keeps it
whatever names are added to the table.
-/

set_option autoImplicit false

namespace SuperChip

/-- Every name with a value in the old table has the same value in the new one. -/
def Labels.Extends (new old : Labels) : Prop :=
  ∀ name v, old.find? name = some v → new.find? name = some v

namespace Labels

variable {a b c : Labels}

/-- A label table extends itself. -/
theorem extends_refl (a : Labels) : a.Extends a := by
  intro name v h
  exact h

/-- A table that extends another extends what that extends. -/
theorem Extends.trans (hcb : c.Extends b) (hba : b.Extends a) : c.Extends a := by
  intro name v h
  exact hcb name v (hba name v h)

/-- A value for a name that had none extends the table. -/
theorem extends_insert {name : String} (h : a.contains name = false) (value : Int) :
    (a.insert name value).Extends a := by
  intro other v hv
  rw [find?_insert]
  by_cases hother : other = name
  · subst hother
    simp [contains, hv] at h
  · simp [hother, hv]

end Labels

namespace Expr

variable {labels more : Labels}

/-- A token that is taken over a table is taken over a larger one, with the same effect. -/
theorem State.step_of_extends (h : more.Extends labels) {s s' : State} {t : Token}
    (hs : s.step labels t = .ok s') : s.step more t = .ok s' := by
  have hshift : ∀ next, s.shift labels t = .ok next → s.shift more t = .ok next := by
    intro next hnext
    cases t with
    | name name =>
      rw [State.shift] at hnext ⊢
      cases hfind : labels.find? name with
      | none => simp [hfind] at hnext
      | some v => simpa [hfind, h name v hfind] using hnext
    | number n => exact hnext
    | openParen => exact hnext
    | closeParen => exact hnext
    | symbol c => exact hnext
  rw [State.step] at hs ⊢
  cases hnext : s.shift labels t with
  | error e => simp [hnext] at hs
  | ok next => simpa [hnext, hshift next hnext] using hs

/-- More names do not change the state that a text leads to. -/
theorem run_of_extends (h : more.Extends labels) {s s' : State} {cs : List Char}
    (hs : run labels s cs = .ok s') : run more s cs = .ok s' := by
  fun_induction run labels s cs with
  | case1 s cs hskip =>
    rw [run_eq_nil hskip]
    exact hs
  | case2 s cs c rest hskip e hread => cases hs
  | case3 s cs c rest hskip t r hread e hstep => cases hs
  | case4 s cs c rest hskip t r hread next hstep hlt ih =>
    rw [run_eq_cons hskip hread, State.step_of_extends h hstep]
    exact ih hs

/-- More names do not change the value of a text. -/
theorem eval_of_extends (h : more.Extends labels) {text : String} {v : Nat}
    (hv : eval labels text = .ok v) : eval more text = .ok v := by
  rw [eval] at hv ⊢
  cases hrun : run labels {} text.toList with
  | error e => simp [hrun] at hv
  | ok s => simpa [hrun, run_of_extends h hrun] using hv

end Expr

end SuperChip
