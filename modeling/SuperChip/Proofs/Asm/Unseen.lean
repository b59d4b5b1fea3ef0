import SuperChip.Proofs.Asm.Change

/-!
# What a line does not look at

A line never looks at the items that are recorded, and a line that is no directive looks at the
conditionals only to see whether it is skipped. Changing such a part of the state before a change of
the assembler or after it is the same (`Commutes`).
-/

set_option autoImplicit false

namespace SuperChip.Assembler

open EState

variable {α β : Type} {g : Assembler → Assembler}

/-- A result whose state is changed by `g`. -/
def mapState (g : Assembler → Assembler) :
    EStateM.Result AsmCause Assembler α → EStateM.Result AsmCause Assembler α
  | .ok v b => .ok v (g b)
  | .error cause b => .error cause (g b)

/-- It is the same to change the state by `g` before `f` or after it. -/
def Commutes (g : Assembler → Assembler) (f : Change α) : Prop := ∀ a, f (g a) = mapState g (f a)

/-- `g` changes a part of the state that a statement neither looks at nor replaces. -/
structure Unseen (g : Assembler → Assembler) : Prop where
  shiftsVy : ∀ a, (g a).shiftsVy = a.shiftsVy
  labels : ∀ a, (g a).labels = a.labels
  address : ∀ a, (g a).address = a.address
  line : ∀ a, (g a).line = a.line
  pending : ∀ a, (g a).pending = a.pending
  setLabels : ∀ a labels, { g a with labels } = g { a with labels }
  recorded : ∀ a kind address operands,
    (g a).recorded kind address operands = g (a.recorded kind address operands)

/-- A sequence does not see what none of its parts sees. -/
theorem Commutes.bind {f : Change α} {h : α → Change β} (hf : Commutes g f)
    (hh : ∀ v, Commutes g (h v)) : Commutes g (f >>= h) := by
  intro a
  have hfa := hf a
  cases hr : f a with
  | ok v b =>
    rw [hr] at hfa
    rw [bind_of_ok hfa, bind_of_ok hr]
    exact hh v b
  | error cause b =>
    rw [hr] at hfa
    rw [bind_of_error hfa, bind_of_error hr]
    rfl

/-- A value is given without a look at the state. -/
theorem commutes_pure (v : α) : Commutes g (pure v) := fun _ => rfl

/-- A refusal is made without a look at the state. -/
theorem commutes_throw (cause : AsmCause) : Commutes g (throw cause : Change α) := fun _ => rfl

/-- A result is given without a look at the state. -/
theorem commutes_ofExcept (r : Except AsmCause α) : Commutes g (ofExcept r) := by
  cases r with
  | ok v => exact commutes_pure v
  | error cause => exact commutes_throw cause

/-- A change that reads the state commutes if what it goes on with does, and is the same over both
states. -/
theorem commutes_get_bind {h : Assembler → Change β} (hsame : ∀ a, h (g a) = h a)
    (hh : ∀ a, Commutes g (h a)) : Commutes g (get >>= h) := by
  intro a
  rw [get_bind, get_bind, hsame]
  exact hh a a

/-- A change of other fields does not see the one that is changed. -/
theorem commutes_modify {f : Assembler → Assembler} (hf : ∀ a, f (g a) = g (f a)) :
    Commutes g (modify f) := by
  intro a
  change EStateM.Result.ok PUnit.unit (f (g a)) = .ok PUnit.unit (g (f a))
  rw [hf]

section Statements

variable (hg : Unseen g)
include hg

/-- To bind a name sees the labels only. -/
theorem Unseen.commutes_bindName (name : String) (value : Int) :
    Commutes g (bindName name value) := by
  intro a
  have hlabels := hg.labels a
  cases hfree : a.labels.contains name with
  | true =>
    rw [bindName_of_taken hfree, bindName_of_taken (by rwa [hlabels])]
    rfl
  | false =>
    rw [bindName_of_free hfree, bindName_of_free (by rwa [hlabels]), hg.setLabels, hlabels]
    rfl

/-- An assignment sees the labels only. -/
theorem Unseen.commutes_assign (name : String) (operands : List String) :
    Commutes g (assign name operands) := by
  unfold assign
  split
  · refine commutes_get_bind (fun a => ?_) fun a => ?_
    · rw [evaluate, evaluate, hg.labels]
    · exact (commutes_ofExcept _).bind fun value => hg.commutes_bindName name value
  · exact commutes_throw _

/-- To record an item sees neither the items in front nor the conditionals. -/
theorem Unseen.commutes_record (kind : ItemKind) (address : Int) (operands : List String) :
    Commutes g (record kind address operands) := by
  intro a
  have hlabels := hg.labels a
  have hpending := hg.pending a
  by_cases hfree : a.PendingFree
  · have hfree' : (g a).PendingFree := by
      rwa [PendingFree, hlabels, hpending]
    rw [record_of_free hfree, record_of_free hfree', hg.recorded]
    rfl
  · obtain ⟨label, hlabel, htaken⟩ : ∃ label, a.pending = some label ∧
        a.labels.contains label = true := by simpa [PendingFree] using hfree
    rw [record_of_taken hlabel htaken,
      record_of_taken (hpending.trans hlabel) (by rwa [hlabels])]
    rfl

/-- To define names sees the labels only. -/
theorem Unseen.foldl_define (a : Assembler) (names : List String) :
    names.foldl execute.define (g a) = g (names.foldl execute.define a) := by
  induction names generalizing a with
  | nil => rfl
  | cons name names ih =>
    have hdefine : execute.define (g a) name = g (execute.define a name) := by
      unfold execute.define
      rw [hg.labels]
      split
      · rfl
      · exact hg.setLabels a _
    rw [List.foldl_cons, List.foldl_cons, hdefine, ih]

/-- An operation sees neither the items in front nor the conditionals. -/
theorem Unseen.commutes_execute (written mnemonic : String) (operands : List String) :
    Commutes g (execute written mnemonic operands) := by
  have hrecord : ∀ kind address operands,
      Commutes g (do record kind address operands; return ([] : List AsmNotice)) := by
    intro kind address operands
    exact (hg.commutes_record kind address operands).bind fun _ => commutes_pure []
  unfold execute
  split
  · apply (commutes_ofExcept _).bind
    intro _
    exact (commutes_modify fun a => hg.foldl_define a operands).bind fun _ => commutes_pure []
  · apply (commutes_ofExcept _).bind
    intro _
    exact commutes_get_bind (fun a => by rw [hg.address]) fun a => hrecord _ _ _
  · apply (commutes_ofExcept _).bind
    intro _
    exact commutes_get_bind (fun a => by rw [hg.address]) fun a => hrecord _ _ _
  · apply (commutes_ofExcept _).bind
    intro _
    exact commutes_get_bind (fun a => by rw [hg.line]) fun a => commutes_pure _
  · refine commutes_get_bind (fun a => by rw [hg.shiftsVy, hg.address]) fun a => ?_
    apply (commutes_ofExcept _).bind
    intro form
    exact hrecord _ _ _

end Statements

/-! ## Recorded items -/

/-- The state with items recorded before its own. -/
def after (items : Array Item) (a : Assembler) : Assembler := { a with items := items ++ a.items }

variable (items : Array Item)

/-- What lines do does not depend on the items in front. -/
theorem unseen_after : Unseen (after items) where
  shiftsVy _ := rfl
  labels _ := rfl
  address _ := rfl
  line _ := rfl
  pending _ := rfl
  setLabels _ _ := rfl
  recorded a kind address operands := by
    simp only [after, recorded, Array.push_append]
    rfl

/-- Whether a line is active does not depend on the items in front. -/
theorem Commutes.ifActive {f : Change α} {skipped : α} (hf : Commutes (after items) f) :
    Commutes (after items) (ifActive skipped f) := by
  refine commutes_get_bind (fun _ => rfl) fun a => ?_
  split
  · exact hf
  · exact commutes_pure skipped

/-- The words of conditionals do not see the items in front. -/
theorem commutes_direct {mnemonic : String} {operands : List String} {change : Change Unit}
    (h : direct? mnemonic operands = some change) : Commutes (after items) change := by
  obtain ⟨g, rfl⟩ | ⟨cause, f, rfl⟩ := direct_cases h
  · exact (commutes_ofExcept _).bind fun _ => commutes_modify fun _ => rfl
  · apply (commutes_ofExcept _).bind
    intro _ a
    rw [get_bind, get_bind]
    change (if a.conditional.depth = 0 then throw _ else set _ : Change Unit) _ = _
    split <;> rfl

/-- A statement does not see the items in front. -/
theorem commutes_perform (s : Statement) (operands : List String) :
    Commutes (after items) (perform s operands) := by
  have hg := unseen_after items
  unfold perform
  split
  · exact ((hg.commutes_assign _ _).bind fun _ => commutes_pure []).ifActive
  · dsimp only
    split
    · next hchange => exact (commutes_direct items hchange).bind fun _ => commutes_pure []
    · exact (hg.commutes_execute _ _ _).ifActive

/-- The labels of a line do not see the items in front. -/
theorem commutes_addLabels (labels : List String) : Commutes (after items) (addLabels labels) := by
  intro a
  have hsame : (a.after items).pendingAfter labels = a.pendingAfter labels := rfl
  cases h : a.pendingAfter labels with
  | ok pending =>
    rw [addLabels_of_ok h, addLabels_of_ok (hsame.trans h)]
    rfl
  | error cause =>
    rw [addLabels_of_error h, addLabels_of_error (hsame.trans h)]
    rfl

/-- A line does not see the items in front. -/
theorem commutes_take (line : SourceLine) : Commutes (after items) (take line) := by
  apply (commutes_addLabels items line.labels).bind
  intro _
  split
  · exact commutes_pure []
  · exact (commutes_ofExcept _).bind fun operands => commutes_perform items _ operands

/-- A line adds its items to those that are recorded, whatever they are. -/
theorem processLine_after (a : Assembler) (text : String) :
    (a.after items).processLine text =
      ((a.processLine text).1.after items, (a.processLine text).2) := by
  have htake := commutes_take items (.parse text) { a with line := a.line + 1 }
  have hcounted : after items { a with line := a.line + 1 } =
      { a.after items with line := (a.after items).line + 1 } := rfl
  rw [hcounted] at htake
  rw [processLine, processLine, htake]
  cases take (.parse text) { a with line := a.line + 1 } with
  | ok notices next => rfl
  | error cause left =>
    dsimp only [mapState]
    cases cause.isRefusal <;> rfl

end SuperChip.Assembler
