import SuperChip.Asm.Assembler
import SuperChip.Proofs.EState

/-!
# Changes of the assembler

What the changes of the assembler come to. A name is bound, an item recorded and a conditional moved
in a state that was checked before, so that each of these is either refused in the state in which it
started or ends in the state that its equation shows.
-/

set_option autoImplicit false

namespace SuperChip.Assembler

open EState

/-! ## Sequences -/

section Sequence

variable {α β : Type} {f : Change α} {g : α → Change β} {a b c : Assembler} {v : α} {w : β}
  {cause : AsmCause}

/-- A result that is given leaves the state as it was. -/
theorem ofExcept_eq_ok_iff {r : Except AsmCause α} :
    ofExcept r a = .ok v b ↔ r = .ok v ∧ b = a := by
  cases r with
  | ok u =>
    change EStateM.Result.ok u a = .ok v b ↔ _
    simp [eq_comm]
  | error cause =>
    change EStateM.Result.error cause a = .ok v b ↔ _
    simp

/-- A result that is refused leaves the state as it was. -/
theorem ofExcept_eq_error_iff {r : Except AsmCause α} :
    ofExcept r a = .error cause b ↔ r = .error cause ∧ b = a := by
  cases r with
  | ok u =>
    change EStateM.Result.ok u a = .error cause b ↔ _
    simp
  | error cause' =>
    change EStateM.Result.error cause' a = .error cause b ↔ _
    simp [eq_comm]

/-- Behind a result that is given the rest goes on from the same state. -/
theorem ofExcept_bind_eq_ok_iff {r : Except AsmCause α} :
    (ofExcept r >>= g) a = .ok w c ↔ ∃ v, r = .ok v ∧ g v a = .ok w c := by
  rw [bind_eq_ok_iff]
  constructor
  · rintro ⟨v, b, hr, hg⟩
    obtain ⟨hv, rfl⟩ := ofExcept_eq_ok_iff.1 hr
    exact ⟨v, hv, hg⟩
  · rintro ⟨v, hv, hg⟩
    exact ⟨v, a, ofExcept_eq_ok_iff.2 ⟨hv, rfl⟩, hg⟩

/-- On an active line a change is made. -/
theorem ifActive_of_active {skipped : α} (h : a.active = true) : ifActive skipped f a = f a := by
  rw [ifActive, get_bind, if_pos h]

/-- On a skipped line a change is left out. -/
theorem ifActive_of_skipped {skipped : α} (h : a.active = false) :
    ifActive skipped f a = .ok skipped a := by
  rw [ifActive, get_bind, if_neg (by simp [h])]
  rfl

end Sequence

/-! ## Names and items -/

section Names

variable {a b : Assembler}

/-- A name without a value is given one. -/
theorem bindName_of_free {name : String} (h : a.labels.contains name = false) (value : Int) :
    bindName name value a = .ok () { a with labels := a.labels.insert name value } := by
  rw [bindName, get_bind, if_neg (by simp [h])]
  rfl

/-- A name with a value is refused another. -/
theorem bindName_of_taken {name : String} (h : a.labels.contains name = true) (value : Int) :
    bindName name value a = .error (.duplicateName name) a := by
  rw [bindName, get_bind, if_pos h]
  rfl

/-- The waiting label has no value yet. -/
def PendingFree (a : Assembler) : Prop := ∀ label ∈ a.pending, a.labels.contains label = false

/-- The label table once the waiting label is bound to an address. -/
def labelsAt (a : Assembler) (address : Int) : Labels :=
  match a.pending with
  | none => a.labels
  | some label => a.labels.insert label address

/-- The state once an item is recorded at an address. -/
def recorded (a : Assembler) (kind : ItemKind) (address : Int) (operands : List String) :
    Assembler :=
  { a with
    labels := a.labelsAt address
    items := a.items.push { kind, address, line := a.line, operands }
    address := address + kind.size
    pending := none }

/-- An item is recorded unless the waiting label has a value already. -/
theorem record_of_free (h : a.PendingFree) (kind : ItemKind) (address : Int)
    (operands : List String) :
    record kind address operands a = .ok () (a.recorded kind address operands) := by
  have hbind : bindPending address a =
      .ok () { a with labels := a.labelsAt address, pending := none } := by
    rw [bindPending, get_bind, labelsAt]
    cases hpending : a.pending with
    | none =>
      obtain ⟨_, _, _, _, _, _, _⟩ := a
      cases hpending
      rfl
    | some label => exact bind_of_ok (bindName_of_free (h label hpending) address)
  rw [record, bind_of_ok hbind]
  rfl

/-- No item is recorded when the waiting label has a value already. -/
theorem record_of_taken {label : String} (hpending : a.pending = some label)
    (h : a.labels.contains label = true) (kind : ItemKind) (address : Int)
    (operands : List String) :
    record kind address operands a = .error (.duplicateName label) a := by
  have hbind : bindPending address a = .error (.duplicateName label) a := by
    rw [bindPending, get_bind, hpending]
    exact bind_of_error (bindName_of_taken h address)
  rw [record, bind_of_error hbind]

/-- An item is recorded exactly when the waiting label is free. -/
theorem record_eq_ok_iff {kind : ItemKind} {address : Int} {operands : List String} :
    record kind address operands a = .ok () b ↔
      a.PendingFree ∧ b = a.recorded kind address operands := by
  by_cases hfree : a.PendingFree
  · simp [record_of_free hfree, hfree, eq_comm]
  · obtain ⟨label, hpending, htaken⟩ : ∃ label, a.pending = some label ∧
        a.labels.contains label = true := by simpa [PendingFree] using hfree
    simp [record_of_taken hpending htaken, hfree]

end Names

/-! ## The labels of a line -/

/-- The label that waits once the labels of a line are read. -/
def pendingAfter (a : Assembler) (labels : List String) : Except AsmCause (Option String) :=
  if a.active then labels.foldlM addLabel a.pending else .ok a.pending

/-- The labels of a line leave one of them waiting. -/
theorem addLabels_of_ok {a : Assembler} {labels : List String} {pending : Option String}
    (h : a.pendingAfter labels = .ok pending) :
    addLabels labels a = .ok () { a with pending } := by
  cases hactive : a.active with
  | true =>
    rw [pendingAfter, if_pos hactive] at h
    rw [addLabels, ifActive_of_active hactive, get_bind, h]
    rfl
  | false =>
    rw [pendingAfter, if_neg (by simp [hactive])] at h
    cases h
    rw [addLabels, ifActive_of_skipped hactive]

/-- The labels of a line are refused in the state they are found in. -/
theorem addLabels_of_error {a : Assembler} {labels : List String} {cause : AsmCause}
    (h : a.pendingAfter labels = .error cause) : addLabels labels a = .error cause a := by
  cases hactive : a.active with
  | true =>
    rw [pendingAfter, if_pos hactive] at h
    rw [addLabels, ifActive_of_active hactive, get_bind, h]
    rfl
  | false =>
    rw [pendingAfter, if_neg (by simp [hactive])] at h
    cases h

/-- The labels of a line change nothing but which one is waiting. -/
theorem addLabels_eq_ok_iff {a b : Assembler} {labels : List String} :
    addLabels labels a = .ok () b ↔
      ∃ pending, a.pendingAfter labels = .ok pending ∧ b = { a with pending } := by
  cases h : a.pendingAfter labels with
  | ok pending => simp [addLabels_of_ok h, eq_comm]
  | error cause => simp [addLabels_of_error h]

/-- A statement has one label at most, whether it stands before the line or in it. -/
theorem foldlM_addLabel_eq_ok_iff {pending next : Option String} {labels : List String} :
    labels.foldlM addLabel pending = .ok next ↔
      (labels = [] ∧ next = pending) ∨
        ∃ label, labels = [label] ∧ pending = none ∧ next = some label := by
  cases labels with
  | nil =>
    change Except.ok pending = .ok next ↔ _
    simp [eq_comm]
  | cons first rest =>
    cases pending with
    | some found =>
      change Except.error (AsmCause.secondLabel found) = .ok next ↔ _
      simp
    | none =>
      cases rest with
      | nil =>
        change Except.ok (some first) = .ok next ↔ _
        simp [eq_comm]
      | cons second rest =>
        change Except.error (AsmCause.secondLabel first) = .ok next ↔ _
        simp

/-! ## Statements and lines -/

section Statements

variable {s : Statement} {operands : List String}

/-- A directive opens a conditional, or it moves in one that is open. -/
theorem direct_cases {mnemonic : String} {change : Change Unit}
    (h : direct? mnemonic operands = some change) :
    (∃ g : Bool → Bool, change = (do
        ofExcept (Form.expect mnemonic 1 operands)
        modify fun a => { a with
          conditional := a.conditional.enter (g (operands.any a.labels.contains)) })) ∨
      ∃ (cause : AsmCause) (f : Conditional → Conditional), change = (do
        ofExcept (Form.expect mnemonic 0 operands)
        let a ← get
        if a.conditional.depth = 0 then throw cause
        else set { a with conditional := f a.conditional }) := by
  unfold direct? at h
  split at h
  · cases h
    exact .inl ⟨id, rfl⟩
  · cases h
    exact .inl ⟨not, rfl⟩
  · cases h
    exact .inr ⟨.unexpectedElse, .swap, rfl⟩
  · cases h
    exact .inr ⟨.unexpectedEndif, .leave, rfl⟩
  · cases h

/-- Only the words of conditionals are obeyed on skipped lines. -/
theorem direct?_eq_none {mnemonic : String}
    (h : mnemonic ∉ ["IFDEF", "IFNDEF", "ELSE", "ENDIF"]) : direct? mnemonic operands = none := by
  simp only [List.mem_cons, List.not_mem_nil, or_false, not_or] at h
  obtain ⟨hifdef, hifndef, helse, hendif⟩ := h
  unfold direct?
  split
  · exact absurd rfl hifdef
  · exact absurd rfl hifndef
  · exact absurd rfl helse
  · exact absurd rfl hendif
  · rfl

/-- An assignment is made on active lines only. -/
theorem perform_of_assigns (h : s.assigns = true) :
    perform s operands = ifActive [] (do assign s.name operands; return []) :=
  if_pos h

/-- The word of a conditional is obeyed on every line. -/
theorem perform_of_direct {change : Change Unit} (h : s.assigns = false)
    (hchange : direct? (Text.upper s.name) operands = some change) :
    perform s operands = (do change; return []) := by
  simp only [perform, h, Bool.false_eq_true, if_false, hchange]

/-- Any other operation is executed on active lines only. -/
theorem perform_of_not_direct (h : s.assigns = false)
    (hchange : direct? (Text.upper s.name) operands = none) :
    perform s operands = ifActive [] (execute s.name (Text.upper s.name) operands) := by
  simp only [perform, h, Bool.false_eq_true, if_false, hchange]

end Statements

/-- A line is taken by a state that counts it already. -/
theorem processLine_eq_ok_iff {a b : Assembler} {text : String} {notices : List AsmNotice} :
    a.processLine text = (b, .ok notices) ↔
      take (.parse text) { a with line := a.line + 1 } = .ok notices b := by
  rw [processLine]
  cases take (.parse text) { a with line := a.line + 1 } with
  | ok more next => simp [and_comm]
  | error cause left => simp

end SuperChip.Assembler
