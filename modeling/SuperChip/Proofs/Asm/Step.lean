import SuperChip.Proofs.Asm.Operands
import SuperChip.Proofs.Asm.Refusal
import SuperChip.Proofs.Expr.Growth

/-!
# What an accepted line does

Apart from its labels, an accepted line does one of four things (`Step`): nothing, give a name
without a value its value, record an item where the line before it ended, or move among the
conditionals. Two facts about every line follow: a name keeps its value, and an item that is
recorded stays recorded.
-/

set_option autoImplicit false

namespace SuperChip

open EState

/-- The address at which an item is recorded, if the one before it ends at `address`. -/
def ItemKind.startFrom (kind : ItemKind) (address : Int) : Int :=
  match kind with
  | .instruction _ => Assembler.aligned address
  | _ => address

namespace Assembler

/-- What the statement of an accepted line, with the operands `texts`, makes of the state. -/
inductive Step (texts : List String) (a : Assembler) : Assembler → Prop where
  | rest : Step texts a a
  | named {name : String} {value : Int} (free : a.labels.contains name = false) :
      Step texts a { a with labels := a.labels.insert name value }
  | recorded {kind : ItemKind} {operands : List String} (free : a.PendingFree)
      (counted : kind.operandCount? a.shiftsVy = some operands.length)
      (kept : operands ⊆ texts) :
      Step texts a (a.recorded kind (kind.startFrom a.address) operands)
  | moved (conditional : Conditional) : Step texts a { a with conditional }

variable {a b : Assembler} {texts operands : List String} {notices : List AsmNotice}

/-- An assignment gives a name its value. -/
theorem step_of_assign {name : String} (h : assign name operands a = .ok () b) :
    Step texts a b := by
  unfold assign at h
  split at h
  · rw [get_bind, ofExcept_bind_eq_ok_iff] at h
    obtain ⟨value, -, hname⟩ := h
    cases hfree : a.labels.contains name with
    | true =>
      rw [bindName_of_taken hfree] at hname
      cases hname
    | false =>
      rw [bindName_of_free hfree] at hname
      cases hname
      exact .named hfree
  · cases h

/-- A directive moves among the conditionals. -/
theorem step_of_direct {mnemonic : String} {change : Change Unit}
    (hchange : direct? mnemonic operands = some change) (h : change a = .ok () b) :
    Step texts a b := by
  obtain ⟨g, rfl⟩ | ⟨cause, f, rfl⟩ := direct_cases hchange
  · obtain ⟨-, -, hmodify⟩ := ofExcept_bind_eq_ok_iff.1 h
    cases hmodify
    exact .moved _
  · obtain ⟨-, -, hset⟩ := ofExcept_bind_eq_ok_iff.1 h
    rw [get_bind] at hset
    split at hset
    · cases hset
    · cases hset
      exact .moved _

/-- An item that is recorded has as many operands as its kind needs. -/
theorem step_of_record (kind : ItemKind)
    (hcount : kind.operandCount? a.shiftsVy = some operands.length) (hkept : operands ⊆ texts)
    (h : (do record kind (kind.startFrom a.address) operands; return [] : Change _) a =
      .ok notices b) : Step texts a b := by
  obtain ⟨_, c, hrecord, hpure⟩ := bind_eq_ok_iff.1 h
  obtain ⟨hfree, rfl⟩ := record_eq_ok_iff.1 hrecord
  cases hpure
  exact .recorded hfree hcount hkept

/-- Another statement defines a name or records an item, or it does nothing. -/
theorem step_of_execute {written mnemonic : String}
    (h : execute written mnemonic operands a = .ok notices b) : Step operands a b := by
  revert h
  unfold execute
  split
  · intro h
    obtain ⟨_, hexpect, hdefine⟩ := ofExcept_bind_eq_ok_iff.1 h
    obtain ⟨name, rfl⟩ := List.length_eq_one_iff.1 (Form.expect_eq_ok_iff.1 hexpect)
    cases hdefine
    change Step _ a (execute.define a name)
    unfold execute.define
    cases hfree : a.labels.contains name with
    | true => exact .rest
    | false => exact .named hfree
  · intro h
    obtain ⟨_, hexpect, hrecord⟩ := ofExcept_bind_eq_ok_iff.1 h
    have hcount := congrArg some (Form.expect_eq_ok_iff.1 hexpect).symm
    exact step_of_record .byte hcount (List.Subset.refl _) hrecord
  · intro h
    obtain ⟨_, hexpect, hrecord⟩ := ofExcept_bind_eq_ok_iff.1 h
    have hcount := congrArg some (Form.expect_eq_ok_iff.1 hexpect).symm
    exact step_of_record .word hcount (List.Subset.refl _) hrecord
  · intro h
    obtain ⟨-, -, hoption⟩ := ofExcept_bind_eq_ok_iff.1 h
    cases hoption
    exact .rest
  · intro h
    rw [get_bind] at h
    obtain ⟨form, hselect, hrecord⟩ := ofExcept_bind_eq_ok_iff.1 h
    exact step_of_record (.instruction form.op) (Form.takes_of_select hselect)
      (Form.operands_of_select hselect) hrecord

/-- Where lines are skipped nothing is done. -/
theorem step_of_ifActive {f : Change (List AsmNotice)} (h : ifActive [] f a = .ok notices b)
    (hf : f a = .ok notices b → Step texts a b) : Step texts a b := by
  cases hactive : a.active with
  | true =>
    rw [ifActive_of_active hactive] at h
    exact hf h
  | false =>
    rw [ifActive_of_skipped hactive] at h
    cases h
    exact .rest

/-- An accepted statement makes a step. -/
theorem step_of_perform {s : Statement} (h : perform s operands a = .ok notices b) :
    Step operands a b := by
  cases hassigns : s.assigns with
  | true =>
    rw [perform_of_assigns hassigns] at h
    apply step_of_ifActive h
    intro h
    obtain ⟨_, c, hassign, hpure⟩ := bind_eq_ok_iff.1 h
    cases hpure
    exact step_of_assign hassign
  | false =>
    cases hchange : direct? (Text.upper s.name) operands with
    | some change =>
      rw [perform_of_direct hassigns hchange] at h
      obtain ⟨_, c, hdirect, hpure⟩ := bind_eq_ok_iff.1 h
      cases hpure
      exact step_of_direct hchange hdirect
    | none =>
      rw [perform_of_not_direct hassigns hchange] at h
      exact step_of_ifActive h step_of_execute

/-- An accepted line replaces the waiting label and then makes its step. -/
theorem step_of_take {line : SourceLine} (h : take line a = .ok notices b) :
    ∃ pending, a.pendingAfter line.labels = .ok pending ∧
      Step line.operandTexts { a with pending } b := by
  rw [take, bind_eq_ok_iff] at h
  obtain ⟨_, c, hlabels, h⟩ := h
  obtain ⟨pending, hpending, rfl⟩ := addLabels_eq_ok_iff.1 hlabels
  refine ⟨pending, hpending, ?_⟩
  cases hstatement : line.statement with
  | none =>
    rw [hstatement] at h
    cases h
    exact .rest
  | some s =>
    rw [hstatement] at h
    obtain ⟨operands, hops, hperform⟩ := ofExcept_bind_eq_ok_iff.1 h
    rw [SourceLine.operandTexts_eq hstatement hops]
    exact step_of_perform hperform

/-- An accepted line counts as a line, replaces the waiting label and then makes its step. -/
theorem step_of_processLine {text : String} (h : a.processLine text = (b, .ok notices)) :
    ∃ pending,
      pendingAfter { a with line := a.line + 1 } (SourceLine.parse text).labels = .ok pending ∧
      Step (SourceLine.parse text).operandTexts { a with line := a.line + 1, pending } b :=
  step_of_take (processLine_eq_ok_iff.1 h)

/-! ## What a step keeps -/

/-- To bind the waiting label takes no value from a name. -/
theorem labelsAt_extends (hfree : a.PendingFree) (address : Int) :
    (a.labelsAt address).Extends a.labels := by
  rw [labelsAt]
  cases hpending : a.pending with
  | none => exact Labels.extends_refl _
  | some label => exact Labels.extends_insert (hfree label hpending) address

/-- A step takes no value from a name. -/
theorem Step.extends (h : Step texts a b) : b.labels.Extends a.labels := by
  cases h with
  | rest => exact Labels.extends_refl _
  | named free => exact Labels.extends_insert free _
  | recorded free => exact labelsAt_extends free _
  | moved => exact Labels.extends_refl _

/-- A step keeps the items in front. -/
theorem Step.isPrefix_items (h : Step texts a b) : a.items.toList <+: b.items.toList := by
  cases h with
  | rest => exact List.prefix_rfl
  | named => exact List.prefix_rfl
  | recorded =>
    rw [Assembler.recorded, Array.toList_push]
    exact List.prefix_append _ _
  | moved => exact List.prefix_rfl

/-- A step keeps the way in which shifts are encoded. -/
theorem Step.shiftsVy_eq (h : Step texts a b) : b.shiftsVy = a.shiftsVy := by
  cases h <;> rfl

/-- What is kept by lines that are not taken and by steps is kept by every line. -/
theorem processLine_keeps {P : Assembler → Prop} (a : Assembler) (text : String)
    (hstart : ∀ pending, P { a with line := a.line + 1, pending })
    (hstep : ∀ pending b, Step (SourceLine.parse text).operandTexts
      { a with line := a.line + 1, pending } b → P b) :
    P (a.processLine text).1 := by
  cases houtcome : (a.processLine text).2 with
  | error e =>
    obtain ⟨pending, hstate⟩ := processLine_stopped houtcome
    rw [hstate]
    exact hstart pending
  | ok notices =>
    obtain ⟨pending, -, h⟩ := step_of_processLine (Prod.ext rfl houtcome)
    exact hstep pending _ h

/-- A line takes no value from a name. -/
theorem processLine_extends (a : Assembler) (text : String) :
    (a.processLine text).1.labels.Extends a.labels :=
  processLine_keeps (P := fun b => b.labels.Extends a.labels) a text
    (fun _ => Labels.extends_refl _) fun _ _ h => h.extends

/-- A line keeps the items in front. -/
theorem processLine_isPrefix_items (a : Assembler) (text : String) :
    a.items.toList <+: (a.processLine text).1.items.toList :=
  processLine_keeps (P := fun b => a.items.toList <+: b.items.toList) a text
    (fun _ => List.prefix_rfl) fun _ _ h => h.isPrefix_items

/-- A line keeps the way in which shifts are encoded. -/
theorem shiftsVy_processLine (a : Assembler) (text : String) :
    (a.processLine text).1.shiftsVy = a.shiftsVy :=
  processLine_keeps (P := fun b => b.shiftsVy = a.shiftsVy) a text
    (fun _ => rfl) fun _ _ h => h.shiftsVy_eq

/-! ## Lines one after the other -/

variable {said : List AsmNotice} {text : String} {done rest : List String}

/-- Lines are taken exactly if the first one is, and then the others. -/
theorem processLines_cons_eq_ok_iff :
    a.processLines said (text :: rest) = (b, notices, none) ↔
      ∃ c more, a.processLine text = (c, .ok more) ∧
        c.processLines (said ++ more) rest = (b, notices, none) := by
  rw [processLines]
  constructor
  · intro h
    split at h
    · cases h
    · next c more hline => exact ⟨c, more, hline, h⟩
  · rintro ⟨c, more, hline, hrest⟩
    rw [hline]
    exact hrest

/-- Lines are taken exactly if the front is, and then what is behind it. -/
theorem processLines_append_eq_ok_iff :
    a.processLines said (done ++ rest) = (b, notices, none) ↔
      ∃ c more, a.processLines said done = (c, more, none) ∧
        c.processLines more rest = (b, notices, none) := by
  induction done generalizing a said with
  | nil => simp [processLines]
  | cons text done ih =>
    simp only [List.cons_append, processLines_cons_eq_ok_iff, ih]
    constructor
    · rintro ⟨c, more, hline, d, m, hdone, hrest⟩
      exact ⟨d, m, ⟨c, more, hline, hdone⟩, hrest⟩
    · rintro ⟨d, m, ⟨c, more, hline, hdone⟩, hrest⟩
      exact ⟨c, more, hline, d, m, hdone, hrest⟩

/-- What accepted lines keep holds after all of them. -/
theorem processLines_induction {P : Assembler → Prop}
    (hline : ∀ a b text notices, P a → a.processLine text = (b, .ok notices) → P b)
    {lines : List String} (h : a.processLines said lines = (b, notices, none)) (ha : P a) :
    P b := by
  induction lines generalizing a said with
  | nil =>
    cases h
    exact ha
  | cons text rest ih =>
    obtain ⟨c, more, htext, hrest⟩ := processLines_cons_eq_ok_iff.1 h
    exact ih hrest (hline a c text more ha htext)

end Assembler

end SuperChip
