import SuperChip.Proofs.Asm.Change
import SuperChip.Proofs.Asm.Operands
import SuperChip.Proofs.Asm.Statement

/-!
# Why a line is not taken

A line that is not taken is refused for a documented cause: its labels, the number and the form of
its operands, a name that is taken or a conditional that is not open. Only an assignment evaluates
an expression, so only there can the assembler fail instead, at a decimal number of more digits than
can be read (`documentedly_perform_of_not_assigns`). Each part of a line is shown to stop for
nothing else, and so is the whole line (`documentedly_take`).
-/

set_option autoImplicit false

namespace SuperChip

open EState

/-! ## Operands -/

/-- The operands of a line, if they can be told apart. -/
def SourceLine.operandTexts (line : SourceLine) : List String :=
  match line.statement with
  | none => []
  | some s => s.operands.toOption.getD []

/-- The operands of a line are those of its statement. -/
theorem SourceLine.operandTexts_eq {line : SourceLine} {s : Statement} {operands : List String}
    (hs : line.statement = some s) (hops : s.operands = .ok operands) :
    line.operandTexts = operands := by
  rw [operandTexts, hs]
  simp only [hops]
  rfl

/-- Operands that cannot be told apart are refused. -/
theorem Statement.documented_operands (texts : List String) (s : Statement) :
    Documented texts s.operands := by
  intro cause h
  obtain rfl | rfl := cause_of_operands h
  · exact .refused nofun rfl
  · exact .refused nofun rfl

namespace Assembler

variable {α β : Type} {f : Change α} {g : α → Change β} {a b : Assembler}
  {few texts : List String}

/-! ## Changes -/

/-- The change is never refused. -/
def Total (f : Change α) : Prop := ∀ a cause b, f a ≠ .error cause b

/-- A value is given without a refusal. -/
theorem total_pure (v : α) : Total (pure v) := by
  rintro a cause b ⟨⟩

/-- A function of the state is applied without a refusal. -/
theorem total_modify (f : Assembler → Assembler) : Total (modify f) := by
  rintro a cause b ⟨⟩

/-- A state is put in place without a refusal. -/
theorem total_set (b : Assembler) : Total (set b) := by
  rintro a cause c ⟨⟩

/-- A sequence is never refused if none of its parts is. -/
theorem Total.bind (hf : Total f) (hg : ∀ v, Total (g v)) : Total (f >>= g) := by
  intro a cause c h
  obtain h | ⟨v, b, -, h⟩ := bind_eq_error_iff.1 h
  · exact hf a cause c h
  · exact hg v b cause c h

/-- Wherever the change stops, the operands explain it. -/
def Documentedly (texts : List String) (f : Change α) : Prop :=
  ∀ a cause b, f a = .error cause b → cause.Explained texts

/-- What never stops needs no explanation. -/
theorem Total.documentedly (h : Total f) : Documentedly texts f := by
  intro a cause b hf
  exact absurd hf (h a cause b)

/-- More operands explain what fewer do. -/
theorem Documentedly.mono (h : Documentedly few f) (hsubset : few ⊆ texts) :
    Documentedly texts f := by
  intro a cause b hf
  exact (h a cause b hf).mono hsubset

/-- A refusal that needs no operand is explained by any. -/
theorem documentedly_throw {cause : AsmCause} (h : cause ≠ .invalidOperation)
    (hrefusal : cause.isRefusal = true) : Documentedly texts (throw cause : Change α) := by
  rintro a _ b ⟨⟩
  exact .refused h hrefusal

/-- A result that the operands explain stays so as a change. -/
theorem documentedly_ofExcept {r : Except AsmCause α} (h : Documented texts r) :
    Documentedly texts (ofExcept r) := by
  intro a cause b hf
  exact h cause (ofExcept_eq_error_iff.1 hf).1

/-- The operands explain a sequence if they explain its parts. -/
theorem Documentedly.bind (hf : Documentedly texts f) (hg : ∀ v, Documentedly texts (g v)) :
    Documentedly texts (f >>= g) := by
  intro a cause c h
  obtain h | ⟨v, b, -, h⟩ := bind_eq_error_iff.1 h
  · exact hf a cause c h
  · exact hg v b cause c h

/-- The operands explain what depends on the state if they do so in every state. -/
theorem documentedly_get_bind {g : Assembler → Change β} (hg : ∀ a, Documentedly texts (g a)) :
    Documentedly texts (get >>= g) := by
  intro a cause b h
  exact hg a a cause b h

/-- The operands explain what is skipped if they explain it where it is not. -/
theorem Documentedly.ifActive {skipped : α} (hf : Documentedly texts f) :
    Documentedly texts (ifActive skipped f) := by
  apply documentedly_get_bind
  intro a
  split
  · exact hf
  · exact (total_pure skipped).documentedly

/-! ## The parts of a line -/

/-- A second label is refused. -/
theorem documentedly_addLabels (labels : List String) : Documentedly texts (addLabels labels) := by
  have hlabels : ∀ (labels : List String) pending,
      Documented texts (labels.foldlM addLabel pending) := by
    intro labels
    induction labels with
    | nil => exact documented_ok
    | cons label rest ih =>
      intro pending
      rw [List.foldlM_cons]
      refine Documented.bind ?_ fun pending _ => ih pending
      cases pending with
      | none => exact documented_ok _
      | some found => exact documented_error nofun rfl
  apply Documentedly.ifActive
  apply documentedly_get_bind
  intro a
  exact (documentedly_ofExcept (hlabels labels a.pending)).bind fun _ => (total_set _).documentedly

/-- A name that has a value is refused. -/
theorem documentedly_bindName (name : String) (value : Int) :
    Documentedly texts (bindName name value) := by
  apply documentedly_get_bind
  intro a
  split
  · exact documentedly_throw nofun rfl
  · exact (total_set _).documentedly

/-- An assignment is the one statement that evaluates its operand. -/
theorem documentedly_assign (name : String) (operands : List String) :
    Documentedly operands (assign name operands) := by
  have hevaluate : ∀ (a : Assembler) text, Documented [text] (a.evaluate text) := by
    intro a text
    unfold evaluate
    split
    · exact documented_ok _
    · next heval =>
      obtain hrefusal | ⟨n, hmeets, rfl⟩ := Expr.refused_or_meetsLong heval
      · exact documented_error nofun hrefusal
      · rintro _ ⟨⟩
        exact .assigned (.head _) hmeets
  unfold assign
  split
  · apply documentedly_get_bind
    intro a
    exact (documentedly_ofExcept (hevaluate a _)).bind fun value => documentedly_bindName name value
  · exact documentedly_throw nofun rfl

/-- An item is refused for its label. -/
theorem documentedly_record (kind : ItemKind) (address : Int) (operands : List String) :
    Documentedly texts (record kind address operands) := by
  have hpending : Documentedly texts (bindPending address) := by
    apply documentedly_get_bind
    intro a
    split
    · exact (total_pure ()).documentedly
    · exact (documentedly_bindName _ _).bind fun _ => (total_modify _).documentedly
  exact hpending.bind fun _ => ((total_modify _).bind fun _ => total_modify _).documentedly

/-- A directive is refused for the number of its operands, or where no conditional is open. -/
theorem documentedly_direct {mnemonic : String} {operands : List String} {change : Change Unit}
    (h : direct? mnemonic operands = some change) : Documentedly texts change := by
  have hexpect : ∀ want, Documentedly texts (ofExcept (Form.expect mnemonic want operands)) :=
    fun want => documentedly_ofExcept (Form.documented_expect texts want)
  have hmove : ∀ {cause} (g : Conditional → Conditional), cause ≠ .invalidOperation →
      cause.isRefusal = true →
        Documentedly texts (do
          let a ← get
          if a.conditional.depth = 0 then throw cause
          else set { a with conditional := g a.conditional } : Change Unit) := by
    intro cause g hcause hrefusal
    apply documentedly_get_bind
    intro a
    split
    · exact documentedly_throw hcause hrefusal
    · exact (total_set _).documentedly
  unfold direct? at h
  split at h <;> cases h
  · exact (hexpect 1).bind fun _ => (total_modify _).documentedly
  · exact (hexpect 1).bind fun _ => (total_modify _).documentedly
  · exact (hexpect 0).bind fun _ => hmove .swap nofun rfl
  · exact (hexpect 0).bind fun _ => hmove .leave nofun rfl

/-- Another statement is refused for its operands or for its label. Its operands are not evaluated
yet. -/
theorem documentedly_execute (written mnemonic : String) (operands : List String) :
    Documentedly texts (execute written mnemonic operands) := by
  have hexpect : Documentedly texts (ofExcept (Form.expect written 1 operands)) :=
    documentedly_ofExcept (Form.documented_expect texts 1)
  have hrecord : ∀ kind address operands,
      Documentedly texts (do record kind address operands; return ([] : List AsmNotice)) :=
    fun kind address operands =>
      (documentedly_record kind address operands).bind fun _ => (total_pure []).documentedly
  unfold execute
  split
  · exact hexpect.bind fun _ => ((total_modify _).bind fun _ => total_pure []).documentedly
  · exact hexpect.bind fun _ => documentedly_get_bind fun a => hrecord _ _ _
  · exact hexpect.bind fun _ => documentedly_get_bind fun a => hrecord _ _ _
  · exact hexpect.bind fun _ => documentedly_get_bind fun a => (total_pure _).documentedly
  · apply documentedly_get_bind
    intro a
    exact (documentedly_ofExcept (Form.documented_select texts _ _ _ _)).bind fun form =>
      hrecord _ _ _

/-- What is no assignment is only refused. -/
theorem documentedly_perform_of_not_assigns {s : Statement} (hassigns : s.assigns = false)
    (operands : List String) : Documentedly texts (perform s operands) := by
  unfold perform
  rw [if_neg (by simp [hassigns])]
  dsimp only
  split
  · next hdirect =>
    exact (documentedly_direct hdirect).bind fun _ => (total_pure []).documentedly
  · exact (documentedly_execute _ _ _).ifActive

/-- A statement stops for what its operands explain. -/
theorem documentedly_perform (s : Statement) (operands : List String) :
    Documentedly operands (perform s operands) := by
  cases hassigns : s.assigns with
  | true =>
    rw [perform_of_assigns hassigns]
    exact ((documentedly_assign _ _).bind fun _ => (total_pure []).documentedly).ifActive
  | false => exact documentedly_perform_of_not_assigns hassigns operands

/-! ## Lines -/

/-- A line stops at its labels, or at its operands, or at what its statement does. -/
theorem take_error_cases {line : SourceLine} {cause : AsmCause} (h : take line a = .error cause b) :
    (cause.Explained [] ∧ b = a) ∨
      ∃ pending s, a.pendingAfter line.labels = .ok pending ∧ line.statement = some s ∧
        ((s.operands = .error cause ∧ b = { a with pending }) ∨
          ∃ operands, s.operands = .ok operands ∧
            perform s operands { a with pending } = .error cause b) := by
  rw [take, bind_eq_error_iff] at h
  obtain h | ⟨_, c, hlabels, h⟩ := h
  · refine .inl ⟨documentedly_addLabels _ _ _ _ h, ?_⟩
    cases hpending : a.pendingAfter line.labels with
    | ok pending =>
      rw [addLabels_of_ok hpending] at h
      cases h
    | error cause' =>
      rw [addLabels_of_error hpending] at h
      cases h
      rfl
  · obtain ⟨pending, hpending, rfl⟩ := addLabels_eq_ok_iff.1 hlabels
    refine .inr ⟨pending, ?_⟩
    cases hs : line.statement with
    | none =>
      rw [hs] at h
      cases h
    | some s =>
      rw [hs, bind_eq_error_iff] at h
      refine ⟨s, hpending, rfl, ?_⟩
      obtain h | ⟨operands, c, hread, h⟩ := h
      · exact .inl (ofExcept_eq_error_iff.1 h)
      · obtain ⟨hops, rfl⟩ := ofExcept_eq_ok_iff.1 hread
        exact .inr ⟨operands, hops, h⟩

/-- A line stops for what its operands explain. -/
theorem documentedly_take (line : SourceLine) : Documentedly line.operandTexts (take line) := by
  intro a cause b h
  obtain ⟨hlabels, -⟩ | ⟨pending, s, -, hs, ⟨hops, -⟩ | ⟨operands, hops, h⟩⟩ := take_error_cases h
  · exact hlabels.mono (List.nil_subset _)
  · exact s.documented_operands _ cause hops
  · rw [SourceLine.operandTexts_eq hs hops]
    exact documentedly_perform s operands _ cause b h

/-- A line that is not taken is refused for a documented cause, or it holds an operand with a number
that is too long. -/
theorem explained_processLine {text : String} {e : AsmError}
    (h : (a.processLine text).2 = .error e) :
    e.cause.Explained (SourceLine.parse text).operandTexts := by
  unfold processLine at h
  split at h
  · cases h
  · next cause left htake =>
    cases h
    exact documentedly_take _ _ _ _ htake

end Assembler

end SuperChip
