import Mathlib.Control.Monad.Basic
import SuperChip.Asm.Assembly
import SuperChip.Proofs.Asm.Causes
import SuperChip.Proofs.Text.Scan

/-!
# Refused lines

A line changes the assembler in place, and it may be refused at many points: by its labels, its
operands, its expression, its form or its name. Every part of it but one is refused before it has
changed anything (`Clean`); the exception is the waiting label, which the labels of the line may
have replaced, and which a refused line gives back. So a refused line counts as a line and does
nothing else, as a blank one does (`refused_as_blank`).
-/

set_option autoImplicit false

namespace SuperChip.Assembler

open EState

variable {α β : Type} {f : Change α} {g : α → Change β}

/-- The change leaves the state alone where it is refused. -/
def Clean (f : Change α) : Prop := ∀ a cause b, f a = .error cause b → b = a

/-- The change leaves the state alone where it is not refused. -/
def Reads (f : Change α) : Prop := ∀ a v b, f a = .ok v b → b = a

/-- What never stops leaves nothing half done. -/
theorem Total.clean (h : Total f) : Clean f := by
  intro a cause b hf
  exact absurd hf (h a cause b)

/-- A refusal alone changes nothing. -/
theorem clean_throw (cause : AsmCause) : Clean (throw cause : Change α) := by
  rintro a cause b ⟨⟩
  rfl

/-- A result, given or refused, changes nothing. -/
theorem clean_ofExcept (r : Except AsmCause α) : Clean (ofExcept r) := by
  intro a cause b h
  exact (ofExcept_eq_error_iff.1 h).2

/-- A result that is given changes nothing. -/
theorem reads_ofExcept (r : Except AsmCause α) : Reads (ofExcept r) := by
  intro a v b h
  exact (ofExcept_eq_ok_iff.1 h).2

/-- Behind a change that only reads, a refusal finds the state as it was. -/
theorem Clean.bind_of_reads (hf : Clean f) (hr : Reads f) (hg : ∀ v, Clean (g v)) :
    Clean (f >>= g) := by
  intro a cause c h
  obtain h | ⟨v, b, hv, h⟩ := bind_eq_error_iff.1 h
  · exact hf a cause c h
  · rw [hg v b cause c h, hr a v b hv]

/-- What is never refused may follow any change. -/
theorem Clean.bind_of_total (hf : Clean f) (hg : ∀ v, Total (g v)) : Clean (f >>= g) := by
  intro a cause c h
  obtain h | ⟨v, b, -, h⟩ := bind_eq_error_iff.1 h
  · exact hf a cause c h
  · exact absurd h (hg v b cause c)

/-- What is clean stays so behind a result. -/
theorem clean_ofExcept_bind {r : Except AsmCause α} (hg : ∀ v, Clean (g v)) :
    Clean (ofExcept r >>= g) :=
  (clean_ofExcept r).bind_of_reads (reads_ofExcept r) hg

/-- What depends on the state is clean if it is so in every state. -/
theorem clean_get_bind {g : Assembler → Change β} (hg : ∀ a, Clean (g a)) : Clean (get >>= g) := by
  intro a cause b h
  exact hg a a cause b h

/-- What may be skipped is clean if it is so where it is not skipped. -/
theorem Clean.ifActive {skipped : α} (hf : Clean f) : Clean (ifActive skipped f) := by
  intro a cause b h
  cases hactive : a.active with
  | true =>
    rw [ifActive_of_active hactive] at h
    exact hf a cause b h
  | false =>
    rw [ifActive_of_skipped hactive] at h
    cases h

/-! ## The parts of a line -/

/-- A name that cannot be bound leaves the state alone. -/
theorem clean_bindName (name : String) (value : Int) : Clean (bindName name value) := by
  intro a cause b h
  cases hname : a.labels.contains name with
  | true =>
    rw [bindName_of_taken hname] at h
    cases h
    rfl
  | false =>
    rw [bindName_of_free hname] at h
    cases h

/-- An assignment that stops leaves the state alone. -/
theorem clean_assign (name : String) (operands : List String) : Clean (assign name operands) := by
  unfold assign
  split
  · apply clean_get_bind
    intro a
    apply clean_ofExcept_bind
    intro value
    exact clean_bindName name value
  · exact clean_throw _

/-- A waiting label that cannot be bound leaves the state alone. -/
theorem clean_bindPending (address : Int) : Clean (bindPending address) := by
  apply clean_get_bind
  intro a
  split
  · exact (total_pure ()).clean
  · exact (clean_bindName _ _).bind_of_total fun _ => total_modify _

/-- An item is refused before it is recorded: only its label can be at fault. -/
theorem clean_record (kind : ItemKind) (address : Int) (operands : List String) :
    Clean (record kind address operands) :=
  (clean_bindPending address).bind_of_total fun _ =>
    (total_modify _).bind fun _ => total_modify _

/-- The word of a conditional that is refused leaves the state alone. -/
theorem clean_direct {mnemonic : String} {operands : List String} {change : Change Unit}
    (h : direct? mnemonic operands = some change) : Clean change := by
  obtain ⟨g, rfl⟩ | ⟨reason, f, rfl⟩ := direct_cases h
  · exact clean_ofExcept_bind fun _ => (total_modify _).clean
  · apply clean_ofExcept_bind
    intro _
    apply clean_get_bind
    intro a
    split
    · exact clean_throw _
    · exact (total_set _).clean

/-- An operation that is refused leaves the state alone. -/
theorem clean_execute (written mnemonic : String) (operands : List String) :
    Clean (execute written mnemonic operands) := by
  -- an item that is recorded ends the statement
  have hrecord : ∀ kind address operands,
      Clean (do record kind address operands; return ([] : List AsmNotice)) := by
    intro kind address operands
    exact (clean_record kind address operands).bind_of_total fun _ => total_pure []
  unfold execute
  split
  · apply clean_ofExcept_bind
    intro _
    exact ((total_modify _).bind fun _ => total_pure []).clean
  · apply clean_ofExcept_bind
    intro _
    exact clean_get_bind fun a => hrecord _ _ _
  · apply clean_ofExcept_bind
    intro _
    exact clean_get_bind fun a => hrecord _ _ _
  · apply clean_ofExcept_bind
    intro _
    exact clean_get_bind fun a => (total_pure _).clean
  · apply clean_get_bind
    intro a
    apply clean_ofExcept_bind
    intro form
    exact hrecord _ _ _

/-- A statement that stops leaves the state alone. -/
theorem clean_perform (s : Statement) (operands : List String) : Clean (perform s operands) := by
  unfold perform
  split
  · exact ((clean_assign _ _).bind_of_total fun _ => total_pure []).ifActive
  · dsimp only
    split
    · next hdirect => exact (clean_direct hdirect).bind_of_total fun _ => total_pure []
    · exact (clean_execute _ _ _).ifActive

/-! ## Lines -/

/-- What is not taken leaves everything but the waiting label as it was. -/
theorem take_eq_error {line : SourceLine} {a b : Assembler} {cause : AsmCause}
    (h : take line a = .error cause b) : ∃ pending, b = { a with pending } := by
  obtain ⟨-, rfl⟩ | ⟨pending, s, -, -, ⟨-, rfl⟩ | ⟨operands, -, h⟩⟩ := take_error_cases h
  · exact ⟨b.pending, rfl⟩
  · exact ⟨pending, rfl⟩
  · exact ⟨pending, clean_perform s operands _ cause b h⟩

/-- The line assigns, where lines are processed, an operand in which a decimal number of `n` digits
is met that is too long, and `pending` waits behind its labels. -/
structure FailsAt (a : Assembler) (line : SourceLine) (n : Nat) (pending : Option String) :
    Prop where
  active : a.active = true
  labels : a.pendingAfter line.labels = .ok pending
  operand : ∃ s text, line.statement = some s ∧ s.assigns = true ∧ s.operands = .ok [text] ∧
    Expr.MeetsLong text.toList n

/-- An assignment is refused, or its only operand holds a number that is too long. -/
theorem meetsLong_of_assign {name : String} {operands : List String} {a b : Assembler}
    {cause : AsmCause} (h : assign name operands a = .error cause b)
    (hfailure : cause.isRefusal = false) : ∃ text n, operands = [text] ∧
      Expr.MeetsLong text.toList n ∧ cause = .expression (.longNumeral n) := by
  unfold assign at h
  split at h
  · next text =>
    rw [get_bind] at h
    obtain h | ⟨value, c, -, h⟩ := bind_eq_error_iff.1 h
    · obtain ⟨hvalue, -⟩ := ofExcept_eq_error_iff.1 h
      unfold evaluate at hvalue
      split at hvalue
      · cases hvalue
      · next e heval =>
        cases hvalue
        obtain hrefusal | ⟨n, hmeets, rfl⟩ := Expr.refused_or_meetsLong heval
        · cases hrefusal.symm.trans hfailure
        · exact ⟨text, n, rfl, hmeets, rfl⟩
    · cases (documentedly_bindName _ _ _ _ _ h).isRefusal.symm.trans hfailure
  · cases h
    cases hfailure

/-- Only an assignment stops without being refused, and its labels wait then. -/
theorem failsAt_of_take {line : SourceLine} {a b : Assembler} {cause : AsmCause}
    (h : take line a = .error cause b) (hfailure : cause.isRefusal = false) :
    ∃ n pending, a.FailsAt line n pending ∧ cause = .expression (.longNumeral n) ∧
      b = { a with pending } := by
  have hrefused : ¬cause.Explained [] := by
    intro hexplained
    rw [hexplained.isRefusal] at hfailure
    cases hfailure
  obtain ⟨hlabels, -⟩ | ⟨pending, s, hpending, hs, ⟨hops, -⟩ | ⟨operands, hops, h⟩⟩ :=
    take_error_cases h
  · exact absurd hlabels hrefused
  · exact absurd (s.documented_operands [] cause hops) hrefused
  · have hstate := clean_perform s operands _ cause b h
    cases hassigns : s.assigns with
    | false =>
      exact absurd (documentedly_perform_of_not_assigns hassigns operands _ cause b h) hrefused
    | true =>
      cases hactive : a.active with
      | false =>
        have hskipped : active { a with pending } = false := hactive
        rw [perform_of_assigns hassigns, ifActive_of_skipped hskipped] at h
        cases h
      | true =>
        have hprocessed : active { a with pending } = true := hactive
        rw [perform_of_assigns hassigns, ifActive_of_active hprocessed] at h
        obtain h | ⟨_, c, -, h⟩ := bind_eq_error_iff.1 h
        · obtain ⟨text, n, rfl, hmeets, rfl⟩ := meetsLong_of_assign h hfailure
          exact ⟨n, pending, ⟨hactive, hpending, s, text, hs, hassigns, hops, hmeets⟩, rfl, hstate⟩
        · cases h

section ProcessLine

variable {a : Assembler} {text : String} {e : AsmError}
  (h : (a.processLine text).2 = .error e)
include h

/-- What stops a line stops it where its parts are taken, and what is left is the state there. -/
theorem processLine_eq_error : ∃ pending,
    take (.parse text) { a with line := a.line + 1 } =
        .error e.cause { a with line := a.line + 1, pending } ∧
      e.line = a.line + 1 ∧
      (a.processLine text).1 = { a with
        line := a.line + 1, pending := if e.cause.isRefusal then a.pending else pending } := by
  unfold processLine at h ⊢
  cases htake : take (.parse text) { a with line := a.line + 1 } with
  | ok notices next =>
    rw [htake] at h
    cases h
  | error cause left =>
    obtain ⟨pending, rfl⟩ := take_eq_error htake
    rw [htake] at h
    cases h
    refine ⟨pending, rfl, rfl, ?_⟩
    dsimp only
    split <;> rfl

/-- What a line is not taken for names the line. -/
theorem line_of_processLine : e.line = a.line + 1 := by
  obtain ⟨-, -, hline, -⟩ := processLine_eq_error h
  exact hline

/-- A line that is not taken counts as a line, and leaves everything but the waiting label as it
was. -/
theorem processLine_stopped :
    ∃ pending, (a.processLine text).1 = { a with line := a.line + 1, pending } := by
  obtain ⟨pending, -, -, hstate⟩ := processLine_eq_error h
  exact ⟨_, hstate⟩

/-- A refused line counts as a line and changes nothing else. -/
theorem processLine_refused (hrefusal : e.cause.isRefusal = true) :
    (a.processLine text).1 = { a with line := a.line + 1 } := by
  obtain ⟨pending, -, -, hstate⟩ := processLine_eq_error h
  rwa [if_pos hrefusal] at hstate

/-- A line at which the assembler fails is an assignment, and leaves its label waiting. -/
theorem processLine_failed (hfailure : e.cause.isRefusal = false) :
    ∃ n pending, a.FailsAt (.parse text) n pending ∧ e.cause = .expression (.longNumeral n) ∧
      (a.processLine text).1 = { a with line := a.line + 1, pending } := by
  obtain ⟨pending, htake, -, hstate⟩ := processLine_eq_error h
  obtain ⟨n, waiting, hfails, hcause, hleft⟩ := failsAt_of_take htake hfailure
  rw [if_neg (by simp [hfailure]), show pending = waiting from congrArg Assembler.pending hleft]
    at hstate
  -- neither the labels nor the conditionals look at the line counter
  exact ⟨n, waiting, ⟨hfails.active, hfails.labels, hfails.operand⟩, hcause, hstate⟩

end ProcessLine

/-- A blank line is counted, and nothing else. -/
theorem processLine_blank (a : Assembler) {text : String}
    (h : ∀ c ∈ text.toList, Text.isBlank c = true) :
    a.processLine text = ({ a with line := a.line + 1 }, .ok []) := by
  have hparse : SourceLine.parse text = ⟨[], none⟩ := by
    have hskip : Text.skipBlanks text.toList = [] := by
      have hdrop := Text.dropWhile_append_stops (r := []) h nofun
      rwa [List.append_nil] at hdrop
    rw [SourceLine.parse, hskip, SourceLine.parseFrom]
    rfl
  have hlabels : addLabels [] { a with line := a.line + 1 } =
      .ok () { a with line := a.line + 1 } := by
    cases hactive : active { a with line := a.line + 1 } with
    | true =>
      rw [addLabels, ifActive_of_active hactive]
      rfl
    | false => rw [addLabels, ifActive_of_skipped hactive]
  rw [processLine, hparse, take, bind_of_ok hlabels]
  rfl

/-- Without labels on a line the label that waits stays the one that waited. -/
theorem pendingAfter_nil (a : Assembler) : a.pendingAfter [] = .ok a.pending := by
  unfold pendingAfter
  split <;> rfl

/-- A line that is not taken leaves the labels, the items, the address and the conditionals as they
were and counts as a line. If it is refused, or has no label of its own, the waiting label stays as
well, and whatever is asked of the assembler and its image afterwards, all is as if the line had
been blank. A line that is not refused is an assignment that is processed, with a decimal number of
more digits than can be read; its own label waits then. -/
theorem refused_as_blank (a : Assembler) (text : String) {e : AsmError}
    (h : (a.processLine text).2 = .error e) :
    (∃ pending, (a.processLine text).1 = { a with line := a.line + 1, pending }) ∧
    (e.cause.isRefusal = true ∨ (SourceLine.parse text).labels = [] →
      (a.processLine text).1 = { a with line := a.line + 1 } ∧
        ∀ blank : String, (∀ c ∈ blank.toList, Text.isBlank c = true) →
          (a.processLine blank).2 = .ok [] ∧
          ∀ (image : Image) (calls : List Assembly.Call),
            Assembly.run ⟨(a.processLine text).1, image⟩ calls =
              Assembly.run ⟨(a.processLine blank).1, image⟩ calls) ∧
    (e.cause.isRefusal = false →
      ∃ n pending, a.FailsAt (.parse text) n pending ∧ e.cause = .expression (.longNumeral n) ∧
        (a.processLine text).1 = { a with line := a.line + 1, pending }) := by
  refine ⟨processLine_stopped h, ?_, processLine_failed h⟩
  intro hwhen
  have hstate : (a.processLine text).1 = { a with line := a.line + 1 } := by
    cases hcause : e.cause.isRefusal with
    | true => exact processLine_refused h hcause
    | false =>
      obtain ⟨n, pending, hfails, -, hstate⟩ := processLine_failed h hcause
      have hlabels : (SourceLine.parse text).labels = [] := hwhen.resolve_left (by simp [hcause])
      have hpending := hfails.labels
      rw [hlabels, pendingAfter_nil] at hpending
      cases hpending
      exact hstate
  refine ⟨hstate, fun blank hblank => ?_⟩
  have hsame := processLine_blank a hblank
  refine ⟨by rw [hsame], fun image calls => ?_⟩
  rw [hstate, hsame]

/-- A load without its second operand, behind a label that it gives back. -/
theorem refused_as_blank_missingOperand :
    (processLine {} "loop: LD V0").2 = .error ⟨1, .tooFewOperands "LD"⟩ ∧
      (processLine {} "loop: LD V0").1 = { line := 1 } ∧
      ∀ (image : Image) (calls : List Assembly.Call),
        Assembly.run ⟨(processLine {} "loop: LD V0").1, image⟩ calls =
          Assembly.run ⟨(processLine {} "  ").1, image⟩ calls := by
  have h : (processLine {} "loop: LD V0").2 = .error ⟨1, .tooFewOperands "LD"⟩ := by
    decide +kernel
  have hblank : ∀ c ∈ "  ".toList, Text.isBlank c = true := List.all_eq_true.1 (by decide)
  obtain ⟨-, hrefused, -⟩ := refused_as_blank {} "loop: LD V0" h
  obtain ⟨hstate, hrun⟩ := hrefused (.inl rfl)
  exact ⟨h, hstate, (hrun "  " hblank).2⟩

/-- A decimal literal with too many digits stands for one operand, as any other number does. -/
theorem isOperand_longLiteral : IsOperand (String.ofList Expr.longLiteral.chars) := by
  have hchars : (String.ofList Expr.longLiteral.chars).toList = List.replicate 4301 '1' :=
    String.toList_ofList
  refine ⟨fun c hc => ?_, ⟨'1', List.replicate 4300 '1', hchars, by decide, by decide⟩,
    fun c hc => ?_⟩
  · rw [hchars] at hc
    rw [List.eq_of_mem_replicate hc]
    decide
  · rw [hchars] at hc
    rw [List.eq_of_mem_replicate (List.mem_of_getLast? hc)]
    decide

/-- An assignment of a number with one digit more than can be read leaves its label waiting. -/
theorem label_kept_behind_failure :
    let a : Assembler := {}
    let text := "lab: X = " ++ String.ofList Expr.longLiteral.chars
    a.pending = none ∧
      (a.processLine text).2 = .error ⟨1, .expression (.longNumeral 4301)⟩ ∧
      (a.processLine text).1 = { a with line := 1, pending := some "lab" } := by
  intro a text
  have hparse : SourceLine.parse text = ⟨["lab"], some ⟨"X", true, Expr.longLiteral.chars⟩⟩ := by
    have hchars : Expr.longLiteral.chars = '1' :: List.replicate 4300 '1' := rfl
    rw [SourceLine.parse, String.toList_append, String.toList_ofList, String.toList_ofList, hchars]
    generalize List.replicate 4300 '1' = digits
    have hname : Text.takeName? ('X' :: ' ' :: '=' :: ' ' :: '1' :: digits) =
      some ("X", ' ' :: '=' :: ' ' :: '1' :: digits) := rfl
    exact (SourceLine.parseFrom_label rfl).trans (SourceLine.parseFrom_statement hname (by simp))
  have hops : Statement.operands ⟨"X", true, Expr.longLiteral.chars⟩ =
      .ok [String.ofList Expr.longLiteral.chars] := by
    have hoperands : ∀ operand ∈ [String.ofList Expr.longLiteral.chars],
        IsOperand operand := by simpa using isOperand_longLiteral
    have htold := Statement.operands_operandChars hoperands (Nat.le_add_left 1 2) "X" true
    rwa [Statement.operandChars, Statement.tailChars, List.append_nil, String.toList_ofList]
      at htold
  have hlabels : addLabels ["lab"] { a with line := 1 } =
      .ok () { a with line := 1, pending := some "lab" } := addLabels_of_ok rfl
  have hassign : assign "X" [String.ofList Expr.longLiteral.chars]
      { a with line := 1, pending := some "lab" } =
        .error (.expression (.longNumeral 4301)) { a with line := 1, pending := some "lab" } := by
    rw [assign, get_bind]
    refine bind_of_error ?_
    rw [evaluate, Expr.eval_longLiteral]
    rfl
  have htake : take (.parse text) { a with line := 1 } =
      .error (.expression (.longNumeral 4301)) { a with line := 1, pending := some "lab" } := by
    rw [hparse, take, bind_of_ok hlabels]
    dsimp only
    rw [bind_of_ok (ofExcept_eq_ok_iff.2 ⟨hops, rfl⟩), perform_of_assigns rfl,
      ifActive_of_active rfl, bind_of_error hassign]
  have hline : a.processLine text = ({ a with line := 1, pending := some "lab" },
      .error ⟨1, .expression (.longNumeral 4301)⟩) := by
    rw [processLine, show a.line + 1 = 1 from rfl, htake]
    rfl
  rw [hline]
  exact ⟨rfl, rfl, rfl⟩

end SuperChip.Assembler
