import SuperChip.Proofs.Asm.LabelPart
import SuperChip.Proofs.Asm.OpenConditionals
import SuperChip.Proofs.Asm.Step
import SuperChip.Proofs.Asm.Unseen

/-!
# Conditional assembly as erasing

Conditionals can be resolved before assembly. `Selection` reads lines with a stack of open
conditionals and leaves of each line what is to be assembled: nothing of a line that is not
selected, the labels of a directive, and every other line as it is. What is left knows no
conditionals, and the assembler makes of it what it makes of the lines themselves
(`processLines_eq_selected`).
-/

set_option autoImplicit false

namespace SuperChip

open Conditional EState

/-- The directive that a mnemonic and its operands stand for. -/
def Conditional.Directive.ofMnemonic? : String → List String → Option Directive
  | "IFDEF", [name] => some (.test name true)
  | "IFNDEF", [name] => some (.test name false)
  | "ELSE", [] => some .turn
  | "ENDIF", [] => some .close
  | _, _ => none

/-- The directive of a statement. An assignment is none, whatever its name is. -/
def Statement.directive? (s : Statement) (operands : List String) : Option Directive :=
  if s.assigns then none else Directive.ofMnemonic? (Text.upper s.name) operands

/-- The directive of a line. -/
def SourceLine.directive? (line : SourceLine) : Option Directive :=
  match line.statement with
  | none => none
  | some s =>
    match s.operands with
    | .error _ => none
    | .ok operands => s.directive? operands

/-- How lines are read with a stack of open conditionals. -/
structure Selection where
  /-- The assembler of what is left of the lines. -/
  assembler : Assembler
  /-- The open conditionals, the innermost first. -/
  frames : List Conditional.Frame := []
  /-- What is left of the lines. -/
  kept : List String := []

namespace Selection

/-- What is left of a line. -/
def keep (s : Selection) (text : String) : String :=
  if selected s.frames then
    match (SourceLine.parse text).directive? with
    | some _ => SourceLine.labelPart text
    | none => text
  else ""

/-- One more line is read. Its directive is over the names that are defined by then. -/
def line (s : Selection) (text : String) : Selection where
  assembler := (s.assembler.processLine (s.keep text)).1
  frames :=
    match (SourceLine.parse text).directive? with
    | some d => d.apply s.assembler.labels s.frames
    | none => s.frames
  kept := s.kept ++ [s.keep text]

/-- All lines are read. -/
def ofLines (shiftsVy : Bool) (lines : List String) : Selection :=
  lines.foldl line { assembler := { shiftsVy } }

end Selection

namespace Assembler

variable {a b : Assembler} {notices : List AsmNotice}

/-! ## Directives -/

/-- A word that moves the conditionals is a directive that moves them so. -/
theorem ofMnemonic?_of_direct {mnemonic : String} {operands : List String} {change : Change Unit}
    (hchange : direct? mnemonic operands = some change) (h : change a = .ok () b) :
    ∃ d, Directive.ofMnemonic? mnemonic operands = some d ∧
      b = { a with conditional := d.move a.labels a.conditional } := by
  unfold direct? at hchange
  split at hchange
  · cases hchange
    obtain ⟨_, hexpect, hmodify⟩ := ofExcept_bind_eq_ok_iff.1 h
    obtain ⟨name, rfl⟩ := List.length_eq_one_iff.1 (Form.expect_eq_ok_iff.1 hexpect)
    cases hmodify
    refine ⟨.test name true, rfl, ?_⟩
    simp [Directive.move]
  · cases hchange
    obtain ⟨_, hexpect, hmodify⟩ := ofExcept_bind_eq_ok_iff.1 h
    obtain ⟨name, rfl⟩ := List.length_eq_one_iff.1 (Form.expect_eq_ok_iff.1 hexpect)
    cases hmodify
    refine ⟨.test name false, rfl, ?_⟩
    simp [Directive.move]
  · cases hchange
    obtain ⟨_, hexpect, hset⟩ := ofExcept_bind_eq_ok_iff.1 h
    obtain rfl := List.length_eq_zero_iff.1 (Form.expect_eq_ok_iff.1 hexpect)
    rw [get_bind] at hset
    split at hset
    · cases hset
    · cases hset
      exact ⟨.turn, rfl, rfl⟩
  · cases hchange
    obtain ⟨_, hexpect, hset⟩ := ofExcept_bind_eq_ok_iff.1 h
    obtain rfl := List.length_eq_zero_iff.1 (Form.expect_eq_ok_iff.1 hexpect)
    rw [get_bind] at hset
    split at hset
    · cases hset
    · cases hset
      exact ⟨.close, rfl, rfl⟩
  · cases hchange

/-- A word that does not move the conditionals is no directive. -/
theorem ofMnemonic?_eq_none {mnemonic : String} {operands : List String}
    (h : direct? mnemonic operands = none) : Directive.ofMnemonic? mnemonic operands = none := by
  unfold direct? at h
  split at h
  · cases h
  · cases h
  · cases h
  · cases h
  · next hifdef hifndef helse hendif =>
    unfold Directive.ofMnemonic?
    split
    · exact absurd rfl hifdef
    · exact absurd rfl hifndef
    · exact absurd rfl helse
    · exact absurd rfl hendif
    · rfl

/-! ## Without conditionals -/

/-- The state with other conditionals. -/
def withConditional (c : Conditional) (a : Assembler) : Assembler := { a with conditional := c }

/-- What an active line does is the same whatever conditionals are open. -/
theorem unseen_withConditional (c : Conditional) : Unseen (withConditional c) where
  shiftsVy _ := rfl
  labels _ := rfl
  address _ := rfl
  line _ := rfl
  pending _ := rfl
  setLabels _ _ := rfl
  recorded _ _ _ _ := rfl

/-- What an accepted line was: a directive, which keeps its labels and moves among the conditionals;
a line that was skipped; or a line that was taken, and does the same without conditionals. -/
inductive Reading (line : SourceLine) (a : Assembler) : List AsmNotice → Assembler → Prop where
  | directive {d : Directive} {pending : Option String} (hline : line.directive? = some d)
      (hpending : a.pendingAfter line.labels = .ok pending) :
      Reading line a [] { a with pending, conditional := d.move a.labels a.conditional }
  | skipped (hline : line.directive? = none) (hactive : a.active = false) : Reading line a [] a
  | taken {notices : List AsmNotice} {b : Assembler} (hline : line.directive? = none)
      (hactive : a.active = true) (hsame : b.conditional = a.conditional)
      (hplain : take line (a.withConditional {}) = .ok notices (b.withConditional {})) :
      Reading line a notices b

/-- A statement that is no directive does something only where lines are processed, and then
whatever the conditionals are. -/
theorem perform_cases {s : Statement} {operands : List String}
    (h : perform s operands a = .ok notices b) :
    (∃ d, s.directive? operands = some d ∧ notices = [] ∧
        b = { a with conditional := d.move a.labels a.conditional }) ∨
      s.directive? operands = none ∧
        ∃ g, perform s operands = ifActive [] g ∧ ∀ c, Commutes (withConditional c) g := by
  cases hassigns : s.assigns with
  | true =>
    refine .inr ⟨by simp [Statement.directive?, hassigns], _, perform_of_assigns hassigns, ?_⟩
    intro c
    exact ((unseen_withConditional c).commutes_assign _ _).bind fun _ => commutes_pure []
  | false =>
    have hdirective :
        s.directive? operands = Directive.ofMnemonic? (Text.upper s.name) operands := by
      rw [Statement.directive?, if_neg (by simp [hassigns])]
    cases hchange : direct? (Text.upper s.name) operands with
    | some change =>
      rw [perform_of_direct hassigns hchange] at h
      obtain ⟨_, c, hdirect, hpure⟩ := bind_eq_ok_iff.1 h
      cases hpure
      obtain ⟨d, hd, rfl⟩ := ofMnemonic?_of_direct hchange hdirect
      exact .inl ⟨d, hdirective.trans hd, rfl, rfl⟩
    | none =>
      refine .inr ⟨hdirective.trans (ofMnemonic?_eq_none hchange), _,
        perform_of_not_direct hassigns hchange, ?_⟩
      intro c
      exact (unseen_withConditional c).commutes_execute _ _ _

/-- What does not look at the conditionals leaves them and does the same whatever they are. -/
theorem withConditional_of_commutes {g : Change (List AsmNotice)}
    (hg : ∀ c, Commutes (withConditional c) g) (h : g a = .ok notices b) :
    b.conditional = a.conditional ∧
      ∀ c, g (a.withConditional c) = .ok notices (b.withConditional c) := by
  have hset : ∀ c, g (a.withConditional c) = .ok notices (b.withConditional c) := by
    intro c
    rw [hg c, h]
    rfl
  refine ⟨?_, hset⟩
  have hsame : g a = .ok notices (b.withConditional a.conditional) := hset a.conditional
  rw [h] at hsame
  injection hsame with _ hb
  rw [hb]
  rfl

/-- Which label waits does not depend on the conditionals. -/
theorem pendingAfter_withConditional (hactive : a.active = true) (labels : List String) :
    (a.withConditional {}).pendingAfter labels = a.pendingAfter labels := by
  rw [pendingAfter, pendingAfter, if_pos hactive]
  rfl

/-- What a line does is what its reading tells. -/
theorem reading_of_take {line : SourceLine} (h : take line a = .ok notices b) :
    Reading line a notices b := by
  rw [take, bind_eq_ok_iff] at h
  obtain ⟨_, c, hlabels, h⟩ := h
  obtain ⟨pending, hpending, rfl⟩ := addLabels_eq_ok_iff.1 hlabels
  -- where lines are skipped the labels are, and what is left to see is the statement
  have hskip : a.active = false → ({ a with pending } : Assembler) = a := by
    intro hactive
    rw [pendingAfter, if_neg (by simp [hactive])] at hpending
    cases hpending
    rfl
  have hplain : a.active = true → ∀ f,
      take line = (do addLabels line.labels; f) →
      take line (a.withConditional {}) = f { a.withConditional {} with pending } := by
    intro hactive f htake
    rw [htake]
    exact bind_of_ok (addLabels_of_ok ((pendingAfter_withConditional hactive _).trans hpending))
  obtain ⟨labels, statement⟩ := line
  cases statement with
  | none =>
    cases h
    cases hactive : a.active with
    | true => exact .taken rfl hactive rfl (hplain hactive _ rfl)
    | false =>
      rw [hskip hactive]
      exact .skipped rfl hactive
  | some s =>
    obtain ⟨operands, hoperands, hperform⟩ := ofExcept_bind_eq_ok_iff.1 h
    have hline : SourceLine.directive? ⟨labels, some s⟩ = s.directive? operands := by
      simp only [SourceLine.directive?, hoperands]
    obtain ⟨d, hd, rfl, rfl⟩ | ⟨hnone, g, hg, hcommutes⟩ := perform_cases hperform
    · exact .directive (hline.trans hd) hpending
    · rw [hg] at hperform
      cases hactive : a.active with
      | true =>
        have hactive' : active { a with pending } = true := hactive
        rw [ifActive_of_active hactive'] at hperform
        obtain ⟨hsame, hset⟩ := withConditional_of_commutes hcommutes hperform
        refine .taken (hline.trans hnone) hactive hsame ?_
        rw [hplain hactive _ rfl]
        change (ofExcept s.operands >>= fun operands => perform s operands) _ = _
        rw [ofExcept_bind_eq_ok_iff]
        refine ⟨operands, hoperands, ?_⟩
        rw [hg]
        exact hset {}
      | false =>
        rw [hskip hactive, ifActive_of_skipped hactive] at hperform
        cases hperform
        exact .skipped (hline.trans hnone) hactive

/-! ## Lines -/

/-- The reading by `s` has come as far as the assembler `a`, and what is left of the lines makes the
same state, where no conditional is open. -/
structure Selects (shiftsVy : Bool) (a : Assembler) (notices : List AsmNotice) (s : Selection) :
    Prop where
  frames : Tracks s.frames a.conditional
  assembler : s.assembler = a.withConditional {}
  kept : processLines { shiftsVy } [] s.kept = (s.assembler, notices, none)

variable {shiftsVy : Bool} {s : Selection} {said : List AsmNotice} {text : String}

/-- A line that is not selected is counted as a blank one. -/
theorem processLine_unselected (hactive : a.active = false) (hs : Selects shiftsVy a said s)
    (text : String) :
    s.assembler.processLine (s.keep text) =
      (withConditional {} { a with line := a.line + 1 }, .ok []) := by
  have hselected : selected s.frames = false := by
    rw [hs.frames.selected_eq]
    exact hactive
  have hkeep : s.keep text = "" := by
    rw [Selection.keep, if_neg (by simp [hselected])]
  rw [hkeep, hs.assembler]
  exact processLine_blank _ nofun

/-- What is left of an accepted line does what the line does. -/
theorem processLine_keep (hs : Selects shiftsVy a said s)
    (h : Reading (.parse text) { a with line := a.line + 1 } notices b) :
    s.assembler.processLine (s.keep text) = (b.withConditional {}, .ok notices) := by
  have hcounted : active { a with line := a.line + 1 } = a.active := rfl
  have hselected : selected s.frames = a.active := hs.frames.selected_eq
  cases h with
  | @directive d pending hline hpending =>
    cases hactive : a.active with
    | true =>
      have hkeep : s.keep text = SourceLine.labelPart text := by
        rw [Selection.keep, if_pos (hselected.trans hactive), hline]
      have hlabels := (pendingAfter_withConditional (hcounted.trans hactive) _).trans hpending
      have htake : take ⟨(SourceLine.parse text).labels, none⟩
          (withConditional {} { a with line := a.line + 1 }) =
          .ok [] (withConditional {} { a with line := a.line + 1, pending }) :=
        bind_of_ok (addLabels_of_ok hlabels)
      rw [hkeep, hs.assembler, processLine_eq_ok_iff, SourceLine.parse_labelPart]
      exact htake
    | false =>
      rw [pendingAfter, if_neg (by simp [hcounted, hactive])] at hpending
      cases hpending
      exact processLine_unselected hactive hs text
  | skipped hline hactive => exact processLine_unselected (hcounted.symm.trans hactive) hs text
  | taken hline hactive hsame hplain =>
    have hkeep : s.keep text = text := by
      rw [Selection.keep, if_pos (hselected.trans hactive), hline]
    rw [hkeep, hs.assembler, processLine_eq_ok_iff]
    exact hplain

/-- The frames follow the conditionals over one line. -/
theorem tracks_line (hs : Selects shiftsVy a said s)
    (h : Reading (.parse text) { a with line := a.line + 1 } notices b) :
    Tracks (s.line text).frames b.conditional := by
  have hlabels : s.assembler.labels = a.labels := by
    rw [hs.assembler]
    rfl
  rw [Selection.line, hlabels]
  cases h with
  | directive hline hpending =>
    rw [hline]
    exact hs.frames.move a.labels _
  | skipped hline hactive =>
    rw [hline]
    exact hs.frames
  | taken hline hactive hsame hplain =>
    rw [hline, hsame]
    exact hs.frames

/-- What was selected goes on to be so over one line. -/
theorem Selects.line (hs : Selects shiftsVy a said s)
    (h : a.processLine text = (b, .ok notices)) :
    Selects shiftsVy b (said ++ notices) (s.line text) := by
  have hreading := reading_of_take (processLine_eq_ok_iff.1 h)
  have hkeep := processLine_keep hs hreading
  have hassembler : (s.line text).assembler = b.withConditional {} := by
    rw [Selection.line, hkeep]
  refine ⟨tracks_line hs hreading, hassembler, ?_⟩
  rw [hassembler, Selection.line, processLines_append_eq_ok_iff]
  refine ⟨s.assembler, said, hs.kept, ?_⟩
  rw [processLines, hkeep]
  rfl

/-- The reading keeps up with the assembler over all lines. -/
theorem Selects.foldl (hs : Selects shiftsVy a said s) {lines : List String}
    (h : a.processLines said lines = (b, notices, none)) :
    Selects shiftsVy b notices (lines.foldl Selection.line s) := by
  induction lines generalizing a said s with
  | nil =>
    cases h
    exact hs
  | cons text rest ih =>
    obtain ⟨c, more, hline, hrest⟩ := processLines_cons_eq_ok_iff.1 h
    exact ih (hs.line hline) hrest

/-- What is selected from lines does what the lines do. -/
theorem selects_ofLines {lines : List String}
    (h : processLines { shiftsVy } [] lines = (a, notices, none)) :
    Selects shiftsVy a notices (.ofLines shiftsVy lines) := by
  have hstart : Selects shiftsVy { shiftsVy } [] { assembler := { shiftsVy } } :=
    ⟨.nil, rfl, rfl⟩
  exact hstart.foldl h

/-- Lines that are accepted are assembled as what is left of them once conditionals are resolved:
after each of them lines are processed if and only if all open conditionals are active, and as many
are open; and in the end the assembler is in the state, and has reported, what it comes to from the
lines that are left, which open no conditional. -/
theorem processLines_eq_selected {lines : List String}
    (h : processLines { shiftsVy } [] lines = (a, notices, none)) :
    (∀ done, done <+: lines → ∃ b said, processLines { shiftsVy } [] done = (b, said, none) ∧
        b.active = selected (Selection.ofLines shiftsVy done).frames ∧
        b.conditional.depth = (Selection.ofLines shiftsVy done).frames.length) ∧
      processLines { shiftsVy } [] (Selection.ofLines shiftsVy lines).kept =
        ({ a with conditional := {} }, notices, none) := by
  constructor
  · rintro done ⟨rest, rfl⟩
    obtain ⟨b, said, hdone, -⟩ := processLines_append_eq_ok_iff.1 h
    have hs := selects_ofLines hdone
    exact ⟨b, said, hdone, hs.frames.selected_eq.symm, hs.frames.length_eq.symm⟩
  · have hs := selects_ofLines h
    rw [hs.kept, hs.assembler]
    rfl

/-- A conditional inside another, with a label on the line that opens it. -/
theorem processLines_eq_selected_nested :
    let lines := ["DEFINE debug", "here: IFDEF debug", "IFNDEF debug", "x: DB 1", "ELSE", "DB here",
      "ENDIF", "ELSE", "IFDEF here", "DB 2", "ENDIF", "ENDIF", "DB 3"]
    let kept := ["DEFINE debug", "here: ", "", "", "", "DB here", "", "", "", "", "", "", "DB 3"]
    (processLines {} [] lines).2 = ([], none) ∧ (Selection.ofLines false lines).kept = kept ∧
      processLines {} [] kept =
        ({ (processLines {} [] lines).1 with conditional := {} }, [], none) := by
  intro lines kept
  have h : (processLines {} [] lines).2 = ([], none) := by decide +kernel
  have hkept : (Selection.ofLines false lines).kept = kept := by decide +kernel
  refine ⟨h, hkept, ?_⟩
  rw [← hkept]
  exact (processLines_eq_selected (Prod.ext rfl h)).2

end Assembler

end SuperChip
