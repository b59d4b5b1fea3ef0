import Mathlib.Data.List.TakeWhile
import SuperChip.Proofs.Asm.LabelPart
import SuperChip.Proofs.Asm.Source

/-!
# Skipped lines

While a conditional skips, a line that is no directive does nothing: its labels are not bound, and
its statement is not looked at. But the operands of a line are told apart before anyone asks whether
it is skipped, and a line whose operands cannot be told apart is refused, skipped or not
(`skipped_line_inert`). These are the lines with a comma where one of the operands is empty or where
there are too many of them (`operands_refused_iff`).
-/

set_option autoImplicit false

namespace SuperChip

open Text SuperChip.Expr EState

/-! ## Operands that cannot be told apart -/

namespace Statement

/-- The texts between the commas of a text, up to a comment. -/
def fields (cs : List Char) : List (List Char) := (cs.takeWhile (· != ';')).splitOn ','

/-- The fields behind the comma at the front of a text. -/
def fieldsBehind : List Char → List (List Char)
  | ',' :: rest => fields rest
  | _ => []

/-- The operand text holds a comma, and an operand is empty or there are too many. -/
def Malformed (s : Statement) : Prop :=
  2 ≤ (fields s.operandText).length ∧ (maxOperands < (fields s.operandText).length ∨
    ∃ f ∈ fields s.operandText, ∀ c ∈ f, isBlank c = true)

variable {cs : List Char} {found : List String}

/-- The characters of operands are neither commas nor comments. -/
theorem ne_of_isOperandChar {c : Char} (h : isOperandChar c = true) : c ≠ ',' ∧ c ≠ ';' := by
  simp only [isOperandChar, Bool.and_eq_true, bne_iff_ne] at h
  exact h.1

/-- In one line, an operand ends with the line, at a comma or at a comment. -/
theorem dropWhile_isOperandChar_cases (h : '\n' ∉ cs) :
    cs.dropWhile isOperandChar = [] ∨ (∃ rest, cs.dropWhile isOperandChar = ',' :: rest) ∨
      ∃ rest, cs.dropWhile isOperandChar = ';' :: rest := by
  cases hrest : cs.dropWhile isOperandChar with
  | nil => exact .inl rfl
  | cons c rest =>
    have hstop : isOperandChar c = false := by
      have hnot := List.head_dropWhile_not isOperandChar (l := cs) (by simp [hrest])
      simpa only [hrest, List.head_cons] using hnot
    have hc : c ≠ '\n' := by
      rintro rfl
      exact h ((List.dropWhile_sublist _).subset (hrest ▸ List.mem_cons_self))
    simp only [isOperandChar, Bool.and_eq_false_iff, bne_eq_false_iff_eq] at hstop
    obtain (rfl | rfl) | rfl := hstop
    · exact .inr (.inl ⟨rest, rfl⟩)
    · exact .inr (.inr ⟨rest, rfl⟩)
    · exact absurd rfl hc

/-- In one line, the first field of a text is the text of its first operand. -/
theorem fields_eq (h : '\n' ∉ cs) :
    fields cs = cs.takeWhile isOperandChar :: fieldsBehind (cs.dropWhile isOperandChar) := by
  have hchars : ∀ c ∈ cs.takeWhile isOperandChar, c ≠ ',' ∧ c ≠ ';' :=
    fun c hc => ne_of_isOperandChar (List.all_eq_true.1 List.all_takeWhile c hc)
  have hcomma : ',' ∉ cs.takeWhile isOperandChar := fun hmem => (hchars _ hmem).1 rfl
  have hcode : ∀ c ∈ cs.takeWhile isOperandChar, (c != ';') = true :=
    fun c hc => bne_iff_ne.2 (hchars c hc).2
  unfold fields
  conv_lhs => rw [← List.takeWhile_append_dropWhile (p := isOperandChar) (l := cs)]
  rw [List.takeWhile_append_of_pos hcode]
  obtain hrest | ⟨rest, hrest⟩ | ⟨rest, hrest⟩ := dropWhile_isOperandChar_cases h
  · rw [hrest, List.takeWhile_nil, List.append_nil, List.splitOn_eq_singleton hcomma]
    rfl
  · rw [hrest, List.takeWhile_cons_of_pos (by decide),
      List.splitOn_append_cons_self_of_not_mem hcomma]
    rfl
  · rw [hrest, List.takeWhile_cons_of_neg (by decide), List.append_nil,
      List.splitOn_eq_singleton hcomma]
    rfl

/-- Behind a comma there is a field, and the fields behind that. -/
theorem fieldsBehind_comma {rest : List Char} (h : '\n' ∉ rest) :
    fieldsBehind (',' :: rest) =
      rest.takeWhile isOperandChar :: fieldsBehind (rest.dropWhile isOperandChar) :=
  fields_eq h

/-- Without a comma there are no more fields. -/
theorem fieldsBehind_eq_nil (h : ∀ rest, cs ≠ ',' :: rest) : fieldsBehind cs = [] := by
  unfold fieldsBehind
  split
  · exact absurd rfl (h _)
  · rfl

/-- An operand is empty exactly if its field is blank. -/
theorem isEmpty_takeOperand_iff :
    (takeOperand cs).1.isEmpty = true ↔ ∀ c ∈ cs.takeWhile isOperandChar, isBlank c = true := by
  rw [takeOperand, String.isEmpty_iff, String.ofList_eq_empty_iff, trimEnd, List.reverse_eq_nil_iff,
    List.dropWhile_eq_nil_iff]
  simp only [List.mem_reverse]

/-- In one line, an operand may start with any blank. -/
theorem isOperandChar_of_isBlank {c : Char} (hblank : isBlank c = true) (hc : c ≠ '\n') :
    isOperandChar c = true := by
  have hcomma : c ≠ ',' := by rintro rfl; exact absurd hblank (by decide)
  have hcode : c ≠ ';' := by rintro rfl; exact absurd hblank (by decide)
  simp only [isOperandChar, Bool.and_eq_true, bne_iff_ne]
  exact ⟨⟨hcomma, hcode⟩, hc⟩

/-- In one line, the blanks in front of an operand belong to its field. -/
theorem takeOperand_skipBlanks (h : '\n' ∉ cs) :
    ((takeOperand (skipBlanks cs)).1.isEmpty = true ↔
        ∀ c ∈ cs.takeWhile isOperandChar, isBlank c = true) ∧
      (takeOperand (skipBlanks cs)).2 = cs.dropWhile isOperandChar := by
  have hblanks : ∀ c ∈ cs.takeWhile isBlank, isBlank c = true :=
    List.all_eq_true.1 List.all_takeWhile
  have hchars : ∀ c ∈ cs.takeWhile isBlank, isOperandChar c = true := by
    intro c hc
    refine isOperandChar_of_isBlank (hblanks c hc) ?_
    rintro rfl
    exact h ((List.takeWhile_sublist _).subset hc)
  have hsplit : cs = cs.takeWhile isBlank ++ skipBlanks cs :=
    List.takeWhile_append_dropWhile.symm
  constructor
  · rw [isEmpty_takeOperand_iff]
    conv_rhs => rw [hsplit, List.takeWhile_append_of_pos hchars]
    rw [List.forall_mem_append]
    exact (and_iff_right hblanks).symm
  · conv_rhs => rw [hsplit, List.dropWhile_append_of_pos hchars]
    rfl

/-- Operands behind others are refused if one of them is empty or if there is no room for all. -/
theorem moreOperands_refused_iff (h : '\n' ∉ cs) (hfound : found.length ≤ maxOperands) :
    (∃ cause, moreOperands found cs = .error cause) ↔
      maxOperands < found.length + (fieldsBehind cs).length ∨
        ∃ f ∈ fieldsBehind cs, ∀ c ∈ f, isBlank c = true := by
  fun_induction moreOperands found cs with
  | case1 found rest hlt next hempty =>
    have hrest : '\n' ∉ rest := fun hmem => h (.tail _ hmem)
    have hblank := (takeOperand_skipBlanks hrest).1.1 hempty
    rw [fieldsBehind_comma hrest]
    simp only [List.mem_cons]
    exact iff_of_true ⟨_, rfl⟩ (.inr ⟨_, .inl rfl, hblank⟩)
  | case2 found rest hlt next hempty hmany =>
    have hrest : '\n' ∉ rest := fun hmem => h (.tail _ hmem)
    rw [fieldsBehind_comma hrest, List.length_cons]
    exact iff_of_true ⟨_, rfl⟩ (.inl (by omega))
  | case3 found rest hlt next hempty hmany ih =>
    have hrest : '\n' ∉ rest := fun hmem => h (.tail _ hmem)
    obtain ⟨hblank, hnext⟩ := takeOperand_skipBlanks hrest
    have hnext' : '\n' ∉ next.2 := by
      intro hmem
      exact hrest ((List.dropWhile_sublist _).subset (hnext ▸ hmem))
    have hlen : (found ++ [next.1]).length = found.length + 1 := by
      rw [List.length_append, List.length_singleton]
    rw [ih hnext' (by omega), fieldsBehind_comma hrest, hlen, hnext, List.length_cons,
      Nat.add_right_comm, Nat.add_assoc]
    simp only [List.mem_cons, exists_eq_or_imp, or_iff_right fun hall => hempty (hblank.2 hall)]
  | case4 found cs hcs =>
    rw [fieldsBehind_eq_nil hcs, List.length_nil]
    constructor
    · rintro ⟨cause, hcause⟩
      cases hcause
    · rintro (hmany | ⟨f, hf, -⟩)
      · omega
      · cases hf

/-- In one line, the operands of a statement cannot be told apart just if it is malformed. -/
theorem operands_refused_iff {s : Statement} (h : '\n' ∉ s.operandText) :
    (∃ cause, s.operands = .error cause) ↔ s.Malformed := by
  have hdrop : '\n' ∉ s.operandText.dropWhile isOperandChar :=
    fun hmem => h ((List.dropWhile_sublist _).subset hmem)
  rw [Malformed, fields_eq h, operands, List.length_cons]
  by_cases hfirst : (takeOperand s.operandText).1.isEmpty = true
  · have hblank := isEmpty_takeOperand_iff.1 hfirst
    simp only [hfirst, if_true]
    split
    · next rest hrest =>
      -- behind the comma there is a second field
      have hcomma : s.operandText.dropWhile isOperandChar = ',' :: rest := hrest
      rw [hcomma] at hdrop ⊢
      rw [fieldsBehind_comma fun hmem => hdrop (.tail _ hmem), List.length_cons]
      exact iff_of_true ⟨_, rfl⟩ ⟨by omega, .inr ⟨_, .head _, hblank⟩⟩
    · next hrest =>
      have hend : ∀ rest, s.operandText.dropWhile isOperandChar ≠ ',' :: rest := hrest
      rw [fieldsBehind_eq_nil hend]
      exact iff_of_false nofun fun hmalformed => absurd hmalformed.1 (by decide)
  · have hfirst' : ¬∀ c ∈ s.operandText.takeWhile isOperandChar, isBlank c = true :=
      fun hall => hfirst (isEmpty_takeOperand_iff.2 hall)
    simp only [hfirst, Bool.false_eq_true, if_false, List.mem_cons, exists_eq_or_imp,
      or_iff_right hfirst']
    have hroom : [(takeOperand s.operandText).1].length ≤ maxOperands := by
      rw [List.length_singleton, maxOperands]
      omega
    refine (moreOperands_refused_iff hdrop hroom).trans ?_
    rw [List.length_singleton, Nat.add_comm]
    refine (and_iff_right_of_imp ?_).symm
    rintro (hmany | ⟨f, hf, -⟩)
    · rw [maxOperands] at hmany
      omega
    · have hpos := List.length_pos_of_mem hf
      omega

/-! ## The text of the operands -/

/-- The operands of a statement are the end of the text behind its name. -/
theorem operandText_ofName_suffix (name : String) (rest : List Char) :
    (ofName name rest).operandText <:+ rest := by
  have hskip : skipBlanks rest <:+ rest := List.dropWhile_suffix _
  unfold ofName
  split
  · next after hafter =>
    have hafter' : after <:+ skipBlanks rest := hafter ▸ List.suffix_cons _ _
    exact ((List.dropWhile_suffix _).trans hafter').trans hskip
  · exact hskip

end Statement

namespace SourceLine

/-- Whether the mnemonic of a line is one of the directives. A name that is assigned to is no
mnemonic. -/
def isDirective (line : SourceLine) : Bool :=
  line.statement.any fun s =>
    !s.assigns && ["IFDEF", "IFNDEF", "ELSE", "ENDIF"].contains (Text.upper s.name)

/-- The operands of the line can be told apart. -/
def Readable (line : SourceLine) : Prop :=
  ∀ s ∈ line.statement, ∃ operands, s.operands = .ok operands

variable {s : Statement}

/-- The operands of a statement are the end of the line. -/
theorem operandText_parseFrom_suffix {found : List String} {cs : List Char}
    (h : (parseFrom found cs).statement = some s) : s.operandText <:+ cs := by
  fun_induction parseFrom found cs with
  | case1 found cs hnone => cases h
  | case2 found cs name rest hname hlt ih =>
    obtain ⟨n, -, rfl⟩ := exists_name_of_takeName? hname
    have hskip : skipBlanks rest <:+ ':' :: rest :=
      (List.dropWhile_suffix _).trans (List.suffix_cons _ _)
    exact ((ih h).trans hskip).trans (List.suffix_append _ _)
  | case3 found cs name rest hne hname =>
    obtain ⟨n, -, rfl⟩ := exists_name_of_takeName? hname
    cases h
    exact (Statement.operandText_ofName_suffix name rest).trans (List.suffix_append _ _)

/-- The operands of a statement stand in its line. -/
theorem operandText_parse_suffix {text : String} (h : (parse text).statement = some s) :
    s.operandText <:+ text.toList :=
  (operandText_parseFrom_suffix h).trans (List.dropWhile_suffix _)

/-- A line can be read exactly if no field of its statement is malformed. -/
theorem readable_parse_iff {text : String} (h : '\n' ∉ text.toList) :
    (parse text).Readable ↔ ∀ s ∈ (parse text).statement, ¬s.Malformed := by
  refine forall₂_congr fun s hs => ?_
  have hline : '\n' ∉ s.operandText := fun hmem => h ((operandText_parse_suffix hs).subset hmem)
  rw [← Statement.operands_refused_iff hline]
  cases s.operands with
  | ok operands => simp
  | error cause => simp

end SourceLine

/-! ## Skipped lines -/

namespace Assembler

variable {a : Assembler} {line : SourceLine} {s : Statement} {labels : List String}

/-- On a skipped line nothing is done but what directives do. -/
theorem perform_of_skipped (hskipped : a.active = false)
    (hdirective : (SourceLine.mk labels (some s)).isDirective = false) (operands : List String) :
    perform s operands a = .ok [] a := by
  cases hassigns : s.assigns with
  | true => rw [perform_of_assigns hassigns, ifActive_of_skipped hskipped]
  | false =>
    have hname : Text.upper s.name ∉ ["IFDEF", "IFNDEF", "ELSE", "ENDIF"] := by
      simpa only [SourceLine.isDirective, Option.any_some, hassigns, Bool.not_false, Bool.true_and,
        List.contains_eq_mem, decide_eq_false_iff_not] using hdirective
    rw [perform_of_not_direct hassigns (direct?_eq_none hname), ifActive_of_skipped hskipped]

/-- On a skipped line the labels are left out, and the operands are told apart. -/
theorem take_of_skipped (hskipped : a.active = false) (line : SourceLine) :
    take line a = (match line.statement with
      | none => return []
      | some s => do
        let operands ← ofExcept s.operands
        perform s operands) a := by
  have hlabels : addLabels line.labels a = .ok () a := ifActive_of_skipped hskipped
  exact bind_of_ok hlabels

/-- A skipped line that can be read is accepted and does nothing. -/
theorem take_of_readable (hskipped : a.active = false) (hdirective : line.isDirective = false)
    (h : line.Readable) : take line a = .ok [] a := by
  obtain ⟨labels, statement⟩ := line
  rw [take_of_skipped hskipped]
  cases statement with
  | none => rfl
  | some s =>
    obtain ⟨operands, hoperands⟩ := h s rfl
    have hof : ofExcept s.operands a = .ok operands a := ofExcept_eq_ok_iff.2 ⟨hoperands, rfl⟩
    exact (bind_of_ok hof).trans (perform_of_skipped hskipped hdirective operands)

/-- A line whose operands cannot be told apart is refused although it is skipped. -/
theorem take_of_not_readable (hskipped : a.active = false) (h : ¬line.Readable) :
    ∃ cause, (cause = .emptyOperand ∨ cause = .operandOverflow) ∧ take line a = .error cause a := by
  simp only [SourceLine.Readable, not_forall] at h
  obtain ⟨s, hs, hnone⟩ := h
  cases hoperands : s.operands with
  | ok operands => exact absurd ⟨operands, hoperands⟩ hnone
  | error cause =>
    refine ⟨cause, Statement.cause_of_operands hoperands, ?_⟩
    have hof : ofExcept s.operands a = .error cause a := ofExcept_eq_error_iff.2 ⟨hoperands, rfl⟩
    rw [take_of_skipped hskipped, Option.mem_def.1 hs]
    exact bind_of_error hof

/-- A skipped line that is no directive changes nothing but the count of lines. It is accepted if
its operands can be told apart, whatever its labels, its mnemonic and its operands are. -/
theorem skipped_line_inert {a : Assembler} {text : String} (hskipped : a.active = false)
    (hdirective : (SourceLine.parse text).isDirective = false) :
    (a.processLine text).1 = { a with line := a.line + 1 } ∧
      ((SourceLine.parse text).Readable → (a.processLine text).2 = .ok []) ∧
      (¬(SourceLine.parse text).Readable →
        ∃ cause, (cause = .emptyOperand ∨ cause = .operandOverflow) ∧
          (a.processLine text).2 = .error ⟨a.line + 1, cause⟩) ∧
      ('\n' ∉ text.toList → ((SourceLine.parse text).Readable ↔
        ∀ s ∈ (SourceLine.parse text).statement, ¬s.Malformed)) := by
  have hskipped' : active { a with line := a.line + 1 } = false := hskipped
  by_cases hreadable : (SourceLine.parse text).Readable
  · have htake := take_of_readable hskipped' hdirective hreadable
    have hline : a.processLine text = ({ a with line := a.line + 1 }, .ok []) := by
      rw [processLine, htake]
    rw [hline]
    exact ⟨rfl, fun _ => rfl, fun h => absurd hreadable h, SourceLine.readable_parse_iff⟩
  · obtain ⟨cause, hcause, htake⟩ := take_of_not_readable hskipped' hreadable
    have hline : a.processLine text =
        ({ a with line := a.line + 1 }, .error ⟨a.line + 1, cause⟩) := by
      rw [processLine, htake]
      obtain rfl | rfl := hcause <;> rfl
    rw [hline]
    exact ⟨rfl, fun h => absurd h hreadable, fun _ => ⟨cause, hcause, rfl⟩,
      SourceLine.readable_parse_iff⟩

/-- A label, an unknown mnemonic and operands that are no expressions. -/
theorem skipped_line_inert_garbage :
    let a := (processLine {} "IFDEF debug").1
    let text := "ghost: FROBNICATE )(, #ZZ ; ,,,"
    a.active = false ∧ (SourceLine.parse text).isDirective = false ∧
      a.processLine text = ({ a with line := a.line + 1 }, .ok []) := by
  intro a text
  have hskipped : a.active = false := by decide +kernel
  have hdirective : (SourceLine.parse text).isDirective = false := by decide +kernel
  have hstatement : (SourceLine.parse text).statement =
      some ⟨"FROBNICATE", false, ")(, #ZZ ; ,,,".toList⟩ := by decide +kernel
  have hreadable : (SourceLine.parse text).Readable := by
    intro s hs
    rw [hstatement] at hs
    cases hs
    exact ⟨[")(", "#ZZ"], by decide +kernel⟩
  obtain ⟨hstate, haccepted, -⟩ := skipped_line_inert hskipped hdirective
  exact ⟨hskipped, hdirective, Prod.ext hstate (haccepted hreadable)⟩

/-- A skipped line with nothing between two commas is refused. -/
theorem skipped_line_refused :
    ¬ ∀ (a : Assembler) (text : String), a.active = false →
      (SourceLine.parse text).isDirective = false →
        (a.processLine text).1 = { a with line := a.line + 1 } ∧
          ∃ notices, (a.processLine text).2 = .ok notices := by
  intro hall
  let a := (processLine {} "IFDEF X").1
  have hskipped : a.active = false := by decide +kernel
  have hdirective : (SourceLine.parse "LD V0, , 1").isDirective = false := by decide +kernel
  obtain ⟨-, notices, haccepted⟩ := hall a "LD V0, , 1" hskipped hdirective
  have hrefused : (a.processLine "LD V0, , 1").2 = .error ⟨2, .emptyOperand⟩ := by decide +kernel
  rw [hrefused] at haccepted
  cases haccepted

end Assembler

end SuperChip
