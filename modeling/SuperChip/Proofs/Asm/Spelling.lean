import SuperChip.Proofs.Asm.Refusal
import SuperChip.Proofs.Asm.Skipped

/-!
# What a line spells

Behind its labels and in front of its comment a line has the text of its statement. If that text
starts with a name, the line is refused, or every character of the text belongs to the one statement
that the line is taken for: to its name, to the equals sign of an assignment, to an operand, to a
comma between two operands, or to the blanks around these (`line_spells_statement`). Only an
assignment of a decimal number with more digits than can be read is neither. A text that starts with
anything else is dropped: the line does what its labels do.
-/

set_option autoImplicit false

namespace SuperChip

open Text SuperChip.Expr EState

/-! ## Statements as text -/

namespace Statement

/-- A text between two commas that holds just an operand and blanks around it. -/
def Padded (operand : String) (field : List Char) : Prop :=
  (operand ≠ "" ∧ ∀ c ∈ operand.toList, c ≠ ',' ∧ c ≠ ';') ∧
    ∃ front back, (∀ c ∈ front ++ back, isBlank c = true) ∧
      field = front ++ operand.toList ++ back

/-- The text between a name and its operands: blanks and, where the name is assigned to, an equals
sign. -/
def IsGap (assigns : Bool) (gap : List Char) : Prop :=
  ∃ front back, (∀ c ∈ front ++ back, isBlank c = true) ∧
    gap = front ++ (if assigns then ['='] else []) ++ back

/-- The whole text is one statement with these operands. -/
def Spells (s : Statement) (operands : List String) (cs : List Char) : Prop :=
  ∃ (n : Name) (gap : List Char) (fields : List (List Char)),
    s.name = n.text ∧ IsGap s.assigns gap ∧ List.Forall₂ Padded operands fields ∧
      cs = n.chars ++ gap ++ [','].intercalate fields

variable {s : Statement} {cs : List Char} {found operands : List String}

/-- In one line, blanks in front of an operand go with it. -/
theorem takeWhile_isOperandChar_eq (h : '\n' ∉ cs) :
    cs.takeWhile isOperandChar =
      cs.takeWhile isBlank ++ (skipBlanks cs).takeWhile isOperandChar := by
  have hchars : ∀ c ∈ cs.takeWhile isBlank, isOperandChar c = true := by
    intro c hc
    refine isOperandChar_of_isBlank (List.all_eq_true.1 List.all_takeWhile c hc) ?_
    rintro rfl
    exact h ((List.takeWhile_sublist _).subset hc)
  conv_lhs => rw [← List.takeWhile_append_dropWhile (p := isBlank) (l := cs)]
  exact List.takeWhile_append_of_pos hchars

/-- A text is what is left of it without its last blanks, and blanks. -/
theorem exists_trimEnd_append (cs : List Char) :
    ∃ back, (∀ c ∈ back, isBlank c = true) ∧ cs = trimEnd cs ++ back := by
  refine ⟨(cs.reverse.takeWhile isBlank).reverse, fun c hc => ?_, ?_⟩
  · exact List.all_eq_true.1 List.all_takeWhile c (List.mem_reverse.1 hc)
  · rw [trimEnd, ← List.reverse_append, List.takeWhile_append_dropWhile, List.reverse_reverse]

/-- What is taken for an operand is its field without the blanks around it. -/
theorem padded_takeOperand (hne : (takeOperand cs).1.isEmpty ≠ true) (front : List Char)
    (hfront : ∀ c ∈ front, isBlank c = true) :
    Padded (takeOperand cs).1 (front ++ cs.takeWhile isOperandChar) := by
  obtain ⟨back, hback, hfield⟩ := exists_trimEnd_append (cs.takeWhile isOperandChar)
  have htext : (takeOperand cs).1.toList = trimEnd (cs.takeWhile isOperandChar) :=
    String.toList_ofList
  refine ⟨⟨fun hempty => hne (String.isEmpty_iff.2 hempty), fun c hc => ?_⟩,
    front, back, List.forall_mem_append.2 ⟨hfront, hback⟩, ?_⟩
  · rw [htext] at hc
    have hmem : c ∈ cs.takeWhile isOperandChar := hfield ▸ List.mem_append_left back hc
    exact ne_of_isOperandChar (List.all_eq_true.1 List.all_takeWhile c hmem)
  · rw [htext, List.append_assoc, ← hfield]

/-- The operands behind the first are the fields behind the commas, without their blanks. -/
theorem padded_of_moreOperands (h : '\n' ∉ cs) (hops : moreOperands found cs = .ok operands) :
    ∃ more, operands = found ++ more ∧ List.Forall₂ Padded more (fieldsBehind cs) := by
  fun_induction moreOperands found cs with
  | case1 => cases hops
  | case2 => cases hops
  | case3 found rest hlt next hempty hmany ih =>
    have hrest : '\n' ∉ rest := fun hmem => h (.tail _ hmem)
    have hnext : next.2 = rest.dropWhile isOperandChar := (takeOperand_skipBlanks hrest).2
    have hline : '\n' ∉ next.2 := fun hmem =>
      hrest ((List.dropWhile_sublist _).subset (hnext ▸ hmem))
    obtain ⟨more, rfl, hmore⟩ := ih hline hops
    refine ⟨next.1 :: more, by simp, ?_⟩
    rw [fieldsBehind_comma hrest, ← hnext, takeWhile_isOperandChar_eq hrest]
    exact .cons (padded_takeOperand hempty _ (List.all_eq_true.1 List.all_takeWhile)) hmore
  | case4 found cs hcs =>
    cases hops
    rw [fieldsBehind_eq_nil hcs]
    exact ⟨[], (List.append_nil _).symm, .nil⟩

/-- Operands that are told apart make up the operand text up to the comment. -/
theorem exists_fields_of_operands (h : '\n' ∉ s.operandText)
    (hstart : Stops isBlank s.operandText) (hops : s.operands = .ok operands) :
    ∃ fields, List.Forall₂ Padded operands fields ∧
      s.operandText.takeWhile (· != ';') = [','].intercalate fields := by
  have hdrop : '\n' ∉ s.operandText.dropWhile isOperandChar :=
    fun hmem => h ((List.dropWhile_sublist _).subset hmem)
  have hsplit : [','].intercalate (fields s.operandText) =
      s.operandText.takeWhile (· != ';') := List.intercalate_splitOn ','
  rw [← hsplit, fields_eq h]
  unfold Statement.operands at hops
  dsimp only at hops
  split at hops
  · next hempty =>
    -- the text neither starts with an operand nor with a blank, so it is empty up to the comment
    have hblank := isEmpty_takeOperand_iff.1 hempty
    have hnone : s.operandText.takeWhile isOperandChar = [] := by
      cases htake : s.operandText.takeWhile isOperandChar with
      | nil => rfl
      | cons c rest =>
        have hhead : s.operandText.head? = some c := by
          have hprefix := List.takeWhile_prefix (p := isOperandChar) (l := s.operandText)
          rw [htake] at hprefix
          obtain ⟨tail, htail⟩ := hprefix
          rw [← htail]
          rfl
        rw [htake] at hblank
        exact absurd (hblank c (.head _)) (by simp [hstart c hhead])
    split at hops
    · cases hops
    · next hend =>
      cases hops
      have hbehind : fieldsBehind (s.operandText.dropWhile isOperandChar) = [] :=
        fieldsBehind_eq_nil hend
      refine ⟨[], .nil, ?_⟩
      rw [hnone, hbehind]
      rfl
  · next hfirst =>
    obtain ⟨more, rfl, hmore⟩ := padded_of_moreOperands hdrop hops
    exact ⟨_, .cons (padded_takeOperand hfirst [] (by simp)) hmore, rfl⟩

/-- There is no comment in the gap between a name and its operands. -/
theorem IsGap.ne {assigns : Bool} {gap : List Char} (h : IsGap assigns gap) :
    ∀ c ∈ gap, (c != ';') = true := by
  obtain ⟨front, back, hblank, rfl⟩ := h
  intro c hc
  have hcases : c ∈ front ++ back ∨ c = '=' := by
    cases assigns <;> simp at hc ⊢ <;> tauto
  obtain hmem | rfl := hcases
  · refine bne_iff_ne.2 ?_
    rintro rfl
    exact absurd (hblank ';' hmem) (by decide)
  · decide

/-- Behind the blanks that are left out there is none. -/
theorem stops_skipBlanks (cs : List Char) : Stops isBlank (skipBlanks cs) := by
  intro c hc
  have hnot := List.head?_dropWhile_not isBlank cs
  rw [show cs.dropWhile isBlank = skipBlanks cs from rfl, Option.mem_def.1 hc] at hnot
  simpa using hnot

/-- The statement behind a name has that name. -/
theorem name_ofName (name : String) (rest : List Char) : (ofName name rest).name = name := by
  unfold ofName
  split <;> rfl

/-- Between a name and the text of its operands there is nothing but a gap. -/
theorem exists_gap (name : String) (rest : List Char) :
    ∃ gap, IsGap (ofName name rest).assigns gap ∧
      rest = gap ++ (ofName name rest).operandText ∧
        Stops isBlank (ofName name rest).operandText := by
  have hblanks : ∀ cs : List Char, ∀ c ∈ cs.takeWhile isBlank, isBlank c = true :=
    fun cs => List.all_eq_true.1 List.all_takeWhile
  have hsplit : ∀ cs : List Char, cs = cs.takeWhile isBlank ++ skipBlanks cs :=
    fun cs => List.takeWhile_append_dropWhile.symm
  unfold ofName
  split
  · next after hafter =>
    refine ⟨rest.takeWhile isBlank ++ ['='] ++ after.takeWhile isBlank,
      ⟨_, _, List.forall_mem_append.2 ⟨hblanks rest, hblanks after⟩, rfl⟩, ?_,
      stops_skipBlanks after⟩
    calc rest = rest.takeWhile isBlank ++ '=' :: after := hafter ▸ hsplit rest
      _ = rest.takeWhile isBlank ++ '=' :: (after.takeWhile isBlank ++ skipBlanks after) := by
        rw [← hsplit after]
      _ = rest.takeWhile isBlank ++ ['='] ++ after.takeWhile isBlank ++ skipBlanks after := by
        simp
  · exact ⟨rest.takeWhile isBlank, ⟨_, [], by simpa using hblanks rest, by simp⟩, hsplit rest,
      stops_skipBlanks rest⟩

end Statement

/-! ## The text of the statement of a line -/

namespace SourceLine

open Statement

/-- The text of a line behind its labels. -/
def behindLabels (text : String) : List Char := text.toList.drop (labelPart text).toList.length

/-- The text of a line behind its labels, up to the comment. -/
def statementText (text : String) : List Char := (behindLabels text).takeWhile (· != ';')

variable {s : Statement} {text : String} {operands : List String}

/-- The characters of a name are those that names may have. -/
theorem isNameChar_of_mem_chars {n : Name} {c : Char} (hc : c ∈ n.chars) :
    isNameChar c = true := by
  obtain rfl | hmem := List.mem_cons.1 hc
  · exact isNameChar_of_isNameStart n.start
  · exact n.more c hmem

/-- To drop the front with a property and more is to drop more behind it. -/
theorem drop_length_takeWhile_add (p : Char → Bool) (cs : List Char) (k : Nat) :
    cs.drop ((cs.takeWhile p).length + k) = (cs.dropWhile p).drop k := by
  have hsplit : cs.takeWhile p ++ cs.dropWhile p = cs := List.takeWhile_append_dropWhile
  calc cs.drop ((cs.takeWhile p).length + k)
      = (cs.takeWhile p ++ cs.dropWhile p).drop ((cs.takeWhile p).length + k) := by rw [hsplit]
    _ = (cs.dropWhile p).drop k := by rw [← List.drop_drop, List.drop_left]

/-- The statement of a line begins with the name behind its label part. -/
theorem statement_parseFrom (found : List String) (cs : List Char) :
    (parseFrom found cs).statement =
      (takeName? (cs.drop (labelChars cs).length)).map fun (name, rest) => ofName name rest := by
  fun_induction parseFrom found cs with
  | case1 found cs hnone =>
    have hnil : labelChars cs = [] := labelChars_eq_nil (by simp [hnone])
    rw [hnil, List.length_nil, List.drop_zero, hnone]
    rfl
  | case2 found cs name rest hname hlt ih =>
    obtain ⟨n, rfl, hcs⟩ := exists_name_of_takeName? hname
    have hbehind : cs.drop (labelChars cs).length =
        (skipBlanks rest).drop (labelChars (skipBlanks rest)).length := by
      have hlength : (labelChars cs).length = n.chars.length +
          ((rest.takeWhile isBlank).length + (labelChars (skipBlanks rest)).length + 1) := by
        rw [labelChars_label hname, List.length_append, List.length_cons, List.length_append]
      rw [hlength, hcs, ← List.drop_drop, List.drop_left, List.drop_succ_cons,
        drop_length_takeWhile_add]
      rfl
    rw [ih, hbehind]
  | case3 found cs name rest hne hname =>
    have hnil : labelChars cs = [] := by
      refine labelChars_eq_nil fun _ _ heq => ?_
      rw [hname] at heq
      cases heq
      exact hne _ rfl
    rw [hnil, List.length_nil, List.drop_zero, hname]
    rfl

/-- The statement of a line is that of the text behind its labels. -/
theorem statement_parse (text : String) :
    (parse text).statement =
      (takeName? (behindLabels text)).map fun (name, rest) => ofName name rest := by
  have hbehind : behindLabels text =
      (skipBlanks text.toList).drop (labelChars (skipBlanks text.toList)).length := by
    rw [behindLabels, labelPart, String.toList_ofList, List.length_append,
      drop_length_takeWhile_add]
    rfl
  rw [parse, statement_parseFrom, hbehind]

/-- A line that has a statement with operands spells it behind its labels. -/
theorem spells_statementText (h : '\n' ∉ text.toList) (hs : (parse text).statement = some s)
    (hops : s.operands = .ok operands) : s.Spells operands (statementText text) := by
  have hline : '\n' ∉ s.operandText := fun hmem => h ((operandText_parse_suffix hs).subset hmem)
  rw [statement_parse, Option.map_eq_some_iff] at hs
  obtain ⟨⟨name, rest⟩, htake, rfl⟩ := hs
  obtain ⟨n, rfl, hbehind⟩ := exists_name_of_takeName? htake
  obtain ⟨gap, hgap, hrest, hstart⟩ := exists_gap n.text rest
  obtain ⟨fields, hfields, htext⟩ := exists_fields_of_operands hline hstart hops
  have hname : ∀ c ∈ n.chars, (c != ';') = true := by
    intro c hc
    refine bne_iff_ne.2 ?_
    rintro rfl
    exact absurd (isNameChar_of_mem_chars hc) (by decide)
  refine ⟨n, gap, fields, name_ofName _ _, hgap, hfields, ?_⟩
  conv_lhs => rw [statementText, hbehind, hrest, ← List.append_assoc]
  rw [List.takeWhile_append_of_pos (List.forall_mem_append.2 ⟨hname, hgap.ne⟩), htext]

/-- A line has a statement if the text behind its labels starts with a name. -/
theorem statement_parse_eq_none_iff (text : String) :
    (parse text).statement = none ↔ ∀ c ∈ (statementText text).head?, isNameStart c = false := by
  rw [statement_parse, Option.map_eq_none_iff, statementText]
  cases behindLabels text with
  | nil => simp [takeName?]
  | cons c rest =>
    by_cases hcomment : c = ';'
    · subst hcomment
      simp [takeName?, show isNameStart ';' = false from by decide]
    · simp [takeName?, hcomment]

end SourceLine

/-! ## Lines -/

namespace Assembler

open SourceLine

variable {a b : Assembler} {text : String} {s : Statement} {operands : List String}
  {notices : List AsmNotice}

/-- What a statement does where lines are processed: it gives a name a value, moves a conditional,
or is another directive or an instruction. -/
def effect (s : Statement) (operands : List String) : Change (List AsmNotice) :=
  if s.assigns then do
    assign s.name operands
    return []
  else match direct? (Text.upper s.name) operands with
    | some change => do
      change
      return []
    | none => execute s.name (Text.upper s.name) operands

/-- On an active line a statement has its effect. -/
theorem perform_of_active (hactive : a.active = true) (s : Statement) (operands : List String) :
    perform s operands a = effect s operands a := by
  unfold effect
  cases hassigns : s.assigns with
  | true => exact (congrFun (perform_of_assigns hassigns) a).trans (ifActive_of_active hactive)
  | false =>
    cases hdirect : direct? (Text.upper s.name) operands with
    | some change => exact congrFun (perform_of_direct hassigns hdirect) a
    | none =>
      have hperform := congrFun (perform_of_not_direct hassigns hdirect) a
      exact hperform.trans (ifActive_of_active hactive)

/-- An accepted line with a statement does what the statement does, behind the label that waits
then. -/
theorem effect_of_processLine (hactive : a.active = true)
    (hs : (SourceLine.parse text).statement = some s)
    (h : a.processLine text = (b, .ok notices)) :
    ∃ operands pending, s.operands = .ok operands ∧
      a.pendingAfter (SourceLine.parse text).labels = .ok pending ∧
      effect s operands { a with line := a.line + 1, pending } = .ok notices b := by
  rw [processLine_eq_ok_iff, take, bind_eq_ok_iff] at h
  obtain ⟨⟨⟩, waiting, hlabels, h⟩ := h
  obtain ⟨pending, hpending, rfl⟩ := addLabels_eq_ok_iff.1 hlabels
  rw [hs] at h
  obtain ⟨operands, hops, h⟩ := ofExcept_bind_eq_ok_iff.1 h
  have hactive' : active { a with line := a.line + 1, pending } = true := hactive
  exact ⟨operands, pending, hops, hpending, (perform_of_active hactive' s operands).symm.trans h⟩

/-- A line without a statement does what its labels do. -/
theorem processLine_labelPart (a : Assembler) (hs : (SourceLine.parse text).statement = none) :
    a.processLine text = a.processLine (labelPart text) := by
  have hparse : SourceLine.parse (labelPart text) = SourceLine.parse text := by
    rw [parse_labelPart, ← hs]
  rw [processLine, processLine, hparse]

/-- Where lines are processed, a line whose text behind the labels starts with a name is refused, or
the whole text up to the comment spells one statement and the line does what this statement does, or
the line assigns a decimal number of more digits than can be read. If the text starts with anything
else, nothing of it has an effect. -/
theorem line_spells_statement (hactive : a.active = true) (hline : '\n' ∉ text.toList) :
    ((∃ c ∈ (statementText text).head?, isNameStart c = true) →
      (∃ e, (a.processLine text).2 = .error e ∧ e.cause.isRefusal = true) ∨
        (∃ s operands notices pending, s.Spells operands (statementText text) ∧
          a.pendingAfter (SourceLine.parse text).labels = .ok pending ∧
          effect s operands { a with line := a.line + 1, pending } =
            .ok notices (a.processLine text).1 ∧
          (a.processLine text).2 = .ok notices) ∨
        ∃ n pending, a.FailsAt (.parse text) n pending ∧
          (a.processLine text).2 = .error ⟨a.line + 1, .expression (.longNumeral n)⟩) ∧
    ((∀ c ∈ (statementText text).head?, isNameStart c = false) →
      a.processLine text = a.processLine (labelPart text)) := by
  constructor
  · rintro ⟨c, hc, hname⟩
    rcases hresult : a.processLine text with ⟨b, e | notices⟩
    · have hstopped : (a.processLine text).2 = .error e := congrArg Prod.snd hresult
      cases hcause : e.cause.isRefusal with
      | true => exact .inl ⟨e, rfl, hcause⟩
      | false =>
        obtain ⟨n, pending, hfails, hlong, -⟩ := processLine_failed hstopped hcause
        refine .inr (.inr ⟨n, pending, hfails, ?_⟩)
        rw [← hlong, ← line_of_processLine hstopped]
    · cases hs : (SourceLine.parse text).statement with
      | none =>
        rw [statement_parse_eq_none_iff] at hs
        exact absurd hname (by simp [hs c hc])
      | some s =>
        obtain ⟨operands, pending, hops, hpending, heffect⟩ :=
          effect_of_processLine hactive hs hresult
        have hspells := spells_statementText hline hs hops
        exact .inr (.inl ⟨s, operands, notices, pending, hspells, hpending, heffect, rfl⟩)
  · intro hother
    exact processLine_labelPart a ((statement_parse_eq_none_iff text).2 hother)

/-- A label, an instruction with blanks around its operands, and a comment. -/
theorem line_spells_statement_comment :
    let a : Assembler := {}
    let text := "start:  LD V1 , 2+3 ; five"
    a.active = true ∧ '\n' ∉ text.toList ∧ statementText text = "LD V1 , 2+3 ".toList ∧
      ∃ s operands notices pending, s.Spells operands "LD V1 , 2+3 ".toList ∧
        a.pendingAfter (SourceLine.parse text).labels = .ok pending ∧
        effect s operands { a with line := a.line + 1, pending } =
          .ok notices (a.processLine text).1 ∧
        (a.processLine text).2 = .ok notices := by
  intro a text
  have hactive : a.active = true := rfl
  have hline : '\n' ∉ text.toList := by decide +kernel
  have htext : statementText text = "LD V1 , 2+3 ".toList := by decide +kernel
  have haccepted : (a.processLine text).2 = .ok [] := by decide +kernel
  have hspells := (line_spells_statement hactive hline).1
  rw [htext] at hspells
  refine ⟨hactive, hline, htext, ?_⟩
  obtain ⟨e, hrefused, -⟩ | hspelled | ⟨n, pending, -, hfailed⟩ := hspells ⟨'L', rfl, by decide⟩
  · cases haccepted.symm.trans hrefused
  · exact hspelled
  · cases haccepted.symm.trans hfailed

/-- Two bytes without the mnemonic in front of them are dropped. -/
theorem bare_operands_dropped :
    ¬ ∀ (a : Assembler) (text : String), a.active = true → '\n' ∉ text.toList →
      (∃ c ∈ statementText text, isBlank c = false) →
        (∃ e, (a.processLine text).2 = .error e) ∨
          ∃ s operands, Statement.Spells s operands (statementText text) := by
  intro hall
  let a : Assembler := {}
  have hline : '\n' ∉ "#12, #34".toList := by decide +kernel
  have htext : statementText "#12, #34" = "#12, #34".toList := by decide +kernel
  have haccepted : (a.processLine "#12, #34").2 = .ok [] := by decide +kernel
  obtain ⟨e, hrefused⟩ | ⟨s, operands, n, gap, fields, -, -, -, hspells⟩ :=
    hall a "#12, #34" rfl hline ⟨'#', by rw [htext]; decide +kernel, by decide⟩
  · rw [haccepted] at hrefused
    cases hrefused
  · rw [htext] at hspells
    have hfirst : '#' = n.first := (List.cons.inj hspells).1
    exact absurd n.start (by rw [← hfirst]; decide)

end Assembler

end SuperChip
