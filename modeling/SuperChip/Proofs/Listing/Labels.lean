import SuperChip.Proofs.Listing.Reassembly

/-!
# The labels of a listing

A listing shows an address by the label of its offset, and a label stands in front of the line at
its offset. Labels are given to every offset of the program that an instruction refers to, but lines
stand at even offsets only. So the label that an operand names stands in front of exactly one line,
at the offset of the address, if that offset is even, and in front of no line if it is odd
(`definitions_of_operand`).
-/

set_option autoImplicit false

namespace SuperChip

open ProgramText SuperChip.Expr

/-- The operands of the statement of a line; none if it has none or they cannot be told apart. -/
def SourceLine.operands (line : SourceLine) : List String :=
  match line.statement with
  | none => []
  | some s => s.operands.toOption.getD []

namespace Listing

/-- The lines that a label stands in front of. -/
def definitions (l : Listing) (name : String) : List (Nat × String) :=
  l.lines.filter fun line => (SourceLine.parse line.2).labels.contains name

/-- The operands of the line at an offset. -/
def operandsAt (l : Listing) (o : Nat) : List String :=
  let i := l.program.instructionAt o
  if l.inData o then ["#" ++ Text.hex 4 (l.program.wordAt o)]
  else if i.op = .invalid then ["(DW #" ++ Text.hex 4 i.word ++ ")"]
  else i.operands (l.labelOf? i) l.program.shiftsVy

/-! ## Lines read back -/

section Lines

variable (l : Listing) (o : Nat)

/-- The operands of a line of a listing are operands of the assembler. -/
theorem isOperand_operandsAt : ∀ s ∈ l.operandsAt o, IsOperand s := by
  have hfits : (l.program.instructionAt o).Fits := Instruction.fits_decode _ _
  have hshown := isOperand_shownWord 4 (l.program.instructionAt o).word.toNat
  rw [Int.toNat_of_nonneg hfits.word_nonneg] at hshown
  unfold operandsAt
  dsimp only
  split
  · exact List.forall_mem_singleton.2 (isWord_hex 4 (l.program.wordAt o)).isOperand
  · split
    · exact List.forall_mem_singleton.2 hshown
    · exact fun s hs => (hfits.isWord_operands (l.isWord_labelOf? _) _ s hs).isOperand

/-- A line of a listing has no more operands than a statement may have. -/
theorem length_operandsAt_le : (l.operandsAt o).length ≤ maxOperands := by
  have hone : 1 ≤ maxOperands := by decide
  unfold operandsAt
  dsimp only
  split
  · exact hone
  · split
    · exact hone
    · exact Instruction.length_operands_le _ _ _

/-- A word is shown as a statement of its operands. -/
theorem exists_wordText_eq : ∃ m : Name,
    l.wordText o (l.program.wordAt o) = Statement.written m.text (l.operandsAt o) := by
  unfold operandsAt
  dsimp only
  split
  · next hdata =>
    exact ⟨⟨'D', ['W'], by decide, List.all_eq_true.1 (by decide)⟩, wordText_of_data hdata⟩
  · next hcode =>
    obtain ⟨m, hm⟩ := (l.program.instructionAt o).op.exists_name
    refine ⟨m, (wordText_of_code (Bool.eq_false_of_not_eq_true hcode)).trans ?_⟩
    rw [hm]
    split
    · next hop => rw [Instruction.text_eq_written_invalid hop, hop]; rfl
    · next hop => exact Instruction.text_eq_written hop _ _

/-- The line of a word is read as its label, if it has one, and its operands. -/
theorem parse_wordLine : ∃ m : Name, SourceLine.parse (l.wordLine o).text =
    ⟨(l.labelAt? o).toList, some ⟨m.text, false, Statement.operandChars (l.operandsAt o)⟩⟩ := by
  obtain ⟨m, hm⟩ := l.exists_wordText_eq o
  refine ⟨m, ?_⟩
  rw [wordLine, hm]
  exact SourceLine.parse_column_append (l.column_labelAt? o) m (l.isOperand_operandsAt o)

/-- The assembler finds the label of a line of a listing. -/
theorem labels_wordLine :
    (SourceLine.parse (l.wordLine o).text).labels = (l.labelAt? o).toList := by
  obtain ⟨m, hm⟩ := l.parse_wordLine o
  rw [hm]

/-- The assembler finds the operands of a line of a listing. -/
theorem operands_wordLine :
    (SourceLine.parse (l.wordLine o).text).operands = l.operandsAt o := by
  obtain ⟨m, hm⟩ := l.parse_wordLine o
  rw [hm, SourceLine.operands]
  simp only [Statement.operands_operandChars (l.isOperand_operandsAt o) (l.length_operandsAt_le o)]
  rfl

end Lines

/-! ## Labels in front and labels as operands -/

variable {l : Listing} {o n : Nat}

/-- The lines behind the label of an offset: the one at the offset, if the label is needed and there
is a line. -/
theorem definitions_labelName (hlt : n < l.program.length) (hn : n ∈ l.labels) :
    l.definitions (labelName n) = if n % 2 = 0 then [(n, (l.wordLine n).text)] else [] := by
  have hlabel : ∀ k, (l.labelAt? (2 * k)).toList.contains (labelName n) = (n == 2 * k) := by
    intro k
    rw [Bool.eq_iff_iff, List.contains_iff_mem, Option.mem_toList, labelAt?_eq_some_iff, beq_iff_eq]
    constructor
    · rintro ⟨-, hname⟩
      exact (labelName_injective hname).symm
    · rintro rfl
      exact ⟨hn, rfl⟩
  rw [definitions, lines_eq, List.filter_map]
  simp only [Function.comp_def, labels_wordLine, hlabel]
  split
  · next heven =>
    have hpick : (fun k => n == 2 * k) = (· == n / 2) := by
      funext k
      rw [Bool.eq_iff_iff, beq_iff_eq, beq_iff_eq]
      omega
    have hmem : n / 2 ∈ List.range l.program.wordCount := by
      rw [List.mem_range, wordCount]
      omega
    rw [hpick, List.filter_beq, List.count_eq_one_of_mem List.nodup_range hmem,
      List.replicate_one, List.map_singleton, show 2 * (n / 2) = n by omega]
  · next hodd =>
    rw [List.filter_eq_nil_iff.2, List.map_nil]
    intro k _
    rw [beq_iff_eq]
    omega

/-- What does not begin as labels do is none. -/
theorem ne_labelName_of_head {s : String} (h : s.toList.head? ≠ some 'L') (n : Nat) :
    s ≠ labelName n := by
  rintro rfl
  rw [toList_labelName] at h
  exact h rfl

/-- What begins otherwise than labels do still does so with more behind it. -/
theorem head?_append_ne {s : String} {c : Char} (h : s.toList.head? = some c) (hc : c ≠ 'L')
    (t : String) : (s ++ t).toList.head? ≠ some 'L' := by
  rw [String.toList_append, List.head?_append, h, Option.some_or]
  intro heq
  exact hc (Option.some.inj heq)

/-- A label among the operands of an instruction stands for its address. -/
theorem labelOf?_of_mem_operands {i : Instruction} (hi : i.Fits) {shiftsVy : Bool}
    (h : labelName n ∈ i.operands (l.labelOf? i) shiftsVy) : l.labelOf? i = some (labelName n) := by
  have hnibble : (toString i.nibble).toList.head? ≠ some 'L' := by
    intro hhead
    have hdigit := Text.isDigit_of_mem_toString (n := i.nibble.toNat) (c := 'L')
    rw [Int.toNat_of_nonneg hi.nibble_nonneg] at hdigit
    exact absurd (hdigit (List.mem_of_head? hhead)) (by decide)
  have hfixed : ∀ s ∈ ["I", "V0", "DT", "K", "ST", "F", "HF", "B", "[I]", "R"],
      s.toList.head? ≠ some 'L' := by decide
  have hother : ∀ s : String, s.toList.head? ≠ some 'L' →
      s = labelName n → l.labelOf? i = some (labelName n) :=
    fun s hs hname => absurd hname (ne_labelName_of_head hs n)
  refine i.forall_mem_operands (p := fun s => s = labelName n → l.labelOf? i = some (labelName n))
    (l.labelOf? i) shiftsVy (hother _ ?_) (hother _ ?_) ?_ (hother _ ?_) (hother _ hnibble)
    (fun s hs => hother s (hfixed s hs)) _ h rfl
  · exact head?_append_ne (c := 'V') (by decide) (by decide) _
  · exact head?_append_ne (c := 'V') (by decide) (by decide) _
  · intro hname
    cases hlabel : l.labelOf? i with
    | some name => rw [← hname, hlabel, Option.getD_some]
    | none =>
      rw [hlabel, Option.getD_none] at hname
      refine absurd hname (ne_labelName_of_head ?_ n)
      exact head?_append_ne (c := '#') (by decide) (by decide) _
  · exact head?_append_ne (c := '#') (by decide) (by decide) _

/-- A label that an instruction is printed with is that of its target. -/
theorem labelOf?_eq_some {i : Instruction} (h : l.labelOf? i = some (labelName n)) :
    i.usesAddress = true ∧ n ∈ l.labels ∧ i.address - programStart = n := by
  simp only [labelOf?] at h
  split at h
  · next hif =>
    simp only [Bool.and_eq_true, decide_eq_true_eq, List.contains_iff_mem] at hif
    obtain ⟨⟨huses, hnonneg⟩, hmem⟩ := hif
    obtain ⟨k, hk⟩ := Int.eq_ofNat_of_zero_le hnonneg
    rw [hk] at h hmem ⊢
    obtain rfl := labelName_injective (Option.some.inj h)
    exact ⟨huses, hmem, rfl⟩
  · cases h

/-- A label among the operands of a line is that of the offset the instruction refers to. -/
theorem target_of_mem_operandsAt (h : labelName n ∈ l.operandsAt o) :
    n ∈ l.labels ∧ l.program.targetAt o = n := by
  unfold operandsAt at h
  dsimp only at h
  split at h
  · refine absurd (List.mem_singleton.1 h).symm (ne_labelName_of_head ?_ n)
    exact head?_append_ne (c := '#') (by decide) (by decide) _
  · split at h
    · refine absurd (List.mem_singleton.1 h).symm (ne_labelName_of_head ?_ n)
      rw [String.append_assoc]
      exact head?_append_ne (c := '(') (by decide) (by decide) _
    · obtain ⟨-, hmem, htarget⟩ :=
        labelOf?_eq_some (labelOf?_of_mem_operands (Instruction.fits_decode _ _) h)
      exact ⟨hmem, htarget⟩

/-- A label that is an operand of a line stands for the offset that the instruction refers to. If
this offset is even the label stands in front of exactly one line, which is at this offset; if it is
odd the label stands in front of no line. -/
theorem definitions_of_operand {data : Bytes} {shiftsVy : Bool} {notices : List PathNotice}
    (h : ofBytes data shiftsVy = (notices, .ok l)) {text : String} (hline : (o, text) ∈ l.lines)
    (hoperand : labelName n ∈ (SourceLine.parse text).operands) :
    targetAt ⟨data, shiftsVy⟩ o = n ∧
      (n % 2 = 0 → ∃ t, l.definitions (labelName n) = [(n, labelName n ++ ": " ++ t)]) ∧
      (n % 2 = 1 → l.definitions (labelName n) = []) := by
  have hprogram : l.program = ⟨data, shiftsVy⟩ := by
    obtain ⟨s, -, rfl⟩ := exists_survey_of_ofBytes h
    rfl
  obtain ⟨-, -, rfl⟩ := mem_lines_iff.1 hline
  rw [operands_wordLine] at hoperand
  obtain ⟨hn, htarget⟩ := target_of_mem_operandsAt hoperand
  rw [hprogram] at htarget
  have hdefinitions := definitions_labelName ((bounded_of_ofBytes h).label_lt n hn) hn
  have hcolumn : l.column n = labelName n ++ ": " := if_pos (List.contains_iff_mem.2 hn)
  refine ⟨htarget, fun heven => ⟨l.wordText n (l.program.wordAt n), ?_⟩, fun hodd => ?_⟩
  · rw [hdefinitions, if_pos heven, wordLine, hcolumn]
  · rw [hdefinitions, if_neg (by omega)]

/-- A jump over a word of data to a load of the address of a sprite. -/
def jumpOverData : Bytes := #[0x12, 0x04, 0xFF, 0xFF, 0xA2, 0x08, 0x12, 0x06, 0xF0, 0x90]

/-- The label of the sprite is an operand of the load, and stands in front of the sprite. -/
theorem definitions_of_operand_jumpOverData :
    ∃ notices l, ofBytes jumpOverData false = (notices, .ok l) ∧
      (4, "L004: LD I, L008") ∈ l.lines ∧
      labelName (8 : Nat) ∈ (SourceLine.parse "L004: LD I, L008").operands ∧
      targetAt ⟨jumpOverData, false⟩ 4 = (8 : Nat) ∧
      ∃ t, l.definitions (labelName (8 : Nat)) = [(8, labelName (8 : Nat) ++ ": " ++ t)] := by
  have heval : (ofBytes jumpOverData false).2.toOption.map id = some ⟨⟨jumpOverData, false⟩,
      ⟨[⟨0, .resume⟩, ⟨0, .leave⟩, ⟨4, .resume⟩, ⟨6, .resume⟩, ⟨6, .leave⟩]⟩, [4, 6, 8]⟩ := by
    cbv
  obtain ⟨notices, l, hl, hvalue⟩ := exists_of_ofBytes heval
  have hline : (4, "L004: LD I, L008") ∈ l.lines := by
    rw [show l = _ from hvalue]
    decide +kernel
  have hoperand : labelName (8 : Nat) ∈ (SourceLine.parse "L004: LD I, L008").operands := by
    decide +kernel
  obtain ⟨htarget, heven, -⟩ := definitions_of_operand hl hline hoperand
  exact ⟨notices, l, hl, hline, hoperand, htarget, heven rfl⟩

/-- A load of an odd address of the program. -/
def oddIndex : Bytes := #[0xA2, 0x03, 0x00, 0xFD]

/-- The label of an odd offset may be an operand, and then stands in front of no line. -/
theorem definitions_oddIndex :
    ¬ ∀ (data : Bytes) (shiftsVy : Bool) (notices : List PathNotice) (l : Listing),
      ofBytes data shiftsVy = (notices, .ok l) → ∀ (o n : Nat) (text : String),
        (o, text) ∈ l.lines → labelName n ∈ (SourceLine.parse text).operands →
          ∃ line, l.definitions (labelName n) = [line] ∧
            (line.1 : Int) = targetAt ⟨data, shiftsVy⟩ o := by
  intro hall
  have heval : (ofBytes oddIndex false).2.toOption.map id =
      some ⟨⟨oddIndex, false⟩, ⟨[⟨0, .resume⟩, ⟨2, .leave⟩]⟩, [3]⟩ := by cbv
  obtain ⟨notices, l, hl, hvalue⟩ := exists_of_ofBytes heval
  have hline : (0, "      LD I, L003") ∈ l.lines := by
    rw [show l = _ from hvalue]
    decide +kernel
  have hoperand : labelName (3 : Nat) ∈ (SourceLine.parse "      LD I, L003").operands := by
    decide +kernel
  obtain ⟨line, hone, -⟩ := hall _ _ _ l hl 0 3 _ hline hoperand
  have hnone : l.definitions (labelName (3 : Nat)) = [] := by
    rw [show l = _ from hvalue]
    exact definitions_labelName (by decide) (by decide)
  rw [hnone] at hone
  cases hone

end Listing

end SuperChip
