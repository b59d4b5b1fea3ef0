import SuperChip.Proofs.Asm.Form
import SuperChip.Proofs.Asm.Statement
import SuperChip.Proofs.Text.Digits
import SuperChip.Proofs.Text.Lines

/-!
# Printed instructions as statements

An instruction is printed as a statement whose mnemonic is a name and whose operands are words: runs
of letters, digits and a few marks. An invalid instruction is printed as a statement too, of a
mnemonic that the assembler does not know.
-/

set_option autoImplicit false

namespace SuperChip

open Text SuperChip.Expr

/-! ## Words -/

/-- Whether a character may be part of a printed word. -/
def isMarkOrNameChar (c : Char) : Bool := isNameChar c || c == '#' || c == '[' || c == ']'

/-- A printed word: characters for names, numbers and places. -/
structure IsWord (s : String) : Prop where
  nonempty : s.toList ≠ []
  chars : ∀ c ∈ s.toList, isMarkOrNameChar c = true

/-- The characters of marks and names are those of ASCII. -/
theorem toNat_lt_of_isMarkOrNameChar {c : Char} (h : isMarkOrNameChar c = true) :
    c.toNat < 128 := by
  simp only [isMarkOrNameChar, Bool.or_eq_true, beq_iff_eq] at h
  obtain ((h | rfl) | rfl) | rfl := h
  · exact toNat_lt_of_isNameChar h
  · decide
  · decide
  · decide

/-- A word stands for one operand. -/
theorem IsWord.isOperand {s : String} (h : IsWord s) : IsOperand s := by
  have hchar : ∀ c, isMarkOrNameChar c = true →
      (Statement.isOperandChar c && !isBlank c && c != '=') = true := by
    intro c hc
    have himp := of_ascii
      (p := fun c => !isMarkOrNameChar c || (Statement.isOperandChar c && !isBlank c && c != '='))
      (by decide) (toNat_lt_of_isMarkOrNameChar hc)
    simpa [hc] using himp
  simp only [Bool.and_eq_true, Bool.not_eq_true', bne_iff_ne] at hchar
  constructor
  · exact fun c hc => (hchar c (h.chars c hc)).1.1
  · cases hs : s.toList with
    | nil => exact absurd hs h.nonempty
    | cons c rest =>
      have hc := hchar c (h.chars c (by rw [hs]; exact .head _))
      exact ⟨c, rest, rfl, hc.1.2, hc.2⟩
  · exact fun c hc => (hchar c (h.chars c (List.mem_of_getLast? hc))).1.2

/-- A name is a word. -/
theorem isWord_name (n : Name) : IsWord n.text := by
  constructor
  · rw [Name.text, String.toList_ofList]
    exact List.cons_ne_nil _ _
  · intro c hc
    rw [Name.text, String.toList_ofList] at hc
    have hname : isNameChar c = true := by
      obtain _ | hc := hc
      · exact isNameChar_of_isNameStart n.start
      · exact n.more c ‹_›
    rw [isMarkOrNameChar, hname]
    rfl

/-- A marked hexadecimal number is a word. -/
theorem isWord_hex (width n : Nat) : IsWord ("#" ++ hex width n) := by
  have hchars : ("#" ++ hex width n).toList = '#' :: (hex width n).toList := by
    rw [String.toList_append]
    rfl
  constructor
  · rw [hchars]
    nofun
  · intro c hc
    rw [hchars] at hc
    obtain rfl | hc := List.mem_cons.1 hc
    · decide
    · rw [isMarkOrNameChar, isNameChar_of_isHexDigit (isHexDigit_of_mem_hex hc)]
      rfl

/-- A decimal number is a word. -/
theorem isWord_toString (n : Nat) : IsWord (toString (n : Int)) := by
  refine ⟨toList_toString_ne_nil, fun c hc => ?_⟩
  rw [isMarkOrNameChar, isNameChar_of_isDigit (isDigit_of_mem_toString hc)]
  rfl

/-- The name of a register is a word. -/
theorem isWord_register (x : Nat) : IsWord (Instruction.register x) := by
  have hchars : (Instruction.register x).toList = 'V' :: (hex 1 x).toList := by
    rw [Instruction.register, String.toList_append]
    rfl
  constructor
  · rw [hchars]
    nofun
  · intro c hc
    rw [hchars] at hc
    obtain rfl | hc := List.mem_cons.1 hc
    · decide
    · rw [isMarkOrNameChar, isNameChar_of_isHexDigit (isHexDigit_of_mem_hex hc)]
      rfl

/-- The word of an invalid instruction, as it is printed, is an operand. -/
theorem isOperand_shownWord (width n : Nat) : IsOperand ("(DW #" ++ hex width n ++ ")") := by
  have hchars : ("(DW #" ++ hex width n ++ ")").toList =
      "(DW #".toList ++ (hex width n).toList ++ [')'] := by
    rw [String.toList_append, String.toList_append]
    rfl
  have hdigit : ∀ c, isHexDigit c = true → Statement.isOperandChar c = true := by
    intro c hc
    have himp := of_ascii (p := fun c => !isHexDigit c || Statement.isOperandChar c) (by decide)
      (toNat_lt_of_isNameChar (isNameChar_of_isHexDigit hc))
    simpa [hc] using himp
  constructor
  · intro c hc
    rw [hchars] at hc
    obtain hc | hc := List.mem_append.1 hc
    · obtain hc | hc := List.mem_append.1 hc
      · have hall : "(DW #".toList.all Statement.isOperandChar = true := by decide
        exact List.all_eq_true.1 hall c hc
      · exact hdigit c (isHexDigit_of_mem_hex hc)
    · rw [List.mem_singleton.1 hc]
      decide
  · exact ⟨'(', _, hchars, by decide, by decide⟩
  · intro c hc
    rw [hchars, List.getLast?_concat] at hc
    cases hc
    decide

/-! ## Lines -/

/-- The text holds no line break. -/
def Unbroken (s : String) : Prop := ∀ c ∈ s.toList, isLineBreak c = false

/-- A text without line breaks is unbroken. -/
theorem unbroken_of_any {s : String} (h : s.toList.any isLineBreak = false) : Unbroken s :=
  fun c hc => Bool.eq_false_of_not_eq_true (List.any_eq_false.1 h c hc)

/-- Unbroken texts joined are unbroken. -/
theorem Unbroken.append {s t : String} (hs : Unbroken s) (ht : Unbroken t) : Unbroken (s ++ t) := by
  intro c hc
  rw [String.toList_append] at hc
  exact (List.mem_append.1 hc).elim (hs c) (ht c)

/-- A word is unbroken. -/
theorem IsWord.unbroken {s : String} (h : IsWord s) : Unbroken s := by
  intro c hc
  have hmark := h.chars c hc
  have himp := of_ascii (p := fun c => !isMarkOrNameChar c || !isLineBreak c) (by decide)
    (toNat_lt_of_isMarkOrNameChar hmark)
  simpa [hmark] using himp

/-- A hexadecimal number is unbroken. -/
theorem unbroken_hex (width n : Nat) : Unbroken (hex width n) := by
  intro c hc
  refine (isWord_hex width n).unbroken c ?_
  rw [String.toList_append]
  exact List.mem_append_right _ hc

/-- A statement of unbroken parts is unbroken. -/
theorem unbroken_written {mnemonic : String} {operands : List String} (hm : Unbroken mnemonic)
    (hops : ∀ s ∈ operands, Unbroken s) : Unbroken (Statement.written mnemonic operands) := by
  have htail : ∀ rest : List String, (∀ s ∈ rest, Unbroken s) →
      ∀ c ∈ Statement.tailChars rest, isLineBreak c = false := by
    intro rest hrest
    induction rest with
    | nil => nofun
    | cons s rest ih =>
      simp only [Statement.tailChars, List.forall_mem_cons, List.forall_mem_append]
      exact ⟨by decide, by decide, hrest s (.head _), ih fun s h => hrest s (.tail _ h)⟩
  unfold Unbroken
  rw [Statement.toList_written]
  cases operands with
  | nil => rwa [List.append_nil]
  | cons s rest =>
    simp only [Statement.operandChars, List.forall_mem_append, List.forall_mem_cons]
    exact ⟨hm, by decide, hops s (.head _), htail rest fun s h => hops s (.tail _ h)⟩

/-! ## Mnemonics -/

/-- Every mnemonic is a name. -/
theorem Op.exists_name (op : Op) : ∃ m : Name, m.text = op.mnemonic := by
  have ofString : ∀ s : String, (∃ c rest, s.toList = c :: rest ∧ isNameStart c = true ∧
      ∀ d ∈ rest, isNameChar d = true) → ∃ m : Name, m.text = s := by
    rintro s ⟨c, rest, hs, hc, hrest⟩
    exact ⟨⟨c, rest, hc, hrest⟩, by rw [Name.text, Name.chars, ← hs, String.ofList_toList]⟩
  apply ofString
  cases op <;> exact ⟨_, _, rfl, by decide, List.all_eq_true.1 (by decide)⟩

/-- Mnemonics are in capitals. -/
theorem Op.upper_mnemonic (op : Op) : upper op.mnemonic = op.mnemonic := by
  cases op <;> decide

/-- No mnemonic is a directive. -/
theorem Op.mnemonic_not_mem (op : Op) :
    op.mnemonic ∉ ["IFDEF", "IFNDEF", "ELSE", "ENDIF", "DEFINE", "DB", "DW", "OPTION"] := by
  cases op <;> decide

/-! ## Instructions -/

namespace Instruction

/-- What holds for the texts of all fields and for all fixed operands holds for all operands. -/
theorem forall_mem_operands {p : String → Prop} (i : Instruction) (label : Option String)
    (shiftsVy : Bool) (hx : p (register i.vx)) (hy : p (register i.vy))
    (htarget : p (label.getD ("#" ++ hex 3 i.address))) (hbyte : p ("#" ++ hex 2 i.byte))
    (hnibble : p (toString i.nibble))
    (hfixed : ∀ s ∈ ["I", "V0", "DT", "K", "ST", "F", "HF", "B", "[I]", "R"], p s) :
    ∀ s ∈ i.operands label shiftsVy, p s := by
  simp only [List.forall_mem_cons] at hfixed
  obtain ⟨hI, hV0, hDT, hK, hST, hF, hHF, hB, hPlace, hR, -⟩ := hfixed
  fun_cases operands i label shiftsVy
  all_goals
    simp only [List.forall_mem_cons, List.not_mem_nil, false_imp_iff, implies_true, and_true]
    repeat' apply And.intro
    all_goals assumption

/-- An instruction is printed with no more operands than a statement may have. -/
theorem length_operands_le (i : Instruction) (label : Option String) (shiftsVy : Bool) :
    (i.operands label shiftsVy).length ≤ maxOperands := by
  fun_cases operands i label shiftsVy <;> simp [maxOperands]

/-- The operands of an instruction whose fields fit are words, if the label is one. -/
theorem Fits.isWord_operands {i : Instruction} (hi : i.Fits) {label : Option String}
    (hlabel : ∀ s ∈ label, IsWord s) (shiftsVy : Bool) :
    ∀ s ∈ i.operands label shiftsVy, IsWord s := by
  have hx := isWord_register i.vx.toNat
  have hy := isWord_register i.vy.toNat
  have hbyte := isWord_hex 2 i.byte.toNat
  have hnibble := isWord_toString i.nibble.toNat
  rw [Int.toNat_of_nonneg hi.vx_nonneg] at hx
  rw [Int.toNat_of_nonneg hi.vy_nonneg] at hy
  rw [Int.toNat_of_nonneg hi.byte_nonneg] at hbyte
  rw [Int.toNat_of_nonneg hi.nibble_nonneg] at hnibble
  have htarget : IsWord (label.getD ("#" ++ hex 3 i.address)) := by
    cases label with
    | none =>
      have h := isWord_hex 3 i.address.toNat
      rwa [Int.toNat_of_nonneg hi.address_nonneg] at h
    | some s => exact hlabel s rfl
  have hfixed : ∀ s ∈ ["I", "V0", "DT", "K", "ST", "F", "HF", "B", "[I]", "R"], IsWord s := by
    intro s hs
    have hall : ∀ s ∈ ["I", "V0", "DT", "K", "ST", "F", "HF", "B", "[I]", "R"],
        s.toList ≠ [] ∧ s.toList.all isMarkOrNameChar = true := by decide
    exact ⟨(hall s hs).1, List.all_eq_true.1 (hall s hs).2⟩
  exact i.forall_mem_operands label shiftsVy hx hy htarget hbyte hnibble hfixed

/-- An instruction is printed as a statement of its mnemonic and its operands. -/
theorem text_eq_written {i : Instruction} (hop : i.op ≠ .invalid) (label : Option String)
    (shiftsVy : Bool) :
    i.text label shiftsVy = Statement.written i.op.mnemonic (i.operands label shiftsVy) := by
  unfold text
  split
  · next h => exact absurd h hop
  · cases i.operands label shiftsVy <;> rfl

/-- A printed instruction holds no line break. -/
theorem Fits.unbroken_text {i : Instruction} (hi : i.Fits) (hop : i.op ≠ .invalid)
    {label : Option String} (hlabel : ∀ s ∈ label, IsWord s) (shiftsVy : Bool) :
    Unbroken (i.text label shiftsVy) := by
  rw [text_eq_written hop]
  obtain ⟨m, hm⟩ := i.op.exists_name
  refine unbroken_written (hm ▸ (isWord_name m).unbroken) fun s hs => ?_
  exact (hi.isWord_operands hlabel shiftsVy s hs).unbroken

/-- An instruction is printed as something. -/
theorem text_ne_empty {i : Instruction} (hop : i.op ≠ .invalid) (label : Option String)
    (shiftsVy : Bool) : i.text label shiftsVy ≠ "" := by
  obtain ⟨m, hm⟩ := i.op.exists_name
  rw [text_eq_written hop, ← hm]
  intro h
  have hchars := Statement.toList_written m.text (i.operands label shiftsVy)
  rw [h] at hchars
  exact (isWord_name m).nonempty (List.append_eq_nil_iff.1 hchars.symm).1

/-- An invalid instruction is printed as a statement of its word. -/
theorem text_eq_written_invalid {i : Instruction} (hop : i.op = .invalid) (label : Option String)
    (shiftsVy : Bool) :
    i.text label shiftsVy =
      Statement.written "INVALID" ["(DW #" ++ hex 4 i.word ++ ")"] := by
  unfold text
  rw [hop]
  simp only [Statement.written, String.intercalate_singleton, ← String.append_assoc]
  rfl

end Instruction

end SuperChip
