import SuperChip.Proofs.Asm.Item
import SuperChip.Proofs.Asm.Layout
import SuperChip.Proofs.Asm.Printed

/-!
# Lines of printed instructions

A printed instruction or word of data, behind a column with or without a label, is a line that puts
one word into the program. A printed invalid instruction is a line that is refused.
-/

set_option autoImplicit false

namespace SuperChip

open SourceLine Statement SuperChip.Expr EState

namespace Assembler

variable {a : Assembler} {label : Option String} {operands : List String}

/-- An even address is aligned already. -/
theorem aligned_eq_self {address : Int} (h : address % 2 = 0) : aligned address = address := by
  unfold aligned
  omega

/-- The label of a line waits for the item of the line. -/
theorem addLabels_toList (hactive : a.active = true) (hpending : a.pending = none)
    (label : Option String) : addLabels label.toList a = .ok () { a with pending := label } := by
  have hlabels : label.toList.foldlM addLabel a.pending = .ok label := by
    rw [hpending]
    cases label <;> rfl
  rw [addLabels, ifActive_of_active hactive, get_bind, hlabels]
  rfl

/-- On an active line an operation in capitals is executed under its name. -/
theorem perform_of_not_directive (hactive : a.active = true) {name : String}
    (hupper : Text.upper name = name) (hname : name ∉ ["IFDEF", "IFNDEF", "ELSE", "ENDIF"])
    (text : List Char) (operands : List String) :
    perform ⟨name, false, text⟩ operands a = execute name name operands a := by
  have hdirect : direct? name operands = none := direct?_eq_none hname
  have hperform := perform_of_not_direct (s := ⟨name, false, text⟩) rfl (hupper.symm ▸ hdirect)
  rw [hperform, ifActive_of_active hactive, hupper]

/-- A line with at most one label executes its statement, with that label waiting. -/
theorem take_statement (hactive : a.active = true) (hpending : a.pending = none)
    (label : Option String) {name : String} (hupper : Text.upper name = name)
    (hname : name ∉ ["IFDEF", "IFNDEF", "ELSE", "ENDIF"]) (hops : ∀ s ∈ operands, IsOperand s)
    (hlen : operands.length ≤ maxOperands) :
    take ⟨label.toList, some ⟨name, false, operandChars operands⟩⟩ a =
      execute name name operands { a with pending := label } := by
  have hactive' : active { a with pending := label } = true := hactive
  rw [take, bind_of_ok (addLabels_toList hactive hpending label)]
  simp only [operands_operandChars hops hlen]
  exact perform_of_not_directive hactive' hupper hname _ operands

/-- An instruction is recorded with the form that its operands select. -/
theorem execute_mnemonic (op : Op) {form : Form}
    (hform : Form.select a.shiftsVy op.mnemonic op.mnemonic operands = .ok form) :
    execute op.mnemonic op.mnemonic operands a =
      (do record (.instruction form.op) (aligned a.address) form.operands; return []) a := by
  have hname := op.mnemonic_not_mem
  simp only [List.mem_cons, List.not_mem_nil, or_false, not_or] at hname
  obtain ⟨-, -, -, -, hdefine, hbyte, hword, hoption⟩ := hname
  have hexecute : execute op.mnemonic op.mnemonic operands = do
      let a ← get
      let form ← ofExcept (Form.select a.shiftsVy op.mnemonic op.mnemonic operands)
      record (.instruction form.op) (aligned a.address) form.operands
      return [] := by
    unfold execute
    split
    · next h => exact absurd h hdefine
    · next h => exact absurd h hbyte
    · next h => exact absurd h hword
    · next h => exact absurd h hoption
    · rfl
  rw [hexecute, get_bind, hform]
  rfl

/-- A word is recorded at the address that is reached. -/
theorem execute_word (a : Assembler) (operand : String) :
    execute "DW" "DW" [operand] a = (do record .word a.address [operand]; return []) a := rfl

end Assembler

namespace WordLine

open Assembler

variable {label : Option String} {column : String} {shiftsVy : Bool}

/-- A line of a printed word of data puts that word into the program. -/
theorem reads_word (hcolumn : Column label column) {s : String} (hs : IsOperand s) :
    Reads shiftsVy ⟨column ++ written "DW" [s], label, .ok (.word, [s])⟩ := by
  have hops : ∀ t ∈ [s], IsOperand t := List.forall_mem_singleton.2 hs
  let m : Name := ⟨'D', ['W'], by decide, List.all_eq_true.1 (by decide)⟩
  constructor
  · rintro kind operands ⟨⟩
    rfl
  · intro a _ hactive hpending _
    have hparse : SourceLine.parse (column ++ written "DW" [s]) =
        ⟨label.toList, some ⟨"DW", false, operandChars [s]⟩⟩ := parse_column_append hcolumn m hops
    rw [hparse, take_statement hactive hpending label (by decide) (by decide) hops
      (by simp [maxOperands]), execute_word]
    rfl

/-- A line of a printed instruction puts that instruction into the program. -/
theorem reads_instruction (hcolumn : Column label column) {i : Instruction} (hi : i.Fits)
    (hop : i.op ≠ .invalid) {target : Option String} (htarget : ∀ s ∈ target, IsWord s) :
    Reads shiftsVy ⟨column ++ i.text target shiftsVy, label,
      .ok (.instruction i.op, i.fieldTexts target shiftsVy)⟩ := by
  have hops : ∀ s ∈ i.operands target shiftsVy, IsOperand s :=
    fun s hs => (hi.isWord_operands htarget shiftsVy s hs).isOperand
  obtain ⟨m, hm⟩ := i.op.exists_name
  constructor
  · rintro kind operands ⟨⟩
    rfl
  · intro a hshifts hactive hpending haddress
    have hparse := parse_column_append hcolumn m hops
    have hdirective : i.op.mnemonic ∉ ["IFDEF", "IFNDEF", "ELSE", "ENDIF"] :=
      fun h => i.op.mnemonic_not_mem (List.mem_append_left _ h)
    have hselect := Form.select_operands hi hop target shiftsVy
    rw [hm] at hparse
    subst hshifts
    rw [Instruction.text_eq_written hop, hparse,
      take_statement hactive hpending label i.op.upper_mnemonic hdirective hops
        (i.length_operands_le target _)]
    have hexecute := execute_mnemonic (a := { a with pending := label }) i.op hselect
    simp only [aligned_eq_self haddress] at hexecute
    rw [hexecute]
    rfl

/-- The line of a word that is no instruction is refused for its name. -/
theorem reads_invalid (hcolumn : Column label column) {i : Instruction} (hi : i.Fits)
    (hop : i.op = .invalid) (target : Option String) :
    Reads shiftsVy ⟨column ++ i.text target shiftsVy, label,
      .error (.invalidMnemonic "INVALID")⟩ := by
  have hshown := isOperand_shownWord 4 i.word.toNat
  rw [Int.toNat_of_nonneg hi.word_nonneg] at hshown
  have hops := List.forall_mem_singleton.2 hshown
  let m : Name := ⟨'I', ['N', 'V', 'A', 'L', 'I', 'D'], by decide,
    List.all_eq_true.1 (by decide)⟩
  constructor
  · rintro kind operands ⟨⟩
  · intro a _ hactive hpending _
    have hparse : SourceLine.parse (column ++ written "INVALID" _) =
        ⟨label.toList, some ⟨"INVALID", false, operandChars _⟩⟩ :=
      parse_column_append hcolumn m hops
    rw [Instruction.text_eq_written_invalid hop, hparse,
      take_statement hactive hpending label (by decide) (by decide) hops (by simp [maxOperands])]
    rfl

end WordLine

end SuperChip
