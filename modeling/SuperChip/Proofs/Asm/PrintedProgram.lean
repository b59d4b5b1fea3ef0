import SuperChip.Proofs.Asm.Assemble
import SuperChip.Proofs.Asm.Source
import SuperChip.Proofs.Instruction.NormalForm

/-!
# Printed programs assemble to their words

A program that is printed as one instruction per line, without labels, is assembled into the words
that the instructions were decoded from, one behind the other (`assemble_printed`). Every word that
is an instruction may occur, and either reading of shifts may be taken, as long as the printer and
the assembler take the same one.
-/

set_option autoImplicit false

namespace SuperChip.Assembler

open Instruction

/-- The texts of a printed program, one for each word. -/
def printed (shiftsVy : Bool) (words : List Nat) : List String :=
  words.map fun w : Nat => (decode w shiftsVy).text none shiftsVy

/-- The line of a printed word: it has no label and records the operation of the word with the texts
of its fields. -/
def printedLine (shiftsVy : Bool) (w : Nat) : WordLine :=
  let i := decode w shiftsVy
  { text := i.text none shiftsVy
    label := none
    outcome := .ok (.instruction i.op, i.fieldTexts none shiftsVy) }

/-- The words are sixteen bits wide, and each is an instruction. -/
def AreInstructions (shiftsVy : Bool) (words : List Nat) : Prop :=
  ∀ w ∈ words, w < 0x10000 ∧ (decode w shiftsVy).op ≠ .invalid

section Printed

variable {shiftsVy : Bool} {words : List Nat}

/-- The line of a printed word is read as an item. -/
theorem reads_printedLine {w : Nat} (hop : (decode w shiftsVy).op ≠ .invalid) :
    (printedLine shiftsVy w).Reads shiftsVy := by
  have hcolumn : SourceLine.Column none "" := .blanks nofun
  have hreads : WordLine.Reads shiftsVy
      ⟨"" ++ (decode w shiftsVy).text none shiftsVy, none,
        .ok (.instruction (decode w shiftsVy).op, (decode w shiftsVy).fieldTexts none shiftsVy)⟩ :=
    WordLine.reads_instruction hcolumn (fits_decode w shiftsVy) hop nofun
  rwa [String.empty_append] at hreads

/-- The item of a printed word is encoded as that word. -/
theorem encode_printedLine (labels : Labels) {w : Nat} (hw : w < 0x10000)
    (hop : (decode w shiftsVy).op ≠ .invalid) {k : Nat} {item : Item}
    (hitem : (printedLine shiftsVy w).item? k = some item) :
    item.encode labels shiftsVy = .ok (Bytes.ofWord w) := by
  have hdecode := decode_natCast shiftsVy hw
  have hname : (decode w shiftsVy).op = .ofWord w shiftsVy := by rw [hdecode, op_unpack]
  have htarget : Item.value labels ("#" ++ Text.hex 3 (w % 0x1000 : Nat)) = .ok (w % 0x1000) :=
    Item.value_hex (by omega)
  rw [hname] at hop
  cases hitem
  rw [hname, hdecode]
  exact Item.encode_instruction _ _ hw hop fun _ => htarget

/-- Printed words have no labels. -/
theorem names_printed (shiftsVy : Bool) (words : List Nat) :
    WordLine.names (words.map (printedLine shiftsVy)) = [] := by
  rw [WordLine.names, List.filterMap_map, List.filterMap_eq_nil_iff]
  exact fun _ _ => rfl

/-- No line of a printed program is refused. -/
theorem outcome_printed (shiftsVy : Bool) (words : List Nat) :
    ∀ l ∈ words.map (printedLine shiftsVy), ∃ item, l.outcome = .ok item := by
  intro l hl
  obtain ⟨w, -, rfl⟩ := List.mem_map.1 hl
  exact ⟨_, rfl⟩

variable (hwords : AreInstructions shiftsVy words)
include hwords

/-- Every line of a printed program is read as an item. -/
theorem reads_printed : ∀ l ∈ words.map (printedLine shiftsVy), l.Reads shiftsVy := by
  intro l hl
  obtain ⟨w, hw, rfl⟩ := List.mem_map.1 hl
  exact reads_printedLine (hwords w hw).2

/-- The items of printed words are encoded as these words. -/
theorem encode_printed (labels : Labels) :
    List.Forall₂ (fun (item : Item) w => item.encode labels shiftsVy = .ok (Bytes.ofWord w))
      (WordLine.items (words.map (printedLine shiftsVy))) words := by
  have hok := outcome_printed shiftsVy words
  refine List.forall₂_iff_get.2 ⟨by rw [WordLine.length_items hok, List.length_map], ?_⟩
  intro k hk hk'
  obtain ⟨l, hl, hitem⟩ :=
    WordLine.exists_line_of_getElem?_items hok (List.getElem?_eq_getElem hk)
  rw [List.getElem?_map, List.getElem?_eq_getElem hk'] at hl
  cases hl
  have hw := hwords _ (List.getElem_mem hk')
  exact encode_printedLine labels hw.1 hw.2 hitem

/-- A printed program that fits is assembled to its words. -/
theorem assembleLines_printed (hlength : words.length ≤ 0x700) :
    (assembleLines shiftsVy ((words.map (printedLine shiftsVy)).map WordLine.text)).2 =
      .ok (words.flatMap Bytes.ofWord).toArray := by
  have hnodup : (WordLine.names (words.map (printedLine shiftsVy))).Nodup := by
    rw [names_printed]
    exact List.nodup_nil
  refine WordLine.assembleLines_words (reads_printed hwords) hnodup
    (outcome_printed shiftsVy words) (encode_printed hwords _) ?_
  simp only [programSize, memorySize, programStart]
  omega

end Printed

/-- At most 0x700 words, each of them an instruction, are printed as one line each and assembled
again: the result is the words, high byte first, whether a line feed stands behind the last line or
not. -/
theorem assemble_printed {shiftsVy : Bool} {words : List Nat}
    (hwords : AreInstructions shiftsVy words) (hlength : words.length ≤ 0x700) :
    (assemble shiftsVy (String.join ((printed shiftsVy words).map (· ++ "\n")))).2 =
        .ok (words.flatMap Bytes.ofWord).toArray ∧
      (assemble shiftsVy (String.intercalate "\n" (printed shiftsVy words))).2 =
        .ok (words.flatMap Bytes.ofWord).toArray := by
  have hassemble := assembleLines_printed hwords hlength
  rw [List.map_map] at hassemble
  have hunbroken : ∀ t ∈ printed shiftsVy words, Unbroken t := by
    intro t ht
    obtain ⟨w, hw, rfl⟩ := List.mem_map.1 ht
    exact (fits_decode w shiftsVy).unbroken_text (hwords w hw).2 (by simp) shiftsVy
  have hne : ∀ t ∈ printed shiftsVy words, t ≠ "" := by
    intro t ht
    obtain ⟨w, hw, rfl⟩ := List.mem_map.1 ht
    exact text_ne_empty (hwords w hw).2 none shiftsVy
  constructor
  · rw [assemble, Text.lines_join hunbroken]
    exact hassemble
  · rw [assemble, Text.lines_intercalate hunbroken hne]
    exact hassemble

/-- Words whose mnemonics are shared by several operations: the operands tell them apart again. -/
theorem assemble_printed_sharedMnemonics :
    AreInstructions true [0x8AB6, 0xFB1E, 0xB2F0, 0xF365, 0x60F0, 0xA000] ∧
      printed true [0x8AB6, 0xFB1E, 0xB2F0, 0xF365, 0x60F0, 0xA000] =
        ["SHR VA, VB", "ADD I, VB", "JP V0, #2F0", "LD V3, [I]", "LD V0, #F0", "LD I, #000"] ∧
      (assemble true (String.join
        ((printed true [0x8AB6, 0xFB1E, 0xB2F0, 0xF365, 0x60F0, 0xA000]).map (· ++ "\n")))).2 =
          .ok #[0x8A, 0xB6, 0xFB, 0x1E, 0xB2, 0xF0, 0xF3, 0x65, 0x60, 0xF0, 0xA0, 0x00] := by
  have hwords : AreInstructions true [0x8AB6, 0xFB1E, 0xB2F0, 0xF365, 0x60F0, 0xA000] := by
    unfold AreInstructions
    decide
  exact ⟨hwords, by decide, (assemble_printed hwords (by decide)).1⟩

end SuperChip.Assembler
