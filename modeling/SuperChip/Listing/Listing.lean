import SuperChip.Instruction.Printer
import SuperChip.Listing.Survey

/-!
# Listings

A listing shows a program word by word as assembler text: reached words as instructions, the others
as data. Each line starts with a label column of six characters; an instruction refers to an address
in the program by its label. A listing assembles again.
-/

set_option autoImplicit false

namespace SuperChip

/-- A program and what a survey tells of it. -/
structure Listing where
  program : ProgramText
  boundaries : Boundaries
  labels : List Nat
  deriving Repr

namespace Listing

/-- The listing of a program, or why it has none, and what was reported. -/
def ofBytes (data : Bytes) (shiftsVy : Bool) : List PathNotice × Except ListingError Listing :=
  let program : ProgramText := ⟨data, shiftsVy⟩
  match Survey.ofProgram program with
  | (notices, .ok s) => (notices, .ok ⟨program, s.boundaries, s.labels⟩)
  | (notices, .error e) => (notices, .error e)

/-- Whether no path reaches an offset. -/
def inData (l : Listing) (offset : Int) : Bool := l.boundaries.inData offset

/-- The label of an offset. -/
def labelName (offset : Int) : String := "L" ++ Text.hex 3 offset

/-- The label that stands for the address operand of an instruction. -/
def labelOf? (l : Listing) (i : Instruction) : Option String :=
  let offset := i.address - programStart
  if i.usesAddress && decide (0 ≤ offset) && l.labels.contains offset.toNat then
    some (labelName offset)
  else none

/-- The text of a word at an offset. -/
def wordText (l : Listing) (offset : Int) (word : Nat) : String :=
  if l.inData offset then "DW #" ++ Text.hex 4 word
  else
    let i := Instruction.decode word l.program.shiftsVy
    i.text (l.labelOf? i) l.program.shiftsVy

/-- The text of the word at an offset, if there is one. -/
def textAt? (l : Listing) (offset : Int) : Option String :=
  (l.program.word? offset).map (l.wordText offset)

/-- The label column of an offset. -/
def column (l : Listing) (offset : Nat) : String :=
  if l.labels.contains offset then labelName offset ++ ": " else "      "

/-- The offsets of the words. -/
def offsets (l : Listing) : List Nat :=
  (List.range ((l.program.length + 1) / 2)).map (2 * ·)

/-- The lines, each with the offset of its word. -/
def lines (l : Listing) : List (Nat × String) :=
  l.offsets.filterMap fun (offset : Nat) =>
    (l.textAt? offset).map fun t => (offset, l.column offset ++ t)

/-- The lines as one text, each with a line feed. -/
def dump (l : Listing) : String := String.join (l.lines.map fun (_, t) => t ++ "\n")

end Listing

end SuperChip
