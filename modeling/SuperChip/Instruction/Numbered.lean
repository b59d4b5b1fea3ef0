import SuperChip.Instruction.Printer

/-!
# Instructions given by number

A record of an instruction may name its operation by a number, and the number may be that of no
operation. Such a record has no word, no name and no text, and uses no address.
-/

set_option autoImplicit false

namespace SuperChip

/-- An instruction whose operation is given by a number. -/
structure NumberedInstruction where
  number : Int
  fields : Instruction
  deriving DecidableEq, Repr

namespace NumberedInstruction

/-- The record of an instruction. -/
def ofInstruction (i : Instruction) : NumberedInstruction := ⟨i.op.number, i⟩

/-- The instruction, if its operation exists. -/
def toInstruction? (r : NumberedInstruction) : Option Instruction :=
  (Op.ofNumber? r.number).map fun op => { r.fields with op }

/-- The word of the instruction; refused exactly when no operation has the number. -/
def encode (r : NumberedInstruction) (shiftsVy : Bool) : Except OpError Nat :=
  match r.toInstruction? with
  | some i => .ok (i.encode shiftsVy)
  | none => .error (.unknown r.number)

/-- The mnemonic of the instruction. -/
def name (r : NumberedInstruction) : Except OpError String :=
  match r.toInstruction? with
  | some i => .ok i.name
  | none => .error (.unnamed r.number)

/-- The text of the instruction. -/
def text (r : NumberedInstruction) (label : Option String) (shiftsVy : Bool) :
    Except OpError String :=
  match r.toInstruction? with
  | some i => .ok (i.text label shiftsVy)
  | none => .error (.unnamed r.number)

/-- Whether the operand is a 12-bit memory address. -/
def usesAddress (r : NumberedInstruction) : Bool :=
  match r.toInstruction? with
  | some i => i.usesAddress
  | none => false

/-- Whether decoding the word of the instruction gives the instruction back. -/
def redecodes (r : NumberedInstruction) (shiftsVy : Bool) : Except OpError Bool :=
  match r.toInstruction? with
  | some i => .ok (Instruction.decode (i.encode shiftsVy) shiftsVy == i)
  | none => .error (.unknown r.number)

end NumberedInstruction

end SuperChip
