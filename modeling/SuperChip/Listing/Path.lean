import SuperChip.Bytes
import SuperChip.Instruction.Codec
import SuperChip.Log
import SuperChip.MemoryMap

/-!
# Paths through a program

A path starts at an offset and takes the words after it one by one. It ends with the first
instruction that never goes on to the next, unless a conditional skip stands before that
instruction; with a jump or call to an odd address; or at the end of the program. Offsets count
from the address where programs start.
-/

set_option autoImplicit false

namespace SuperChip

/-- Why a program has no listing. -/
inductive ListingError where
  | tooLarge
  | misalignedCall
  | misalignedJump
  deriving DecidableEq, Repr

/-- The wording of each refusal. -/
def ListingError.message : ListingError → String
  | .tooLarge => "Input program is too large"
  | .misalignedCall => "Misaligned CALL operand encountered"
  | .misalignedJump => "Misaligned JP operand encountered"

/-- What is reported about the paths of a program. -/
inductive PathNotice where
  | leftProgram
  | jumpV0
  deriving DecidableEq, Repr

/-- The log record of a notice. -/
def PathNotice.entry : PathNotice → Log.Entry
  | .leftProgram => ⟨.warning, "Control path went out of program bounds"⟩
  | .jumpV0 => ⟨.warning, "The disassembler doesn't support JP V0 yet"⟩

/-- A program whose code is to be found. -/
structure ProgramText where
  data : Bytes
  /-- Whether shifts read a second register. -/
  shiftsVy : Bool
  deriving Repr

namespace ProgramText

/-- The number of bytes. -/
def length (p : ProgramText) : Nat := p.data.size

/-- The word at an offset. A zero byte follows the program, so that an odd last byte is half a word;
a negative offset counts from the end. -/
def word? (p : ProgramText) (offset : Int) : Option Nat := Bytes.word? (p.data.push 0) offset

/-- The instruction at an offset within the program. -/
def instructionAt (p : ProgramText) (offset : Nat) : Instruction :=
  .decode (Bytes.word (p.data.getD offset 0) (p.data.getD (offset + 1) 0)) p.shiftsVy

end ProgramText

/-- Whether an operation never goes on to the next instruction. -/
def Op.endsPath : Op → Bool
  | .ret | .exit | .jump | .jumpV0 => true
  | _ => false

/-- Whether an operation starts a path at its address. -/
def Op.startsPath : Op → Bool
  | .call | .jump => true
  | _ => false

/-- How a path ends. -/
inductive PathEnd where
  /-- With the instruction at an offset. -/
  | leave (offset : Nat)
  /-- Outside the program. -/
  | outside
  /-- With an odd address, for which there is no listing. -/
  | misaligned (cause : ListingError)
  deriving DecidableEq, Repr

/-- The offsets and instructions of a path, in order, and its end. -/
structure Path where
  visited : List (Nat × Instruction)
  ending : PathEnd
  deriving Repr

namespace Path

/-- The refusal for a jump or call to an odd address. -/
def misaligned? (i : Instruction) : Option ListingError :=
  if i.address % 2 = 0 then none
  else match i.op with
    | .call => some .misalignedCall
    | .jump => some .misalignedJump
    | _ => none

/-- The path from an offset on; `afterSkip` tells whether a conditional skip stands before it. -/
def follow (p : ProgramText) (offset : Nat) (afterSkip : Bool) : Path :=
  if offset < p.length then
    let i := p.instructionAt offset
    match misaligned? i with
    | some cause => ⟨[(offset, i)], .misaligned cause⟩
    | none =>
      if i.op.endsPath && !afterSkip then ⟨[(offset, i)], .leave offset⟩
      else
        let rest := follow p (offset + 2) i.op.isSkip
        { rest with visited := (offset, i) :: rest.visited }
  else ⟨[], .outside⟩
termination_by p.length - offset

/-- The path from an offset that need not lie in the program. -/
def start (p : ProgramText) (offset : Int) : Path :=
  if offset < 0 then ⟨[], .outside⟩ else follow p offset.toNat false

/-- The addresses of the jumps and calls on a path. -/
def targets (path : Path) : List (Fin memorySize) :=
  (path.visited.filter (·.2.op.startsPath)).map fun (_, i) =>
    ⟨i.address.toNat % memorySize, Nat.mod_lt _ memorySize_pos⟩

/-- The offsets within a program of `length` bytes that instructions on a path refer to. -/
def references (path : Path) (length : Nat) : List Nat :=
  path.visited.filterMap fun (_, i) =>
    let offset := i.address - programStart
    if i.usesAddress && decide (0 ≤ offset ∧ offset < length) then some offset.toNat else none

/-- What is reported about a path. -/
def notices (path : Path) : List PathNotice :=
  let jumps := (path.visited.filter (·.2.op == .jumpV0)).map fun _ => .jumpV0
  match path.ending with
  | .outside => jumps ++ [.leftProgram]
  | _ => jumps

end Path

end SuperChip
