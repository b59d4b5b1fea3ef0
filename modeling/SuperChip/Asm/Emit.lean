import SuperChip.Asm.Assembler
import SuperChip.Text.Lines

/-!
# Emission: from items to bytes

Once all lines are taken, the operands of each recorded item are evaluated over the finished label
table and its bytes are written at its place. A refusal stops the emission: the assembler is as
before, and the image keeps what was written until then.
-/

set_option autoImplicit false

namespace SuperChip

namespace Item

/-- The register that an operand names. -/
def register (operand : String) : Except AsmCause Nat :=
  match registerNumber? operand with
  | some n => .ok n
  | none => .error (.notRegister operand)

/-- The value of an operand. -/
def value (labels : Labels) (operand : String) : Except AsmCause Nat :=
  match Expr.eval labels operand with
  | .ok v => .ok v
  | .error e => .error (.operand operand e)

/-- The instruction of an operation whose fields are filled from operands. -/
def instruction (labels : Labels) (op : Op) (operands : List String) :
    Except AsmCause Instruction := do
  match op.layout, operands with
  | .plain, _ => return { op }
  | .nibble, [n] => return { op, nibble := ← value labels n }
  | .address, [target] => return { op, address := ← value labels target }
  | .regByte, [x, kk] => return { op, vx := ← register x, byte := ← value labels kk }
  | .regReg, [x, y] => return { op, vx := ← register x, vy := ← register y }
  | .shift, [x, y] =>
    let vy ← register y
    return { op, vx := ← register x, vy }
  | .shift, [x] => return { op, vx := ← register x }
  | .reg, [x] => return { op, vx := ← register x }
  | .regRegNibble, [x, y, n] =>
    return { op, vx := ← register x, vy := ← register y, nibble := ← value labels n }
  | _, _ => throw .invalidOperation

/-- The bytes of an item. -/
def encode (labels : Labels) (shiftsVy : Bool) (item : Item) : Except AsmCause (List UInt8) :=
  match item.kind, item.operands with
  | .byte, [text] => do return [.ofNat (← value labels text)]
  | .word, [text] => do return Bytes.ofWord (← value labels text)
  | .instruction op, operands => do
    return Bytes.ofWord ((← instruction labels op operands).encode shiftsVy)
  | _, _ => .error .invalidOperation

/-- Writes an item into an image. -/
def write (labels : Labels) (shiftsVy : Bool) (image : Image) (item : Item) :
    Except AsmError Image :=
  match item.encode labels shiftsVy with
  | .error cause => .error ⟨item.line, cause⟩
  | .ok data =>
    match image.write (item.address - programStart) data with
    | .error cause => .error ⟨item.line, cause⟩
    | .ok image => .ok image

/-- Writes items in order, up to the first that is refused. -/
def writeAll (labels : Labels) (shiftsVy : Bool) (image : Image) :
    List Item → Image × Option AsmError
  | [] => (image, none)
  | item :: rest =>
    match item.write labels shiftsVy image with
    | .error e => (image, some e)
    | .ok image => writeAll labels shiftsVy image rest

end Item

/-- What an emission leaves behind. -/
structure Emission where
  assembler : Assembler
  image : Image
  result : Except AsmError (List AsmNotice)

namespace Assembler

/-- Writes every recorded item into `image`; they are then no longer recorded. -/
def emit (a : Assembler) (image : Image) : Emission :=
  match Item.writeAll a.labels a.shiftsVy image a.items.toList with
  | (image, some e) => ⟨a, image, .error e⟩
  | (image, none) =>
    let unclosed := if a.conditional.depth = 0 then [] else [.unclosedConditional a.line]
    ⟨{ a with items := #[] }, image, .ok (unclosed ++ [.emitted image.length])⟩

/-- Takes lines in order, up to the first that is refused. What was reported is appended to
`notices`. -/
def processLines (a : Assembler) (notices : List AsmNotice) :
    List String → Assembler × List AsmNotice × Option AsmError
  | [] => (a, notices, none)
  | text :: rest =>
    match a.processLine text with
    | (a, .error e) => (a, notices, some e)
    | (a, .ok more) => processLines a (notices ++ more) rest

/-- The image of source lines, or the first refusal, and what was reported. -/
def assembleLines (shiftsVy : Bool) (lines : List String) :
    List AsmNotice × Except AsmError Bytes :=
  match processLines { shiftsVy } [] lines with
  | (_, notices, some e) => (notices, .error e)
  | (a, notices, none) =>
    let emission := a.emit {}
    match emission.result with
    | .error e => (notices, .error e)
    | .ok more => (notices ++ more, .ok emission.image.toBytes)

/-- The image of a source text, or the first refusal, and what was reported. -/
def assemble (shiftsVy : Bool) (source : String) : List AsmNotice × Except AsmError Bytes :=
  assembleLines shiftsVy (Text.lines source)

end Assembler

end SuperChip
