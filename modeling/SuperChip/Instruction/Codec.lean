import SuperChip.Instruction.Op

/-!
# Words and instructions

An instruction is an operation with its fields. `decode` reads one from a 16-bit word and never
fails: a word that is no instruction becomes an `invalid` one that carries it. `encode` packs the
fields back, each cut to the width of its place.

Both take `shiftsVy`: whether shifts read a second register. Without it a shift word with a second
register is no instruction.
-/

set_option autoImplicit false

namespace SuperChip

/-- An operation and its fields. A field that the operation does not use is zero in every decoded
instruction; `word` is used by `invalid` alone. Fields hold any number, as a caller may build an
instruction whose fields do not fit their places. -/
structure Instruction where
  op : Op
  vx : Int := 0
  vy : Int := 0
  address : Int := 0
  byte : Int := 0
  nibble : Int := 0
  word : Int := 0
  deriving DecidableEq, Repr, Inhabited

/-- Why a numbered operation has no word or no text. -/
inductive OpError where
  /-- No operation has this number, so it has no word. -/
  | unknown (number : Int)
  /-- No operation has this number, so it has no name and no text. -/
  | unnamed (number : Int)
  deriving DecidableEq, Repr

/-- The wording of each refusal. -/
def OpError.message : OpError → String
  | .unknown number => s!"Unknown operation: {number}"
  | .unnamed number => toString number

/-- The operation a 16-bit word names; `invalid` if it names none. -/
def Op.ofWord (w : Nat) (shiftsVy : Bool) : Op :=
  match w / 0x1000 with
  | 0x0 =>
    if w / 0x10 = 0x00C then .scrollDown
    else match w with
      | 0x00E0 => .clear
      | 0x00EE => .ret
      | 0x00FB => .scrollRight
      | 0x00FC => .scrollLeft
      | 0x00FD => .exit
      | 0x00FE => .lowRes
      | 0x00FF => .highRes
      | _ => .invalid
  | 0x1 => .jump
  | 0x2 => .call
  | 0x3 => .skipEqByte
  | 0x4 => .skipNeByte
  | 0x5 => if w % 0x10 = 0 then .skipEqReg else .invalid
  | 0x6 => .loadByte
  | 0x7 => .addByte
  | 0x8 =>
    let single := shiftsVy || w / 0x10 % 0x10 == 0
    match w % 0x10 with
      | 0x0 => .loadReg
      | 0x1 => .or
      | 0x2 => .and
      | 0x3 => .xor
      | 0x4 => .addReg
      | 0x5 => .sub
      | 0x6 => if single then .shiftRight else .invalid
      | 0x7 => .subReverse
      | 0xE => if single then .shiftLeft else .invalid
      | _ => .invalid
  | 0x9 => if w % 0x10 = 0 then .skipNeReg else .invalid
  | 0xA => .loadIndex
  | 0xB => .jumpV0
  | 0xC => .random
  | 0xD => .draw
  | 0xE =>
    match w % 0x100 with
      | 0x9E => .skipPressed
      | 0xA1 => .skipReleased
      | _ => .invalid
  | 0xF =>
    match w % 0x100 with
      | 0x07 => .readDelay
      | 0x0A => .awaitKey
      | 0x15 => .writeDelay
      | 0x18 => .writeSound
      | 0x1E => .addIndex
      | 0x29 => .pointDigit
      | 0x30 => .pointBigDigit
      | 0x33 => .storeDecimal
      | 0x55 => .storeRegs
      | 0x65 => .readRegs
      | 0x75 => .saveFlags
      | 0x85 => .restoreFlags
      | _ => .invalid
  | _ => .invalid

namespace Instruction

/-- An instruction that carries a word which is none. -/
def invalid (word : Int) : Instruction := { op := .invalid, word := word % 0x10000 }

/-- The fields of `op`, read from their places in a 16-bit word. -/
def unpack (op : Op) (w : Nat) (shiftsVy : Bool) : Instruction :=
  let x := w / 0x100 % 0x10
  let y := w / 0x10 % 0x10
  match op.layout with
  | .word => { op, word := w }
  | .plain => { op }
  | .nibble => { op, nibble := (w % 0x10 : Nat) }
  | .address => { op, address := (w % 0x1000 : Nat) }
  | .regByte => { op, vx := x, byte := (w % 0x100 : Nat) }
  | .regReg => { op, vx := x, vy := y }
  | .regRegNibble => { op, vx := x, vy := y, nibble := (w % 0x10 : Nat) }
  | .reg => { op, vx := x }
  | .shift => if shiftsVy then { op, vx := x, vy := y } else { op, vx := x }

/-- The instruction in the low sixteen bits of `word`. -/
def decode (word : Int) (shiftsVy : Bool) : Instruction :=
  let w := (word % 0x10000).toNat
  unpack (.ofWord w shiftsVy) w shiftsVy

/-- A number cut to the range `0 .. size - 1` of a field. -/
def cut (n : Int) (size : Nat) : Nat := (n % size).toNat

/-- The word of an instruction: the fixed bits of its operation and its fields at their places. -/
def encode (i : Instruction) (shiftsVy : Bool) : Nat :=
  let x := 0x100 * cut i.vx 0x10
  let y := 0x10 * cut i.vy 0x10
  let base := i.op.base
  match i.op.layout with
  | .word => cut i.word 0x10000
  | .plain => base
  | .nibble => base + cut i.nibble 0x10
  | .address => base + cut i.address 0x1000
  | .regByte => base + x + cut i.byte 0x100
  | .regReg => base + x + y
  | .regRegNibble => base + x + y + cut i.nibble 0x10
  | .reg => base + x
  | .shift => if shiftsVy then base + x + y else base + x

/-- The mnemonic of the operation. -/
def name (i : Instruction) : String := i.op.mnemonic

/-- Whether the operand is a 12-bit memory address. -/
def usesAddress (i : Instruction) : Bool := i.op.usesAddress

end Instruction

end SuperChip
