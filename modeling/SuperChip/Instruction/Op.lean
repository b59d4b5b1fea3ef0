/-!
# Operations

The forty-three operations of the CHIP-8 and Super-Chip instruction sets, and one more for a word
that is no instruction. Each operation has a number, a mnemonic, the bits of its word that are
fixed, and a layout that says which fields fill the other bits.
-/

set_option autoImplicit false

namespace SuperChip

/-- The operations, in the order of their words. -/
inductive Op where
  | invalid
  | scrollDown
  | clear
  | ret
  | scrollRight
  | scrollLeft
  | exit
  | lowRes
  | highRes
  | jump
  | call
  | skipEqByte
  | skipNeByte
  | skipEqReg
  | loadByte
  | addByte
  | loadReg
  | or
  | and
  | xor
  | addReg
  | sub
  | shiftRight
  | subReverse
  | shiftLeft
  | skipNeReg
  | loadIndex
  | jumpV0
  | random
  | draw
  | skipPressed
  | skipReleased
  | readDelay
  | awaitKey
  | writeDelay
  | writeSound
  | addIndex
  | pointDigit
  | pointBigDigit
  | storeDecimal
  | storeRegs
  | readRegs
  | saveFlags
  | restoreFlags
  deriving DecidableEq, Repr, Inhabited

/-- Which fields fill the bits of a word that its operation leaves open. -/
inductive Layout where
  /-- All sixteen bits, as they came. -/
  | word
  /-- No bit is open. -/
  | plain
  /-- A nibble in the lowest four bits. -/
  | nibble
  /-- A 12-bit address. -/
  | address
  /-- A register and a byte. -/
  | regByte
  /-- Two registers. -/
  | regReg
  /-- Two registers and a nibble. -/
  | regRegNibble
  /-- One register. -/
  | reg
  /-- One register, and a second one where shifts read a second register. -/
  | shift
  deriving DecidableEq, Repr

namespace Op

/-- All operations, each at the place of its number. -/
def all : List Op :=
  [invalid, scrollDown, clear, ret, scrollRight, scrollLeft, exit, lowRes, highRes, jump, call,
   skipEqByte, skipNeByte, skipEqReg, loadByte, addByte, loadReg, or, and, xor, addReg, sub,
   shiftRight, subReverse, shiftLeft, skipNeReg, loadIndex, jumpV0, random, draw, skipPressed,
   skipReleased, readDelay, awaitKey, writeDelay, writeSound, addIndex, pointDigit, pointBigDigit,
   storeDecimal, storeRegs, readRegs, saveFlags, restoreFlags]

/-- The number of an operation: its place in `all`. -/
def number (op : Op) : Nat := op.ctorIdx

/-- The operation with a number, if there is one. -/
def ofNumber? (n : Int) : Option Op :=
  if n < 0 then none else all[n.toNat]?

/-- The number of an operation leads back to it. -/
theorem ofNumber?_number (op : Op) : ofNumber? op.number = some op := by
  cases op <;> rfl

/-- The word an assembler line starts with. -/
def mnemonic : Op → String
  | invalid => "INVALID"
  | scrollDown => "SCD"
  | clear => "CLS"
  | ret => "RET"
  | scrollRight => "SCR"
  | scrollLeft => "SCL"
  | exit => "EXIT"
  | lowRes => "LOW"
  | highRes => "HIGH"
  | jump | jumpV0 => "JP"
  | call => "CALL"
  | skipEqByte | skipEqReg => "SE"
  | skipNeByte | skipNeReg => "SNE"
  | addByte | addReg | addIndex => "ADD"
  | or => "OR"
  | and => "AND"
  | xor => "XOR"
  | sub => "SUB"
  | shiftRight => "SHR"
  | subReverse => "SUBN"
  | shiftLeft => "SHL"
  | random => "RND"
  | draw => "DRW"
  | skipPressed => "SKP"
  | skipReleased => "SKNP"
  | loadByte | loadReg | loadIndex | readDelay | awaitKey | writeDelay | writeSound | pointDigit
  | pointBigDigit | storeDecimal | storeRegs | readRegs | saveFlags | restoreFlags => "LD"

/-- The layout of an operation's word. -/
def layout : Op → Layout
  | invalid => .word
  | scrollDown => .nibble
  | clear | ret | scrollRight | scrollLeft | exit | lowRes | highRes => .plain
  | jump | call | loadIndex | jumpV0 => .address
  | skipEqByte | skipNeByte | loadByte | addByte | random => .regByte
  | skipEqReg | skipNeReg | loadReg | or | and | xor | addReg | sub | subReverse => .regReg
  | shiftRight | shiftLeft => .shift
  | draw => .regRegNibble
  | skipPressed | skipReleased | readDelay | awaitKey | writeDelay | writeSound | addIndex
  | pointDigit | pointBigDigit | storeDecimal | storeRegs | readRegs | saveFlags
  | restoreFlags => .reg

/-- The word of an operation with every open bit clear. -/
def base : Op → Nat
  | invalid => 0x0000
  | scrollDown => 0x00C0
  | clear => 0x00E0
  | ret => 0x00EE
  | scrollRight => 0x00FB
  | scrollLeft => 0x00FC
  | exit => 0x00FD
  | lowRes => 0x00FE
  | highRes => 0x00FF
  | jump => 0x1000
  | call => 0x2000
  | skipEqByte => 0x3000
  | skipNeByte => 0x4000
  | skipEqReg => 0x5000
  | loadByte => 0x6000
  | addByte => 0x7000
  | loadReg => 0x8000
  | or => 0x8001
  | and => 0x8002
  | xor => 0x8003
  | addReg => 0x8004
  | sub => 0x8005
  | shiftRight => 0x8006
  | subReverse => 0x8007
  | shiftLeft => 0x800E
  | skipNeReg => 0x9000
  | loadIndex => 0xA000
  | jumpV0 => 0xB000
  | random => 0xC000
  | draw => 0xD000
  | skipPressed => 0xE09E
  | skipReleased => 0xE0A1
  | readDelay => 0xF007
  | awaitKey => 0xF00A
  | writeDelay => 0xF015
  | writeSound => 0xF018
  | addIndex => 0xF01E
  | pointDigit => 0xF029
  | pointBigDigit => 0xF030
  | storeDecimal => 0xF033
  | storeRegs => 0xF055
  | readRegs => 0xF065
  | saveFlags => 0xF075
  | restoreFlags => 0xF085

/-- Whether the operand is a 12-bit memory address. -/
def usesAddress (op : Op) : Bool := op.layout == .address

/-- Whether the operation may skip the instruction after it. -/
def isSkip : Op → Bool
  | skipEqByte | skipNeByte | skipEqReg | skipNeReg | skipPressed | skipReleased => true
  | _ => false

end Op

end SuperChip
