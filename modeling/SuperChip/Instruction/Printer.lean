import SuperChip.Instruction.Codec
import SuperChip.Text.Hex

/-!
# The text of an instruction

One line of assembler text per instruction. Registers are `V` and a hexadecimal digit, bytes `#` and
two digits, addresses `#` and three digits or the name of a label, nibbles are decimal. A field is
printed as it stands, without being cut to its place.
-/

set_option autoImplicit false

namespace SuperChip.Instruction

/-- The name of a register. -/
def register (n : Int) : String := "V" ++ Text.hex 1 n

/-- The operands of an instruction, in order. -/
def operands (i : Instruction) (label : Option String) (shiftsVy : Bool) : List String :=
  let x := register i.vx
  let y := register i.vy
  let target := label.getD ("#" ++ Text.hex 3 i.address)
  match i.op with
  | .loadIndex => ["I", target]
  | .jumpV0 => ["V0", target]
  | .readDelay => [x, "DT"]
  | .awaitKey => [x, "K"]
  | .writeDelay => ["DT", x]
  | .writeSound => ["ST", x]
  | .addIndex => ["I", x]
  | .pointDigit => ["F", x]
  | .pointBigDigit => ["HF", x]
  | .storeDecimal => ["B", x]
  | .storeRegs => ["[I]", x]
  | .readRegs => [x, "[I]"]
  | .saveFlags => ["R", x]
  | .restoreFlags => [x, "R"]
  | op =>
    match op.layout with
    | .word | .plain => []
    | .nibble => [toString i.nibble]
    | .address => [target]
    | .regByte => [x, "#" ++ Text.hex 2 i.byte]
    | .regReg => [x, y]
    | .regRegNibble => [x, y, toString i.nibble]
    | .reg => [x]
    | .shift => if shiftsVy then [x, y] else [x]

/-- The instruction as assembler text. A given `label` stands for the address operand. An `invalid`
instruction shows its word as data. -/
def text (i : Instruction) (label : Option String) (shiftsVy : Bool) : String :=
  match i.op with
  | .invalid => "INVALID (DW #" ++ Text.hex 4 i.word ++ ")"
  | op =>
    match i.operands label shiftsVy with
    | [] => op.mnemonic
    | operands => op.mnemonic ++ " " ++ String.intercalate ", " operands

end SuperChip.Instruction
