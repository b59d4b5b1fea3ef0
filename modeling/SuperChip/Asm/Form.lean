import SuperChip.Asm.Error
import SuperChip.Asm.Register
import SuperChip.Instruction.Op
import SuperChip.Text.Upper

/-!
# Forms of a mnemonic

Which operation a mnemonic and its operands stand for. Most mnemonics have one form; `JP`, `SE`,
`SNE`, `LD` and `ADD` have several, told apart by operands such as `V0`, `I`, `DT` or a register, in
capitals or not. An operand that only tells the form is not kept.
-/

set_option autoImplicit false

namespace SuperChip

/-- An operation and the operands that fill its fields. -/
structure Form where
  op : Op
  operands : List String
  deriving DecidableEq, Repr

namespace Form

/-- Accepts exactly `want` operands; a refusal names the mnemonic as it was written. -/
def expect (written : String) (want : Nat) (operands : List String) : Except AsmCause Unit :=
  if operands.length < want then .error (.tooFewOperands written)
  else if want < operands.length then .error (.tooManyOperands written)
  else .ok ()

/-- The operation and operand count of a mnemonic with a single form. -/
def single? : String → Option (Op × Nat)
  | "SCD" => some (.scrollDown, 1)
  | "CLS" => some (.clear, 0)
  | "RET" => some (.ret, 0)
  | "SCR" => some (.scrollRight, 0)
  | "SCL" => some (.scrollLeft, 0)
  | "EXIT" => some (.exit, 0)
  | "LOW" => some (.lowRes, 0)
  | "HIGH" => some (.highRes, 0)
  | "CALL" => some (.call, 1)
  | "OR" => some (.or, 2)
  | "AND" => some (.and, 2)
  | "XOR" => some (.xor, 2)
  | "SUB" => some (.sub, 2)
  | "SUBN" => some (.subReverse, 2)
  | "RND" => some (.random, 2)
  | "DRW" => some (.draw, 3)
  | "SKP" => some (.skipPressed, 1)
  | "SKNP" => some (.skipReleased, 1)
  | _ => none

/-- The operation of `LD` by its first operand. -/
def loadTo? : String → Option Op
  | "I" => some .loadIndex
  | "DT" => some .writeDelay
  | "ST" => some .writeSound
  | "F" => some .pointDigit
  | "HF" => some .pointBigDigit
  | "B" => some .storeDecimal
  | "[I]" => some .storeRegs
  | "R" => some .saveFlags
  | _ => none

/-- The operation of `LD` into a register by its second operand. -/
def loadFrom? : String → Option Op
  | "DT" => some .readDelay
  | "K" => some .awaitKey
  | "[I]" => some .readRegs
  | "R" => some .restoreFlags
  | _ => none

/-- Whether a text names a register. -/
def isRegister (operand : String) : Bool := (registerNumber? operand).isSome

/-- The form of `JP`. -/
def selectJump (written : String) : List String → Except AsmCause Form
  | [] => .error (.tooFewOperands written)
  | [target] => .ok ⟨.jump, [target]⟩
  | [first, target] =>
    if Text.upper first = "V0" then .ok ⟨.jumpV0, [target]⟩
    else .error (.invalidOperands written)
  | _ => .error (.invalidOperands written)

/-- The form of `SE` and `SNE`: compare with a register or with a byte. -/
def selectSkip (byReg byByte : Op) (operands : List String) : Form :=
  match operands with
  | [_, second] => ⟨if isRegister second then byReg else byByte, operands⟩
  | _ => ⟨byByte, operands⟩

/-- The form of `LD` with two operands. -/
def selectLoad (first second : String) : Form :=
  match loadTo? (Text.upper first) with
  | some op => ⟨op, [second]⟩
  | none =>
    if isRegister second then ⟨.loadReg, [first, second]⟩
    else match loadFrom? (Text.upper second) with
      | some op => ⟨op, [first]⟩
      | none => ⟨.loadByte, [first, second]⟩

/-- The form of `ADD` with two operands. -/
def selectAdd (first second : String) : Form :=
  if Text.upper first = "I" then ⟨.addIndex, [second]⟩
  else if isRegister second then ⟨.addReg, [first, second]⟩
  else ⟨.addByte, [first, second]⟩

/-- Applies `f` to exactly two operands. -/
def pair (written : String) (operands : List String) (f : String → String → Form) :
    Except AsmCause Form :=
  match operands with
  | [first, second] => .ok (f first second)
  | _ :: _ :: _ => .error (.tooManyOperands written)
  | _ => .error (.tooFewOperands written)

/-- The form that a mnemonic, as `written` and in capitals, has with the given operands. -/
def select (shiftsVy : Bool) (written mnemonic : String) (operands : List String) :
    Except AsmCause Form :=
  match single? mnemonic with
  | some (op, count) => do
    expect written count operands
    return ⟨op, operands⟩
  | none =>
    match mnemonic with
    | "JP" => selectJump written operands
    | "SE" => do
      expect written 2 operands
      return selectSkip .skipEqReg .skipEqByte operands
    | "SNE" => do
      expect written 2 operands
      return selectSkip .skipNeReg .skipNeByte operands
    | "LD" => pair written operands selectLoad
    | "ADD" => pair written operands selectAdd
    | "SHR" => do
      expect written (if shiftsVy then 2 else 1) operands
      return ⟨.shiftRight, operands⟩
    | "SHL" => do
      expect written (if shiftsVy then 2 else 1) operands
      return ⟨.shiftLeft, operands⟩
    | _ => .error (.invalidMnemonic written)

end Form

end SuperChip
