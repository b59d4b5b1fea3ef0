import SuperChip.Asm.Form
import SuperChip.Instruction.Printer
import SuperChip.Proofs.Instruction.Fields

/-!
# The form of a printed instruction

An instruction is printed as a mnemonic and operands. Where several operations share a mnemonic the
operands tell them apart again, and the operands that the form keeps are the texts of the fields.
-/

set_option autoImplicit false

namespace SuperChip

namespace Instruction

/-- The texts of the fields that an instruction has, in order. -/
def fieldTexts (i : Instruction) (label : Option String) (shiftsVy : Bool) : List String :=
  let x := register i.vx
  let y := register i.vy
  match i.op.layout with
  | .word | .plain => []
  | .nibble => [toString i.nibble]
  | .address => [label.getD ("#" ++ Text.hex 3 i.address)]
  | .regByte => [x, "#" ++ Text.hex 2 i.byte]
  | .regReg => [x, y]
  | .regRegNibble => [x, y, toString i.nibble]
  | .reg => [x]
  | .shift => if shiftsVy then [x, y] else [x]

end Instruction

/-- The text is the name of a register and of nothing else that an operand may name. -/
structure NamesRegister (s : String) (x : Nat) : Prop where
  number : registerNumber? s = some x
  not_target : Form.loadTo? (Text.upper s) = none
  not_index : Text.upper s ≠ "I"

/-- The name of a register names that register. -/
theorem namesRegister_register {x : Nat} (hx : x < 16) :
    NamesRegister (Instruction.register x) x := by
  have hnumber : ∀ x : Fin 16, registerNumber? (Instruction.register x.val) = some x.val := by
    decide
  have htarget : ∀ x : Fin 16, Form.loadTo? (Text.upper (Instruction.register x.val)) = none := by
    decide
  have hindex : ∀ x : Fin 16, Text.upper (Instruction.register x.val) ≠ "I" := by decide
  exact ⟨hnumber ⟨x, hx⟩, htarget ⟨x, hx⟩, hindex ⟨x, hx⟩⟩

/-- The text names no register and no source of a load. -/
structure NamesByte (s : String) : Prop where
  not_register : registerNumber? s = none
  not_source : Form.loadFrom? (Text.upper s) = none

/-- A hexadecimal number with its mark names nothing. -/
theorem namesByte_hash (digits : String) : NamesByte ("#" ++ digits) := by
  have hchars : ("#" ++ digits).toList = '#' :: digits.toList := by
    rw [String.toList_append]
    rfl
  constructor
  · rw [registerNumber?, hchars]
    split
    · next v d heq =>
      have hv : '#' = v := (List.cons.inj heq).1
      subst hv
      rw [if_neg (by rintro ⟨h | h, -⟩ <;> revert h <;> decide)]
    · rfl
  · have hupper : (Text.upper ("#" ++ digits)).toList =
        '#' :: digits.toList.flatMap Text.upperChar := by
      rw [Text.upper, String.toList_ofList, hchars]
      rfl
    unfold Form.loadFrom?
    split <;> first | rfl | (next heq => rw [heq] at hupper; cases hupper)

namespace Form

variable {first second : String} {x y : Nat}

/-- A jump with two operands is the one that adds a register. -/
theorem selectJump_offset (written target : String) :
    selectJump written ["V0", target] = .ok ⟨.jumpV0, [target]⟩ := by
  rw [selectJump, if_pos (by decide)]

/-- A skip with a number compares with that number. -/
theorem selectSkip_byte (byReg byByte : Op) (hb : NamesByte second) :
    selectSkip byReg byByte [first, second] = ⟨byByte, [first, second]⟩ := by
  simp only [selectSkip, isRegister, hb.not_register, Option.isSome_none, Bool.false_eq_true,
    if_false]

/-- A skip with two registers compares them. -/
theorem selectSkip_reg (byReg byByte : Op) (hy : NamesRegister second y) :
    selectSkip byReg byByte [first, second] = ⟨byReg, [first, second]⟩ := by
  simp only [selectSkip, isRegister, hy.number, Option.isSome_some, if_true]

/-- A load into something that is no register. -/
theorem selectLoad_target {op : Op} (hop : loadTo? (Text.upper first) = some op) :
    selectLoad first second = ⟨op, [second]⟩ := by
  simp only [selectLoad, hop]

/-- A load of a number into a register is the form for a byte. -/
theorem selectLoad_byte (hx : NamesRegister first x) (hb : NamesByte second) :
    selectLoad first second = ⟨.loadByte, [first, second]⟩ := by
  simp only [selectLoad, hx.not_target, isRegister, hb.not_register, hb.not_source,
    Option.isSome_none, Bool.false_eq_true, if_false]

/-- A load of a register into a register is the form for two registers. -/
theorem selectLoad_reg (hx : NamesRegister first x) (hy : NamesRegister second y) :
    selectLoad first second = ⟨.loadReg, [first, second]⟩ := by
  simp only [selectLoad, hx.not_target, isRegister, hy.number, Option.isSome_some, if_true]

/-- A load of anything else into a register. -/
theorem selectLoad_source {op : Op} (hx : NamesRegister first x)
    (hreg : registerNumber? second = none) (hop : loadFrom? (Text.upper second) = some op) :
    selectLoad first second = ⟨op, [first]⟩ := by
  simp only [selectLoad, hx.not_target, isRegister, hreg, hop, Option.isSome_none,
    Bool.false_eq_true, if_false]

/-- A number is added to a register by the form for a byte. -/
theorem selectAdd_byte (hx : NamesRegister first x) (hb : NamesByte second) :
    selectAdd first second = ⟨.addByte, [first, second]⟩ := by
  simp only [selectAdd, if_neg hx.not_index, isRegister, hb.not_register, Option.isSome_none,
    Bool.false_eq_true, if_false]

/-- A register is added to a register by the form for two registers. -/
theorem selectAdd_reg (hx : NamesRegister first x) (hy : NamesRegister second y) :
    selectAdd first second = ⟨.addReg, [first, second]⟩ := by
  simp only [selectAdd, if_neg hx.not_index, isRegister, hy.number, Option.isSome_some, if_true]

/-- The operands of a printed instruction have the form of its operation, and keep the texts of its
fields. -/
theorem select_operands {i : Instruction} (hi : i.Fits) (hop : i.op ≠ .invalid)
    (label : Option String) (shiftsVy : Bool) :
    select shiftsVy i.op.mnemonic i.op.mnemonic (i.operands label shiftsVy) =
      .ok ⟨i.op, i.fieldTexts label shiftsVy⟩ := by
  have hx : NamesRegister (Instruction.register i.vx) i.vx.toNat := by
    have h := namesRegister_register (x := i.vx.toNat) (by have := hi.vx_lt; omega)
    rwa [Int.toNat_of_nonneg hi.vx_nonneg] at h
  have hy : NamesRegister (Instruction.register i.vy) i.vy.toNat := by
    have h := namesRegister_register (x := i.vy.toNat) (by have := hi.vy_lt; omega)
    rwa [Int.toNat_of_nonneg hi.vy_nonneg] at h
  have hb := namesByte_hash (Text.hex 2 i.byte)
  obtain ⟨op, vx, vy, address, byte, nibble, word⟩ := i
  cases op with
  | invalid => exact absurd rfl hop
  | skipEqByte => exact congrArg Except.ok (selectSkip_byte .skipEqReg .skipEqByte hb)
  | skipNeByte => exact congrArg Except.ok (selectSkip_byte .skipNeReg .skipNeByte hb)
  | skipEqReg => exact congrArg Except.ok (selectSkip_reg .skipEqReg .skipEqByte hy)
  | skipNeReg => exact congrArg Except.ok (selectSkip_reg .skipNeReg .skipNeByte hy)
  | loadByte => exact congrArg Except.ok (selectLoad_byte hx hb)
  | loadReg => exact congrArg Except.ok (selectLoad_reg hx hy)
  | readDelay | awaitKey | readRegs | restoreFlags =>
    exact congrArg Except.ok (selectLoad_source hx rfl rfl)
  | loadIndex | writeDelay | writeSound | pointDigit | pointBigDigit | storeDecimal | storeRegs
  | saveFlags => exact congrArg Except.ok (selectLoad_target rfl)
  | addByte => exact congrArg Except.ok (selectAdd_byte hx hb)
  | addReg => exact congrArg Except.ok (selectAdd_reg hx hy)
  | addIndex => exact congrArg Except.ok (if_pos (by decide))
  | jumpV0 => exact selectJump_offset "JP" _
  | shiftRight | shiftLeft => cases shiftsVy <;> rfl
  | _ => rfl

end Form

end SuperChip
