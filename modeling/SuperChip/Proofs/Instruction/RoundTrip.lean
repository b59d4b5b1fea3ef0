import SuperChip.Proofs.Instruction.Fields

/-!
# From words to instructions and back

An operation is named by the bits of its word that are fixed; the other bits are fields. Packing the
fields that were read from a word gives the word back.
-/

set_option autoImplicit false

namespace SuperChip

/-- The fixed bits of an operation, and the fields of a word at their places. -/
def Layout.merge (layout : Layout) (base w : Nat) (shiftsVy : Bool) : Nat :=
  let x := 0x100 * (w / 0x100 % 0x10)
  let y := 0x10 * (w / 0x10 % 0x10)
  match layout with
  | .word => w
  | .plain => base
  | .nibble => base + w % 0x10
  | .address => base + w % 0x1000
  | .regByte => base + x + w % 0x100
  | .regReg => base + x + y
  | .regRegNibble => base + x + y + w % 0x10
  | .reg => base + x
  | .shift => if shiftsVy then base + x + y else base + x

/-- A shift word has no second register where shifts read only one. -/
theorem Layout.merge_shift {base w : Nat} {shiftsVy : Bool}
    (hsingle : (shiftsVy || w / 0x10 % 0x10 == 0) = true)
    (hw : base + 0x100 * (w / 0x100 % 0x10) + 0x10 * (w / 0x10 % 0x10) = w) :
    Layout.shift.merge base w shiftsVy = w := by
  cases shiftsVy with
  | true => exact hw
  | false =>
    have hzero : w / 0x10 % 0x10 = 0 := by simpa using hsingle
    rw [hzero] at hw
    exact hw

/-- A word has the fixed bits of the operation that it names. -/
theorem Op.merge_ofWord {w : Nat} (shiftsVy : Bool) (hw : w < 0x10000) :
    (ofWord w shiftsVy).layout.merge (ofWord w shiftsVy).base w shiftsVy = w := by
  fun_cases ofWord w shiftsVy
  all_goals simp only [layout, base]
  all_goals first
    | rfl
    | exact Layout.merge_shift ‹_› (by omega)
    | (simp only [Layout.merge]; omega)

/-- Twelve bits are open beside the base of an operation, or its lower byte is fixed. -/
theorem Op.base_le (op : Op) : op.base ≤ 0xF000 ∨ op.layout = .reg ∧ op.base ≤ 0xF0FF := by
  cases op <;> decide

namespace Instruction

/-- A number that fits is not cut. -/
theorem cut_natCast {n size : Nat} (h : n < size) : cut n size = n := by
  unfold cut
  rw [← Int.natCast_emod, Int.toNat_natCast, Nat.mod_eq_of_lt h]

/-- Packing the fields that were read from a word puts them at their places. -/
theorem encode_unpack_eq_merge (op : Op) {w : Nat} (shiftsVy : Bool) (hw : w < 0x10000) :
    (unpack op w shiftsVy).encode shiftsVy = op.layout.merge op.base w shiftsVy := by
  have hx : w / 0x100 % 0x10 < 0x10 := Nat.mod_lt _ (by decide)
  have hy : w / 0x10 % 0x10 < 0x10 := Nat.mod_lt _ (by decide)
  unfold unpack
  cases hl : op.layout with
  | shift =>
    cases shiftsVy <;>
      simp only [Bool.false_eq_true, if_false, if_true, encode, hl, Layout.merge, cut_natCast hx,
        cut_natCast hy]
  | _ =>
    simp only [encode, hl, Layout.merge, cut_natCast hx, cut_natCast hy, cut_natCast hw,
      cut_natCast (Nat.mod_lt w (show 0x10 > 0 by decide)),
      cut_natCast (Nat.mod_lt w (show 0x100 > 0 by decide)),
      cut_natCast (Nat.mod_lt w (show 0x1000 > 0 by decide))]

/-- A number that is cut fits. -/
theorem cut_lt (n : Int) (size : Nat) (h : 0 < size) : cut n size < size := by
  unfold cut
  have h0 := Int.emod_nonneg n (show (size : Int) ≠ 0 by omega)
  have hlt := Int.emod_lt_of_pos n (show 0 < (size : Int) by omega)
  omega

/-- The word of an instruction has sixteen bits, whatever its fields are. -/
theorem encode_lt (i : Instruction) (shiftsVy : Bool) : i.encode shiftsVy < 0x10000 := by
  have hx := cut_lt i.vx 0x10 (by decide)
  have hy := cut_lt i.vy 0x10 (by decide)
  have haddress := cut_lt i.address 0x1000 (by decide)
  have hbyte := cut_lt i.byte 0x100 (by decide)
  have hnibble := cut_lt i.nibble 0x10 (by decide)
  have hword := cut_lt i.word 0x10000 (by decide)
  have hbase := i.op.base_le
  unfold encode
  cases hlayout : i.op.layout
  all_goals
    simp only [hlayout, reduceCtorEq, false_and, true_and, or_false] at hbase ⊢
  case shift => split <;> omega
  all_goals omega

/-- A word that is unpacked is encoded as itself. -/
theorem encode_unpack {w : Nat} (shiftsVy : Bool) (hw : w < 0x10000) :
    (unpack (.ofWord w shiftsVy) w shiftsVy).encode shiftsVy = w := by
  rw [encode_unpack_eq_merge _ _ hw, Op.merge_ofWord shiftsVy hw]

end Instruction

end SuperChip
