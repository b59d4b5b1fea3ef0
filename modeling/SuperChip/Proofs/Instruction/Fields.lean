import SuperChip.Instruction.Codec

/-!
# The fields of decoded instructions

The fields of a decoded instruction fit their places: registers and nibbles are below sixteen,
addresses below 0x1000, bytes below 0x100. Whoever executes or prints a decoded instruction may
rely on it.
-/

set_option autoImplicit false

namespace SuperChip.Instruction

/-- Every field of an instruction fits its place in a word. -/
structure Fits (i : Instruction) : Prop where
  vx_nonneg : 0 ≤ i.vx
  vx_lt : i.vx < 0x10
  vy_nonneg : 0 ≤ i.vy
  vy_lt : i.vy < 0x10
  address_nonneg : 0 ≤ i.address
  address_lt : i.address < 0x1000
  byte_nonneg : 0 ≤ i.byte
  byte_lt : i.byte < 0x100
  nibble_nonneg : 0 ≤ i.nibble
  nibble_lt : i.nibble < 0x10
  word_nonneg : 0 ≤ i.word
  word_lt : i.word < 0x10000

/-- Whether the fields of an instruction fit can be looked up. -/
instance (i : Instruction) : Decidable i.Fits :=
  decidable_of_iff
    (((0 ≤ i.vx ∧ i.vx < 0x10) ∧ 0 ≤ i.vy ∧ i.vy < 0x10) ∧
      ((0 ≤ i.address ∧ i.address < 0x1000) ∧ 0 ≤ i.byte ∧ i.byte < 0x100) ∧
      (0 ≤ i.nibble ∧ i.nibble < 0x10) ∧ 0 ≤ i.word ∧ i.word < 0x10000)
    ⟨fun ⟨⟨⟨hx0, hx⟩, hy0, hy⟩, ⟨⟨ha0, ha⟩, hb0, hb⟩, ⟨hn0, hn⟩, hw0, hw⟩ =>
        ⟨hx0, hx, hy0, hy, ha0, ha, hb0, hb, hn0, hn, hw0, hw⟩,
      fun ⟨hx0, hx, hy0, hy, ha0, ha, hb0, hb, hn0, hn, hw0, hw⟩ =>
        ⟨⟨⟨hx0, hx⟩, hy0, hy⟩, ⟨⟨ha0, ha⟩, hb0, hb⟩, ⟨hn0, hn⟩, hw0, hw⟩⟩

/-- The fields are read for the operation itself. -/
@[simp] theorem op_unpack (op : Op) (w : Nat) (shiftsVy : Bool) :
    (unpack op w shiftsVy).op = op := by
  unfold unpack
  cases op.layout with
  | shift => cases shiftsVy <;> rfl
  | _ => rfl

/-- The fields read from a 16-bit word fit, whatever the operation. -/
theorem fits_unpack (op : Op) {w : Nat} (shiftsVy : Bool) (hw : w < 0x10000) :
    (unpack op w shiftsVy).Fits := by
  unfold unpack
  cases op.layout with
  | shift =>
    cases shiftsVy <;> constructor <;> simp <;> omega
  | _ => constructor <;> simp <;> omega

/-- A number is cut to a word. -/
theorem toNat_mod_lt (word : Int) : (word % 0x10000).toNat < 0x10000 := by
  have h0 := Int.emod_nonneg word (show (0x10000 : Int) ≠ 0 by decide)
  have h1 := Int.emod_lt_of_pos word (show (0 : Int) < 0x10000 by decide)
  omega

/-- The fields of a decoded word fit. -/
theorem fits_decode (word : Int) (shiftsVy : Bool) : (decode word shiftsVy).Fits :=
  fits_unpack _ _ (toNat_mod_lt word)

end SuperChip.Instruction
