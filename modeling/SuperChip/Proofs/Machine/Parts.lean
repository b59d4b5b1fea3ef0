import SuperChip.Machine.Execute
import SuperChip.Proofs.Bytes
import SuperChip.Proofs.EState

/-!
# Machines with all their parts

A machine is sized if it has all its registers and flags, and memory is no shorter than the address
space. On a sized machine the primitives of the instructions have no fault: a register is read and
set, a byte of the address space stored and a sprite read as the functions of this module say
(`Effect.reg_eq`, `Effect.setReg_eq`, `Effect.setByte_eq`, `Effect.drawSprite_eq`).
-/

set_option autoImplicit false

namespace SuperChip

open EState

namespace Machine

variable {m : Machine}

/-- A machine with all its registers and flags, its memory no shorter than the address space. -/
structure Sized (m : Machine) : Prop where
  memory : memorySize ≤ m.memory.size
  registers : m.registers.size = registerCount
  flags : m.flags.size = flagCount

/-! ## Registers -/

/-- The number in a register, zero where there is no such register. -/
def reg (m : Machine) (x : Int) : Nat := m.registers.getD x.toNat 0

/-- The machine with one register set, if it has that register. -/
def setReg (m : Machine) (x : Int) (value : Nat) : Machine :=
  { m with registers := m.registers.setIfInBounds x.toNat value }

/-- The machine with a register set to a byte and then the flag register to `flag`, which stays
where the two are one. -/
def setWithFlag (m : Machine) (x value : Int) (flag : Bool) : Machine :=
  (m.setReg x (value % 0x100).toNat).setReg flagRegister flag.toNat

/-- The registers from the first one up to number `x`. -/
def upTo (m : Machine) (x : Int) : List Nat := (m.registers.slice 0 (x + 1)).toList

/-- The machine with the registers up to number `x` replaced. -/
def setFirst (m : Machine) (x : Int) (values : Cells Nat) : Machine :=
  { m with registers := m.registers.splice 0 (x + 1) values }

/-- Setting a register changes that register and no other. -/
theorem reg_setReg (m : Machine) (x y : Int) (value : Nat) :
    (m.setReg x value).reg y =
      if x.toNat = y.toNat ∧ x.toNat < m.registers.size then value else m.reg y := by
  simp only [reg, setReg, Array.getD_eq_getD_getElem?, Array.getElem?_setIfInBounds]
  by_cases heq : x.toNat = y.toNat
  · by_cases hlt : x.toNat < m.registers.size
    · simp [← heq, hlt]
    · simp [← heq, hlt]
  · simp [heq]

/-- Setting a register leaves a machine sized. -/
theorem Sized.setReg (h : m.Sized) (x : Int) (value : Nat) : (m.setReg x value).Sized :=
  { h with registers := Array.size_setIfInBounds.trans h.registers }

/-- The registers up to a number are as many as were asked for. -/
theorem Sized.length_upTo (h : m.Sized) {x : Int} (h0 : 0 ≤ x) (hx : x < 0x10) :
    (m.upTo x).length = x.toNat + 1 := by
  have hsize : m.registers.size = 16 := h.registers
  rw [upTo, Cells.slice_first m.registers (by omega) (by omega), Array.length_toList,
    Array.size_extract]
  omega

/-! ## Sprites -/

/-- The byte at an address, which wraps around at the end of the address space. -/
def byteAt (m : Machine) (address : Nat) : Nat := (m.memory.getD (address % memorySize) 0).toNat

/-- The rows of the sprite at the index register: sixteen rows of two bytes if `height` is zero,
else `height` rows of one byte. -/
def sprite (m : Machine) (height : Nat) : List Nat :=
  if height = 0 then
    (List.range 16).map fun row =>
      0x100 * m.byteAt (m.index + 2 * row) + m.byteAt (m.index + 2 * row + 1)
  else (List.range height).map fun row => m.byteAt (m.index + row)

/-- Draws the sprite at the index register; the flag register tells of a collision. -/
def drawSprite (m : Machine) (x y height : Nat) : Machine :=
  let width := if height = 0 then 16 else 8
  let (display, hit) := m.display.draw x y width (m.sprite height)
  (m.present display).setReg flagRegister hit.toNat

/-- Where memory is as long as the address space, every address meets a byte. -/
theorem byteAt?_eq (h : memorySize ≤ m.memory.size) (address : Nat) :
    m.byteAt? address = some (m.byteAt address) := by
  have hlt : address % memorySize < m.memory.size :=
    Nat.lt_of_lt_of_le (Nat.mod_lt _ memorySize_pos) h
  rw [byteAt?, byteAt, Cells.at?_natCast, Array.getElem?_eq_getElem hlt,
    Array.getD_eq_getD_getElem?, Array.getElem?_eq_getElem hlt]
  rfl

end Machine

namespace Display

/-- Rows past the bottom of the display are not drawn. -/
theorem drawRows_take (d : Display) (hit : Bool) (y : Nat) (rows : List PixelRow) :
    d.drawRows hit y (rows.take (displayHeight - y)) = d.drawRows hit y rows := by
  induction rows generalizing d hit y with
  | nil => simp
  | cons r rest ih =>
    by_cases hy : y < displayHeight
    · obtain ⟨k, hk⟩ : ∃ k, displayHeight - y = k + 1 := ⟨displayHeight - y - 1, by omega⟩
      have hk' : displayHeight - (y + 1) = k := by omega
      rw [hk, List.take_succ_cons, drawRows, drawRows, ← ih, hk']
    · -- a row past the bottom meets no pixel, and so do those below it
      have hnone : displayHeight - y = 0 := by omega
      have hnone' : displayHeight - (y + 1) = 0 := by omega
      have hrow : d.row y = 0 := row_eq_zero d (by omega)
      have hset : d.setRow y (0 ^^^ r) = d := by
        simp only [setRow]
        rw [Vector.setIfInBounds_eq_of_size_le (by omega)]
      rw [hnone, List.take_zero, drawRows, drawRows, hrow, hset, ← ih, hnone', List.take_zero,
        drawRows]
      simp

/-- Rows of a sprite past the bottom of the display are not drawn. -/
theorem draw_take (d : Display) (x y width : Nat) (rows : List Nat) :
    d.draw x y width (rows.take (displayHeight - y)) = d.draw x y width rows := by
  rw [draw, draw, List.map_take, drawRows_take]

end Display

namespace Machine

variable {m : Machine}

/-- Where memory is as long as the address space, the rows that lie on the display are read. -/
theorem sprite?_eq (h : memorySize ≤ m.memory.size) (y height : Nat) :
    m.sprite? y height = some ((m.sprite height).take (displayHeight - y)) := by
  have hread : ∀ f : Nat → Nat, (∀ row, m.spriteRow? height row = some (f row)) → ∀ n : Nat,
      (List.range n).mapM (m.spriteRow? height) = some ((List.range n).map f) := by
    intro f hf n
    rw [show m.spriteRow? height = fun row => some (f row) from funext hf]
    exact List.mapM_pure
  unfold sprite? sprite
  split
  · next hzero =>
    rw [hread (fun row => 0x100 * m.byteAt (m.index + 2 * row) + m.byteAt (m.index + 2 * row + 1))]
    · rw [← List.map_take, List.take_range, Nat.min_comm]
    · intro row
      rw [spriteRow?, if_pos hzero, byteAt?_eq h, byteAt?_eq h]
  · next hbyte =>
    rw [hread (fun row => m.byteAt (m.index + row))]
    · rw [← List.map_take, List.take_range, Nat.min_comm]
    · intro row
      rw [spriteRow?, if_neg hbyte, byteAt?_eq h]

end Machine

/-! ## Primitives of the instructions -/

namespace Effect

open Machine

variable {m : Machine} {x : Int}

/-- What is there is gone on with. -/
theorem orFault_some {α : Type} (cause : Fault) (v : α) :
    orFault cause (some v) m = .ok v m := rfl

/-- A register that a sized machine has is read. -/
theorem reg_eq (h : m.Sized) (h0 : 0 ≤ x) (hx : x < 0x10) : reg x m = .ok (m.reg x) m := by
  obtain ⟨n, rfl⟩ := Int.eq_ofNat_of_zero_le h0
  have hsize : m.registers.size = 16 := h.registers
  have hlt : n < m.registers.size := by omega
  rw [reg, get_bind, Cells.at?_natCast, Array.getElem?_eq_getElem hlt, orFault_some, Machine.reg,
    Array.getD_eq_getD_getElem?, Int.toNat_natCast, Array.getElem?_eq_getElem hlt, Option.getD_some]

/-- A register that a sized machine has is set. -/
theorem setReg_eq (h : m.Sized) (h0 : 0 ≤ x) (hx : x < 0x10) (value : Nat) :
    setReg x value m = .ok () (m.setReg x value) := by
  obtain ⟨n, rfl⟩ := Int.eq_ofNat_of_zero_le h0
  have hsize : m.registers.size = 16 := h.registers
  rw [setReg, get_bind, Cells.set?_natCast m.registers (by omega), bind_of_ok (orFault_some _ _)]
  rfl

/-- A register that a sized machine has is set, and then the flag register. -/
theorem setWithFlag_eq (h : m.Sized) (h0 : 0 ≤ x) (hx : x < 0x10) (value : Int) (flag : Bool) :
    setWithFlag x value flag m = .ok () (m.setWithFlag x value flag) := by
  rw [setWithFlag, bind_of_ok (setReg_eq h h0 hx _)]
  exact setReg_eq (h.setReg x _) (by decide) (by decide) _

/-- A number that fits a byte is stored at an address of memory. -/
theorem setByte_eq {a value : Nat} (ha : a < m.memory.size) (hvalue : value < 0x100) :
    setByte a value m = .ok () { m with memory := m.memory.setIfInBounds a (.ofNat value) } := by
  rw [setByte, get_bind, byteOf?, if_pos hvalue, bind_of_ok (orFault_some _ _),
    Cells.set?_natCast m.memory ha, bind_of_ok (orFault_some _ _)]
  rfl

/-- A number that does not fit a byte is not stored. -/
theorem setByte_of_not_byte {address : Int} {value : Nat} (hvalue : ¬value < 0x100) :
    setByte address value m = .error (.fault .digitTooBig) m := by
  rw [setByte, get_bind, byteOf?, if_neg hvalue]
  rfl

/-- Where memory is as long as the address space, a sprite is drawn. -/
theorem drawSprite_eq (h : memorySize ≤ m.memory.size) (x y height : Nat) :
    drawSprite x y height m =
      .ok (m.display.draw x y (if height = 0 then 16 else 8) (m.sprite height)).2
        (m.present (m.display.draw x y (if height = 0 then 16 else 8) (m.sprite height)).1) := by
  rw [drawSprite, get_bind, sprite?_eq h, bind_of_ok (orFault_some _ _), Display.draw_take]
  rfl

end Effect

end SuperChip
