import SuperChip.Proofs.Machine.Step

/-!
# Well-formed machines

A machine is well-formed if memory has its full size, its sixteen registers, eight flags and timers
are bytes, the index register is a 16-bit value, the keypad has sixteen keys, and the program
counter and all return addresses are even addresses. The counter may lie past the end of memory, but
by two bytes at most: a return or a skip at the last address leads there, and the next step halts.
What bounds the counter is that a call saves the address of an instruction that was fetched, so a
return goes at most two bytes past the end.

This module says what the parts of an instruction keep of all that, whatever instruction they belong
to.
-/

set_option autoImplicit false

namespace SuperChip

namespace Machine

/-- The parts of a machine other than its program counter are within their widths. -/
structure Sound (m : Machine) : Prop where
  memory_size : m.memory.size = memorySize
  registers_size : m.registers.size = registerCount
  register_lt : ∀ v ∈ m.registers, v < 0x100
  flags_size : m.flags.size = flagCount
  flag_lt : ∀ v ∈ m.flags, v < 0x100
  delay_lt : m.delay < 0x100
  sound_lt : m.sound < 0x100
  index_lt : m.index < 0x10000
  keys_lt : m.keypad.bits < 0x10000
  stack_even : ∀ a ∈ m.stack, a % 2 = 0
  stack_nonneg : ∀ a ∈ m.stack, 0 ≤ a
  stack_lt : ∀ a ∈ m.stack, a < memorySize

/-- A machine whose program counter is even and at most two bytes past the end of memory. -/
structure WellFormed (m : Machine) : Prop extends Sound m where
  pc_even : m.pc % 2 = 0
  pc_nonneg : 0 ≤ m.pc
  pc_le : m.pc ≤ memorySize + 2

/-- A machine whose program counter is the even address of a word of memory. -/
structure Ready (m : Machine) : Prop extends Sound m where
  pc_even : m.pc % 2 = 0
  pc_nonneg : 0 ≤ m.pc
  pc_lt : m.pc < memorySize

/-- An instruction ends in a well-formed machine or aborts; it has no fault. -/
def Ends : Except Stop Machine → Prop
  | .ok m => m.WellFormed
  | .error (.abort _) => True
  | .error (.fault _) => False

section Sound

variable {m : Machine}

/-- A sound machine has all its parts. -/
theorem Sound.sized (h : m.Sound) : m.Sized :=
  { memory := Nat.le_of_eq h.memory_size.symm
    registers := h.registers_size
    flags := h.flags_size }

/-- Every register is a byte. -/
theorem Sound.reg_lt (h : m.Sound) (x : Int) : m.reg x < 0x100 := by
  rw [reg, Array.getD_eq_getD_getElem?]
  cases hv : m.registers[x.toNat]? with
  | none => decide
  | some v => exact h.register_lt v (Array.mem_of_getElem? hv)

/-- Setting a register to a byte keeps a machine sound. -/
theorem Sound.setReg (h : m.Sound) (x : Int) {v : Nat} (hv : v < 0x100) :
    (m.setReg x v).Sound := by
  refine { h with
    registers_size := Array.size_setIfInBounds.trans h.registers_size
    register_lt := ?_ }
  intro w hw
  obtain hw | rfl := Array.mem_or_eq_of_mem_setIfInBounds hw
  · exact h.register_lt w hw
  · exact hv

/-- Setting a register and the flag keeps a machine sound. -/
theorem Sound.setWithFlag (h : m.Sound) (x value : Int) (flag : Bool) :
    (m.setWithFlag x value flag).Sound := by
  unfold Machine.setWithFlag
  have hvalue : (value % 0x100).toNat < 0x100 := by
    have := Int.emod_lt_of_pos value (show (0 : Int) < 0x100 by decide)
    omega
  have hflag : flag.toNat < 0x100 := by cases flag <;> decide
  exact (h.setReg x hvalue).setReg flagRegister hflag

/-- A memory of the same size keeps a machine sound. -/
theorem Sound.setMemory (h : m.Sound) {memory : Bytes} (hm : memory.size = m.memory.size) :
    Sound { m with memory } :=
  { h with memory_size := hm.trans h.memory_size }

/-- Showing another display keeps a machine sound. -/
theorem Sound.present (h : m.Sound) (d : Display) : (m.present d).Sound := { h with }

/-- Replacing the first registers by as many bytes keeps a machine sound. -/
theorem Sound.setFirst (h : m.Sound) {i : Instruction} (hi : i.Fits) {values : Cells Nat}
    (hsize : values.size = i.vx.toNat + 1) (hv : ∀ v ∈ values, v < 0x100) :
    (m.setFirst i.vx values).Sound := by
  refine { h with
    registers_size := (h.sized.setFirst hi hsize).registers
    register_lt := fun v hmem => ?_ }
  obtain hold | hnew := Cells.mem_of_mem_splice hmem
  · exact h.register_lt v hold
  · exact hv v hnew

/-- A tick keeps a machine sound: timers only go down. -/
theorem Sound.tick (h : m.Sound) (now : Int) : (m.tick now).Sound := by
  unfold Machine.tick
  have hdelay := h.delay_lt
  have hsound := h.sound_lt
  dsimp only
  split
  · exact { h with }
  · exact { h with
      delay_lt := by dsimp only; omega
      sound_lt := by dsimp only; omega }

/-- Bringing the timers up keeps a machine sound. -/
theorem Sound.updateTimers (h : m.Sound) (c : Config) (now : Int) :
    (m.updateTimers c now).Sound := by
  unfold Machine.updateTimers
  split
  · exact h.tick now
  · exact h

/-- Asking whether a draw may take effect keeps a machine sound. -/
theorem Sound.gate (h : m.Sound) (c : Config) : (m.gate c).2.Sound := by
  unfold Machine.gate
  split
  · exact h
  · split
    · split
      · exact { h with }
      · exact h
    · exact { h with }

end Sound

section Control

variable {m : Machine}

/-- A ready machine is well-formed. -/
theorem Ready.wellFormed (h : m.Ready) : m.WellFormed :=
  { h.toSound with
    pc_even := h.pc_even
    pc_nonneg := h.pc_nonneg
    pc_le := by have := h.pc_lt; omega }

/-- A sound machine at the program counter of a ready one is ready. -/
theorem Ready.of_sound {m' : Machine} (h : m.Ready) (hs : m'.Sound) (hpc : m'.pc = m.pc) :
    m'.Ready :=
  { hs with
    pc_even := hpc ▸ h.pc_even
    pc_nonneg := hpc ▸ h.pc_nonneg
    pc_lt := hpc ▸ h.pc_lt }

/-- A sound machine that goes to an even address, at most two bytes past the end of memory, is
well-formed. -/
theorem Sound.goto (h : m.Sound) {a : Int} (heven : a % 2 = 0) (h0 : 0 ≤ a)
    (hle : a ≤ memorySize + 2) : (m.goto a).WellFormed :=
  { h with pc_even := heven, pc_nonneg := h0, pc_le := hle }

/-- The last address of a word lies two bytes before the end of memory. -/
theorem Ready.pc_le_sub (h : m.Ready) : m.pc ≤ memorySize - 2 := by
  have heven := h.pc_even
  have hlt := h.pc_lt
  simp only [memorySize] at hlt ⊢
  omega

/-- A ready machine may skip an instruction or not. -/
theorem Ready.skipIf (h : m.Ready) (condition : Bool) : (m.skipIf condition).WellFormed := by
  have heven := h.pc_even
  have h0 := h.pc_nonneg
  have hle := h.pc_le_sub
  unfold Machine.skipIf
  cases condition
  · exact h.toSound.goto (by simp; omega) (by simp; omega) (by simp; omega)
  · exact h.toSound.goto (by simp; omega) (by simp; omega) (by simp; omega)

/-- A ready machine may go on to the next instruction. -/
theorem Ready.next (h : m.Ready) : m.next.WellFormed := h.skipIf false

/-- A sound machine at the program counter of a ready one may go on to the next instruction. -/
theorem Ready.next_of_sound {m' : Machine} (h : m.Ready) (hs : m'.Sound) (hpc : m'.pc = m.pc) :
    m'.next.WellFormed :=
  (h.of_sound hs hpc).next

/-- A tick does not move the program counter. -/
@[simp] theorem pc_tick (now : Int) : (m.tick now).pc = m.pc := by
  unfold Machine.tick
  dsimp only
  split <;> rfl

/-- Asking whether a draw may take effect does not move the program counter. -/
@[simp] theorem pc_gate (c : Config) : (m.gate c).2.pc = m.pc := by
  unfold Machine.gate
  split
  · rfl
  · split
    · split <;> rfl
    · rfl

/-- Bringing the timers up keeps a machine ready. -/
theorem Ready.updateTimers (h : m.Ready) (c : Config) (now : Int) :
    (m.updateTimers c now).Ready := by
  unfold Machine.updateTimers
  split
  · exact h.of_sound (h.toSound.tick now) (pc_tick now)
  · exact h

/-- A draw or scroll either waits or has its effect and goes on. -/
theorem Ready.gated (h : m.Ready) (c : Config) {effect : Machine → Machine}
    (hs : ∀ m', m'.Sound → (effect m').Sound) (hpc : ∀ m', (effect m').pc = m'.pc) :
    (m.gated c effect).WellFormed := by
  have hgate : (m.gate c).2.Ready := h.of_sound (h.toSound.gate c) (pc_gate c)
  unfold Machine.gated
  split
  · next m' heq =>
    rw [heq] at hgate
    exact hgate.next_of_sound (hs m' hgate.toSound) (hpc m')
  · next m' heq =>
    rw [heq] at hgate
    exact hgate.wellFormed

/-- Drawing a sprite shows a new display and sets the flag register; nothing else changes. -/
theorem drawSprite_eq (x y height : Nat) :
    ∃ d hit, m.drawSprite x y height = (m.present d).setReg flagRegister (Bool.toNat hit) := by
  unfold Machine.drawSprite
  dsimp only
  exact ⟨_, _, rfl⟩

/-- Drawing a sprite keeps a machine sound. -/
theorem Sound.drawSprite (h : m.Sound) (x y height : Nat) : (m.drawSprite x y height).Sound := by
  obtain ⟨d, hit, heq⟩ := drawSprite_eq (m := m) x y height
  have hflag : hit.toNat < 0x100 := by cases hit <;> decide
  rw [heq]
  exact (h.present d).setReg flagRegister hflag

/-- Drawing a sprite does not move the program counter. -/
@[simp] theorem pc_drawSprite (x y height : Nat) : (m.drawSprite x y height).pc = m.pc := by
  obtain ⟨d, hit, heq⟩ := drawSprite_eq (m := m) x y height
  rw [heq]
  rfl

end Control

end Machine

end SuperChip
