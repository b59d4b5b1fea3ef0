import SuperChip.Proofs.Machine.Keypad
import SuperChip.Proofs.Machine.WellFormed

/-!
# Instructions keep machines well-formed

Each instruction of a ready machine ends in a well-formed machine or aborts, and so does a step.
The block copies are the ones that could leave memory or hold numbers that are no bytes: their
bound is checked against the index register first, and registers of a sound machine are bytes.
-/

set_option autoImplicit false

namespace SuperChip.Machine

variable {m : Machine}

/-- The digits of a byte are bytes. -/
theorem decimalDigits_lt {n : Nat} (h : n < 0x100) : ∀ d ∈ decimalDigits n, d < 0x100 := by
  intro d hd
  simp only [decimalDigits, List.mem_cons, List.not_mem_nil, or_false] at hd
  rcases hd with rfl | rfl | rfl <;> omega

/-- The registers of a sound machine are bytes. -/
theorem Sound.upTo_lt (h : m.Sound) (x : Int) : ∀ v ∈ m.upTo x, v < 0x100 := by
  intro v hv
  exact h.register_lt v (Cells.mem_of_mem_extract (Array.mem_toList_iff.1 hv))

/-- A block copy that stays in memory may advance the index register. -/
theorem Sound.advance (h : m.Sound) (c : Config) {x : Int} (hx : x < 0x10)
    (hi : m.index ≤ memorySize) : (m.advance c x).Sound := by
  unfold Machine.advance
  simp only [memorySize] at hi
  split
  · exact { h with index_lt := by dsimp only; omega }
  · exact h

/-- A register may be set and the next instruction gone on to. -/
theorem Ready.setReg_next (h : m.Ready) (x : Int) {v : Nat} (hv : v < 0x100) :
    (m.setReg x v).next.WellFormed :=
  h.next_of_sound (h.toSound.setReg x hv) rfl

/-- A register and the flag may be set and the next instruction gone on to. -/
theorem Ready.setWithFlag_next (h : m.Ready) (x value : Int) (flag : Bool) :
    (m.setWithFlag x value flag).next.WellFormed :=
  h.next_of_sound (h.toSound.setWithFlag x value flag) rfl

/-- The index may be set and the next instruction gone on to. -/
theorem Ready.setIndex_next (h : m.Ready) {index : Nat} (hi : index < 0x10000) :
    Machine.WellFormed (Machine.next { m with index }) :=
  h.next_of_sound { h.toSound with index_lt := hi } rfl

/-- A return leads at most two bytes past the end of memory. -/
theorem Ready.ends_ret (h : m.Ready) (c : Config) (random : Int) {i : Instruction}
    (hop : i.op = .ret) : Ends (m.outcome c random i) := by
  simp only [outcome, hop]
  cases hstack : m.stack with
  | nil => trivial
  | cons caller stack =>
    have heven := h.stack_even caller (by simp [hstack])
    have h0 := h.stack_nonneg caller (by simp [hstack])
    have hlt := h.stack_lt caller (by simp [hstack])
    have hs : Sound { m with stack } :=
      { h.toSound with
        stack_even := fun a ha => h.stack_even a (by simp [hstack, ha])
        stack_nonneg := fun a ha => h.stack_nonneg a (by simp [hstack, ha])
        stack_lt := fun a ha => h.stack_lt a (by simp [hstack, ha]) }
    exact hs.goto (by omega) (by omega) (by omega)

/-- A jump leads to an even address of memory, or aborts. -/
theorem Ready.ends_jump (h : m.Ready) (c : Config) (random : Int) {i : Instruction}
    (hi : i.Fits) (hop : i.op = .jump) : Ends (m.outcome c random i) := by
  simp only [outcome, hop]
  have h0 := hi.address_nonneg
  have hlt := hi.address_lt
  split
  · next heven => exact h.toSound.goto heven h0 (by simp only [memorySize]; omega)
  · trivial

/-- A call saves the address of a word of memory and leads to another, or aborts. -/
theorem Ready.ends_call (h : m.Ready) (c : Config) (random : Int) {i : Instruction}
    (hi : i.Fits) (hop : i.op = .call) : Ends (m.outcome c random i) := by
  simp only [outcome, hop]
  have h0 := hi.address_nonneg
  have hlt := hi.address_lt
  split
  · next heven =>
    have hs : Sound { m with stack := m.pc :: m.stack } :=
      { h.toSound with
        stack_even := List.forall_mem_cons.mpr ⟨h.pc_even, h.stack_even⟩
        stack_nonneg := List.forall_mem_cons.mpr ⟨h.pc_nonneg, h.stack_nonneg⟩
        stack_lt := List.forall_mem_cons.mpr ⟨h.pc_lt, h.stack_lt⟩ }
    exact hs.goto heven h0 (by simp only [memorySize]; omega)
  · trivial

/-- A jump with the first register leads to an even address of memory, or aborts. -/
theorem Ready.ends_jumpV0 (h : m.Ready) (c : Config) (random : Int) {i : Instruction}
    (hi : i.Fits) (hop : i.op = .jumpV0) : Ends (m.outcome c random i) := by
  simp only [outcome, hop]
  have h0 := hi.address_nonneg
  split
  · trivial
  · next heven =>
    split
    · trivial
    · next hlt => exact h.toSound.goto (by omega) (by omega) (by omega)

/-- Waiting for a key either stays or stores one of sixteen keys. -/
theorem Ready.ends_awaitKey (h : m.Ready) (c : Config) (random : Int) {i : Instruction}
    (hop : i.op = .awaitKey) : Ends (m.outcome c random i) := by
  simp only [outcome, hop]
  cases htake : m.keypad.takeLowest? with
  | none => exact h.wellFormed
  | some taken =>
    obtain ⟨key, keypad⟩ := taken
    obtain ⟨hkey, hbits⟩ := Keypad.takeLowest?_lt h.keys_lt htake
    have hs : Sound { m with keypad } := { h.toSound with keys_lt := hbits }
    exact h.next_of_sound (hs.setReg i.vx (by omega)) rfl

/-- The decimal digits of a register are stored in memory, or the instruction aborts. -/
theorem Ready.ends_storeDecimal (h : m.Ready) (c : Config) (random : Int) {i : Instruction}
    (hop : i.op = .storeDecimal) : Ends (m.outcome c random i) := by
  simp only [outcome, hop]
  split
  · trivial
  · rw [bytesOf?_eq_some (decimalDigits_lt (h.toSound.reg_lt i.vx))]
    exact h.next_of_sound (h.toSound.setMemory (Bytes.size_overwrite _ _ _)) rfl

/-- The first registers are stored in memory, or the instruction aborts. -/
theorem Ready.ends_storeRegs (h : m.Ready) (c : Config) (random : Int) {i : Instruction}
    (hi : i.Fits) (hop : i.op = .storeRegs) : Ends (m.outcome c random i) := by
  simp only [outcome, hop]
  split
  · trivial
  · rw [bytesOf?_eq_some (h.toSound.upTo_lt i.vx)]
    have hs := h.toSound.setMemory (Bytes.size_overwrite m.memory m.index
      ((m.upTo i.vx).map UInt8.ofNat))
    exact h.next_of_sound (hs.advance c hi.vx_lt (by dsimp only; omega)) (pc_advance c i.vx)

/-- As many bytes are read as registers are replaced, or the instruction aborts. -/
theorem Ready.ends_readRegs (h : m.Ready) (c : Config) (random : Int) {i : Instruction}
    (hi : i.Fits) (hop : i.op = .readRegs) : Ends (m.outcome c random i) := by
  simp only [outcome, hop]
  split
  · trivial
  · have hmemory := h.memory_size
    have hsize : (m.memory.extract m.index (m.index + i.vx.toNat + 1)).size = i.vx.toNat + 1 := by
      rw [Array.size_extract]
      omega
    have hbytes : ∀ v ∈ (m.memory.extract m.index (m.index + i.vx.toNat + 1)).map UInt8.toNat,
        v < 0x100 := by
      intro v hv
      obtain ⟨b, -, rfl⟩ := Array.mem_map.mp hv
      exact b.toNat_lt
    have hs := h.toSound.setFirst hi (Array.size_map.trans hsize) hbytes
    exact h.next_of_sound (hs.advance c hi.vx_lt (show m.index ≤ memorySize by omega))
      (pc_advance c i.vx)

/-- Registers are saved in as many flags, or the instruction aborts. -/
theorem Ready.ends_saveFlags (h : m.Ready) (c : Config) (random : Int) {i : Instruction}
    (hi : i.Fits) (hop : i.op = .saveFlags) : Ends (m.outcome c random i) := by
  simp only [outcome, hop]
  split
  · trivial
  · next hflag =>
    have hsize := h.toSound.sized.size_saved hi hflag
    refine h.next_of_sound { h.toSound with flags_size := hsize, flag_lt := ?_ } rfl
    intro v hv
    obtain hold | hnew := Cells.mem_of_mem_splice hv
    · exact h.flag_lt v hold
    · exact h.toSound.upTo_lt i.vx v (List.mem_toArray.1 hnew)

/-- As many registers are restored as there are flags, or the instruction aborts. -/
theorem Ready.ends_restoreFlags (h : m.Ready) (c : Config) (random : Int) {i : Instruction}
    (hi : i.Fits) (hop : i.op = .restoreFlags) : Ends (m.outcome c random i) := by
  simp only [outcome, hop]
  split
  · trivial
  · next hflag =>
    obtain ⟨hslice, hsize⟩ := h.toSound.sized.slice_flags hi hflag
    refine h.next_of_sound (h.toSound.setFirst hi hsize fun v hv => ?_) rfl
    rw [hslice] at hv
    exact h.flag_lt v (Cells.mem_of_mem_extract hv)

/-- Every instruction of a ready machine ends in a well-formed machine or aborts. The cases are the
operations; those that move the program counter, copy blocks or wait have lemmas of their own. -/
theorem Ready.ends_outcome (h : m.Ready) (c : Config) (random : Int) {i : Instruction}
    (hi : i.Fits) : Ends (m.outcome c random i) := by
  have hx := h.toSound.reg_lt i.vx
  have hy := h.toSound.reg_lt i.vy
  have hbyte : i.byte.toNat < 0x100 := by have := hi.byte_lt; omega
  cases hop : i.op
  case ret => exact h.ends_ret c random hop
  case jump => exact h.ends_jump c random hi hop
  case call => exact h.ends_call c random hi hop
  case jumpV0 => exact h.ends_jumpV0 c random hi hop
  case awaitKey => exact h.ends_awaitKey c random hop
  case storeDecimal => exact h.ends_storeDecimal c random hop
  case storeRegs => exact h.ends_storeRegs c random hi hop
  case readRegs => exact h.ends_readRegs c random hi hop
  case saveFlags => exact h.ends_saveFlags c random hi hop
  case restoreFlags => exact h.ends_restoreFlags c random hi hop
  -- what is left sets some part of the machine and goes on to the next instruction
  all_goals simp only [outcome, hop, Ends]
  case invalid => exact h.next
  case clear => exact h.next_of_sound (h.toSound.present _) rfl
  case exit | lowRes | highRes => exact h.next_of_sound { h.toSound with } rfl
  case scrollDown | scrollRight | scrollLeft =>
    exact h.gated c (fun _ hs => hs.present _) (fun _ => pc_present _)
  case draw => exact h.gated c (fun _ hs => hs.drawSprite _ _ _) (fun _ => pc_drawSprite _ _ _)
  case skipEqByte | skipNeByte | skipEqReg | skipNeReg | skipPressed | skipReleased =>
    exact h.skipIf _
  case loadByte => exact h.setReg_next i.vx hbyte
  case loadReg => exact h.setReg_next i.vx hy
  case or => exact h.setReg_next i.vx (Nat.or_lt_two_pow (n := 8) hx hy)
  case and => exact h.setReg_next i.vx (Nat.and_lt_two_pow (n := 8) _ hy)
  case xor => exact h.setReg_next i.vx (Nat.xor_lt_two_pow (n := 8) hx hy)
  case random => exact h.setReg_next i.vx (Nat.and_lt_two_pow (n := 8) _ hbyte)
  case readDelay => exact h.setReg_next i.vx h.delay_lt
  case addByte | addReg | sub | subReverse | shiftRight | shiftLeft =>
    exact h.setWithFlag_next i.vx _ _
  case loadIndex => exact h.setIndex_next (by have := hi.address_lt; omega)
  case addIndex => exact h.setIndex_next (Nat.mod_lt _ (by decide))
  case pointDigit => exact h.setIndex_next (by simp only [Font.smallStart, Font.smallHeight]; omega)
  case pointBigDigit => exact h.setIndex_next (by simp only [Font.bigStart, Font.bigHeight]; omega)
  case writeDelay => exact h.next_of_sound { h.toSound with delay_lt := hx } rfl
  case writeSound => exact h.next_of_sound { h.toSound with sound_lt := hx } rfl

end SuperChip.Machine
