import SuperChip.Proofs.Machine.Control
import SuperChip.Proofs.Machine.Loading
import SuperChip.Proofs.Machine.Run

/-!
# Arithmetic on bytes

An instruction that adds, subtracts or shifts computes a byte from the bytes in its registers, and a
flag that tells what the byte cannot: a carry, that nothing was borrowed, or the bit that was
shifted out. Both are computed before either is stored, and the flag is stored last. So the
registers of the instruction may be one and the same, and the flag register may be among them
(`step_arithmetic`).
-/

set_option autoImplicit false

namespace SuperChip.Machine

variable {c : Config} {m : Machine} {input : StepInput} {i : Instruction} {value : BitVec 8}
  {flag : Bool}

/-- The byte in a register. -/
def byte (m : Machine) (x : Int) : BitVec 8 := .ofNat 8 (m.reg x)

/-- The byte that an arithmetic instruction computes, and its flag. -/
def arithmetic? (c : Config) (m : Machine) (i : Instruction) : Option (BitVec 8 × Bool) :=
  let x := m.byte i.vx
  let y := m.byte i.vy
  let constant := BitVec.ofInt 8 i.byte
  let source := if c.shiftsVy then y else x
  match i.op with
  | .addByte => some (x + constant, 0xFF < x.toNat + constant.toNat)
  | .addReg => some (x + y, 0xFF < x.toNat + y.toNat)
  | .sub => some (x - y, y ≤ x)
  | .subReverse => some (y - x, x ≤ y)
  | .shiftRight => some (source >>> 1, source.getLsbD 0)
  | .shiftLeft => some (source <<< 1, source.getLsbD 7)
  | _ => none

/-- The byte in a register of a sound machine is the number in it. -/
theorem Sound.toNat_byte (h : m.Sound) (x : Int) : (m.byte x).toNat = m.reg x := by
  have hlt := h.reg_lt x
  simp only [byte, BitVec.toNat_ofNat]
  omega

/-! ## Results that are cut to a byte -/

section Cut

variable (x y : BitVec 8)

/-- A sum cut to a byte is the sum of the bytes. -/
theorem add_emod : ((x.toNat : Int) + y.toNat) % 0x100 = (x + y).toNat := by
  rw [BitVec.toNat_add]
  omega

/-- A difference cut to a byte is the difference of the bytes. -/
theorem sub_emod : ((x.toNat : Int) - y.toNat) % 0x100 = (x - y).toNat := by
  have hlt := y.isLt
  rw [BitVec.toNat_sub]
  omega

/-- Half of a byte is the byte shifted to the right. -/
theorem half_emod : ((x.toNat : Int) / 2) % 0x100 = (x >>> 1).toNat := by
  have hlt := x.isLt
  rw [BitVec.toNat_ushiftRight, Nat.shiftRight_eq_div_pow]
  omega

/-- Twice a byte, cut to a byte, is the byte shifted to the left. -/
theorem double_emod : (2 * (x.toNat : Int)) % 0x100 = (x <<< 1).toNat := by
  rw [BitVec.toNat_shiftLeft, Nat.shiftLeft_eq]
  omega

/-- The bit that a shift to the right loses. -/
theorem odd_eq_getLsbD : decide (x.toNat % 2 = 1) = x.getLsbD 0 := by
  rw [BitVec.getLsbD, Nat.testBit_zero]

/-- The bit that a shift to the left loses. -/
theorem upper_eq_getLsbD : decide (x.toNat / 0x80 % 2 = 1) = x.getLsbD 7 := by
  rw [BitVec.getLsbD, Nat.testBit_eq_decide_div_mod_eq]

end Cut

/-! ## One instruction -/

/-- A byte is not cut further. -/
theorem toNat_emod_byte (value : BitVec 8) : (value.toNat : Int) % 0x100 = value.toNat := by
  have hlt := value.isLt
  omega

/-- The number that is stored is cut to a byte. -/
theorem setWithFlag_eq (m : Machine) (x : Int) {number : Int} {carry : Bool}
    (hvalue : number % 0x100 = value.toNat) (hflag : carry = flag) :
    m.setWithFlag x number carry = m.setWithFlag x value.toNat flag := by
  rw [setWithFlag, setWithFlag, hvalue, toNat_emod_byte, hflag]

/-- A register behind an arithmetic instruction. The flag register has the flag, even where it is
the one that takes the byte. -/
theorem reg_setWithFlag (hm : m.Sized) {x : Int} (h0 : 0 ≤ x) (hlt : x < 0x10) (value : BitVec 8)
    (flag : Bool) (k : Nat) :
    (m.setWithFlag x value.toNat flag).reg k =
      if k = flagRegister then flag.toNat else if k = x then value.toNat else m.reg k := by
  have hsize : m.registers.size = 16 := hm.registers
  have hsize' : (m.setReg x value.toNat).registers.size = 16 := (hm.setReg x _).registers
  have hplace : x.toNat = k ∧ x.toNat < 16 ↔ k = x := by omega
  have hflag : flagRegister = k ∧ flagRegister < 16 ↔ k = flagRegister := by
    simp [flagRegister, eq_comm]
  rw [setWithFlag, reg_setReg, reg_setReg, toNat_emod_byte]
  simp only [Int.toNat_natCast, hsize, hsize', hplace, hflag]

/-- An arithmetic instruction stores the byte and then the flag. -/
theorem outcome_arithmetic (h : m.Sound) (hi : i.Fits) (random : Int)
    (harith : m.arithmetic? c i = some (value, flag)) :
    m.outcome c random i = .ok (m.setWithFlag i.vx value.toNat flag).next := by
  have hx := h.toNat_byte i.vx
  have hy := h.toNat_byte i.vy
  have hconstant : ((BitVec.ofInt 8 i.byte).toNat : Int) = i.byte := by
    have hnonneg := hi.byte_nonneg
    have hlt := hi.byte_lt
    rw [BitVec.toNat_ofInt]
    omega
  have hsource : (if c.shiftsVy then m.reg i.vy else m.reg i.vx) =
      (if c.shiftsVy then m.byte i.vy else m.byte i.vx).toNat := by
    split
    · exact hy.symm
    · exact hx.symm
  have hstore {number : Int} {carry : Bool} (hvalue : number % 0x100 = value.toNat)
      (hflag : carry = flag) : Except.ok (m.setWithFlag i.vx number carry).next =
        (Except.ok (m.setWithFlag i.vx value.toNat flag).next : Except Stop Machine) :=
    congrArg (fun m => Except.ok (next m)) (setWithFlag_eq m i.vx hvalue hflag)
  unfold arithmetic? at harith
  dsimp only at harith
  generalize BitVec.ofInt 8 i.byte = constant at hconstant harith
  generalize (if c.shiftsVy then m.byte i.vy else m.byte i.vx) = source at hsource harith
  generalize m.byte i.vx = x at hx harith
  generalize m.byte i.vy = y at hy harith
  cases hop : i.op
  all_goals
    simp only [hop, Option.some.injEq, Prod.mk.injEq, reduceCtorEq] at harith
  -- what is left computes; the numbers in the registers are those of the bytes
  all_goals
    obtain ⟨rfl, rfl⟩ := harith
    simp only [outcome, hop]
  case addByte =>
    rw [← hx, ← hconstant]
    exact hstore (add_emod x constant) (decide_eq_decide.mpr (by omega))
  case addReg =>
    rw [← hx, ← hy]
    exact hstore (add_emod x y) (decide_eq_decide.mpr (by omega))
  case sub =>
    rw [← hx, ← hy]
    exact hstore (sub_emod x y) (decide_eq_decide.mpr BitVec.le_def.symm)
  case subReverse =>
    rw [← hx, ← hy]
    exact hstore (sub_emod y x) (decide_eq_decide.mpr BitVec.le_def.symm)
  case shiftRight =>
    rw [hsource]
    exact hstore (half_emod source) (odd_eq_getLsbD source)
  case shiftLeft =>
    rw [hsource]
    exact hstore (double_emod source) (upper_eq_getLsbD source)

/-- An instruction that adds, subtracts or shifts stores the byte that it computes from the
registers as they were, and then the flag that it computes from the same registers, whichever
registers they are. It goes on to the next instruction and counts as a step. The timers may have
been brought up before it; nothing else changes. -/
theorem step_arithmetic (h : m.WellFormed) (hexecuted : (m.step c input).executed = some i)
    (harith : m.arithmetic? c i = some (value, flag)) :
    (∀ k : Nat, k < 16 → (m.step c input).machine.reg k =
      if k = flagRegister then flag.toNat else if k = i.vx then value.toNat else m.reg k) ∧
    (m.step c input).machine = { m with
      registers := (m.step c input).machine.registers
      pc := m.pc + 2
      steps := m.steps + 1
      delay := (m.updateTimers c input.ticks).delay
      sound := (m.updateTimers c input.ticks).sound
      latch := (m.updateTimers c input.ticks).latch
      ticks := (m.updateTimers c input.ticks).ticks } := by
  obtain ⟨hstep, hi, -⟩ := step_of_executed hexecuted
  obtain ⟨delay, sound, latch, ticks, htimers⟩ := exists_updateTimers c m input.ticks
  have hsound := h.toSound.updateTimers c input.ticks
  rw [htimers] at hsound
  have hexec := outcome_arithmetic hsound hi input.random harith
  rw [hstep, machine_take h.sized hi, htimers, hexec]
  refine ⟨fun k _ => ?_, rfl⟩
  exact reg_setWithFlag hsound.sized hi.vx_nonneg hi.vx_lt value flag k

/-- A shift of the register V3 into the flag register. -/
def shiftIntoFlag : Bytes := #[0x8F, 0x3E]

/-- A byte of 0x81 is shifted to the left into the flag register. The upper bit that it loses is
what the register holds in the end. -/
theorem step_arithmetic_shiftIntoFlag :
    ∃ m₀, (powerOn 0).load shiftIntoFlag programStart = .ok m₀ ∧
      let m := m₀.setReg 3 0x81
      let c : Config := { shiftsVy := true }
      let i : Instruction := { op := .shiftLeft, vx := 0xF, vy := 3 }
      m.WellFormed ∧ (m.step c ⟨0, 0⟩).executed = some i ∧ m.arithmetic? c i = some (0x02, true) ∧
        (m.step c ⟨0, 0⟩).machine.reg 0xF = 1 ∧
        ∀ k : Nat, k < 15 → (m.step c ⟨0, 0⟩).machine.reg k = m.reg k := by
  obtain ⟨m₀, hload, hm₀⟩ :=
    (wellFormed_powerOn 0).load (show shiftIntoFlag.size ≤ programSize by decide)
  have hholds := holds_load hload
  obtain ⟨memory, rfl⟩ := exists_load_powerOn hload
  have hshift : ProgramText.instructionAt ⟨shiftIntoFlag, true⟩ 0 =
      { op := .shiftLeft, vx := 0xF, vy := 3 } := by decide
  let m : Machine := setReg { powerOn 0 with memory } 3 0x81
  have hm : m.WellFormed :=
    { hm₀.toSound.setReg 3 (by decide) with
      pc_even := hm₀.pc_even
      pc_nonneg := hm₀.pc_nonneg
      pc_le := hm₀.pc_le }
  have hexecuted : (m.step { shiftsVy := true } ⟨0, 0⟩).executed =
      some { op := .shiftLeft, vx := 0xF, vy := 3 } := by
    rw [(hholds.of_memory_eq (n := m) rfl).step_eq _ _ (o := 0) rfl rfl (by decide), executed_take,
      hshift]
  have harith : m.arithmetic? { shiftsVy := true } { op := .shiftLeft, vx := 0xF, vy := 3 } =
      some (0x02, true) := by
    have hsource : m.byte 3 = 0x81 := by
      rw [byte, reg_setReg]
      rfl
    simp only [arithmetic?, hsource, if_true]
    rfl
  obtain ⟨hregisters, -⟩ := step_arithmetic hm hexecuted harith
  refine ⟨_, hload, hm, hexecuted, harith, hregisters 15 (by decide), fun k hk => ?_⟩
  have hflag : k ≠ flagRegister := Nat.ne_of_lt hk
  have hdestination : (k : Int) ≠ 0xF := by omega
  rw [hregisters k (by omega), if_neg hflag, if_neg hdestination]

end SuperChip.Machine
