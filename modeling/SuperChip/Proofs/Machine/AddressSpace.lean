import SuperChip.Proofs.Machine.Run
import SuperChip.Proofs.Machine.Waiting

/-!
# The address space

A load at an address that counts from the end can leave memory longer than the addresses reach. What
lies behind the last address is never read or written: an instruction (`outcome_cut`) and a step
(`step_cut`) do the same on a machine whose memory is cut to the address space. So bytes behind the
address space do not bring a machine to a fault (`WellFormed.step_of_cut`).
-/

set_option autoImplicit false

namespace SuperChip

/-- Bytes that fit a stretch are written the same way before and after it is cut out. -/
theorem Bytes.overwrite_extract (b : Bytes) {n start : Nat} {data : List UInt8}
    (h : start + data.length ≤ n) :
    Bytes.overwrite (b.extract 0 n) start data = (b.overwrite start data).extract 0 n := by
  apply Array.ext_getElem?
  intro k
  simp only [Bytes.getElem?_overwrite, Array.getElem?_extract, Array.size_extract,
    Bytes.size_overwrite]
  grind

namespace Machine

variable {m : Machine}

/-- The machine with its memory cut to the address space. -/
def cut (m : Machine) : Machine := { m with memory := m.memory.extract 0 memorySize }

/-- Whatever its bytes are, memory only has to be as long as the address space. -/
theorem WellFormed.setMemory (h : m.WellFormed) {memory : Bytes}
    (hsize : memory.size = memorySize) :
    ({ m with memory } : Machine).WellFormed :=
  { h with memory_size := hsize }

/-- Cutting memory to the address space leaves a machine sized, and does not make one sized. -/
theorem sized_cut_iff : m.cut.Sized ↔ m.Sized := by
  have hsize : (m.memory.extract 0 memorySize).size = min memorySize m.memory.size := by
    rw [Array.size_extract, Nat.sub_zero]
  constructor
  · intro h
    have hmemory : memorySize ≤ (m.memory.extract 0 memorySize).size := h.memory
    exact { h with memory := by omega }
  · intro h
    have hmemory := h.memory
    have hcut : memorySize ≤ (m.memory.extract 0 memorySize).size := by omega
    exact { h with memory := hcut }

/-- A well-formed machine is well-formed with its memory cut. -/
theorem WellFormed.cut (h : m.WellFormed) : m.cut.WellFormed := by
  have hsize : (m.memory.extract 0 memorySize).size = memorySize := by
    rw [Array.size_extract, h.memory_size]
    omega
  exact h.setMemory hsize

/-! ## Reading -/

/-- Inside the address space the bytes are the same. -/
theorem getElem?_cut {a : Nat} (h : a < memorySize) : m.cut.memory[a]? = m.memory[a]? := by
  simp only [cut, Array.getElem?_extract]
  grind

/-- A byte of the address space is the same with memory cut. -/
theorem byteAt_cut (address : Nat) : m.cut.byteAt address = m.byteAt address := by
  have hlt : address % memorySize < memorySize := Nat.mod_lt _ (by decide)
  simp only [byteAt, Array.getD_eq_getD_getElem?, getElem?_cut hlt]

/-- A sprite is read from the address space. -/
theorem sprite_cut (height : Nat) : m.cut.sprite height = m.sprite height := by
  have hindex : m.cut.index = m.index := rfl
  simp only [sprite, byteAt_cut, hindex]

/-- An instruction is fetched from the address space. -/
theorem current?_cut (h0 : 0 ≤ m.pc) (hlt : m.pc < memorySize) (c : Config) :
    m.cut.current? c = m.current? c := by
  obtain ⟨a, ha⟩ := Int.eq_ofNat_of_zero_le h0
  have hpc : m.cut.pc = m.pc := rfl
  rw [ha] at hlt
  have hfirst : a < memorySize := by omega
  have hsecond : (a + 1) % memorySize < memorySize := Nat.mod_lt _ (by decide)
  have hwrap : ((a : Int) + 1) % memorySize = ((a + 1) % memorySize : Nat) := by
    rw [Int.natCast_emod]
    rfl
  simp only [current?, wordAt?, hpc, ha, hwrap, Cells.at?_natCast, getElem?_cut hfirst,
    getElem?_cut hsecond]

/-! ## One instruction -/

/-- Cutting memory leaves the registers. -/
@[simp] theorem reg_cut (x : Int) : m.cut.reg x = m.reg x := rfl

/-- Cutting memory leaves the first registers. -/
@[simp] theorem upTo_cut (x : Int) : m.cut.upTo x = m.upTo x := rfl

/-- Cutting memory leaves the display. -/
@[simp] theorem display_cut : m.cut.display = m.display := rfl

/-- What is stored in the address space is stored the same way with memory cut. -/
theorem overwrite_cut (start : Nat) {data : List UInt8} (h : start + data.length ≤ memorySize) :
    { m.cut with memory := m.cut.memory.overwrite start data } =
      cut { m with memory := m.memory.overwrite start data } := by
  simp only [cut, Bytes.overwrite_extract m.memory h]

/-- A stretch of the address space is the same with memory cut. -/
theorem extract_cut {start stop : Nat} (h : stop ≤ memorySize) :
    m.cut.memory.extract start stop = m.memory.extract start stop := by
  simp only [cut, Array.extract_extract, Nat.zero_add, Nat.min_eq_left h]

/-- Another display and a cut of memory do not meet. -/
theorem present_cut (d : Display) : m.cut.present d = (m.present d).cut := rfl

/-- Cutting memory leaves the index register. -/
@[simp] theorem index_cut : m.cut.index = m.index := rfl

/-- Cutting memory leaves the return addresses. -/
@[simp] theorem stack_cut : m.cut.stack = m.stack := rfl

/-- Cutting memory leaves the keypad. -/
@[simp] theorem keypad_cut : m.cut.keypad = m.keypad := rfl

/-- Replacing registers and a cut of memory do not meet. -/
theorem setFirst_cut (x : Int) (values : Cells Nat) :
    m.cut.setFirst x values = (m.setFirst x values).cut := rfl

/-- Advancing the index register and a cut of memory do not meet. -/
theorem advance_cut (c : Config) (x : Int) : m.cut.advance c x = (m.advance c x).cut := by
  unfold advance
  split <;> rfl

/-- A sprite is drawn the same way with memory cut. -/
theorem drawSprite_cut (x y height : Nat) :
    m.cut.drawSprite x y height = (m.drawSprite x y height).cut := by
  unfold drawSprite
  rw [sprite_cut, display_cut]
  generalize m.display.draw x y (if height = 0 then 16 else 8) (m.sprite height) = drawn
  rfl

/-- A draw or scroll takes effect the same way with memory cut. -/
theorem effect_cut (i : Instruction) : effect i m.cut = (effect i m).cut := by
  simp only [effect, display_cut, present_cut, reg_cut, drawSprite_cut]
  split <;> rfl

/-- The gate does not look at memory. -/
theorem gate_cut (c : Config) : m.cut.gate c = ((m.gate c).1, (m.gate c).2.cut) := by
  dsimp only [gate, cut]
  split
  · rfl
  · split
    · split <;> rfl
    · rfl

/-- A draw or scroll waits or takes effect the same way with memory cut. -/
theorem gated_cut (c : Config) (i : Instruction) :
    m.cut.gated c (effect i) = (m.gated c (effect i)).cut := by
  simp only [gated_eq, gate_cut, effect_cut]
  cases (m.gate c).1 <;> rfl

/-- An instruction has the same outcome on the machine with its memory cut. -/
theorem outcome_cut (hm : m.Sized) {i : Instruction} (hi : i.Fits) (c : Config) (random : Int) :
    m.cut.outcome c random i = (m.outcome c random i).map cut := by
  cases hgated : i.op.isGated with
  | true =>
    rw [outcome_of_isGated c random hgated, outcome_of_isGated c random hgated, gated_cut]
    rfl
  | false =>
  unfold outcome
  cases hop : i.op
  case draw | scrollDown | scrollRight | scrollLeft =>
    rw [hop] at hgated
    cases hgated
  case ret =>
    dsimp only [stack_cut]
    cases m.stack <;> rfl
  case awaitKey =>
    dsimp only [keypad_cut]
    cases m.keypad.takeLowest? <;> rfl
  case jumpV0 =>
    dsimp only [reg_cut]
    split
    · rfl
    · split <;> rfl
  -- what is written or read lies in the address space, or the instruction aborts
  case storeDecimal =>
    dsimp only [index_cut, reg_cut]
    split
    · next hout => exact if_pos hout
    · next hinside =>
      refine (if_neg hinside).trans ?_
      cases hbytes : bytesOf? (decimalDigits (m.reg i.vx)) with
      | none => rfl
      | some digits =>
        have hlength : digits.length = 3 := length_bytesOf? hbytes
        exact congrArg (fun m => Except.ok (next m)) (overwrite_cut m.index (by omega))
  case storeRegs =>
    dsimp only [index_cut, upTo_cut]
    split
    · next hout => exact if_pos hout
    · next hinside =>
      refine (if_neg hinside).trans ?_
      cases hbytes : bytesOf? (m.upTo i.vx) with
      | none => rfl
      | some bytes =>
        have hlength : bytes.length = i.vx.toNat + 1 := by
          rw [length_bytesOf? hbytes, hm.length_upTo hi.vx_nonneg hi.vx_lt]
        have hroom : m.index + bytes.length ≤ memorySize := by omega
        have hstored := overwrite_cut (m := m) m.index hroom
        have hadvance := (congrArg (fun m => advance c m i.vx) hstored).trans (advance_cut c i.vx)
        exact congrArg (fun m => Except.ok (next m)) hadvance
  case readRegs =>
    dsimp only [index_cut]
    split
    · next hout => exact if_pos hout
    · next hinside =>
      refine (if_neg hinside).trans ?_
      rw [extract_cut (by omega), setFirst_cut, advance_cut]
      rfl
  case restoreFlags =>
    simp only [setFirst_cut]
    split <;> rfl
  case jump | call | saveFlags =>
    dsimp only
    split <;> rfl
  all_goals rfl

/-! ## One step -/

/-- The timers do not look at memory. -/
theorem updateTimers_cut (c : Config) (now : Int) :
    m.cut.updateTimers c now = (m.updateTimers c now).cut := by
  unfold updateTimers
  split
  · rw [tick_eq, tick_eq]
    rfl
  · rfl

/-- An instruction is taken the same way with memory cut. -/
theorem take_cut (hm : m.Sized) {i : Instruction} (hi : i.Fits) (c : Config) (input : StepInput) :
    m.cut.take c input i = { m.take c input i with machine := (m.take c input i).machine.cut } := by
  rw [take_eq hm hi, take_eq (sized_cut_iff.2 hm) hi, updateTimers_cut,
    outcome_cut (hm.updateTimers c input.ticks) hi]
  cases (m.updateTimers c input.ticks).outcome c input.random i with
  | ok next => rfl
  | error stop => cases stop <;> rfl

/-- A step does the same with memory cut. -/
theorem step_cut (hm : m.Sized) (h0 : 0 ≤ m.pc) (c : Config) (input : StepInput) :
    m.cut.step c input = { m.step c input with machine := (m.step c input).machine.cut } := by
  obtain ⟨machine, rfl, hstep⟩ := step_alike (m := m) (n := m.cut) (R := fun a b => a = b.cut)
    rfl rfl (fun hlt => current?_cut h0 hlt c) rfl rfl fun i hi => ⟨_, rfl, take_cut hm hi c input⟩
  exact hstep

/-- A machine that is well-formed but for what lies behind its address space steps without a fault,
and stays so. -/
theorem WellFormed.step_of_cut (h : m.cut.WellFormed) (c : Config) (input : StepInput) :
    (m.step c input).machine.cut.WellFormed ∧ (m.step c input).fault = none := by
  have hcut : m.cut.step c input =
      { m.step c input with machine := (m.step c input).machine.cut } :=
    step_cut (sized_cut_iff.1 h.sized) (m := m) h.pc_nonneg c input
  obtain ⟨hnext, hfault, -⟩ := h.step c input
  rw [hcut] at hnext hfault
  exact ⟨hnext, hfault⟩

/-- Loading, at whatever address, makes memory no shorter. -/
theorem WellFormed.load_of_cut {n : Machine} {data : Bytes} {address : Int} (h : m.cut.WellFormed)
    (hload : m.load data address = .ok n) : n.cut.WellFormed := by
  unfold Machine.load at hload
  split at hload
  · cases hload
  cases hload
  have hle :=
    Nat.le_trans (sized_cut_iff.1 h.sized).memory (Cells.le_size_splice m.memory data address)
  have hsize : ((m.memory.splice address (address + data.size) data).extract 0 memorySize).size =
      memorySize := by
    rw [Array.size_extract]
    omega
  exact h.setMemory hsize

end Machine

end SuperChip
