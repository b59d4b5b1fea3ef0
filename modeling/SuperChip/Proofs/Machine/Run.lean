import SuperChip.Proofs.Machine.Execute
import SuperChip.Proofs.Machine.Loading

/-!
# Runs of a loaded machine

A machine is switched on, a program is loaded, and then it takes steps while keys go down and up, in
any order and with any readings of the clock and any random numbers. The main statement is
`run_wellFormed`: every machine on the way is well-formed, its next step has no fault, and the
instruction that the step takes comes from the two bytes at an even address of memory. One step is
`WellFormed.step`, one event `WellFormed.handle`; a run follows by induction on its events.
-/

set_option autoImplicit false

namespace SuperChip

/-- What happens to a machine: a step, with what it reads from outside, or a key. -/
inductive Event where
  | step (input : StepInput)
  | press (key : Int)
  | release (key : Int)
  deriving Repr

namespace Machine

/-- The machine after an event. -/
def handle (c : Config) (m : Machine) : Event → Machine
  | .step input => (m.step c input).machine
  | .press key => m.press key
  | .release key => m.release key

/-- The machine after events, the first one first. -/
def handleAll (c : Config) (m : Machine) (events : List Event) : Machine :=
  events.foldl (handle c) m

/-- A property of the machine and the input holds at every step of a run. -/
def EveryStep (c : Config) (P : Machine → StepInput → Prop) (m : Machine) : List Event → Prop
  | [] => True
  | .step input :: rest => P m input ∧ EveryStep c P (m.step c input).machine rest
  | e :: rest => EveryStep c P (m.handle c e) rest

/-- What happens one after the other may be handled in two stretches. -/
theorem handleAll_append (c : Config) (m : Machine) (before behind : List Event) :
    m.handleAll c (before ++ behind) = (m.handleAll c before).handleAll c behind :=
  List.foldl_append

/-- Every step of a run is a step of its first stretch or of the rest. -/
theorem everyStep_append {c : Config} {m : Machine} {P : Machine → StepInput → Prop}
    (before behind : List Event) :
    m.EveryStep c P (before ++ behind) ↔
      m.EveryStep c P before ∧ (m.handleAll c before).EveryStep c P behind := by
  induction before generalizing m with
  | nil => simp [EveryStep, handleAll]
  | cons e rest ih =>
    cases e with
    | step input => exact (and_congr_right fun _ => ih).trans and_assoc.symm
    | press key => exact ih (m := m.press key)
    | release key => exact ih (m := m.release key)

/-- The instruction `i` is the word at the program counter: two bytes of memory at an even
address. -/
def FetchedAt (c : Config) (m : Machine) (i : Instruction) : Prop :=
  ∃ (a : Nat) (high low : UInt8), m.pc = a ∧ a % 2 = 0 ∧ a + 1 < memorySize ∧
    m.memory[a]? = some high ∧ m.memory[a + 1]? = some low ∧
    i = .decode (Bytes.word high low) c.shiftsVy

/-- Whatever a machine reads from outside, its next step has no fault, and the instruction that the
step takes was fetched from memory. -/
def StepsSafely (c : Config) (m : Machine) : Prop :=
  ∀ input, (m.step c input).fault = none ∧
    ∀ i, (m.step c input).executed = some i → m.FetchedAt c i

section Step

variable {m : Machine}

/-- A ready machine has an instruction to take. -/
theorem Ready.current?_eq (h : m.Ready) (c : Config) :
    ∃ i, m.current? c = some i ∧ m.FetchedAt c i := by
  obtain ⟨a, ha⟩ := Int.eq_ofNat_of_zero_le h.pc_nonneg
  have heven := h.pc_even
  have hlt := h.pc_le_sub
  rw [ha] at heven hlt
  have hnext : a + 1 < memorySize := by simp only [memorySize] at hlt ⊢; omega
  obtain ⟨high, low, hhigh, hlow⟩ :=
    Bytes.exists_getElem?_word m.memory (a := a) (by rw [h.memory_size]; exact hnext)
  exact ⟨.decode (Bytes.word high low) c.shiftsVy, current?_of_bytes ha hnext hhigh hlow,
    ⟨a, high, low, ha, by omega, hnext, hhigh, hlow, rfl⟩⟩

/-- An event leaves a sized machine sized. -/
theorem Sized.handle (h : m.Sized) (c : Config) (e : Event) : (m.handle c e).Sized := by
  cases e with
  | step input => exact h.step c input
  | press key => exact { h with }
  | release key => exact { h with }

/-- Events leave a sized machine sized. -/
theorem Sized.handleAll (h : m.Sized) (c : Config) (events : List Event) :
    (m.handleAll c events).Sized := by
  unfold Machine.handleAll
  induction events generalizing m with
  | nil => exact h
  | cons e rest ih => exact ih (h.handle c e)

/-- Counting a step keeps a machine well-formed. -/
theorem WellFormed.countStep (h : m.WellFormed) : m.countStep.WellFormed := { h with }

/-- Taking a decoded instruction has no fault and leaves a well-formed machine. -/
theorem Ready.take (h : m.Ready) (c : Config) (input : StepInput) {i : Instruction} (hi : i.Fits) :
    (m.take c input i).machine.WellFormed ∧ (m.take c input i).fault = none := by
  have hready := h.updateTimers c input.ticks
  have hends := hready.ends_outcome c input.random hi
  rw [take_eq h.toSound.sized hi]
  cases hexec : (m.updateTimers c input.ticks).outcome c input.random i with
  | ok next =>
    rw [hexec] at hends
    exact ⟨hends.countStep, rfl⟩
  | error stop =>
    rw [hexec] at hends
    cases stop with
    | abort cause => exact ⟨{ hready.wellFormed with }, rfl⟩
    | fault cause => exact hends.elim

/-- A well-formed machine whose program counter lies in memory is ready. -/
theorem WellFormed.ready (h : m.WellFormed) (hlt : m.pc < memorySize) : m.Ready :=
  { h with pc_lt := hlt }

/-- A step of a well-formed machine leaves a well-formed machine. It has no fault, and the
instruction it takes was fetched from memory. -/
theorem WellFormed.step (h : m.WellFormed) (c : Config) (input : StepInput) :
    (m.step c input).machine.WellFormed ∧ (m.step c input).fault = none ∧
      ∀ i, (m.step c input).executed = some i → m.FetchedAt c i := by
  unfold Machine.step
  split
  · exact ⟨h, rfl, fun _ hi => by cases hi⟩
  · split
    · exact ⟨{ h with }, rfl, fun _ hi => by cases hi⟩
    · next hlt =>
      have hready := h.ready (Int.not_le.mp hlt)
      obtain ⟨i, hcurrent, hfetched⟩ := hready.current?_eq c
      obtain ⟨a, high, low, -, -, -, -, -, hi⟩ := id hfetched
      have htake := hready.take c input (i := i) (by rw [hi]; exact Instruction.fits_decode _ _)
      rw [hcurrent]
      refine ⟨htake.1, htake.2, fun j hj => ?_⟩
      rw [executed_take] at hj
      cases hj
      exact hfetched

/-- What a well-formed machine executes has operands in their ranges. -/
theorem WellFormed.fits (h : m.WellFormed) {c : Config} {input : StepInput} {i : Instruction}
    (hexecuted : (m.step c input).executed = some i) : i.Fits := by
  obtain ⟨a, high, low, -, -, -, -, -, rfl⟩ := (h.step c input).2.2 i hexecuted
  exact Instruction.fits_decode _ _

/-- Whatever happens to it, a machine stays well-formed. -/
theorem WellFormed.handle (h : m.WellFormed) (c : Config) (e : Event) :
    (m.handle c e).WellFormed := by
  cases e with
  | step input => exact (h.step c input).1
  | press key => exact { h with keys_lt := Keypad.press_lt h.keys_lt key }
  | release key =>
    exact { h with
      keys_lt := Nat.lt_of_le_of_lt (Keypad.clearBit_le m.keypad (Keypad.key key)) h.keys_lt }

/-- Over a whole run a machine stays well-formed. -/
theorem WellFormed.handleAll (h : m.WellFormed) (c : Config) (events : List Event) :
    (m.handleAll c events).WellFormed := by
  unfold Machine.handleAll
  induction events generalizing m with
  | nil => exact h
  | cons e rest ih => exact ih (h.handle c e)

end Step

/-- A machine that is switched on is well-formed. -/
theorem wellFormed_powerOn (ticks : Int) : (powerOn ticks).WellFormed where
  memory_size := size_bareMemory
  registers_size := Array.size_replicate
  register_lt := by
    intro v hv
    rw [Array.eq_of_mem_replicate hv]
    decide
  flags_size := Array.size_replicate
  flag_lt := by
    intro v hv
    rw [Array.eq_of_mem_replicate hv]
    decide
  delay_lt := by simp [powerOn]
  sound_lt := by simp [powerOn]
  index_lt := by simp [powerOn]
  keys_lt := by simp [powerOn]
  stack_even := by simp [powerOn]
  stack_nonneg := by simp [powerOn]
  stack_lt := by simp [powerOn]
  pc_even := by simp [powerOn, programStart]
  pc_nonneg := by simp [powerOn, programStart]
  pc_le := by simp [powerOn, programStart, memorySize]

/-- A program that fits can be loaded into a well-formed machine, which stays well-formed. -/
theorem WellFormed.load {m : Machine} (h : m.WellFormed) {data : Bytes}
    (hdata : data.size ≤ programSize) :
    ∃ m₀, m.load data programStart = .ok m₀ ∧ m₀.WellFormed := by
  have hle : programStart + data.size ≤ memorySize := by
    simp only [programSize, memorySize, programStart] at *
    omega
  have hsize := Cells.size_splice m.memory data (by rw [h.memory_size]; exact hle)
  unfold Machine.load
  rw [if_neg (by omega)]
  exact ⟨_, rfl, { h with memory_size := hsize.trans h.memory_size }⟩

/-- A program that fits is loaded, and every machine on a run of it is well-formed and steps
safely. -/
theorem run_wellFormed (c : Config) (ticks : Int) {data : Bytes} (hdata : data.size ≤ programSize)
    (events : List Event) :
    ∃ m₀, (powerOn ticks).load data programStart = .ok m₀ ∧
      (m₀.handleAll c events).WellFormed ∧ (m₀.handleAll c events).StepsSafely c := by
  obtain ⟨m₀, hload, hm₀⟩ := (wellFormed_powerOn ticks).load hdata
  have hm := hm₀.handleAll c events
  exact ⟨m₀, hload, hm, fun input => (hm.step c input).2⟩

/-- A program that stores registers over its own next instruction and then jumps past the end of
memory by a register, with keys and the clock going either way. -/
theorem run_wellFormed_selfModifying :
    (#[0x60, 0xFF, 0xA2, 0x06, 0xF1, 0x55, 0x00, 0xE0, 0xBF, 0xFF] : Bytes).size ≤ programSize ∧
      ∃ m₀, (powerOn (-5)).load #[0x60, 0xFF, 0xA2, 0x06, 0xF1, 0x55, 0x00, 0xE0, 0xBF, 0xFF]
          programStart = .ok m₀ ∧
        (m₀.handleAll { loadsAdvance := true }
          [.press 21, .step ⟨-7, 300⟩, .step ⟨9, 0⟩, .release (-11), .step ⟨8, 1⟩]).WellFormed ∧
        (m₀.handleAll { loadsAdvance := true }
          [.press 21, .step ⟨-7, 300⟩, .step ⟨9, 0⟩, .release (-11),
            .step ⟨8, 1⟩]).StepsSafely { loadsAdvance := true } :=
  ⟨by decide, run_wellFormed { loadsAdvance := true } (-5) (by decide) _⟩

end Machine

end SuperChip
