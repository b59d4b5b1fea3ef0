import SuperChip.Listing.Path
import SuperChip.Proofs.Machine.Step

/-!
# Loaded programs

A program that was loaded after power-on lies in memory from the address where programs start, with
zeros behind it (`holds_load`). As long as a machine holds a program so, what stands at an address
of the program area is the instruction at that offset of the program (`Holds.current?_eq`).
-/

set_option autoImplicit false

namespace SuperChip.Machine

variable {m : Machine} {data : Bytes} {ticks : Int}

/-- Memory holds a program, with zeros behind it. -/
def Holds (m : Machine) (data : Bytes) : Prop :=
  ∀ o, o < programSize → m.memory[programStart + o]? = some (data.getD o 0)

/-- The digit sprites lie in memory, below the address where programs start. -/
theorem font_fits : (Font.smallStart + Font.small.size ≤ programStart ∧
    Font.bigStart + Font.big.size ≤ programStart) ∧ programStart ≤ memorySize := by decide +kernel

/-- The small digits fit a clear memory, and the big ones fit it behind them. -/
theorem font_inside : Font.smallStart + Font.small.size ≤ (Bytes.zeros memorySize).size ∧
    Font.bigStart + Font.big.size ≤ ((Bytes.zeros memorySize).splice Font.smallStart
      (Font.smallStart + Font.small.size) Font.small).size := by
  obtain ⟨⟨hsmall, hbig⟩, hstart⟩ := font_fits
  have hzeros : (Bytes.zeros memorySize).size = memorySize := Array.size_replicate
  have hfirst : Font.smallStart + Font.small.size ≤ (Bytes.zeros memorySize).size := by omega
  refine ⟨hfirst, ?_⟩
  rw [Cells.size_splice (Bytes.zeros memorySize) Font.small hfirst, hzeros]
  omega

/-- The digit sprites fill stretches of memory as long as they are. -/
theorem size_bareMemory : bareMemory.size = memorySize := by
  obtain ⟨hsmall, hbig⟩ := font_inside
  have hzeros : (Bytes.zeros memorySize).size = memorySize := Array.size_replicate
  exact (Cells.size_splice _ Font.big hbig).trans
    ((Cells.size_splice (Bytes.zeros memorySize) Font.small hsmall).trans hzeros)

/-- Above the digit sprites memory is clear. -/
theorem getElem?_bareMemory {o : Nat} (h : o < programSize) :
    bareMemory[programStart + o]? = some 0 := by
  obtain ⟨⟨hsmall, hbig⟩, hstart⟩ := font_fits
  obtain ⟨hsmallInside, hbigInside⟩ := font_inside
  have hlt : programStart + o < memorySize := by
    simp only [programSize, memorySize, programStart] at *
    omega
  refine (Cells.getElem?_splice _ Font.big hbigInside _).trans ?_
  rw [if_neg (by omega)]
  refine (Cells.getElem?_splice _ Font.small hsmallInside _).trans ?_
  rw [if_neg (by omega)]
  simp [Bytes.zeros, hlt]

/-- At power-on memory holds the digit sprites only. -/
theorem memory_powerOn : (powerOn ticks).memory = bareMemory := by simp only [powerOn]

/-- A program that is loaded at the start of program memory fits, and replaces a stretch of it. -/
theorem load_eq_ok {n : Machine} (h : n.load data programStart = .ok m) :
    programStart + data.size ≤ memorySize ∧
      m = { n with memory := n.memory.splice programStart (programStart + data.size) data } := by
  unfold load at h
  split at h
  · cases h
  · exact ⟨by omega, (Except.ok.inj h).symm⟩

/-- A machine that was switched on and loaded differs in memory only. -/
theorem exists_load_powerOn (h : (powerOn ticks).load data programStart = .ok m) :
    ∃ memory, m = { powerOn ticks with memory } :=
  ⟨_, (load_eq_ok h).2⟩

/-- A machine that was switched on and loaded holds the program. -/
theorem holds_load (h : (powerOn ticks).load data programStart = .ok m) : m.Holds data := by
  obtain ⟨hfits, hm⟩ := load_eq_ok h
  have hle : programStart + data.size ≤ (powerOn ticks).memory.size := by
    rw [memory_powerOn, size_bareMemory]
    exact hfits
  intro o ho
  rw [hm]
  refine (Cells.getElem?_splice _ _ hle _).trans ?_
  by_cases hdata : o < data.size
  · rw [if_pos (by omega), Nat.add_sub_cancel_left, Array.getElem?_eq_getElem hdata,
      Array.getD_eq_getD_getElem?, Array.getElem?_eq_getElem hdata]
    rfl
  · rw [if_neg (by omega), Array.getD_eq_getD_getElem?,
      Array.getElem?_eq_none (Nat.le_of_not_lt hdata), memory_powerOn]
    exact getElem?_bareMemory ho

/-- With the same memory the same program is held. -/
theorem Holds.of_memory_eq {n : Machine} (h : m.Holds data) (hmemory : n.memory = m.memory) :
    n.Holds data := by
  rw [Holds, hmemory]
  exact h

/-- At an address of the program area stands the instruction at that offset of the program. -/
theorem Holds.current?_eq (h : m.Holds data) (c : Config) {o : Nat}
    (hpc : m.pc = (programStart + o : Nat)) (hlt : o + 1 < programSize) :
    m.current? c = some (ProgramText.instructionAt ⟨data, c.shiftsVy⟩ o) := by
  refine current?_of_bytes hpc ?_ (h o (by omega)) (h (o + 1) hlt)
  simp only [programSize, memorySize, programStart] at *
  omega

/-- A running machine takes the instruction of the program at its place. -/
theorem Holds.step_eq (h : m.Holds data) (c : Config) (input : StepInput) {o : Nat}
    (hrunning : m.halted = false) (hpc : m.pc = (programStart + o : Nat))
    (hlt : o + 1 < programSize) :
    m.step c input = m.take c input (ProgramText.instructionAt ⟨data, c.shiftsVy⟩ o) := by
  refine step_of_current? hrunning ?_ (h.current?_eq c hpc hlt)
  simp only [programSize, memorySize, programStart] at *
  omega

end SuperChip.Machine
