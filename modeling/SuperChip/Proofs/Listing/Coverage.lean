import SuperChip.Proofs.Listing.ReachedCode
import SuperChip.Proofs.Machine.Control
import SuperChip.Proofs.Machine.Loading
import SuperChip.Proofs.Machine.Run

/-!
# Runs stay on the paths of a listing

A machine that runs a listed program executes only what lies on the paths of the listing, as long as
it leaves the program as it was loaded, jumps by no register, and does not run out of the program
(`everyStep_covered`). The invariant, `Tracks`, is that the program counter and what is behind each
call on the stack are reached offsets; one step keeps it because reached offsets are closed under
all that control does (`Moves.reached`).
-/

set_option autoImplicit false

namespace SuperChip

open ProgramText

namespace Machine

/-- A step changes no byte from the address on where programs start, and what it executes lies in
the program and is no jump by a register. -/
structure Confined (c : Config) (data : Bytes) (m : Machine) (input : StepInput) : Prop where
  memory_eq : ∀ a, programStart ≤ a → (m.step c input).machine.memory[a]? = m.memory[a]?
  executed : ∀ i, (m.step c input).executed = some i →
    i.op ≠ .jumpV0 ∧ programStart ≤ m.pc ∧ m.pc < programStart + data.size

/-- What a step executes is visited by a path that starts at a boundary of the listing, and the step
does not abort because of an odd address. -/
structure Covered (c : Config) (l : Listing) (m : Machine) (input : StepInput) : Prop where
  visited : ∀ i, (m.step c input).executed = some i →
    ∃ (o : Nat) (x : Int), m.pc = programStart + o ∧ l.boundaries.contains ⟨x, .resume⟩ = true ∧
      (o, i) ∈ (Path.start l.program x).visited
  aligned : ∀ cause, .aborted cause ∈ (m.step c input).notices → cause.isMisaligned = false

/-- The program is in memory, and control is at a reached offset and will return to reached offsets
only. -/
structure Tracks (p : ProgramText) (m : Machine) : Prop where
  wellFormed : m.WellFormed
  holds : m.Holds p.data
  pc_reached : m.halted = false → p.Reached (m.pc - programStart)
  stack_reached : ∀ a ∈ m.stack, p.Reached (a + 2 - programStart)

variable {p : ProgramText} {data : Bytes} {c : Config} {m next : Machine} {input : StepInput}

/-- Wherever control goes from a reached offset is reached. -/
theorem Moves.reached {o : Nat} (h : Moves (p.instructionAt o) m next)
    (hop : (p.instructionAt o).op ≠ .jumpV0) (hreached : p.Reached o) (hlt : o < p.length)
    (hpc : m.pc = programStart + o) (hstack : ∀ a ∈ m.stack, p.Reached (a + 2 - programStart)) :
    (next.halted = false → p.Reached (next.pc - programStart)) ∧
      ∀ a ∈ next.stack, p.Reached (a + 2 - programStart) := by
  have hhere : m.pc - programStart = (o : Int) := by omega
  have hback : (m.pc + 2 : Int) - programStart = o + 2 := by omega
  cases h with
  | stay hpc' hstack' =>
    rw [hpc', hstack', hhere]
    exact ⟨fun _ => hreached, hstack⟩
  | next hpc' hstack' hgo =>
    rw [hpc', hstack', hback]
    refine ⟨fun hrunning => .next hreached hlt ?_, hstack⟩
    rcases hgo with hgo | hhalted
    · exact hgo
    · rw [hhalted] at hrunning
      cases hrunning
  | skip hskip hpc' hstack' =>
    rw [hpc', hstack', show (m.pc + 4 : Int) - programStart = o + 4 by omega]
    exact ⟨fun _ => .skip hreached hlt hskip, hstack⟩
  | jump hjump hpc' hstack' =>
    rw [hpc', hstack']
    exact ⟨fun _ => .target hreached hlt (by rw [opAt, hjump]; rfl), hstack⟩
  | call hcall hpc' hstack' =>
    have hgo : (p.opAt o).endsPath = false := by rw [opAt, hcall]; rfl
    rw [hpc', hstack']
    refine ⟨fun _ => .target hreached hlt (by rw [opAt, hcall]; rfl), ?_⟩
    refine List.forall_mem_cons.mpr ⟨?_, hstack⟩
    rw [hback]
    exact .next hreached hlt hgo
  | ret caller hret hpc' hstack' =>
    obtain ⟨hcaller, hrest⟩ := List.forall_mem_cons.mp (hstack' ▸ hstack)
    rw [hpc']
    exact ⟨fun _ => hcaller, hrest⟩
  | jumpV0 hjump hstack' => exact absurd hjump hop

/-- A confined step executes the instruction of the program at a reached offset. -/
theorem Tracks.instructionAt (h : m.Tracks ⟨data, c.shiftsVy⟩) (hconfined : m.Confined c data input)
    (hrunning : m.halted = false) (hlt : m.pc < memorySize) {i : Instruction}
    (hi : m.current? c = some i) :
    ∃ o : Nat, m.pc = programStart + o ∧ o < data.size ∧ i = instructionAt ⟨data, c.shiftsVy⟩ o ∧
      Reached ⟨data, c.shiftsVy⟩ o ∧ i.op ≠ .jumpV0 := by
  have hexecuted : (m.step c input).executed = some i := by
    rw [step_of_current? hrunning hlt hi, executed_take]
  obtain ⟨hop, hge, hin⟩ := hconfined.executed i hexecuted
  obtain ⟨o, ho⟩ := Int.eq_ofNat_of_zero_le (show 0 ≤ m.pc - programStart by omega)
  have hpc : m.pc = programStart + o := by omega
  have heven := h.wellFormed.pc_even
  have hfits : o + 1 < programSize := by
    simp only [programSize, memorySize, programStart] at *
    omega
  have hreached := h.pc_reached hrunning
  rw [ho] at hreached
  rw [h.holds.current?_eq c (by omega) hfits] at hi
  exact ⟨o, hpc, by omega, (Option.some.inj hi).symm, hreached, hop⟩

/-- A confined step goes to a reached offset, and will return to reached offsets only. -/
theorem Tracks.control_step (h : m.Tracks ⟨data, c.shiftsVy⟩)
    (hconfined : m.Confined c data input) :
    ((m.step c input).machine.halted = false →
        Reached ⟨data, c.shiftsVy⟩ ((m.step c input).machine.pc - programStart)) ∧
      ∀ a ∈ (m.step c input).machine.stack, Reached ⟨data, c.shiftsVy⟩ (a + 2 - programStart) := by
  obtain ⟨i, hrunning, hlt, hi⟩ | ⟨-, hmachine, -⟩ := step_cases c m input
  · obtain ⟨o, hpc, ho, rfl, hreached, hop⟩ := h.instructionAt hconfined hrunning hlt hi
    obtain ⟨delay, sound, latch, ticks, htimers⟩ := exists_updateTimers c m input.ticks
    rw [step_of_current? hrunning hlt hi, machine_take h.wellFormed.sized (fits_of_current? hi),
      htimers]
    cases hexec : outcome c input.random { m with delay, sound, latch, ticks }
        (ProgramText.instructionAt ⟨data, c.shiftsVy⟩ o) with
    | ok next =>
      have hnext := (outcome_moves hexec).1.reached hop hreached ho hpc h.stack_reached
      exact hnext
    | error stop =>
      -- nothing moves where the instruction has no effect
      cases stop <;> exact ⟨fun _ => h.pc_reached hrunning, h.stack_reached⟩
  · rw [hmachine]
    exact ⟨fun hrunning => h.pc_reached (Bool.or_eq_false_iff.mp hrunning).1, h.stack_reached⟩

/-- A confined step keeps control at reached offsets. -/
theorem Tracks.step (h : m.Tracks ⟨data, c.shiftsVy⟩) (hconfined : m.Confined c data input) :
    (m.step c input).machine.Tracks ⟨data, c.shiftsVy⟩ := by
  obtain ⟨hpc, hstack⟩ := h.control_step hconfined
  constructor
  case wellFormed => exact (h.wellFormed.step c input).1
  case holds =>
    intro o ho
    rw [hconfined.memory_eq _ (Nat.le_add_right _ _)]
    exact h.holds o ho
  case pc_reached => exact hpc
  case stack_reached => exact hstack

/-- The paths of a listing cover a confined step. -/
theorem Tracks.covered {notices : List PathNotice} {l : Listing}
    (hl : Listing.ofBytes data c.shiftsVy = (notices, .ok l)) (h : m.Tracks ⟨data, c.shiftsVy⟩)
    (hconfined : m.Confined c data input) : m.Covered c l input := by
  obtain ⟨s, hs, rfl⟩ := Listing.exists_survey_of_ofBytes hl
  have htells := Survey.tells_ofProgram hs
  obtain ⟨i, hrunning, hlt, hi⟩ | ⟨hnone, -, hnotices⟩ := step_cases c m input
  · obtain ⟨o, hpc, ho, rfl, hreached, hop⟩ := h.instructionAt hconfined hrunning hlt hi
    obtain ⟨x, b, hx, hw⟩ := (reached_iff_walksFrom ho).mp hreached
    have hresume := (htells.resume_iff x).mpr hx
    have haligned := htells.aligned x hresume
    have hstep : m.step c input = m.take c input _ := step_of_current? hrunning hlt hi
    constructor
    case visited =>
      intro i hexecuted
      rw [hstep, executed_take] at hexecuted
      exact ⟨o, x, hpc, hresume, (mem_visited_start haligned o i).mpr
        ⟨(Option.some.inj hexecuted).symm, b, hw⟩⟩
    case aligned =>
      intro cause hcause
      rw [hstep] at hcause
      cases hmisaligned : cause.isMisaligned with
      | false => rfl
      | true =>
        obtain hjump | ⟨hstart, hodd⟩ :=
          outcome_misaligned
            (aborted_mem_notices_take h.wellFormed.sized (fits_of_current? hi) hcause)
            hmisaligned
        · exact absurd hjump hop
        · have heven := Survey.targetAt_even (haligned o b hw) hstart
          simp only [targetAt, programStart] at heven
          omega
  · constructor
    case visited => simp [hnone]
    case aligned => exact fun cause hcause => absurd hcause (hnotices cause)

/-- Every step of a run that is confined to a listed program is covered by its listing. -/
theorem Tracks.everyStep {notices : List PathNotice} {l : Listing}
    (hl : Listing.ofBytes data c.shiftsVy = (notices, .ok l)) {events : List Event}
    (h : m.Tracks ⟨data, c.shiftsVy⟩) (hconfined : m.EveryStep c (Confined c data) events) :
    m.EveryStep c (Covered c l) events := by
  induction events generalizing m with
  | nil => trivial
  | cons e rest ih =>
    cases e with
    | step input =>
      obtain ⟨hfirst, hrest⟩ := hconfined
      exact ⟨h.covered hl hfirst, ih (h.step hfirst) hrest⟩
    | press key => exact ih { h with wellFormed := h.wellFormed.handle c (.press key) } hconfined
    | release key =>
      exact ih { h with wellFormed := h.wellFormed.handle c (.release key) } hconfined

/-- After a program is loaded, control is at its first offset. -/
theorem tracks_load {ticks : Int} (h : (powerOn ticks).load p.data programStart = .ok m)
    (hwellFormed : m.WellFormed) : m.Tracks p := by
  obtain ⟨memory, rfl⟩ := exists_load_powerOn h
  constructor
  case wellFormed => exact hwellFormed
  case holds => exact holds_load h
  case pc_reached => exact fun _ => .entry
  case stack_reached => exact fun _ ha => absurd ha List.not_mem_nil

/-- A listed program can be loaded after power-on. In every run of it that leaves the program as it
was loaded, jumps by no register and stays inside, each step executes an instruction that a path of
the listing visits, and none aborts because of an odd address. -/
theorem everyStep_covered {notices : List PathNotice} {l : Listing}
    (hl : Listing.ofBytes data c.shiftsVy = (notices, .ok l)) (ticks : Int) :
    ∃ m₀, (powerOn ticks).load data programStart = .ok m₀ ∧
      ∀ events, m₀.EveryStep c (Confined c data) events → m₀.EveryStep c (Covered c l) events := by
  have hsize : data.size ≤ programSize := by
    obtain ⟨s, hs, -⟩ := Listing.exists_survey_of_ofBytes hl
    exact Survey.length_le_of_ofProgram hs
  obtain ⟨m₀, hload, hm₀⟩ := (wellFormed_powerOn ticks).load hsize
  have htracks : m₀.Tracks ⟨data, c.shiftsVy⟩ := tracks_load hload hm₀
  exact ⟨m₀, hload, fun events hconfined => htracks.everyStep hl hconfined⟩

/-- A step is confined if its instruction stands in the program, is no jump by a register, and
leaves memory as it is. -/
theorem Holds.confined (h : m.Holds data) {o : Nat} (hrunning : m.halted = false)
    (hpc : m.pc = (programStart + o : Nat)) (ho : o < data.size) (hlt : o + 1 < programSize)
    (hop : (instructionAt ⟨data, c.shiftsVy⟩ o).op ≠ .jumpV0)
    (hmemory : (m.take c input (instructionAt ⟨data, c.shiftsVy⟩ o)).machine.memory = m.memory) :
    m.Confined c data input := by
  have hstep := h.step_eq c input hrunning hpc hlt
  constructor
  case memory_eq =>
    intro a ha
    rw [hstep, hmemory]
  case executed =>
    intro i hi
    rw [hstep, executed_take] at hi
    cases hi
    exact ⟨hop, by omega, by omega⟩

/-- A call of a routine that only returns, and the end of the program behind the call. -/
def callAndReturn : Bytes := #[0x22, 0x04, 0x00, 0xFD, 0x00, 0xEE]

/-- The call, the return and the end, with a key going down between them. -/
theorem everyStep_covered_callAndReturn :
    ∃ notices l, Listing.ofBytes callAndReturn false = (notices, .ok l) ∧
      ∃ m₀, (powerOn 0).load callAndReturn programStart = .ok m₀ ∧
        m₀.EveryStep {} (Confined {} callAndReturn)
          [.step ⟨0, 0⟩, .press 5, .step ⟨1, 0⟩, .step ⟨2, 0⟩] ∧
        m₀.EveryStep {} (Covered {} l) [.step ⟨0, 0⟩, .press 5, .step ⟨1, 0⟩, .step ⟨2, 0⟩] := by
  have heval : (Listing.ofBytes callAndReturn false).2.toOption.map (·.labels) = some [4] := by cbv
  obtain ⟨notices, l, hl, -⟩ := Listing.exists_of_ofBytes heval
  obtain ⟨m₀, hload, hcovered⟩ := everyStep_covered (c := {}) hl 0
  have hm₀ : m₀.WellFormed := by
    obtain ⟨m, hm, hwellFormed⟩ :=
      (wellFormed_powerOn 0).load (show callAndReturn.size ≤ programSize by decide)
    cases hm.symm.trans hload
    exact hwellFormed
  refine ⟨notices, l, hl, m₀, hload, ?_⟩
  suffices hconfined : m₀.EveryStep {} (Confined {} callAndReturn)
      [.step ⟨0, 0⟩, .press 5, .step ⟨1, 0⟩, .step ⟨2, 0⟩] from ⟨hconfined, hcovered _ hconfined⟩
  have hholds := holds_load hload
  obtain ⟨memory, rfl⟩ := exists_load_powerOn hload
  have hkeeps : ∀ m : Machine, m.memory = memory → m.Holds callAndReturn :=
    fun m hmemory => hholds.of_memory_eq hmemory
  have hsized : Sized { powerOn 0 with memory } := hm₀.sized
  have hcall : instructionAt ⟨callAndReturn, false⟩ 0 = { op := .call, address := 0x204 } := by
    decide
  have hexit : instructionAt ⟨callAndReturn, false⟩ 2 = { op := .exit } := by decide
  have hret : instructionAt ⟨callAndReturn, false⟩ 4 = { op := .ret } := by decide
  -- the machine in the routine, and behind the call
  have hinside : (Machine.step {} ⟨0, 0⟩ { powerOn 0 with memory }).machine =
      { powerOn 0 with memory, pc := 0x204, stack := [0x200], steps := 1 } := by
    rw [hholds.step_eq {} _ (o := 0) rfl rfl (by decide), hcall,
      machine_take hsized (by decide)]
    rfl
  have hinsideSized : Sized (Machine.press
      { powerOn 0 with memory, pc := 0x204, stack := [0x200], steps := 1 } 5) := { hsized with }
  have hbehindSized : Sized (Machine.press
      { powerOn 0 with memory, pc := 0x202, steps := 2, ticks := 1 } 5) := { hsized with }
  have hbehind : (Machine.step {} ⟨1, 0⟩ (Machine.press
      { powerOn 0 with memory, pc := 0x204, stack := [0x200], steps := 1 } 5)).machine =
      Machine.press { powerOn 0 with memory, pc := 0x202, steps := 2, ticks := 1 } 5 := by
    rw [(hkeeps _ rfl).step_eq {} _ (o := 4) rfl rfl (by decide), hret,
      machine_take hinsideSized (by decide)]
    rfl
  have hfirst : Confined {} callAndReturn { powerOn 0 with memory } ⟨0, 0⟩ :=
    hholds.confined (o := 0) rfl rfl (by decide) (by decide) (by rw [hcall]; decide)
      (by rw [hcall, machine_take hsized (by decide)]; rfl)
  have hsecond : Confined {} callAndReturn (Machine.press
      { powerOn 0 with memory, pc := 0x204, stack := [0x200], steps := 1 } 5) ⟨1, 0⟩ :=
    (hkeeps _ rfl).confined (o := 4) rfl rfl (by decide) (by decide)
      (by rw [hret]; decide) (by rw [hret, machine_take hinsideSized (by decide)]; rfl)
  have hthird : Confined {} callAndReturn (Machine.press
      { powerOn 0 with memory, pc := 0x202, steps := 2, ticks := 1 } 5) ⟨2, 0⟩ :=
    (hkeeps _ rfl).confined (o := 2) rfl rfl (by decide) (by decide)
      (by rw [hexit]; decide) (by rw [hexit, machine_take hbehindSized (by decide)]; rfl)
  refine ⟨hfirst, ?_⟩
  rw [hinside]
  refine ⟨hsecond, ?_⟩
  rw [show Machine.handle {} _ (.press 5) = Machine.press _ 5 from rfl, hbehind]
  exact ⟨hthird, trivial⟩

end Machine

end SuperChip
