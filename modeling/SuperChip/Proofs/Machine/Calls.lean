import SuperChip.Proofs.Machine.Control
import SuperChip.Proofs.Machine.Loading
import SuperChip.Proofs.Machine.Run

/-!
# Calls and returns

The stack holds the addresses of the calls that have not returned. A step leaves it as it is, puts
the address of a call on it, or takes one off for a return (`step_stack`). So the address of a call
stays above what lay there before, whatever is called and returns in between, until the stack is
first as deep as it was before the call. The step that brings it there is the return from that call
(`return_of_call`). Nothing is assumed about the program, which may change itself on the way.
-/

set_option autoImplicit false

namespace SuperChip

/-- The step took the instruction, and the instruction had its effect. -/
structure StepResult.Completes (r : StepResult) (i : Instruction) : Prop where
  executed : r.executed = some i
  sound : r.fault = none
  taken : ∀ cause, .aborted cause ∉ r.notices

namespace Machine

variable {c : Config} {m next : Machine} {input : StepInput} {i : Instruction}

/-- An instruction that does not abort is completed. -/
theorem completes_take (hm : m.Sized) (hi : i.Fits)
    (h : (m.updateTimers c input.ticks).outcome c input.random i = .ok next) :
    (m.take c input i).Completes i := by
  rw [take_eq hm hi, h]
  constructor
  case executed => rfl
  case sound => rfl
  case taken =>
    intro cause
    dsimp only
    split <;> simp

/-- A step whose instruction does not abort is completed, and leaves the outcome. -/
theorem completes_of_outcome (hm : m.Sized) (hexecuted : (m.step c input).executed = some i)
    (hexec : (m.updateTimers c input.ticks).outcome c input.random i = .ok next) :
    (m.step c input).Completes i ∧ (m.step c input).machine = next.countStep := by
  obtain ⟨hstep, hi, -⟩ := step_of_executed hexecuted
  rw [hstep, machine_take hm hi, hexec]
  exact ⟨completes_take hm hi hexec, rfl⟩

/-- A completed step took the instruction at the program counter. -/
theorem exists_outcome_of_completes (hm : m.Sized) (h : (m.step c input).Completes i) :
    ∃ next, (m.updateTimers c input.ticks).outcome c input.random i = .ok next ∧
      (m.step c input).machine = next.countStep := by
  obtain ⟨hexecuted, hsound, htaken⟩ := h
  obtain ⟨hstep, hi, -⟩ := step_of_executed hexecuted
  rw [hstep, take_eq hm hi] at hsound htaken
  rw [hstep, machine_take hm hi]
  cases hexec : (m.updateTimers c input.ticks).outcome c input.random i with
  | ok next => exact ⟨next, rfl, rfl⟩
  | error stop =>
    rw [hexec] at hsound htaken
    cases stop with
    | abort cause => exact absurd (by simp) (htaken cause)
    | fault cause => cases hsound

/-- A call that is completed puts its own address on the stack. -/
theorem stack_of_call (hm : m.Sized) (h : (m.step c input).Completes i) (hop : i.op = .call) :
    (m.step c input).machine.stack = m.pc :: m.stack := by
  obtain ⟨next, hexec, hmachine⟩ := exists_outcome_of_completes hm h
  obtain ⟨delay, sound, latch, ticks, htimers⟩ := exists_updateTimers c m input.ticks
  rw [htimers] at hexec
  simp only [outcome, hop] at hexec
  rw [hmachine]
  split at hexec <;> cases hexec
  rfl

/-- A step leaves the stack as it is, or puts the address of a call on it, or takes the address off
to which it returns. -/
theorem step_stack (hm : m.Sized) (c : Config) (input : StepInput) :
    (m.step c input).machine.stack = m.stack ∨
      (m.step c input).machine.stack = m.pc :: m.stack ∨
      ∃ i caller, (m.step c input).Completes i ∧ i.op = .ret ∧
        m.stack = caller :: (m.step c input).machine.stack ∧
        (m.step c input).machine.pc = caller + 2 := by
  obtain ⟨i, hrunning, hlt, hi⟩ | ⟨-, hmachine, -⟩ := step_cases c m input
  · obtain ⟨delay, sound, latch, ticks, htimers⟩ := exists_updateTimers c m input.ticks
    have hfits := fits_of_current? hi
    rw [step_of_current? hrunning hlt hi, machine_take hm hfits]
    cases hexec : (m.updateTimers c input.ticks).outcome c input.random i with
    | ok next =>
      have hmoves := (outcome_moves hexec).1
      rw [htimers] at hmoves
      cases hmoves with
      | stay hpc hstack | next hpc hstack | skip hskip hpc hstack | jump hop hpc hstack
      | jumpV0 hop hstack => exact .inl hstack
      | call hop hpc hstack => exact .inr (.inl hstack)
      | ret caller hop hpc hstack =>
        exact .inr (.inr ⟨i, caller, completes_take hm hfits hexec, hop, hstack, hpc⟩)
    | error stop =>
      rw [htimers]
      cases stop <;> exact .inl rfl
  · rw [hmachine]
    exact .inl rfl

/-- What lies at the bottom of the stack stays there, unless its topmost address is returned to. -/
theorem suffix_step (hm : m.Sized) (c : Config) (input : StepInput) {p : Int} {S : List Int}
    (h : p :: S <:+ m.stack) :
    p :: S <:+ (m.step c input).machine.stack ∨
      ∃ i, (m.step c input).Completes i ∧ i.op = .ret ∧ (m.step c input).machine.stack = S ∧
        (m.step c input).machine.pc = p + 2 := by
  obtain hsame | hcall | ⟨i, caller, hcompletes, hop, hstack, hpc⟩ := step_stack hm c input
  · rw [hsame]
    exact .inl h
  · rw [hcall]
    exact .inl (h.trans (List.suffix_cons _ _))
  · rw [hstack] at h
    obtain heq | hsuffix := List.suffix_cons_iff.mp h
    · obtain ⟨rfl, hS⟩ := List.cons.inj heq
      exact .inr ⟨i, hcompletes, hop, hS.symm, hpc⟩
    · exact .inl hsuffix

/-- As long as no step brings the stack to the depth it had below an address, the address and what
lies below it stay. -/
theorem suffix_handleAll {p : Int} {S : List Int} {events : List Event} (hm : m.Sized)
    (h : p :: S <:+ m.stack)
    (hdeeper : m.EveryStep c (fun k input => (k.step c input).machine.stack.length ≠ S.length)
      events) :
    p :: S <:+ (m.handleAll c events).stack := by
  induction events generalizing m with
  | nil => exact h
  | cons e rest ih =>
    cases e with
    | step input =>
      obtain ⟨hlength, hrest⟩ := hdeeper
      obtain hsuffix | ⟨i, -, -, hstack, -⟩ := suffix_step hm c input h
      · exact ih (hm.step c input) hsuffix hrest
      · exact absurd (congrArg List.length hstack) hlength
    | press key => exact ih (m := m.press key) { hm with } h hdeeper
    | release key => exact ih (m := m.release key) { hm with } h hdeeper

/-- The first step after a call that leaves the stack as deep as it was before the call is a return:
the stack is what it was, and control is behind the call. A call to an odd address aborts and is not
completed, so there is nothing to return from. -/
theorem return_of_call {first last : StepInput} {between : List Event} {k : Machine}
    (hm : m.Sized) (hcall : (m.step c first).Completes i) (hop : i.op = .call)
    (hrun : (m.step c first).machine.handleAll c between = k)
    (hdeeper : (m.step c first).machine.EveryStep c
      (fun n input => (n.step c input).machine.stack.length ≠ m.stack.length) between)
    (hback : (k.step c last).machine.stack.length = m.stack.length) :
    ∃ j, (k.step c last).Completes j ∧ j.op = .ret ∧ (k.step c last).machine.stack = m.stack ∧
      (k.step c last).machine.pc = m.pc + 2 := by
  have hcalled : m.pc :: m.stack <:+ (m.step c first).machine.stack :=
    stack_of_call hm hcall hop ▸ List.suffix_rfl
  have hstepped := hm.step c first
  have hkept : m.pc :: m.stack <:+ k.stack := hrun ▸ suffix_handleAll hstepped hcalled hdeeper
  have hk : k.Sized := hrun ▸ hstepped.handleAll c between
  obtain hsuffix | hreturn := suffix_step hk c last hkept
  · have hlength := hsuffix.length_le
    rw [hback, List.length_cons] at hlength
    exact absurd hlength (Nat.not_succ_le_self _)
  · exact hreturn

/-- A routine that calls another one, each of which only returns. -/
def nestedCalls : Bytes := #[0x22, 0x04, 0x00, 0xFD, 0x22, 0x08, 0x00, 0xEE, 0x00, 0xEE]

/-- The outer call and the return from it, with the inner call, its return and a key between
them. -/
theorem return_of_call_nested :
    ∃ m₀, (powerOn 0).load nestedCalls programStart = .ok m₀ ∧
      (m₀.step {} ⟨0, 0⟩).Completes { op := .call, address := 0x204 } ∧
      ∃ k, (m₀.step {} ⟨0, 0⟩).machine.handleAll {} [.step ⟨0, 0⟩, .press 5, .step ⟨1, 0⟩] = k ∧
        (m₀.step {} ⟨0, 0⟩).machine.EveryStep {}
          (fun n input => (n.step {} input).machine.stack.length ≠ m₀.stack.length)
          [.step ⟨0, 0⟩, .press 5, .step ⟨1, 0⟩] ∧
        (k.step {} ⟨2, 0⟩).machine.stack.length = m₀.stack.length ∧
        ∃ j, (k.step {} ⟨2, 0⟩).Completes j ∧ j.op = .ret ∧
          (k.step {} ⟨2, 0⟩).machine.stack = m₀.stack ∧
          (k.step {} ⟨2, 0⟩).machine.pc = m₀.pc + 2 := by
  obtain ⟨m₀, hload, hm₀⟩ : ∃ m₀, (powerOn 0).load nestedCalls programStart = .ok m₀ ∧
      m₀.WellFormed := (wellFormed_powerOn 0).load (by decide)
  have hholds := holds_load hload
  obtain ⟨memory, rfl⟩ := exists_load_powerOn hload
  have hsized : Sized { powerOn 0 with memory } := hm₀.sized
  have hkeeps : ∀ m : Machine, m.memory = memory → m.Holds nestedCalls :=
    fun m hmemory => hholds.of_memory_eq hmemory
  have houter : ProgramText.instructionAt ⟨nestedCalls, false⟩ 0 =
      { op := .call, address := 0x204 } := by decide
  have hinner : ProgramText.instructionAt ⟨nestedCalls, false⟩ 4 =
      { op := .call, address := 0x208 } := by decide
  have hret : ProgramText.instructionAt ⟨nestedCalls, false⟩ 6 = { op := .ret } := by decide
  have hinnerRet : ProgramText.instructionAt ⟨nestedCalls, false⟩ 8 = { op := .ret } := by decide
  -- the machine behind the outer call, behind the inner one, and behind the return from that
  have hfirst : Machine.step {} ⟨0, 0⟩ { powerOn 0 with memory } =
      Machine.take {} ⟨0, 0⟩ { powerOn 0 with memory } { op := .call, address := 0x204 } := by
    rw [hholds.step_eq {} _ (o := 0) rfl rfl (by decide), houter]
  have hcalled : (Machine.step {} ⟨0, 0⟩ { powerOn 0 with memory }).machine =
      { powerOn 0 with memory, pc := 0x204, stack := [0x200], steps := 1 } := by
    rw [hfirst, machine_take hsized (by decide)]
    rfl
  have hcalledSized : Sized { powerOn 0 with memory, pc := 0x204, stack := [0x200], steps := 1 } :=
    { hsized with }
  have hdeep : (Machine.step {} ⟨0, 0⟩
      { powerOn 0 with memory, pc := 0x204, stack := [0x200], steps := 1 }).machine =
      { powerOn 0 with memory, pc := 0x208, stack := [0x204, 0x200], steps := 2 } := by
    rw [(hkeeps _ rfl).step_eq {} _ (o := 4) rfl rfl (by decide), hinner,
      machine_take hcalledSized (by decide)]
    rfl
  have hdeepSized : Sized (Machine.press
      { powerOn 0 with memory, pc := 0x208, stack := [0x204, 0x200], steps := 2 } 5) :=
    { hsized with }
  have hback : (Machine.step {} ⟨1, 0⟩ (Machine.press
      { powerOn 0 with memory, pc := 0x208, stack := [0x204, 0x200], steps := 2 } 5)).machine =
      Machine.press
        { powerOn 0 with memory, pc := 0x206, stack := [0x200], steps := 3, ticks := 1 } 5 := by
    rw [(hkeeps _ rfl).step_eq {} _ (o := 8) rfl rfl (by decide), hinnerRet,
      machine_take hdeepSized (by decide)]
    rfl
  have hbackSized : Sized (Machine.press
      { powerOn 0 with memory, pc := 0x206, stack := [0x200], steps := 3, ticks := 1 } 5) :=
    { hsized with }
  have hlast : (Machine.step {} ⟨2, 0⟩ (Machine.press
      { powerOn 0 with memory, pc := 0x206, stack := [0x200], steps := 3, ticks := 1 }
      5)).machine.stack.length = 0 := by
    rw [(hkeeps _ rfl).step_eq {} _ (o := 6) rfl rfl (by decide), hret,
      machine_take hbackSized (by decide)]
    rfl
  have hcompletes : (Machine.step {} ⟨0, 0⟩ { powerOn 0 with memory }).Completes
      { op := .call, address := 0x204 } := by
    rw [hfirst]
    exact completes_take hsized (by decide) rfl
  have hrun : (Machine.step {} ⟨0, 0⟩ { powerOn 0 with memory }).machine.handleAll {}
      [.step ⟨0, 0⟩, .press 5, .step ⟨1, 0⟩] = Machine.press
        { powerOn 0 with memory, pc := 0x206, stack := [0x200], steps := 3, ticks := 1 } 5 := by
    simp only [handleAll, handle, List.foldl, hcalled, hdeep, hback]
  have hdeeper : (Machine.step {} ⟨0, 0⟩ { powerOn 0 with memory }).machine.EveryStep {}
      (fun n input => (n.step {} input).machine.stack.length ≠ 0)
      [.step ⟨0, 0⟩, .press 5, .step ⟨1, 0⟩] := by
    simp only [EveryStep, handle, hcalled, hdeep, hback]
    exact ⟨Nat.succ_ne_zero _, Nat.succ_ne_zero _, trivial⟩
  exact ⟨_, hload, hcompletes, _, hrun, hdeeper, hlast,
    return_of_call hsized hcompletes rfl hrun hdeeper hlast⟩

end Machine

end SuperChip
