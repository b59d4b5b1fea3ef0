import SuperChip.Proofs.Machine.Keypad
import SuperChip.Proofs.Machine.Loading
import SuperChip.Proofs.Machine.Run
import SuperChip.Proofs.Machine.Untouched

/-!
# Keys that are read

An instruction that waits for a key reads the lowest one that is down and lets it go, so that the
same press is not read again. A history tells what has happened to the keys of a machine; a key is
pending after a history that pressed it and has not released or read it since. The keypad holds the
pending keys, and no key has been read more often than it was pressed (`Remembers`); one event keeps
this (`Remembers.handle`), and `run_reads_pending` says what follows for a whole run.
-/

set_option autoImplicit false

namespace SuperChip

/-- What happens to a key: it goes down, it goes up, or an instruction that waits for one reads
it. -/
inductive KeyEvent where
  | pressed (key : Nat)
  | released (key : Nat)
  | read (key : Nat)
  deriving DecidableEq, Repr

/-- A key was pressed, and was not released or read since. -/
def Pending (history : List KeyEvent) (key : Nat) : Prop :=
  ∃ before behind, history = before ++ .pressed key :: behind ∧
    .released key ∉ behind ∧ .read key ∉ behind

/-- At the start no key is pending. -/
theorem not_pending_nil (key : Nat) : ¬ Pending [] key := by
  rintro ⟨before, behind, heq, -⟩
  simp at heq

/-- An event makes a key pending, or ends that, or leaves it as it is. -/
theorem pending_concat {history : List KeyEvent} {e : KeyEvent} {key : Nat} :
    Pending (history ++ [e]) key ↔
      e = .pressed key ∨ (Pending history key ∧ e ≠ .released key ∧ e ≠ .read key) := by
  constructor
  · rintro ⟨before, behind, heq, hreleased, hread⟩
    -- the last press of the key is the new event, or was in the history already
    obtain rfl | ⟨rest, last, rfl⟩ := List.eq_nil_or_concat behind
    · exact .inl (List.append_singleton_inj.mp heq).2
    · have hsplit : history ++ [e] = (before ++ .pressed key :: rest) ++ [last] := by
        simpa using heq
      obtain ⟨rfl, rfl⟩ := List.append_singleton_inj.mp hsplit
      simp only [List.concat_eq_append, List.mem_append, List.mem_singleton, not_or]
        at hreleased hread
      exact .inr ⟨⟨before, rest, rfl, hreleased.1, hread.1⟩, Ne.symm hreleased.2, Ne.symm hread.2⟩
  · rintro (rfl | ⟨⟨before, behind, rfl, hreleased, hread⟩, hne, hne'⟩)
    · exact ⟨history, [], rfl, List.not_mem_nil, List.not_mem_nil⟩
    · refine ⟨before, behind ++ [e], by simp, ?_, ?_⟩
      · simpa [hreleased] using Ne.symm hne
      · simpa [hread] using Ne.symm hne'

namespace Machine

variable {c : Config} {m m₀ next : Machine} {input : StepInput} {i : Instruction}
  {history : List KeyEvent}

/-- The key that a step reads: its instruction waits for one and goes on, and the number of the key
is in the register of the instruction. -/
def readKey? (c : Config) (m : Machine) (input : StepInput) : Option Nat :=
  let r := m.step c input
  r.executed.bind fun i =>
    if i.op = .awaitKey ∧ r.machine.pc ≠ m.pc then some (r.machine.reg i.vx) else none

/-- What an event does to a key. -/
def keyEvents (c : Config) (m : Machine) : Event → List KeyEvent
  | .step input => (m.readKey? c input).toList.map .read
  | .press key => [.pressed (Keypad.key key)]
  | .release key => [.released (Keypad.key key)]

/-- What a run does to the keys. -/
def keyHistory (c : Config) (m : Machine) : List Event → List KeyEvent
  | [] => []
  | e :: rest => m.keyEvents c e ++ keyHistory c (m.handle c e) rest

/-- A step that waits for a key and finds none. -/
structure FindsNoKey (history : List KeyEvent) (m next : Machine) : Prop where
  nothing_pending : ∀ key, ¬ Pending history key
  pc : next.pc = m.pc
  registers : next.registers = m.registers
  keypad : next.keypad = m.keypad

/-- A step that waits for a key finds `key`: the least one that is pending. -/
structure ReadsLeast (history : List KeyEvent) (i : Instruction) (key : Nat) (m next : Machine) :
    Prop where
  pending : Pending history key
  least : ∀ other, Pending history other → key ≤ other
  stored : next.reg i.vx = key
  pc : next.pc = m.pc + 2
  keypad : ∀ j, next.keypad.bits.testBit j = (m.keypad.bits.testBit j && key != j)

/-! ## One step -/

/-- An instruction that waits for a key stays where it is while none is down, and otherwise takes
the lowest one. -/
theorem step_awaitKey (hm : m.Sized) (hexecuted : (m.step c input).executed = some i)
    (hop : i.op = .awaitKey) :
    (m.readKey? c input = none ∧ m.keypad.bits = 0 ∧ (m.step c input).machine.pc = m.pc ∧
      (m.step c input).machine.registers = m.registers ∧
      (m.step c input).machine.keypad = m.keypad) ∨
    ∃ key, m.readKey? c input = some key ∧ m.keypad.bits.testBit key = true ∧
      (∀ j, m.keypad.bits.testBit j = true → key ≤ j) ∧
      (m.step c input).machine.pc = m.pc + 2 ∧ (m.step c input).machine.reg i.vx = key ∧
      (m.step c input).machine.keypad = m.keypad.clearBit key := by
  have hread : m.readKey? c input = if (m.step c input).machine.pc ≠ m.pc then
      some ((m.step c input).machine.reg i.vx) else none := by simp [readKey?, hexecuted, hop]
  obtain ⟨hstep, hi, -⟩ := step_of_executed hexecuted
  obtain ⟨delay, sound, latch, ticks, htimers⟩ := exists_updateTimers c m input.ticks
  rw [hread, hstep, machine_take hm hi, htimers]
  simp only [outcome, hop]
  cases htaken : m.keypad.takeLowest? with
  | none =>
    have hstays : ¬m.pc ≠ m.pc := fun hmoves => hmoves rfl
    exact .inl ⟨if_neg hstays, Keypad.takeLowest?_eq_none_iff.mp htaken, rfl, rfl, rfl⟩
  | some taken =>
    obtain ⟨key, keypad⟩ := taken
    obtain ⟨hbit, hleast, rfl⟩ := Keypad.takeLowest?_eq_some htaken
    have hmoves : m.pc + 2 ≠ m.pc := by omega
    have hregister : i.vx.toNat < m.registers.size := by
      have hlt := hi.vx_lt
      rw [hm.registers, registerCount]
      omega
    have hstored (k : Machine) (hk : k.registers = m.registers) :
        (k.setReg i.vx key).reg i.vx = key :=
      (reg_setReg k _ _ _).trans (if_pos ⟨rfl, hk ▸ hregister⟩)
    exact .inr ⟨key, (if_pos hmoves).trans (congrArg some (hstored _ rfl)), hbit, hleast, rfl,
      hstored _ rfl, rfl⟩

/-- A step reads the lowest key that is down, and lets it go, or leaves the keypad as it is. -/
theorem step_keypad (hm : m.Sized) (c : Config) (input : StepInput) :
    (m.readKey? c input = none ∧ (m.step c input).machine.keypad = m.keypad) ∨
    ∃ key, m.readKey? c input = some key ∧ m.keypad.bits.testBit key = true ∧
      (m.step c input).machine.keypad = m.keypad.clearBit key := by
  obtain ⟨i, hi, huntouched⟩ | ⟨hnone, halted, hmachine⟩ := step_untouched hm c input
  · by_cases hop : i.op = .awaitKey
    · obtain ⟨hread, -, -, -, hkeypad⟩ | ⟨key, hread, hbit, -, -, -, hkeypad⟩ :=
        step_awaitKey hm hi hop
      · exact .inl ⟨hread, hkeypad⟩
      · exact .inr ⟨key, hread, hbit, hkeypad⟩
    · obtain ⟨delay, sound, latch, ticks, htimers⟩ := exists_updateTimers c m input.ticks
      have hkeypad := huntouched.keypad hop
      rw [htimers] at hkeypad
      exact .inl ⟨by simp [readKey?, hi, hop], hkeypad⟩
  · exact .inl ⟨by simp [readKey?, hnone], by rw [hmachine]⟩

/-! ## The invariant -/

/-- The keypad of a machine holds the keys that are pending, and each key was pressed at least as
often as it was read, once more if it is down. -/
structure Remembers (history : List KeyEvent) (m : Machine) : Prop where
  pending_iff : ∀ key, m.keypad.bits.testBit key = true ↔ Pending history key
  count_le : ∀ key, history.count (.read key) + (m.keypad.bits.testBit key).toNat ≤
    history.count (.pressed key)

/-- A key that goes down is pending. -/
theorem Remembers.pressed (h : Remembers history m) {key : Int}
    (hkeypad : next.keypad = m.keypad.press key) :
    Remembers (history ++ [.pressed (Keypad.key key)]) next := by
  constructor
  case pending_iff =>
    intro j
    rw [pending_concat, hkeypad, Keypad.testBit_press, ← h.pending_iff]
    simp [or_comm]
  case count_le =>
    intro j
    have hle := h.count_le j
    rw [hkeypad, Keypad.testBit_press, List.count_append, List.count_append]
    by_cases hj : Keypad.key key = j
    · subst hj
      simp
      omega
    · simpa [beq_false_of_ne hj, hj] using hle

/-- A key that is let go or read is pending no longer. -/
theorem Remembers.cleared (h : Remembers history m) {e : KeyEvent} {key : Nat}
    (he : e = .released key ∨ e = .read key ∧ m.keypad.bits.testBit key = true)
    (hkeypad : next.keypad = m.keypad.clearBit key) : Remembers (history ++ [e]) next := by
  constructor
  case pending_iff =>
    intro j
    rw [pending_concat, hkeypad, Keypad.testBit_clearBit, ← h.pending_iff]
    rcases he with rfl | ⟨rfl, -⟩ <;> simp
  case count_le =>
    intro j
    have hle := h.count_le j
    rw [hkeypad, Keypad.testBit_clearBit, List.count_append, List.count_append]
    by_cases hj : key = j
    · subst hj
      rcases he with rfl | ⟨rfl, hdown⟩
      · simp
        omega
      · simpa [hdown] using hle
    · rcases he with rfl | ⟨rfl, -⟩ <;> simpa [bne, beq_false_of_ne hj, hj] using hle

/-- One event keeps the keypad in step with the history. -/
theorem Remembers.handle (h : Remembers history m) (hm : m.Sized) (c : Config) (e : Event) :
    Remembers (history ++ m.keyEvents c e) (m.handle c e) := by
  cases e with
  | press key => exact h.pressed rfl
  | release key => exact h.cleared (.inl rfl) rfl
  | step input =>
    show Remembers (history ++ (m.readKey? c input).toList.map .read) (m.step c input).machine
    obtain ⟨hread, hkeypad⟩ | ⟨key, hread, hdown, hkeypad⟩ :=
      step_keypad hm c input
    · rw [hread, Option.toList_none, List.map_nil, List.append_nil]
      constructor
      case pending_iff => exact hkeypad ▸ h.pending_iff
      case count_le => exact hkeypad ▸ h.count_le
    · rw [hread]
      exact h.cleared (.inr ⟨rfl, hdown⟩) hkeypad

/-- A run keeps the keypad in step with the history. -/
theorem Remembers.handleAll (h : Remembers history m) (hm : m.Sized) (c : Config)
    (events : List Event) :
    Remembers (history ++ m.keyHistory c events) (m.handleAll c events) := by
  induction events generalizing m history with
  | nil => simpa [keyHistory, Machine.handleAll] using h
  | cons e rest ih =>
    have hrest := ih (h.handle hm c e) (hm.handle c e)
    rw [List.append_assoc] at hrest
    exact hrest

/-- On a machine on which no key is down nothing is pending. -/
theorem remembers_nil (hkeys : m.keypad.bits = 0) : Remembers [] m where
  pending_iff key := by simp [hkeys, not_pending_nil]
  count_le key := by simp [hkeys]

/-- From a sized machine on which no key is down, no run reads a key more often than it was pressed.
A step of the run that waits for a key reads the least one that is pending and clears that key
alone, or none is pending and it changes nothing. -/
theorem run_reads_pending (hm : m₀.Sized) (hkeys : m₀.keypad.bits = 0) (c : Config)
    (events : List Event) :
    (∀ key, (m₀.keyHistory c events).count (.read key) ≤
      (m₀.keyHistory c events).count (.pressed key)) ∧
    ∀ (input : StepInput) (i : Instruction),
      ((m₀.handleAll c events).step c input).executed = some i → i.op = .awaitKey →
      ((m₀.handleAll c events).readKey? c input = none ∧
        FindsNoKey (m₀.keyHistory c events) (m₀.handleAll c events)
          ((m₀.handleAll c events).step c input).machine) ∨
      ∃ key, (m₀.handleAll c events).readKey? c input = some key ∧
        ReadsLeast (m₀.keyHistory c events) i key (m₀.handleAll c events)
          ((m₀.handleAll c events).step c input).machine := by
  have hrun := (remembers_nil hkeys).handleAll hm c events
  replace hm := hm.handleAll c events
  rw [List.nil_append] at hrun
  generalize m₀.keyHistory c events = history at hrun ⊢
  generalize m₀.handleAll c events = m at hrun hm ⊢
  refine ⟨fun key => Nat.le_of_add_right_le (hrun.count_le key), fun input i hi hop => ?_⟩
  obtain ⟨hread, hnone, hpc, hregisters, hkeypad⟩ |
      ⟨key, hread, hbit, hleast, hpc, hstored, hkeypad⟩ :=
    step_awaitKey hm hi hop
  · left
    refine ⟨hread, ?_, hpc, hregisters, hkeypad⟩
    intro key hpending
    rw [← hrun.pending_iff, hnone, Nat.zero_testBit] at hpending
    cases hpending
  · right
    refine ⟨key, hread, ?_⟩
    constructor
    case pending => exact (hrun.pending_iff key).mp hbit
    case least => exact fun other hother => hleast other ((hrun.pending_iff other).mpr hother)
    case stored => exact hstored
    case pc => exact hpc
    case keypad => exact fun j => by rw [hkeypad, Keypad.testBit_clearBit]

/-- A program that waits for two keys. -/
def readTwoKeys : Bytes := #[0xF0, 0x0A, 0xF1, 0x0A]

/-- Key 5 goes down and then key 3, twice. The first read gives 3 and the second one 5. -/
theorem run_reads_pending_twoKeys :
    ∃ m₀, (powerOn 0).load readTwoKeys programStart = .ok m₀ ∧ m₀.keypad.bits = 0 ∧
      let events : List Event := [.press 21, .press 3, .press (-13), .step ⟨0, 0⟩]
      let history : List KeyEvent := [.pressed 5, .pressed 3, .pressed 3, .read 3]
      m₀.keyHistory {} events = history ∧
        (∀ key, history.count (.read key) ≤ history.count (.pressed key)) ∧
        ReadsLeast history { op := .awaitKey, vx := 1 } 5 (m₀.handleAll {} events)
          ((m₀.handleAll {} events).step {} ⟨1, 0⟩).machine := by
  obtain ⟨m₀, hload, hm₀⟩ : ∃ m₀, (powerOn 0).load readTwoKeys programStart = .ok m₀ ∧
      m₀.WellFormed := (wellFormed_powerOn 0).load (by decide)
  have hholds := holds_load hload
  obtain ⟨memory, rfl⟩ := exists_load_powerOn hload
  have hfirst :
      ProgramText.instructionAt ⟨readTwoKeys, false⟩ 0 = { op := .awaitKey, vx := 0 } := by
    decide
  have hsecond :
      ProgramText.instructionAt ⟨readTwoKeys, false⟩ 2 = { op := .awaitKey, vx := 1 } := by
    decide
  let start : Machine := { powerOn 0 with memory }
  have hsized : start.Sized := hm₀.sized
  let down : Machine := ((start.press 21).press 3).press (-13)
  let left : Machine := (next (Machine.setReg { down with keypad := ⟨32⟩ } 0 3)).countStep
  have hdown : down.Sized := { hsized with }
  have hstep : (down.step {} ⟨0, 0⟩).executed = some { op := .awaitKey, vx := 0 } ∧
      (down.step {} ⟨0, 0⟩).machine = left := by
    rw [(hholds.of_memory_eq (n := down) rfl).step_eq {} _ (o := 0) rfl rfl (by decide), hfirst,
      executed_take, machine_take hdown (by decide)]
    have htaken : (down.updateTimers {} 0).keypad.takeLowest? = some (3, ⟨32⟩) :=
      show (((({} : Keypad).press 21).press 3).press (-13)).takeLowest? = _ by cbv
    refine ⟨rfl, ?_⟩
    simp only [outcome, htaken]
    rfl
  have hread : down.readKey? {} ⟨0, 0⟩ = some 3 := by
    simp only [readKey?, hstep.1, hstep.2]
    rfl
  have hhistory : start.keyHistory {} [.press 21, .press 3, .press (-13), .step ⟨0, 0⟩] =
      [.pressed 5, .pressed 3, .pressed 3, .read 3] := by
    simp only [keyHistory, keyEvents, handle, List.cons_append, List.nil_append]
    rw [show readKey? {} _ ⟨0, 0⟩ = _ from hread]
    rfl
  have hrun : start.handleAll {} [.press 21, .press 3, .press (-13), .step ⟨0, 0⟩] = left := hstep.2
  have hkeys : start.keypad.bits = 0 := rfl
  obtain ⟨hcount, hwaits⟩ := run_reads_pending hsized hkeys {}
    [.press 21, .press 3, .press (-13), .step ⟨0, 0⟩]
  rw [hhistory, hrun] at hwaits
  rw [hhistory] at hcount
  have hnext : (left.step {} ⟨1, 0⟩).executed = some { op := .awaitKey, vx := 1 } := by
    rw [(hholds.of_memory_eq (n := left) rfl).step_eq {} _ (o := 2) rfl rfl (by decide), hsecond,
      executed_take]
  refine ⟨start, hload, hkeys, hhistory, hcount, ?_⟩
  rw [hrun]
  have hpending (key : Nat) :
      Pending [.pressed 5, .pressed 3, .pressed 3, .read 3] key ↔ key = 5 := by
    rw [show [KeyEvent.pressed 5, .pressed 3, .pressed 3, .read 3] =
      ((([] ++ [.pressed 5]) ++ [.pressed 3]) ++ [.pressed 3]) ++ [.read 3] from rfl]
    simp only [pending_concat, not_pending_nil]
    simp
    omega
  obtain ⟨-, hnone⟩ | ⟨key, -, hleast⟩ := hwaits ⟨1, 0⟩ _ hnext rfl
  · exact absurd ((hpending 5).mpr rfl) (hnone.nothing_pending 5)
  · exact (hpending key).mp hleast.pending ▸ hleast

end Machine
end SuperChip
