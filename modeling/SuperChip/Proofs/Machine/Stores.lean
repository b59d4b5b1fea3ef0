import SuperChip.Proofs.Machine.Calls
import SuperChip.Proofs.Machine.Untouched

/-!
# What is stored and read back

Two instructions write memory. One stores the decimal digits of a register, the other one the first
registers; no other step changes a byte. Registers that were stored can be read back later: whatever
happened to the registers and the index in between, they are what they were when they were stored,
as long as the bytes that hold them stand where the index points. The same goes for registers that
are saved as flags. `step_stores_and_restores` says all this of a step.
-/

set_option autoImplicit false

namespace SuperChip

/-- The bytes `after` are those of `before`, except that the numbers `written` stand in them from
`start` on. -/
structure Bytes.Writes (before after : Bytes) (start : Nat) (written : List Nat) : Prop where
  inside : start + written.length ≤ before.size
  size : after.size = before.size
  bytes : ∀ k < written.length, after[start + k]?.map UInt8.toNat = written[k]?
  others : ∀ a, a < start ∨ start + written.length ≤ a → after[a]? = before[a]?

/-- Numbers that are all bytes are written where they fit. -/
theorem Bytes.writes_overwrite {b : Bytes} {start : Nat} {ns : List Nat}
    (hinside : start + ns.length ≤ b.size) (hbytes : ∀ n ∈ ns, n < 0x100) :
    b.Writes (b.overwrite start (ns.map UInt8.ofNat)) start ns where
  inside := hinside
  size := Bytes.size_overwrite b start _
  bytes k hk := by
    have hbyte : UInt8.toNat (UInt8.ofNat ns[k]) = ns[k] := by
      have := hbytes ns[k] (List.getElem_mem hk)
      simp only [UInt8.toNat_ofNat']
      omega
    rw [Bytes.getElem?_overwrite, if_pos (by rw [List.length_map]; omega), Nat.add_sub_cancel_left,
      List.getElem?_map, List.getElem?_eq_getElem hk]
    simp only [Option.map_some, hbyte]
  others a ha := by
    rw [Bytes.getElem?_overwrite, if_neg (by rw [List.length_map]; omega)]

/-- How far a copy of the registers up to number `x` advances the index register. -/
def Config.copyAdvance (c : Config) (x : Int) : Nat :=
  if c.loadsAdvance then 2 * (x.toNat + 1) else 0

namespace Machine

variable {c : Config} {m next : Machine} {input : StepInput} {i : Instruction} {random : Int}

/-- What an instruction writes into memory: decimal digits, registers, or nothing. -/
def Writes (i : Instruction) (m next : Machine) : Prop :=
  match i.op with
  | .storeDecimal => ∃ hundreds tens units, hundreds < 10 ∧ tens < 10 ∧ units < 10 ∧
      100 * hundreds + 10 * tens + units = m.reg i.vx ∧
      m.memory.Writes next.memory m.index [hundreds, tens, units]
  | .storeRegs => m.memory.Writes next.memory m.index (m.upTo i.vx)
  | _ => next.memory = m.memory

/-- The registers up to number `x` are as in the machine `saved`, and the higher ones as in `m`. -/
structure Restores (x : Int) (saved m next : Machine) : Prop where
  restored : ∀ k : Nat, k ≤ x → next.reg k = saved.reg k
  kept : ∀ k : Nat, x < k → k < 16 → next.reg k = m.reg k

/-- The index points where it did in the machine `m`, and the bytes there that hold the registers up
to number `x` in the machine `stored` are still the same. -/
structure KeepsBytes (x : Int) (m stored n : Machine) : Prop where
  index : n.index = m.index
  bytes : ∀ k : Nat, k ≤ x → n.memory[m.index + k]? = stored.memory[m.index + k]?

/-- The flags of the registers up to number `x` are those of the machine `saved`. -/
def KeepsFlags (x : Int) (saved n : Machine) : Prop :=
  ∀ k : Nat, k ≤ x → n.flags[k]? = saved.flags[k]?

/-- On every sized machine that keeps what was stored, a step with the operation gives the registers
up to number `x` the values that they have in the machine `m`, and leaves the higher ones alone. -/
def Recalls (op : Op) (c : Config) (x : Int) (m : Machine) (keeps : Machine → Prop) : Prop :=
  ∀ (n : Machine) (input : StepInput) (i : Instruction), n.Sized → keeps n →
    (n.step c input).executed = some i → i.op = op → i.vx = x →
    (n.step c input).Completes i ∧ Restores x m n (n.step c input).machine

/-! ## Registers as a list -/

/-- A register that a sized machine has. -/
theorem getElem?_registers (hm : m.Sized) {k : Nat} (hk : k < 16) :
    m.registers[k]? = some (m.reg k) := by
  have hsize : m.registers.size = 16 := hm.registers
  have hlt : k < m.registers.size := by omega
  rw [reg, Int.toNat_natCast, Array.getD_eq_getD_getElem?, Array.getElem?_eq_getElem hlt,
    Option.getD_some]

/-- The registers up to a number, one by one. -/
theorem getElem?_upTo (hm : m.Sized) (hi : i.Fits) {k : Nat} (hk : k ≤ i.vx) :
    (m.upTo i.vx)[k]? = some (m.reg k) := by
  have h0 := hi.vx_nonneg
  have hx := hi.vx_lt
  have hsize : m.registers.size = 16 := hm.registers
  rw [upTo, Array.getElem?_toList, Cells.slice_first m.registers (by omega) (by omega),
    Array.getElem?_extract, if_pos (by omega), Nat.zero_add, getElem?_registers hm (by omega)]

/-- The first registers take the values of a list, and the others stay. -/
theorem reg_setFirst (hm : m.Sized) (hi : i.Fits) {values : Cells Nat}
    (hsize : values.size = i.vx.toNat + 1) {k : Nat} :
    (m.setFirst i.vx values).reg k = values[k]?.getD (m.reg k) := by
  have h0 := hi.vx_nonneg
  have hx := hi.vx_lt
  have hregisters : m.registers.size = 16 := hm.registers
  have hcells := Cells.getElem?_splice_first m.registers values (n := i.vx + 1) (by omega)
    (by omega) k
  simp only [reg, setFirst, Array.getD_eq_getD_getElem?, Int.toNat_natCast, hcells]
  split
  · next hlt => rw [Array.getElem?_eq_getElem hlt, Option.getD_some, Option.getD_some]
  · next hge => rw [Array.getElem?_eq_none (Nat.not_lt.mp hge), Option.getD_none]

/-- A block copy advances the index where the configuration says so. -/
theorem index_advance (c : Config) (m : Machine) (x : Int) :
    (m.advance c x).index = m.index + c.copyAdvance x := by
  unfold advance Config.copyAdvance
  split <;> rfl

/-- Advancing the index changes no byte. -/
theorem memory_advance (c : Config) (m : Machine) (x : Int) :
    (m.advance c x).memory = m.memory := by
  obtain ⟨index, hadvance⟩ := exists_advance c m x
  rw [hadvance]

/-- Advancing the index changes no register. -/
theorem reg_advance (c : Config) (m : Machine) (x k : Int) : (m.advance c x).reg k = m.reg k := by
  obtain ⟨index, hadvance⟩ := exists_advance c m x
  rw [hadvance]
  rfl

/-! ## One instruction -/

/-- Decimal digits are written inside memory. -/
theorem writes_storeDecimal (h : m.Sound) (hop : i.op = .storeDecimal)
    (hexec : m.outcome c random i = .ok next) : Writes i m next := by
  have hlt := h.reg_lt i.vx
  simp only [outcome, hop] at hexec
  split at hexec
  · cases hexec
  next hinside =>
  rw [bytesOf?_eq_some (decimalDigits_lt hlt)] at hexec
  cases hexec
  simp only [Writes, hop]
  refine ⟨m.reg i.vx / 100, m.reg i.vx / 10 % 10, m.reg i.vx % 10, by omega, by omega, by omega,
    by omega, ?_⟩
  refine Bytes.writes_overwrite ?_ (decimalDigits_lt hlt)
  rw [h.memory_size]
  exact Nat.not_lt.mp hinside

/-- Registers are stored inside memory, and the index advances behind them. -/
theorem outcome_storeRegs (h : m.Sound) (hi : i.Fits) (hop : i.op = .storeRegs)
    (hexec : m.outcome c random i = .ok next) :
    m.index + i.vx.toNat + 1 ≤ memorySize ∧
      m.memory.Writes next.memory m.index (m.upTo i.vx) ∧
      next.index = m.index + c.copyAdvance i.vx := by
  simp only [outcome, hop] at hexec
  split at hexec
  · cases hexec
  next hinside =>
  rw [bytesOf?_eq_some (h.upTo_lt i.vx)] at hexec
  cases hexec
  refine ⟨by omega, ?_, index_advance c _ _⟩
  change m.memory.Writes (advance c _ i.vx).memory m.index _
  rw [memory_advance]
  refine Bytes.writes_overwrite ?_ (h.upTo_lt i.vx)
  rw [h.sized.length_upTo hi.vx_nonneg hi.vx_lt, h.memory_size]
  omega

/-- What an instruction writes into memory, if it does not abort. -/
theorem outcome_writes (h : m.Sound) (hi : i.Fits) (hexec : m.outcome c random i = .ok next) :
    Writes i m next := by
  by_cases hdecimal : i.op = .storeDecimal
  · exact writes_storeDecimal h hdecimal hexec
  by_cases hregs : i.op = .storeRegs
  · simp only [Writes, hregs]
    exact (outcome_storeRegs h hi hregs hexec).2.1
  · have hsame := (outcome_untouched hexec).memory hdecimal hregs
    unfold Writes
    split
    · next hop => exact absurd hop hdecimal
    · next hop => exact absurd hop hregs
    · exact hsame

/-- Where the first registers take the values that they had in `saved`, they are restored. -/
theorem restores_setFirst {saved : Machine} {values : Cells Nat} (hm : m.Sized) (hi : i.Fits)
    (hsize : values.size = i.vx.toNat + 1)
    (hvalues : ∀ k : Nat, k ≤ i.vx → values[k]? = some (saved.reg k)) :
    Restores i.vx saved m (m.setFirst i.vx values) := by
  have h0 := hi.vx_nonneg
  constructor
  case restored =>
    intro k hk
    rw [reg_setFirst hm hi hsize, hvalues k hk, Option.getD_some]
  case kept =>
    intro k hk hlt
    rw [reg_setFirst hm hi hsize, Array.getElem?_eq_none (by omega), Option.getD_none]

/-- Registers are restored from the bytes that hold them. -/
theorem outcome_readRegs (hm : m.Sized) (hi : i.Fits) (saved : Machine) (c : Config)
    (random : Int) (hop : i.op = .readRegs) (hinside : m.index + i.vx.toNat + 1 ≤ memorySize)
    (hstored : ∀ k : Nat, k ≤ i.vx → m.memory[m.index + k]?.map UInt8.toNat = some (saved.reg k)) :
    ∃ next, m.outcome c random i = .ok next ∧ Restores i.vx saved m next := by
  have h0 := hi.vx_nonneg
  have hmemory := hm.memory
  have hrestores : Restores i.vx saved m (m.setFirst i.vx
      ((m.memory.extract m.index (m.index + i.vx.toNat + 1)).map UInt8.toNat)) := by
    apply restores_setFirst hm hi
    · rw [Array.size_map, Array.size_extract]
      omega
    · intro k hk
      rw [← hstored k hk, Array.getElem?_map, Array.getElem?_extract, if_pos (by omega)]
  have hnot : ¬memorySize < m.index + i.vx.toNat + 1 := by omega
  simp only [outcome, hop, if_neg hnot]
  refine ⟨_, rfl, fun k hk => ?_, fun k hk hlt => ?_⟩
  · exact (reg_advance c _ i.vx k).trans (hrestores.restored k hk)
  · exact (reg_advance c _ i.vx k).trans (hrestores.kept k hk hlt)

/-- Reading registers back advances the index. -/
theorem index_of_readRegs (hop : i.op = .readRegs) (hexec : m.outcome c random i = .ok next) :
    next.index = m.index + c.copyAdvance i.vx := by
  simp only [outcome, hop] at hexec
  split at hexec
  · cases hexec
  · cases hexec
    exact index_advance c _ i.vx

/-- Registers that have flags are saved as these. -/
theorem outcome_saveFlags (hm : m.Sized) (hi : i.Fits) (c : Config) (random : Int)
    (hop : i.op = .saveFlags) (hx : i.vx < 8) :
    ∃ next, m.outcome c random i = .ok next ∧
      ∀ k : Nat, k ≤ i.vx → next.flags[k]? = some (m.reg k) := by
  have h0 := hi.vx_nonneg
  have hflags : m.flags.size = 8 := hm.flags
  have hlength := hm.length_upTo hi.vx_nonneg hi.vx_lt
  have hnot : ¬(flagCount : Int) ≤ i.vx := Int.not_le.mpr hx
  simp only [outcome, hop, if_neg hnot]
  refine ⟨_, rfl, fun k hk => ?_⟩
  have hcells := Cells.getElem?_splice_first m.flags (m.upTo i.vx).toArray (n := i.vx + 1)
    (by rw [List.size_toArray]; omega) (by rw [List.size_toArray]; omega) k
  have hplace : k < (m.upTo i.vx).toArray.size := by
    rw [List.size_toArray]
    omega
  have hvalue : (m.upTo i.vx).toArray[k]? = some (m.reg k) :=
    List.getElem?_toArray.trans (getElem?_upTo hm hi hk)
  rw [if_pos hplace, hvalue] at hcells
  exact hcells

/-- Registers are restored from the flags that hold them. -/
theorem outcome_restoreFlags (hm : m.Sized) (hi : i.Fits) (saved : Machine) (c : Config)
    (random : Int) (hop : i.op = .restoreFlags) (hx : i.vx < 8)
    (hsaved : ∀ k : Nat, k ≤ i.vx → m.flags[k]? = some (saved.reg k)) :
    ∃ next, m.outcome c random i = .ok next ∧ Restores i.vx saved m next := by
  have h0 := hi.vx_nonneg
  have hflags : m.flags.size = 8 := hm.flags
  have hnot : ¬(flagCount : Int) ≤ i.vx := Int.not_le.mpr hx
  obtain ⟨hslice, hsize⟩ := hm.slice_flags hi hnot
  simp only [outcome, hop, if_neg hnot]
  refine ⟨_, rfl, ?_⟩
  have hrestores : Restores i.vx saved m (m.setFirst i.vx (m.flags.slice 0 (i.vx + 1))) := by
    refine restores_setFirst hm hi hsize fun k hk => ?_
    rw [hslice, Array.getElem?_extract, if_pos (by omega), Nat.zero_add, hsaved k hk]
  exact ⟨hrestores.restored, hrestores.kept⟩

/-! ## One step -/

/-- A completed step is the instruction's effect on a machine that differs from the one before only
in its timers. -/
theorem exists_timed_outcome (h : m.WellFormed) (hcompletes : (m.step c input).Completes i) :
    ∃ next delay sound latch ticks,
      ({ m with delay, sound, latch, ticks } : Machine).Sound ∧
        ({ m with delay, sound, latch, ticks } : Machine).outcome c input.random i = .ok next ∧
        (m.step c input).machine = next.countStep := by
  obtain ⟨next, hexec, hmachine⟩ := exists_outcome_of_completes h.sized hcompletes
  obtain ⟨delay, sound, latch, ticks, htimers⟩ := exists_updateTimers c m input.ticks
  have hsound := h.toSound.updateTimers c input.ticks
  rw [htimers] at hexec hsound
  exact ⟨next, delay, sound, latch, ticks, hsound, hexec, hmachine⟩

/-- An instruction that has its effect whatever the timers show is completed by its step. -/
theorem completes_of_timed_outcome (hm : m.Sized) (P : Machine → Prop)
    (hexecuted : (m.step c input).executed = some i)
    (hexec : ∀ delay sound latch ticks, ∃ next,
      ({ m with delay, sound, latch, ticks } : Machine).outcome c input.random i = .ok next ∧
        P next) :
    (m.step c input).Completes i ∧ ∃ next, (m.step c input).machine = next.countStep ∧ P next := by
  obtain ⟨delay, sound, latch, ticks, htimers⟩ := exists_updateTimers c m input.ticks
  obtain ⟨next, hnext, hP⟩ := hexec delay sound latch ticks
  rw [← htimers] at hnext
  obtain ⟨hdone, hmachine⟩ := completes_of_outcome hm hexecuted hnext
  exact ⟨hdone, next, hmachine, hP⟩

/-- A completed step writes what its instruction writes. -/
theorem writes_of_completes (h : m.WellFormed) (hcompletes : (m.step c input).Completes i) :
    Writes i m (m.step c input).machine := by
  obtain ⟨next, delay, sound, latch, ticks, hsound, hexec, hmachine⟩ :=
    exists_timed_outcome h hcompletes
  have hwrites := outcome_writes hsound (h.fits hcompletes.executed) hexec
  rw [hmachine]
  exact hwrites

/-- A step that completes no instruction leaves memory as it is. -/
theorem memory_of_not_completes (hm : m.Sized) (h : ∀ i, ¬(m.step c input).Completes i) :
    (m.step c input).machine.memory = m.memory := by
  obtain ⟨i, hrunning, hlt, hi⟩ | ⟨-, hmachine, -⟩ := step_cases c m input
  · obtain ⟨delay, sound, latch, ticks, htimers⟩ := exists_updateTimers c m input.ticks
    rw [step_of_current? hrunning hlt hi] at h ⊢
    rw [machine_take hm (fits_of_current? hi)]
    cases hexec : (m.updateTimers c input.ticks).outcome c input.random i with
    | ok next => exact absurd (completes_take hm (fits_of_current? hi) hexec) (h i)
    | error stop =>
      rw [htimers]
      cases stop <;> rfl
  · rw [hmachine]

/-- A copy of registers, either way, advances the index. -/
theorem index_of_completes (h : m.WellFormed) (hcompletes : (m.step c input).Completes i)
    (hop : i.op = .storeRegs ∨ i.op = .readRegs) :
    (m.step c input).machine.index = m.index + c.copyAdvance i.vx := by
  obtain ⟨next, delay, sound, latch, ticks, hsound, hexec, hmachine⟩ :=
    exists_timed_outcome h hcompletes
  rw [hmachine]
  obtain hop | hop := hop
  · have hstore := outcome_storeRegs hsound (h.fits hcompletes.executed) hop hexec
    exact hstore.2.2
  · have hread := index_of_readRegs hop hexec
    exact hread

/-- Registers that were stored in memory can be read back. -/
theorem recalls_readRegs (h : m.WellFormed) (hcompletes : (m.step c input).Completes i)
    (hop : i.op = .storeRegs) :
    Recalls .readRegs c i.vx m (KeepsBytes i.vx m (m.step c input).machine) := by
  obtain ⟨next, delay, sound, latch, ticks, hsound, hexec, hmachine⟩ :=
    exists_timed_outcome h hcompletes
  have hi := h.fits hcompletes.executed
  obtain ⟨hinside, hwrites, -⟩ := outcome_storeRegs hsound hi hop hexec
  rw [hmachine]
  rintro n later j hn ⟨hindex, hbytes⟩ hexecuted hread hx
  have hj : j.Fits := (step_of_executed hexecuted).2.1
  -- the bytes that the other machine has at its index are those that were stored
  have hstored : ∀ k : Nat, k ≤ i.vx →
      n.memory[n.index + k]?.map UInt8.toNat = some (m.reg k) := by
    intro k hk
    have hplace : k < (m.upTo i.vx).length := by
      rw [h.sized.length_upTo hi.vx_nonneg hi.vx_lt]
      omega
    rw [hindex, hbytes k hk, ← getElem?_upTo h.sized hi hk]
    exact hwrites.bytes k hplace
  have hnear : n.index + i.vx.toNat + 1 ≤ memorySize := by
    rw [hindex]
    exact hinside
  rw [← hx] at hstored hnear ⊢
  have hlast : ∀ delay sound latch ticks, ∃ last,
      ({ n with delay, sound, latch, ticks } : Machine).outcome c later.random j = .ok last ∧
        Restores j.vx m n last := by
    intro delay sound latch ticks
    have hsized : ({ n with delay, sound, latch, ticks } : Machine).Sized := { hn with }
    obtain ⟨last, hexec, hrestores⟩ :=
      outcome_readRegs hsized hj m c later.random hread hnear hstored
    exact ⟨last, hexec, hrestores.restored, hrestores.kept⟩
  obtain ⟨hdone, last, hend, hrestores⟩ := completes_of_timed_outcome hn _ hexecuted hlast
  rw [hend]
  exact ⟨hdone, hrestores.restored, hrestores.kept⟩

/-- Registers that were saved as flags can be read back. -/
theorem recalls_restoreFlags (h : m.WellFormed) (hexecuted : (m.step c input).executed = some i)
    (hop : i.op = .saveFlags) (hflags : i.vx < 8) :
    (m.step c input).Completes i ∧
      Recalls .restoreFlags c i.vx m (KeepsFlags i.vx (m.step c input).machine) := by
  have hi := h.fits hexecuted
  have hsave : ∀ delay sound latch ticks, ∃ next,
      ({ m with delay, sound, latch, ticks } : Machine).outcome c input.random i = .ok next ∧
        ∀ k : Nat, k ≤ i.vx → next.flags[k]? = some (m.reg k) := by
    intro delay sound latch ticks
    have hsized : ({ m with delay, sound, latch, ticks } : Machine).Sized := { h.sized with }
    exact outcome_saveFlags hsized hi c input.random hop hflags
  obtain ⟨hdone, next, hmachine, hsaved⟩ :=
    completes_of_timed_outcome h.sized _ hexecuted hsave
  refine ⟨hdone, ?_⟩
  rw [hmachine]
  intro n later j hn hkept hlater hrestore hx
  have hj : j.Fits := (step_of_executed hlater).2.1
  have hheld : ∀ k : Nat, k ≤ i.vx → n.flags[k]? = some (m.reg k) :=
    fun k hk => (hkept k hk).trans (hsaved k hk)
  rw [← hx] at hheld ⊢
  have hlast : ∀ delay sound latch ticks, ∃ last,
      ({ n with delay, sound, latch, ticks } : Machine).outcome c later.random j = .ok last ∧
        Restores j.vx m n last := by
    intro delay sound latch ticks
    have hsized : ({ n with delay, sound, latch, ticks } : Machine).Sized := { hn with }
    obtain ⟨last, hexec, hrestores⟩ :=
      outcome_restoreFlags hsized hj m c later.random hrestore (hx ▸ hflags) hheld
    exact ⟨last, hexec, hrestores.restored, hrestores.kept⟩
  obtain ⟨hcompleted, last, hend, hrestores⟩ := completes_of_timed_outcome hn _ hlater hlast
  rw [hend]
  exact ⟨hcompleted, hrestores.restored, hrestores.kept⟩

/-- A step changes memory only where it stores digits or registers. What was stored is read back
later, from memory and from the flags, and a copy of registers advances the index only where the
configuration says so. -/
theorem step_stores_and_restores (h : m.WellFormed) (c : Config) (input : StepInput) :
    (∀ i, (m.step c input).Completes i → Writes i m (m.step c input).machine) ∧
      ((∀ i, ¬(m.step c input).Completes i) → (m.step c input).machine.memory = m.memory) ∧
      (∀ i, (m.step c input).Completes i → i.op = .storeRegs ∨ i.op = .readRegs →
        (m.step c input).machine.index = m.index + c.copyAdvance i.vx) ∧
      (∀ i, (m.step c input).Completes i → i.op = .storeRegs →
        Recalls .readRegs c i.vx m (KeepsBytes i.vx m (m.step c input).machine)) ∧
      ∀ i, (m.step c input).executed = some i → i.op = .saveFlags → i.vx < 8 →
        (m.step c input).Completes i ∧
          Recalls .restoreFlags c i.vx m (KeepsFlags i.vx (m.step c input).machine) := by
  refine ⟨fun i hcompletes => ?writes, ?frame, fun i hcompletes hop => ?advance,
    fun i hcompletes hop => ?memory, fun i hexecuted hop hflags => ?flags⟩
  case writes => exact writes_of_completes h hcompletes
  case frame => exact memory_of_not_completes h.sized
  case advance => exact index_of_completes h hcompletes hop
  case memory => exact recalls_readRegs h hcompletes hop
  case flags => exact recalls_restoreFlags h hexecuted hop hflags

/-- Two registers are stored where the index points, and read back. -/
def storeAndRead : Bytes := #[0xF1, 0x55, 0xF1, 0x65]

/-- The last two bytes of memory hold two registers, while all registers are cleared. -/
theorem step_stores_and_restores_lastBytes :
    ∃ m₀, (powerOn 0).load storeAndRead programStart = .ok m₀ ∧
      let m : Machine := setReg { m₀ with index := 0xFFE } 1 7
      let stored := (m.step {} ⟨0, 0⟩).machine
      let n : Machine := { stored with registers := Array.replicate 16 0 }
      m.WellFormed ∧ m.memory.Writes stored.memory 0xFFE [0, 7] ∧ stored.index = 0xFFE ∧
        n.reg 1 = 0 ∧ (n.step {} ⟨0, 0⟩).machine.reg 1 = 7 := by
  obtain ⟨m₀, hload, hm₀⟩ :=
    (wellFormed_powerOn 0).load (show storeAndRead.size ≤ programSize by decide)
  have hholds := holds_load hload
  obtain ⟨memory, rfl⟩ := exists_load_powerOn hload
  have hstore : ProgramText.instructionAt ⟨storeAndRead, false⟩ 0 =
      { op := .storeRegs, vx := 1 } := by decide
  have hread : Instruction.decode (Bytes.word 0xF1 0x65) false =
      { op := .readRegs, vx := 1 } := by decide
  let m : Machine := setReg { powerOn 0 with memory, index := 0xFFE } 1 7
  have hm : m.WellFormed :=
    { ({ hm₀.toSound with index_lt := show 0xFFE < 0x10000 by decide } :
        Sound { powerOn 0 with memory, index := 0xFFE }).setReg 1 (by decide) with
      pc_even := hm₀.pc_even
      pc_nonneg := hm₀.pc_nonneg
      pc_le := hm₀.pc_le }
  have hupTo : m.upTo 1 = [0, 7] := rfl
  have hstep : m.step {} ⟨0, 0⟩ = m.take {} ⟨0, 0⟩ { op := .storeRegs, vx := 1 } := by
    rw [(hholds.of_memory_eq (n := m) rfl).step_eq _ _ (o := 0) rfl rfl (by decide), hstore]
  have hcompletes : (m.step {} ⟨0, 0⟩).Completes { op := .storeRegs, vx := 1 } := by
    rw [hstep]
    exact completes_take hm.sized (by decide) rfl
  have hmachine : ∃ written, (m.step {} ⟨0, 0⟩).machine =
      { m with memory := written, pc := 0x202, steps := 1 } := by
    rw [hstep, machine_take hm.sized (by decide)]
    exact ⟨_, rfl⟩
  obtain ⟨hwrites, -, hindex, hrecalls, -⟩ := step_stores_and_restores hm {} ⟨0, 0⟩
  have hmemory := hwrites _ hcompletes
  replace hindex := hindex _ hcompletes (.inl rfl)
  replace hrecalls := hrecalls _ hcompletes rfl
  obtain ⟨written, hmachine⟩ := hmachine
  rw [hmachine] at hmemory hindex hrecalls
  simp only [Writes, hupTo] at hmemory
  let n : Machine :=
    { m with memory := written, pc := 0x202, steps := 1, registers := Array.replicate 16 0 }
  have hn : n.Sized :=
    { memory := Nat.le_of_eq (hmemory.size.trans hm.memory_size).symm
      registers := rfl
      flags := hm.flags_size }
  have hbyte : ∀ o, o < 4 → n.memory[programStart + o]? = some (storeAndRead.getD o 0) := by
    intro o ho
    have hbelow : programStart + o < 0xFFE := by
      simp only [programStart]
      omega
    exact (hmemory.others _ (.inl hbelow)).trans (hholds o (Nat.lt_trans ho (by decide)))
  have hnext : (n.step {} ⟨0, 0⟩).executed = some { op := .readRegs, vx := 1 } := by
    have hcurrent := current?_of_bytes (c := {}) (m := n) (a := 0x202) rfl (by decide)
      (hbyte 2 (by decide)) (hbyte 3 (by decide))
    rw [step_of_current? rfl (show (0x202 : Int) < memorySize by decide) hcurrent, executed_take]
    exact congrArg some hread
  obtain ⟨-, hrestores⟩ := hrecalls n ⟨0, 0⟩ _ hn ⟨rfl, fun k _ => rfl⟩ hnext rfl rfl
  refine ⟨_, hload, hm, ?_⟩
  rw [hmachine]
  exact ⟨hmemory, rfl, rfl, hrestores.restored 1 (by decide)⟩

end Machine

end SuperChip
