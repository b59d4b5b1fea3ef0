import SuperChip.Proofs.Instruction.Fields
import SuperChip.Proofs.Machine.Parts

/-!
# What an instruction comes to

`outcome` gives the whole machine after an instruction, its program counter included, or why the
instruction stops. On a sized machine a decoded instruction comes to exactly this, and where it
stops it has changed nothing (`execute_eq`). The cases are the operations. The block copies and the
digits stay inside memory because of what they check first, and the flags inside the registers;
every other instruction reads before it writes.
-/

set_option autoImplicit false

namespace SuperChip

open EState

namespace Machine

/-! ## Outcomes -/

/-- The machine at its next instruction. -/
def next (m : Machine) : Machine := m.goto (m.pc + 2)

/-- The machine at its next instruction, or one further. -/
def skipIf (m : Machine) (condition : Bool) : Machine := m.goto (m.pc + if condition then 4 else 2)

/-- The effect of a draw or scroll: it waits at its address until the gate opens. -/
def gated (c : Config) (m : Machine) (effect : Machine → Machine) : Machine :=
  match m.gate c with
  | (true, m) => (effect m).next
  | (false, m) => m

/-- The index register after a block copy of the registers up to number `x`. -/
def advance (c : Config) (m : Machine) (x : Int) : Machine :=
  if c.loadsAdvance then { m with index := m.index + 2 * (x.toNat + 1) } else m

/-- The three decimal digits of a number, the last two below ten. -/
def decimalDigits (n : Nat) : List Nat := [n / 100, n / 10 % 10, n % 10]

/-- The machine after an instruction. `random` is the number to be drawn if it draws one. -/
def outcome (c : Config) (random : Int) (m : Machine) (i : Instruction) : Except Stop Machine :=
  let vx := m.reg i.vx
  let vy := m.reg i.vy
  let source := if c.shiftsVy then vy else vx
  match i.op with
  | .invalid => .ok m.next
  | .scrollDown => .ok (m.gated c fun m => m.present (m.display.scrollDown i.nibble.toNat))
  | .clear => .ok (m.present .blank).next
  | .ret =>
    match m.stack with
    | [] => .error (.abort .returnWithoutCall)
    | caller :: stack => .ok ({ m with stack }.goto (caller + 2))
  | .scrollRight => .ok (m.gated c fun m => m.present (m.display.scrollRight sidewaysStep))
  | .scrollLeft => .ok (m.gated c fun m => m.present (m.display.scrollLeft sidewaysStep))
  | .exit => .ok { m with halted := true }.next
  | .lowRes => .ok { m with highRes := false, needsRefresh := true }.next
  | .highRes => .ok { m with highRes := true, needsRefresh := true }.next
  | .jump =>
    if i.address % 2 = 0 then .ok (m.goto i.address)
    else .error (.abort (.misalignedJump i.address))
  | .call =>
    if i.address % 2 = 0 then .ok ({ m with stack := m.pc :: m.stack }.goto i.address)
    else .error (.abort (.misalignedCall i.address))
  | .jumpV0 =>
    let target := i.address + m.reg 0
    if target % 2 ≠ 0 then .error (.abort (.misalignedJump target))
    else if memorySize ≤ target then .error (.abort (.jumpOutside target))
    else .ok (m.goto target)
  | .skipEqByte => .ok (m.skipIf (vx == i.byte))
  | .skipNeByte => .ok (m.skipIf (vx != i.byte))
  | .skipEqReg => .ok (m.skipIf (vx == vy))
  | .skipNeReg => .ok (m.skipIf (vx != vy))
  | .skipPressed => .ok (m.skipIf (m.keypad.isDown vx))
  | .skipReleased => .ok (m.skipIf (!m.keypad.isDown vx))
  | .loadByte => .ok (m.setReg i.vx i.byte.toNat).next
  | .addByte => .ok (m.setWithFlag i.vx (vx + i.byte) (0xFF < vx + i.byte)).next
  | .loadReg => .ok (m.setReg i.vx vy).next
  | .or => .ok (m.setReg i.vx (vx ||| vy)).next
  | .and => .ok (m.setReg i.vx (vx &&& vy)).next
  | .xor => .ok (m.setReg i.vx (vx ^^^ vy)).next
  | .addReg => .ok (m.setWithFlag i.vx (vx + vy) (0xFF < vx + vy)).next
  | .sub => .ok (m.setWithFlag i.vx (vx - vy) (vy ≤ vx)).next
  | .subReverse => .ok (m.setWithFlag i.vx (vy - vx) (vx ≤ vy)).next
  | .shiftRight => .ok (m.setWithFlag i.vx (source / 2) (source % 2 = 1)).next
  | .shiftLeft => .ok (m.setWithFlag i.vx (2 * source) (source / 0x80 % 2 = 1)).next
  | .random => .ok (m.setReg i.vx ((random % 0x100).toNat &&& i.byte.toNat)).next
  | .loadIndex => .ok { m with index := i.address.toNat }.next
  | .addIndex => .ok { m with index := (m.index + vx) % 0x10000 }.next
  | .pointDigit => .ok { m with index := Font.smallStart + Font.smallHeight * (vx % 16) }.next
  | .pointBigDigit => .ok { m with index := Font.bigStart + Font.bigHeight * (vx % 16) }.next
  | .draw => .ok (m.gated c fun m => m.drawSprite vx vy i.nibble.toNat)
  | .readDelay => .ok (m.setReg i.vx m.delay).next
  | .awaitKey =>
    match m.keypad.takeLowest? with
    | none => .ok m
    | some (key, keypad) => .ok ({ m with keypad }.setReg i.vx key).next
  | .writeDelay => .ok { m with delay := vx }.next
  | .writeSound => .ok { m with sound := vx }.next
  | .storeDecimal =>
    if memorySize < m.index + 3 then .error (.abort .writeOutside)
    else match bytesOf? (decimalDigits vx) with
      | none => .error (.fault .digitTooBig)
      | some digits => .ok { m with memory := m.memory.overwrite m.index digits }.next
  | .storeRegs =>
    if memorySize < m.index + i.vx.toNat + 1 then .error (.abort .writeOutside)
    else match bytesOf? (m.upTo i.vx) with
      | none => .error (.fault .registerTooBig)
      | some bytes =>
        .ok ({ m with memory := m.memory.overwrite m.index bytes }.advance c i.vx).next
  | .readRegs =>
    if memorySize < m.index + i.vx.toNat + 1 then .error (.abort .readOutside)
    else
      let bytes := m.memory.extract m.index (m.index + i.vx.toNat + 1)
      .ok ((m.setFirst i.vx (bytes.map UInt8.toNat)).advance c i.vx).next
  | .saveFlags =>
    if flagCount ≤ i.vx then .error (.abort .noSuchFlag)
    else .ok { m with flags := m.flags.splice 0 (i.vx + 1) (m.upTo i.vx).toArray }.next
  | .restoreFlags =>
    if flagCount ≤ i.vx then .error (.abort .noSuchFlag)
    else .ok (m.setFirst i.vx (m.flags.slice 0 (i.vx + 1))).next

/-- An outcome as what the instruction leaves: the address to go on at, and the machine still at its
present address. Where it stops, the machine is as it was. -/
def ofOutcome (m : Machine) : Except Stop Machine → EStateM.Result Stop Machine Int
  | .ok after => .ok after.pc (after.goto m.pc)
  | .error stop => .error stop m

variable {m : Machine} {c : Config} {random : Int} {i : Instruction}

/-- An instruction that leaves the program counter to be moved goes on to the next one. -/
theorem next_eq_ofOutcome {after : Machine} (hpc : after.pc = m.pc) :
    Effect.next after = m.ofOutcome (.ok after.next) := by
  change EStateM.Result.ok (after.pc + 2) after = .ok (after.pc + 2) (after.next.goto m.pc)
  rw [← hpc]
  rfl

/-- Advancing the index register moves no program counter. -/
@[simp] theorem pc_advance (c : Config) (x : Int) : (m.advance c x).pc = m.pc := by
  unfold advance
  split <;> rfl

/-! ## Draws and scrolls -/

/-- Asking the gate moves no program counter and changes no register, byte or display. -/
theorem exists_gate (c : Config) (m : Machine) : ∃ latch waiting,
    (m.gate c).2 = { m with latch, waiting } := by
  unfold gate
  split
  · exact ⟨m.latch, m.waiting, rfl⟩
  · split
    · split
      · exact ⟨_, _, rfl⟩
      · exact ⟨m.latch, m.waiting, rfl⟩
    · exact ⟨_, _, rfl⟩

/-- A draw or scroll waits where it is, or has its effect and goes on. -/
theorem gated_eq_ofOutcome {e : Effect Unit} {effect : Machine → Machine}
    (he : e (m.gate c).2 = .ok () (effect (m.gate c).2))
    (hpc : (effect (m.gate c).2).pc = (m.gate c).2.pc) :
    Effect.gated c e m = m.ofOutcome (.ok (m.gated c effect)) := by
  obtain ⟨latch, waiting, hgate⟩ := exists_gate c m
  have hmodify : (modifyGet (Machine.gate c) : Effect Bool) m = .ok (m.gate c).1 (m.gate c).2 := rfl
  rw [Effect.gated, bind_of_ok hmodify]
  cases hopen : (m.gate c).1 with
  | true =>
    have hgated : m.gated c effect = (effect (m.gate c).2).next := by
      rw [gated, show m.gate c = (true, (m.gate c).2) from Prod.ext hopen rfl]
    rw [if_pos rfl, bind_of_ok he, hgated]
    exact next_eq_ofOutcome (by rw [hpc, hgate])
  | false =>
    have hgated : m.gated c effect = (m.gate c).2 := by
      rw [gated, show m.gate c = (false, (m.gate c).2) from Prod.ext hopen rfl]
    rw [if_neg Bool.false_ne_true, hgated, hgate]
    rfl

/-- Showing another display moves no program counter. -/
theorem pc_present (d : Display) : (m.present d).pc = m.pc := rfl

/-- A scroll waits where it is, or changes the display and goes on. -/
theorem gated_present (f : Display → Display) :
    Effect.gated c (modify fun m => m.present (f m.display)) m =
      m.ofOutcome (.ok (m.gated c fun m => m.present (f m.display))) :=
  gated_eq_ofOutcome rfl (pc_present _)

/-- A sprite is drawn, and the flag register set, as one effect. -/
theorem draw_eq (h : m.Sized) (hi : i.Fits) (random : Int) (hop : i.op = .draw) :
    execute c random i m = m.ofOutcome (m.outcome c random i) := by
  obtain ⟨latch, waiting, hgate⟩ := exists_gate c m
  have hsized : (m.gate c).2.Sized := by
    rw [hgate]
    exact { h with }
  have hx : (m.gate c).2.reg i.vx = m.reg i.vx := by rw [hgate]; rfl
  have hy : (m.gate c).2.reg i.vy = m.reg i.vy := by rw [hgate]; rfl
  simp only [execute, outcome, hop]
  refine gated_eq_ofOutcome ?_ rfl
  rw [bind_of_ok (Effect.reg_eq hsized hi.vx_nonneg hi.vx_lt),
    bind_of_ok (Effect.reg_eq hsized hi.vy_nonneg hi.vy_lt), hx, hy,
    bind_of_ok (Effect.drawSprite_eq hsized.memory _ _ _)]
  have hpresent : ∀ d, ((m.gate c).2.present d).Sized := fun d => { hsized with }
  exact Effect.setReg_eq (hpresent _) (by decide) (by decide) _

/-! ## Block copies -/

/-- Numbers that are all bytes have their bytes. -/
theorem bytesOf?_eq_some {ns : List Nat} (h : ∀ n ∈ ns, n < 0x100) :
    bytesOf? ns = some (ns.map UInt8.ofNat) := by
  unfold bytesOf?
  have hall : ns.all (· < 0x100) = true := by
    rw [List.all_eq_true]
    intro n hn
    exact decide_eq_true (h n hn)
  rw [if_pos hall]

/-- There is a byte for each number. -/
theorem length_bytesOf? {ns : List Nat} {bytes : List UInt8} (h : bytesOf? ns = some bytes) :
    bytes.length = ns.length := by
  unfold bytesOf? at h
  split at h <;> cases h
  exact List.length_map _

/-- Of the digits of a number only the first can be too big for a byte. -/
theorem bytesOf?_decimalDigits (n : Nat) : bytesOf? (decimalDigits n) =
    if n / 100 < 0x100 then some ((decimalDigits n).map UInt8.ofNat) else none := by
  have htens : n / 10 % 10 < 0x100 := by omega
  have hones : n % 10 < 0x100 := by omega
  simp [bytesOf?, decimalDigits, htens, hones]

/-- The three digits of a register are stored one by one, each in memory. -/
theorem storeDecimal_eq (h : m.Sized) (hi : i.Fits) (random : Int) (hop : i.op = .storeDecimal) :
    execute c random i m = m.ofOutcome (m.outcome c random i) := by
  have hmemory := h.memory
  simp only [execute, outcome, hop]
  rw [bind_of_ok (Effect.reg_eq h hi.vx_nonneg hi.vx_lt), get_bind, bytesOf?_decimalDigits]
  by_cases hout : memorySize < m.index + 3
  · rw [if_pos hout, if_pos (by omega)]
    rfl
  · rw [if_neg hout, if_neg (by omega)]
    by_cases hbyte : m.reg i.vx / 100 < 0x100
    · have hone : (m.index : Int) + 1 = (m.index + 1 : Nat) := rfl
      have htwo : (m.index : Int) + 2 = (m.index + 2 : Nat) := rfl
      rw [if_pos hbyte, bind_of_ok (Effect.setByte_eq (by omega) hbyte), hone,
        bind_of_ok (Effect.setByte_eq (by simp; omega) (by omega)), htwo,
        bind_of_ok (Effect.setByte_eq (by simp; omega) (by omega))]
      rfl
    · rw [if_neg hbyte, bind_of_error (Effect.setByte_of_not_byte hbyte)]
      rfl

/-- The end of a block copy, and whether it lies outside memory, in whole numbers. -/
theorem copy_outside_iff (hi : i.Fits) :
    ((memorySize : Int) < m.index + (i.vx + 1)) ↔ memorySize < m.index + i.vx.toNat + 1 := by
  have h0 := hi.vx_nonneg
  omega

/-- Advancing the index register, as the machine after it. -/
theorem advance_eq (hi : i.Fits) : Effect.advance c (i.vx + 1) m = .ok () (m.advance c i.vx) := by
  have h0 := hi.vx_nonneg
  have hcount : (i.vx + 1).toNat = i.vx.toNat + 1 := by omega
  change EStateM.Result.ok PUnit.unit _ = _
  rw [hcount]
  rfl

/-- The registers are stored as the stretch of memory that they fill, which keeps its length. -/
theorem storeRegs_eq (h : m.Sized) (hi : i.Fits) (random : Int) (hop : i.op = .storeRegs) :
    execute c random i m = m.ofOutcome (m.outcome c random i) := by
  have hmemory := h.memory
  have h0 := hi.vx_nonneg
  simp only [execute, outcome, hop]
  rw [get_bind]
  by_cases hout : memorySize < m.index + i.vx.toNat + 1
  · rw [if_pos hout, if_pos ((copy_outside_iff hi).2 hout)]
    rfl
  · rw [if_neg hout, if_neg (mt (copy_outside_iff hi).1 hout)]
    cases hbytes : bytesOf? (m.upTo i.vx) with
    | none =>
      rw [upTo] at hbytes
      rw [hbytes]
      rfl
    | some bytes =>
      have hlength : bytes.length = i.vx.toNat + 1 := by
        rw [length_bytesOf? hbytes, h.length_upTo hi.vx_nonneg hi.vx_lt]
      have hend : (m.index : Int) + (i.vx + 1) = m.index + bytes.length := by omega
      have hstored := Bytes.overwrite_eq_splice m.memory
        (show m.index + bytes.length ≤ m.memory.size by omega)
      rw [upTo] at hbytes
      rw [hbytes, bind_of_ok (Effect.orFault_some _ _), set_bind, bind_of_ok (advance_eq hi), hend,
        ← hstored]
      exact next_eq_ofOutcome (pc_advance c i.vx)

/-- The registers are replaced by as many bytes as there are in the stretch of memory. -/
theorem readRegs_eq (h : m.Sized) (hi : i.Fits) (random : Int) (hop : i.op = .readRegs) :
    execute c random i m = m.ofOutcome (m.outcome c random i) := by
  have hmemory := h.memory
  have h0 := hi.vx_nonneg
  simp only [execute, outcome, hop]
  rw [get_bind]
  by_cases hout : memorySize < m.index + i.vx.toNat + 1
  · rw [if_pos hout, if_pos ((copy_outside_iff hi).2 hout)]
    rfl
  · have hend : (m.index : Int) + (i.vx + 1) = (m.index + i.vx.toNat + 1 : Nat) := by omega
    rw [if_neg hout, if_neg (mt (copy_outside_iff hi).1 hout), set_bind,
      bind_of_ok (advance_eq hi), hend, Cells.slice_natCast m.memory (by omega) (by omega)]
    exact next_eq_ofOutcome (pc_advance c i.vx)

/-! ## Every instruction -/

/-- On a sized machine a decoded instruction has its outcome, and where it stops it has changed
nothing. -/
theorem execute_eq (h : m.Sized) (hi : i.Fits) (c : Config) (random : Int) :
    execute c random i m = m.ofOutcome (m.outcome c random i) := by
  have hx := Effect.reg_eq h hi.vx_nonneg hi.vx_lt
  have hy := Effect.reg_eq h hi.vy_nonneg hi.vy_lt
  have hset := Effect.setReg_eq h hi.vx_nonneg hi.vx_lt
  have hflag := Effect.setWithFlag_eq h hi.vx_nonneg hi.vx_lt
  have hsource : Effect.reg (if c.shiftsVy then i.vy else i.vx) m =
      .ok (if c.shiftsVy then m.reg i.vy else m.reg i.vx) m := by
    split
    · exact hy
    · exact hx
  cases hop : i.op
  case draw => exact draw_eq h hi random hop
  case storeDecimal => exact storeDecimal_eq h hi random hop
  case storeRegs => exact storeRegs_eq h hi random hop
  case readRegs => exact readRegs_eq h hi random hop
  all_goals simp only [execute, outcome, hop]
  case scrollDown => exact gated_present (·.scrollDown i.nibble.toNat)
  case scrollRight => exact gated_present (·.scrollRight sidewaysStep)
  case scrollLeft => exact gated_present (·.scrollLeft sidewaysStep)
  case invalid | clear | exit | lowRes | highRes | loadIndex => rfl
  case ret =>
    rw [get_bind]
    cases m.stack <;> rfl
  case jump | call => split <;> rfl
  case jumpV0 =>
    rw [bind_of_ok (Effect.reg_eq h (by decide) (by decide))]
    split
    · rfl
    · split <;> rfl
  case awaitKey =>
    rw [get_bind]
    cases m.keypad.takeLowest? with
    | none => rfl
    | some taken =>
      have hkeypad : Sized { m with keypad := taken.2 } := { h with }
      change (set _ >>= _ : Effect Int) m = _
      rw [set_bind, bind_of_ok (Effect.setReg_eq hkeypad hi.vx_nonneg hi.vx_lt _)]
      rfl
  case saveFlags | restoreFlags => split <;> rfl
  case skipEqByte | skipNeByte | skipPressed | skipReleased | addIndex | pointDigit | pointBigDigit
      | writeDelay | writeSound =>
    rw [bind_of_ok hx]
    rfl
  case skipEqReg | skipNeReg =>
    rw [bind_of_ok hx, bind_of_ok hy]
    rfl
  case readDelay =>
    rw [get_bind, bind_of_ok (hset _)]
    rfl
  case loadByte | random =>
    rw [bind_of_ok (hset _)]
    rfl
  case loadReg =>
    rw [bind_of_ok hy, bind_of_ok (hset _)]
    rfl
  case or | and | xor =>
    rw [execute.combine, bind_of_ok hx, bind_of_ok hy, bind_of_ok (hset _)]
    rfl
  case addByte =>
    rw [bind_of_ok hx, bind_of_ok (hflag _ _)]
    rfl
  case addReg | sub | subReverse =>
    rw [bind_of_ok hx, bind_of_ok hy, bind_of_ok (hflag _ _)]
    rfl
  case shiftRight | shiftLeft =>
    rw [bind_of_ok hsource, bind_of_ok (hflag _ _)]
    rfl

/-! ## Sized machines stay sized -/

/-- Showing another display leaves a machine sized. -/
theorem Sized.present (h : m.Sized) (d : Display) : (m.present d).Sized := { h with }

/-- Replacing the first registers by as many numbers leaves a machine sized. -/
theorem Sized.setFirst (h : m.Sized) (hi : i.Fits) {values : Cells Nat}
    (hsize : values.size = i.vx.toNat + 1) : (m.setFirst i.vx values).Sized := by
  have h0 := hi.vx_nonneg
  have hx := hi.vx_lt
  have hregisters : m.registers.size = 16 := h.registers
  have hkept := Cells.size_splice_first m.registers values (n := i.vx + 1) (by omega) (by omega)
  exact { h with registers := hkept.trans h.registers }

/-- As many registers as there are flags for are saved without a change of the number of flags. -/
theorem Sized.size_saved (h : m.Sized) (hi : i.Fits) (hx : ¬(flagCount : Int) ≤ i.vx) :
    (m.flags.splice 0 (i.vx + 1) (m.upTo i.vx).toArray).size = flagCount := by
  have h0 := hi.vx_nonneg
  have hflags : m.flags.size = 8 := h.flags
  have hlt : i.vx < 8 := Int.not_le.mp hx
  have hlength := h.length_upTo h0 hi.vx_lt
  exact (Cells.size_splice_first m.flags (m.upTo i.vx).toArray (n := i.vx + 1)
    (by rw [List.size_toArray]; omega) (by rw [List.size_toArray]; omega)).trans h.flags

/-- As many flags are restored as were asked for. -/
theorem Sized.slice_flags (h : m.Sized) (hi : i.Fits) (hx : ¬(flagCount : Int) ≤ i.vx) :
    m.flags.slice 0 (i.vx + 1) = m.flags.extract 0 (i.vx.toNat + 1) ∧
      (m.flags.slice 0 (i.vx + 1)).size = i.vx.toNat + 1 := by
  have h0 := hi.vx_nonneg
  have hflags : m.flags.size = 8 := h.flags
  have hlt : i.vx < 8 := Int.not_le.mp hx
  have hcount : (i.vx + 1).toNat = i.vx.toNat + 1 := by omega
  have hslice := Cells.slice_first m.flags (n := i.vx + 1) (by omega) (by omega)
  rw [hcount] at hslice
  refine ⟨hslice, ?_⟩
  rw [hslice, Array.size_extract]
  omega

/-- Storing bytes in memory leaves a machine sized. -/
theorem Sized.overwrite (h : m.Sized) (start : Nat) (data : List UInt8) :
    Sized { m with memory := m.memory.overwrite start data } :=
  { h with memory := (Bytes.size_overwrite m.memory start data).symm ▸ h.memory }

/-- An advance of the index register leaves a machine sized. -/
theorem Sized.advance (h : m.Sized) (c : Config) (x : Int) : (m.advance c x).Sized := by
  unfold Machine.advance
  split
  · exact { h with }
  · exact h

/-- A draw or scroll leaves a machine sized if its effect does. -/
theorem Sized.gated (h : m.Sized) (c : Config) {effect : Machine → Machine}
    (heffect : ∀ m : Machine, m.Sized → (effect m).Sized) : (m.gated c effect).Sized := by
  obtain ⟨latch, waiting, hgate⟩ := exists_gate c m
  have hsized : (m.gate c).2.Sized := by
    rw [hgate]
    exact { h with }
  unfold Machine.gated
  cases hopen : m.gate c with
  | mk opened after =>
    rw [hopen] at hsized
    cases opened with
    | true => exact { heffect after hsized with }
    | false => exact hsized

/-- What an instruction leaves of a sized machine is sized. -/
theorem Sized.outcome (h : m.Sized) (hi : i.Fits) {after : Machine}
    (houtcome : m.outcome c random i = .ok after) : after.Sized := by
  have hmemory := h.memory
  unfold Machine.outcome at houtcome
  cases hop : i.op
  all_goals simp only [hop] at houtcome
  case ret => split at houtcome <;> cases houtcome; exact { h with }
  case jump | call => split at houtcome <;> cases houtcome; exact { h with }
  case jumpV0 =>
    split at houtcome
    · cases houtcome
    · split at houtcome <;> cases houtcome
      exact { h with }
  case awaitKey =>
    split at houtcome <;> cases houtcome
    · exact h
    · exact { (show Sized _ from { h with }).setReg _ _ with }
  case storeDecimal =>
    split at houtcome
    · cases houtcome
    · split at houtcome <;> cases houtcome
      exact { h.overwrite m.index _ with }
  case storeRegs =>
    split at houtcome
    · cases houtcome
    · split at houtcome <;> cases houtcome
      exact { (h.overwrite m.index _).advance c i.vx with }
  case readRegs =>
    split at houtcome <;> cases houtcome
    refine { (h.setFirst hi ?_).advance c i.vx with }
    rw [Array.size_map, Array.size_extract]
    omega
  case saveFlags =>
    split at houtcome <;> cases houtcome
    next hflag => exact { h with flags := h.size_saved hi hflag }
  case restoreFlags =>
    split at houtcome <;> cases houtcome
    next hflag => exact { h.setFirst hi (h.slice_flags hi hflag).2 with }
  case scrollDown | scrollRight | scrollLeft =>
    cases houtcome
    exact h.gated c fun m hm => hm.present _
  case draw =>
    cases houtcome
    exact h.gated c fun m hm => (hm.present _).setReg _ _
  all_goals cases houtcome
  case loadByte | loadReg | or | and | xor | random | readDelay => exact { h.setReg _ _ with }
  case addByte | addReg | sub | subReverse | shiftRight | shiftLeft =>
    exact { (h.setReg _ _).setReg _ _ with }
  case clear => exact { h.present .blank with }
  all_goals exact { h with }

end Machine

end SuperChip
