import SuperChip.Instruction.Codec
import SuperChip.Machine.Machine

/-!
# The effect of an instruction

`execute` changes the machine and gives the address at which it goes on. A malformed program can
make an instruction abort, and a machine that is not well-formed can stop it by a fault: a register
or byte that is not there, or a number that is no byte. Whatever was changed before an instruction
stops stays changed, so an instruction that is to abort without a trace checks before it writes.
-/

set_option autoImplicit false

namespace SuperChip

/-- Why an instruction aborts. -/
inductive Abort where
  | returnWithoutCall
  | misalignedJump (address : Int)
  | misalignedCall (address : Int)
  | jumpOutside (address : Int)
  | writeOutside
  | readOutside
  | noSuchFlag
  deriving DecidableEq, Repr

/-- The wording of each abort. -/
def Abort.message : Abort → String
  | .returnWithoutCall => "Tried to return from subroutine, but was never called"
  | .misalignedJump a => "Attempted to jump to misaligned memory address " ++ Text.hexMarked 0 a
  | .misalignedCall a =>
    "Attempted to call subroutine at misaligned memory address " ++ Text.hexMarked 0 a
  | .jumpOutside a => "Attempted to jump to out of bounds memory address " ++ Text.hexMarked 0 a
  | .writeOutside => "Tried to write to out of bounds memory"
  | .readOutside => "Tried to read from out of bounds memory"
  | .noSuchFlag => "RPL flags only cover V0-V7"

/-- Why a machine that is not well-formed cannot go on. -/
inductive Fault where
  /-- An address meets no byte of memory. -/
  | noSuchByte
  /-- A number meets no register that could be read. -/
  | noSuchRegister
  /-- A number meets no register that could be set. -/
  | noRegisterToSet
  /-- A digit of a register does not fit a byte. -/
  | digitTooBig
  /-- A register does not fit a byte. -/
  | registerTooBig
  deriving DecidableEq, Repr

/-- The wording of each fault. -/
def Fault.message : Fault → String
  | .noSuchByte => "bytearray index out of range"
  | .noSuchRegister => "list index out of range"
  | .noRegisterToSet => "list assignment index out of range"
  | .digitTooBig => "byte must be in range(0, 256)"
  | .registerTooBig => "bytes must be in range(0, 256)"

/-- Why an instruction stops. -/
inductive Stop where
  | abort (cause : Abort)
  | fault (cause : Fault)
  deriving DecidableEq, Repr

namespace Machine

/-- The machine with its program counter set. -/
def goto (m : Machine) (address : Int) : Machine := { m with pc := address }

/-- The timers brought up to a tick: each goes down by the ticks passed, but not below zero. -/
def tick (m : Machine) (now : Int) : Machine :=
  let elapsed := now - m.ticks
  if elapsed ≤ 0 then { m with ticks := now }
  else { m with
    ticks := now
    delay := m.delay - elapsed.toNat
    sound := m.sound - elapsed.toNat
    latch := true }

/-- Whether a draw or scroll takes effect now, and the machine after asking. Where draws are delayed
the first time only starts a wait, which a tick ends. -/
def gate (c : Config) (m : Machine) : Bool × Machine :=
  if !c.delayDraws then (true, m)
  else if m.waiting then
    if m.latch then (true, { m with waiting := false }) else (false, m)
  else (false, { m with waiting := true, latch := false })

/-- The machine with a new display to be shown. -/
def present (m : Machine) (d : Display) : Machine := { m with display := d, needsRefresh := true }

/-- The byte at an address, which wraps around at the end of the address space. -/
def byteAt? (m : Machine) (address : Nat) : Option Nat :=
  (m.memory.at? (address % memorySize : Nat)).map UInt8.toNat

/-- Row number `row` of the sprite at the index register: a row of two bytes if `height` is zero,
else of one. -/
def spriteRow? (m : Machine) (height row : Nat) : Option Nat :=
  if height = 0 then
    match m.byteAt? (m.index + 2 * row), m.byteAt? (m.index + 2 * row + 1) with
    | some high, some low => some (0x100 * high + low)
    | _, _ => none
  else m.byteAt? (m.index + row)

/-- The rows of the sprite at the index register that lie on the display, the uppermost in row `y`;
the others are not read. -/
def sprite? (m : Machine) (y height : Nat) : Option (List Nat) :=
  let rowCount := if height = 0 then 16 else height
  (List.range (min rowCount (displayHeight - y))).mapM (m.spriteRow? height)

/-- How many columns a sideways scroll moves. -/
def sidewaysStep : Nat := 4

/-- The byte of a number that fits one. -/
def byteOf? (n : Nat) : Option UInt8 := if n < 0x100 then some (.ofNat n) else none

/-- The bytes of numbers that all fit bytes. -/
def bytesOf? (ns : List Nat) : Option (List UInt8) :=
  if ns.all (· < 0x100) then some (ns.map UInt8.ofNat) else none

end Machine

/-- A change of the machine. It may stop; what it had changed by then stays changed. -/
abbrev Effect (α : Type) := EStateM Stop Machine α

namespace Effect

variable {α : Type}

/-- Stops because of what the program does. -/
def abort (cause : Abort) : Effect α := throw (.abort cause)

/-- Goes on with what is there, or stops with a fault. -/
def orFault (cause : Fault) : Option α → Effect α
  | some v => pure v
  | none => throw (.fault cause)

/-- The address of the present instruction. -/
def here : Effect Int := do
  let m ← get
  return m.pc

/-- The address of the next instruction. -/
def next : Effect Int := do
  let m ← get
  return m.pc + 2

/-- The address of the next instruction, or the one behind it. -/
def skipIf (condition : Bool) : Effect Int := do
  let m ← get
  return m.pc + if condition then 4 else 2

/-- The register with a number. -/
def reg (x : Int) : Effect Nat := do
  let m ← get
  orFault .noSuchRegister (m.registers.at? x)

/-- Sets a register. -/
def setReg (x : Int) (value : Nat) : Effect Unit := do
  let m ← get
  let registers ← orFault .noRegisterToSet (m.registers.set? x value)
  set { m with registers }

/-- Sets a register to a byte and then the flag register to `flag`, which stays where the two are
one. -/
def setWithFlag (x value : Int) (flag : Bool) : Effect Unit := do
  setReg x (value % 0x100).toNat
  setReg Machine.flagRegister flag.toNat

/-- Sets the byte at an address. -/
def setByte (address : Int) (value : Nat) : Effect Unit := do
  let m ← get
  let byte ← orFault .digitTooBig (Machine.byteOf? value)
  let memory ← orFault .noSuchByte (m.memory.set? address byte)
  set { m with memory }

/-- A draw or scroll waits at its address until the gate opens; then it has its effect and goes on
to the next instruction. -/
def gated (c : Config) (effect : Effect Unit) : Effect Int := do
  let opened ← modifyGet (Machine.gate c)
  if opened then
    effect
    next
  else here

/-- Draws the sprite at the index register, and tells of a collision. -/
def drawSprite (x y height : Nat) : Effect Bool := do
  let m ← get
  let rows ← orFault .noSuchByte (m.sprite? y height)
  let (display, hit) := m.display.draw x y (if height = 0 then 16 else 8) rows
  set (m.present display)
  return hit

/-- Advances the index register behind a block copy of so many registers. -/
def advance (c : Config) (count : Int) : Effect Unit :=
  modify fun m => if c.loadsAdvance then { m with index := m.index + 2 * count.toNat } else m

end Effect

open Effect in
/-- What an instruction does, and the address at which the machine goes on. `random` is the number
to be drawn if it draws one. -/
def Machine.execute (c : Config) (random : Int) (i : Instruction) : Effect Int :=
  match i.op with
  | .invalid => next
  | .scrollDown => gated c (modify fun m => m.present (m.display.scrollDown i.nibble.toNat))
  | .clear => do
    modify (·.present .blank)
    next
  | .ret => do
    let m ← get
    match m.stack with
    | [] => abort .returnWithoutCall
    | caller :: stack => do
      set { m with stack }
      return caller + 2
  | .scrollRight => gated c (modify fun m => m.present (m.display.scrollRight sidewaysStep))
  | .scrollLeft => gated c (modify fun m => m.present (m.display.scrollLeft sidewaysStep))
  | .exit => do
    modify ({ · with halted := true })
    next
  | .lowRes => do
    modify ({ · with highRes := false, needsRefresh := true })
    next
  | .highRes => do
    modify ({ · with highRes := true, needsRefresh := true })
    next
  | .jump => if i.address % 2 = 0 then return i.address else abort (.misalignedJump i.address)
  | .call =>
    if i.address % 2 = 0 then do
      modify fun m => { m with stack := m.pc :: m.stack }
      return i.address
    else abort (.misalignedCall i.address)
  | .jumpV0 => do
    let v ← reg 0
    let target := i.address + v
    if target % 2 ≠ 0 then abort (.misalignedJump target)
    else if memorySize ≤ target then abort (.jumpOutside target)
    else return target
  | .skipEqByte => do
    let vx ← reg i.vx
    skipIf (vx == i.byte)
  | .skipNeByte => do
    let vx ← reg i.vx
    skipIf (vx != i.byte)
  | .skipEqReg => do
    let vx ← reg i.vx
    let vy ← reg i.vy
    skipIf (vx == vy)
  | .skipNeReg => do
    let vx ← reg i.vx
    let vy ← reg i.vy
    skipIf (vx != vy)
  | .skipPressed => do
    let vx ← reg i.vx
    let m ← get
    skipIf (m.keypad.isDown vx)
  | .skipReleased => do
    let vx ← reg i.vx
    let m ← get
    skipIf (!m.keypad.isDown vx)
  | .loadByte => do
    setReg i.vx i.byte.toNat
    next
  | .addByte => do
    let vx ← reg i.vx
    setWithFlag i.vx (vx + i.byte) (0xFF < vx + i.byte)
    next
  | .loadReg => do
    let vy ← reg i.vy
    setReg i.vx vy
    next
  | .or => combine (· ||| ·)
  | .and => combine (· &&& ·)
  | .xor => combine (· ^^^ ·)
  | .addReg => do
    let vx ← reg i.vx
    let vy ← reg i.vy
    setWithFlag i.vx (vx + vy) (0xFF < vx + vy)
    next
  | .sub => do
    let vx ← reg i.vx
    let vy ← reg i.vy
    setWithFlag i.vx (vx - vy) (vy ≤ vx)
    next
  | .subReverse => do
    let vx ← reg i.vx
    let vy ← reg i.vy
    setWithFlag i.vx (vy - vx) (vx ≤ vy)
    next
  | .shiftRight => do
    let source ← reg (if c.shiftsVy then i.vy else i.vx)
    setWithFlag i.vx (source / 2) (source % 2 = 1)
    next
  | .shiftLeft => do
    let source ← reg (if c.shiftsVy then i.vy else i.vx)
    setWithFlag i.vx (2 * source) (source / 0x80 % 2 = 1)
    next
  | .random => do
    setReg i.vx ((random % 0x100).toNat &&& i.byte.toNat)
    next
  | .loadIndex => do
    modify ({ · with index := i.address.toNat })
    next
  | .addIndex => do
    let vx ← reg i.vx
    modify fun m => { m with index := (m.index + vx) % 0x10000 }
    next
  | .pointDigit => do
    let vx ← reg i.vx
    modify ({ · with index := Font.smallStart + Font.smallHeight * (vx % 16) })
    next
  | .pointBigDigit => do
    let vx ← reg i.vx
    modify ({ · with index := Font.bigStart + Font.bigHeight * (vx % 16) })
    next
  | .draw => gated c do
    let vx ← reg i.vx
    let vy ← reg i.vy
    let hit ← drawSprite vx vy i.nibble.toNat
    setReg flagRegister hit.toNat
  | .readDelay => do
    let m ← get
    setReg i.vx m.delay
    next
  | .awaitKey => do
    let m ← get
    match m.keypad.takeLowest? with
    | none => here
    | some (key, keypad) => do
      set { m with keypad }
      setReg i.vx key
      next
  | .writeDelay => do
    let vx ← reg i.vx
    modify ({ · with delay := vx })
    next
  | .writeSound => do
    let vx ← reg i.vx
    modify ({ · with sound := vx })
    next
  | .storeDecimal => do
    let vx ← reg i.vx
    let m ← get
    if memorySize < m.index + 3 then abort .writeOutside
    else do
      setByte m.index (vx / 100)
      setByte (m.index + 1) (vx / 10 % 10)
      setByte (m.index + 2) (vx % 10)
      next
  | .storeRegs => do
    let m ← get
    let count := i.vx + 1
    if memorySize < m.index + count then abort .writeOutside
    else do
      let bytes ← orFault .registerTooBig (bytesOf? (m.registers.slice 0 count).toList)
      set { m with memory := m.memory.splice m.index (m.index + count) bytes.toArray }
      advance c count
      next
  | .readRegs => do
    let m ← get
    let count := i.vx + 1
    if memorySize < m.index + count then abort .readOutside
    else do
      let bytes := m.memory.slice m.index (m.index + count)
      set { m with registers := m.registers.splice 0 count (bytes.map UInt8.toNat) }
      advance c count
      next
  | .saveFlags =>
    if flagCount ≤ i.vx then abort .noSuchFlag
    else do
      modify fun m => { m with
        flags := m.flags.splice 0 (i.vx + 1) (m.registers.slice 0 (i.vx + 1)) }
      next
  | .restoreFlags =>
    if flagCount ≤ i.vx then abort .noSuchFlag
    else do
      modify fun m => { m with
        registers := m.registers.splice 0 (i.vx + 1) (m.flags.slice 0 (i.vx + 1)) }
      next
where
  /-- Sets a register to a combination of its bits with those of another. -/
  combine (f : Nat → Nat → Nat) : Effect Int := do
    let vx ← reg i.vx
    let vy ← reg i.vy
    setReg i.vx (f vx vy)
    next

end SuperChip
