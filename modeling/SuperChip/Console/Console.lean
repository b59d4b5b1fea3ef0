import SuperChip.Console.Buzzer
import SuperChip.Console.Recorder
import SuperChip.Machine.Board

/-!
# The console

A board with a frame recorder and a buzzer, run at a speed. Steps go in batches, each followed by
a pause that keeps the pace against the clock; after falling behind the pace starts anew. At speed
zero there are no pauses. All times are doubles, and the order of their additions is part of the
pace.
-/

set_option autoImplicit false

namespace SuperChip

/-- A board, what shows and sounds it, and the pace. -/
structure Console where
  board : Board
  recorder : Recorder := default
  buzzer : Buzzer := {}
  /-- Instructions in a second; zero is as fast as can be. -/
  speed : Int
  /-- Whether the run is to end. -/
  quit : Bool := false
  /-- The pauses made, in order. -/
  pauses : Array Float := #[]
  deriving Inhabited

/-- Why a run has no count of steps. -/
inductive RunFailure where
  | fault (cause : Fault)
  /-- The run was given up before its end. -/
  | givenUp
  deriving DecidableEq, Repr

namespace Console

/-- Instructions in a second unless it is told. -/
def defaultSpeed : Int := 1000

/-- Batches in a second. -/
def batchesPerSecond : Int := 240

/-- Steps in a batch when there are no pauses. -/
def unpacedBatch : Nat := 1000

/-- The number of steps in a batch, at least one. -/
def batchSize (speed : Int) : Nat :=
  if speed = 0 then unpacedBatch else (max 1 (Int.fdiv speed batchesPerSecond)).toNat

/-- The time a batch is to take. -/
def interval (speed : Int) : Float :=
  if speed = 0 then 0.0 else Float.ofNat (batchSize speed) / Float.ofInt speed

/-- A step of the machine, shown and sounded. -/
def step (c : Console) : Console × Option Fault :=
  match c with
  | ⟨board, recorder, buzzer, speed, quit, pauses⟩ =>
    match board.step with
    | (board, some fault) => (⟨board, recorder, buzzer, speed, quit, pauses⟩, some fault)
    | (board, none) =>
      let (recorder, machine) := recorder.update board.machine
      let buzzer := buzzer.set machine.soundOn
      (⟨{ board with machine }, recorder, buzzer, speed, quit, pauses⟩, none)

/-- Whether a limit is reached. -/
def reached (limit : Option Int) (taken : Nat) : Bool := limit.any fun n => n ≤ (taken : Int)

/-- Takes the steps of a batch, until the machine halts or the limit is reached. `taken` counts all
steps of the run. -/
def runBatch (c : Console) (limit : Option Int) (taken : Nat) :
    Nat → Console × Nat × Option Fault
  | 0 => (c, taken, none)
  | n + 1 =>
    match c.step with
    | (c, some fault) => (c, taken, some fault)
    | (c, none) =>
      if c.board.machine.halted || reached limit (taken + 1) then (c, taken + 1, none)
      else runBatch c limit (taken + 1) n

/-- A reading of the clock. -/
def readClock (c : Console) : Float × Console :=
  let (now, clock) := c.board.clock.read
  (now, { c with board := { c.board with clock } })

/-- Pauses until the end of a batch that was to end at `deadline`, and gives the deadline from which
the next one counts. -/
def pace (c : Console) (deadline : Float) : Float × Console :=
  let (now, c) := c.readClock
  let delay := deadline - now
  if delay > 0 then
    (deadline, { c with
      board := { c.board with clock := c.board.clock.sleep delay }
      pauses := c.pauses.push delay })
  else c.readClock

/-- Runs batches until the machine halts, the run is to end, or the limit is reached; at most
`patience` batches. -/
def runBatches (limit : Option Int) (deadline : Float) (c : Console) (taken : Nat) :
    Nat → Console × Except RunFailure Nat
  | 0 => (c, .error .givenUp)
  | patience + 1 =>
    if c.board.machine.halted || c.quit then (c, .ok taken)
    else match c.runBatch limit taken (batchSize c.speed) with
      | (c, _, some fault) => (c, .error (.fault fault))
      | (c, taken, none) =>
        if reached limit taken then (c, .ok taken)
        else
          let length := interval c.speed
          if length == 0.0 then runBatches limit deadline c taken patience
          else
            let (deadline, c) := c.pace (deadline + length)
            runBatches limit deadline c taken patience

/-- The record of a run that ended with the machine halted. -/
def haltedEntry (taken : Nat) : Log.Entry :=
  ⟨.info, s!"Interpreter was halted after {taken} steps"⟩

/-- How many batches a run can have: each but the last takes a step, so a limit bounds them. Without
a limit it is `patience`. -/
def batchBound (limit : Option Int) (patience : Nat) : Nat :=
  match limit with
  | some n => n.toNat + 1
  | none => patience

/-- Runs until the machine halts, the run is to end, or the limit is reached, and gives the number
of steps. The buzzer is off afterwards. -/
def run (c : Console) (limit : Option Int) (patience : Nat) : Console × Except RunFailure Nat :=
  let (deadline, c) := c.readClock
  match runBatches limit deadline c 0 (batchBound limit patience) with
  | (c, .error e) => ({ c with buzzer := c.buzzer.stop }, .error e)
  | (c, .ok taken) =>
    let board :=
      if c.board.machine.halted then
        { c.board with journal := c.board.journal.addEntry (haltedEntry taken) }
      else c.board
    ({ c with board, buzzer := c.buzzer.stop }, .ok taken)

end Console

end SuperChip
