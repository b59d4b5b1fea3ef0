import SuperChip.Console.Console
import SuperChip.Proofs.Machine.AddressSpace
import SuperChip.Proofs.Machine.Refresh

/-!
# What the recorder has seen

The machine of a console may step with the console or on its own, be loaded, be reset, and have keys
pressed, in any order. The recorder only looks at the machine when the console steps. It misses
nothing that is still on the display: after a step of the console the last frame is the display, and
the frames are the last ones of all that were ever recorded (`frames_follow_display`).

The invariant is `Records`. A display that is not the last recorded one has a refresh due, because
no step changes the display without asking for one.
-/

set_option autoImplicit false

namespace SuperChip

/-- What can be done with a console and the machine in it. -/
inductive Activity where
  /-- A step of the console. -/
  | step
  /-- A step of the machine, which the console does not see. -/
  | bareStep
  | load (data : Bytes) (address : Int)
  | press (key : Int)
  | release (key : Int)
  | reset
  deriving Repr

namespace Recorder

variable {r : Recorder} {all : List Display}

/-- If the frames are the last of all displays recorded, they still are with one more. -/
theorem toList_record_drop (frame : Display) (hlimit : 1 ≤ r.limit)
    (h : r.frames.toList = all.drop (all.length - r.limit.toNat)) :
    (r.record frame).frames.toList =
      (all ++ [frame]).drop ((all ++ [frame]).length - r.limit.toNat) := by
  have hsize : r.frames.size = all.length - (all.length - r.limit.toNat) := by
    rw [← Array.length_toList, h, List.length_drop]
  rw [toList_record, h, List.length_append, List.length_singleton]
  split
  -- the frames are full, and the oldest one goes
  · next hfull =>
    have hone : 1 ≤ (all.drop (all.length - r.limit.toNat)).length := by
      rw [List.length_drop]
      omega
    have hmore : all.length + 1 - r.limit.toNat = all.length - r.limit.toNat + 1 := by omega
    rw [List.drop_append_of_le_length hone, List.drop_drop, hmore,
      List.drop_append_of_le_length (by omega)]
  · next hroom =>
    have hnone : all.length - r.limit.toNat = 0 := by omega
    have hstill : all.length + 1 - r.limit.toNat = 0 := by omega
    rw [hnone, hstill, List.drop_zero, List.drop_zero]

end Recorder

namespace Console

/-- A console with a silent buzzer, around a board after power-on. -/
def powerOn (limit : Int) (speed : Int) (config : Config) (clock : Clock) (random : RandomSource)
    (journal : Log.Journal) : Console where
  board := .powerOn config clock random journal
  recorder := { limit }
  speed := speed

/-- The console after an activity. A load that is refused changes nothing. -/
def handle (c : Console) : Activity → Console
  | .step => c.step.1
  | .bareStep => { c with board := c.board.step.1 }
  | .load data address =>
    match c.board.load data address with
    | .ok board => { c with board }
    | .error _ => c
  | .press key => { c with board := c.board.modify (·.press key) }
  | .release key => { c with board := c.board.modify (·.release key) }
  | .reset => { c with board := c.board.reset }

/-- The console after activities, the first one first. -/
def handleAll (c : Console) (activities : List Activity) : Console := activities.foldl handle c

/-- The display that an activity records, if it records one. -/
def recorded? (c : Console) : Activity → Option Display
  | .step =>
    match c.board.step with
    | (_, some _) => none
    | (board, none) => if board.machine.needsRefresh then some board.machine.display else none
  | .bareStep | .load .. | .press _ | .release _ | .reset => none

/-- All displays that activities record, the first one first. -/
def recordings (c : Console) : List Activity → List Display
  | [] => []
  | a :: rest => (c.recorded? a).toList ++ (c.handle a).recordings rest

variable {c : Console} {limit : Int} {all : List Display}

/-- After the displays `all` were recorded, the console keeps the last of them, and the last one is
on the display unless a refresh is due. -/
structure Records (limit : Int) (all : List Display) (c : Console) : Prop where
  limit_eq : c.recorder.limit = limit
  frames : c.recorder.frames.toList = all.drop (all.length - limit.toNat)
  current : c.board.machine.needsRefresh = true ∨ all.getLast? = some c.board.machine.display
  wellFormed : c.board.machine.cut.WellFormed

/-- The board may be exchanged for one whose display has not changed unnoticed. -/
theorem Records.with_board (h : Records limit all c) {board : Board}
    (hnoticed : c.board.machine.Noticed board.machine) (hcut : board.machine.cut.WellFormed) :
    Records limit all { c with board } := by
  refine { h with current := ?_, wellFormed := hcut }
  obtain hdue | ⟨hdisplay, hmark⟩ := hnoticed
  · exact .inl hdue
  · rw [hdisplay, hmark]
    exact h.current

/-- A step of the machine has no fault. -/
theorem Records.board_step (h : Records limit all c) :
    c.board.machine.Noticed c.board.step.1.machine ∧ c.board.step.1.machine.cut.WellFormed ∧
      c.board.step.2 = none := by
  obtain ⟨input, hmachine, hfault⟩ := c.board.exists_machine_step
  obtain ⟨hcut, hnone⟩ := h.wellFormed.step_of_cut c.board.config input
  rw [hmachine, hfault]
  have hsized := Machine.sized_cut_iff.1 h.wellFormed.sized
  exact ⟨Machine.noticed_step hsized _ _, hcut, hnone⟩

/-- Where the step of the board has no fault, the console steps with it: the recorder takes the
display if a refresh is due. -/
theorem step_eq (hfault : c.board.step.2 = none) :
    ∃ buzzer, c.step = ({ c with
      board := { c.board.step.1 with machine := (c.recorder.update c.board.step.1.machine).2 }
      recorder := (c.recorder.update c.board.step.1.machine).1
      buzzer }, none) := by
  obtain ⟨board, recorder, buzzer, speed, quit, pauses⟩ := c
  unfold Console.step
  dsimp only at hfault ⊢
  generalize board.step = reply at hfault ⊢
  obtain ⟨next, fault⟩ := reply
  cases hfault
  exact ⟨_, rfl⟩

/-- A step records the display if a refresh is due after it. -/
theorem recorded?_step (hfault : c.board.step.2 = none) :
    c.recorded? .step = if c.board.step.1.machine.needsRefresh then
      some c.board.step.1.machine.display else none := by
  unfold recorded?
  generalize c.board.step = reply at hfault ⊢
  obtain ⟨next, fault⟩ := reply
  cases hfault
  rfl

/-- A step of the console has no fault and leaves the display as the last one that was recorded. -/
theorem Records.step (hlimit : 1 ≤ limit) (h : Records limit all c) :
    Records limit (all ++ (c.recorded? .step).toList) c.step.1 ∧ c.step.2 = none ∧
      (all ++ (c.recorded? .step).toList).getLast? = some c.step.1.board.machine.display := by
  obtain ⟨hnoticed, hcut, hfault⟩ := h.board_step
  have hboard := h.with_board hnoticed hcut
  obtain ⟨buzzer, hstep⟩ := step_eq hfault
  rw [hstep, recorded?_step hfault]
  unfold Recorder.update
  cases hdue : c.board.step.1.machine.needsRefresh with
  | true =>
    have hlast : (all ++ [c.board.step.1.machine.display]).getLast? =
        some c.board.step.1.machine.display := List.getLast?_concat
    refine ⟨⟨h.limit_eq, ?_, .inr hlast, { hcut with }⟩, rfl, hlast⟩
    have hframes := Recorder.toList_record_drop c.board.step.1.machine.display
      (h.limit_eq.symm ▸ hlimit) (h.limit_eq.symm ▸ h.frames)
    rw [h.limit_eq] at hframes
    exact hframes
  | false =>
    -- no refresh is due, so the display is still the one that was recorded last
    have hlast : all.getLast? = some c.board.step.1.machine.display := by
      have hcurrent := hboard.current
      rw [hdue] at hcurrent
      exact hcurrent.resolve_left (by decide)
    simp only [Bool.false_eq_true, if_false, Option.toList_none, List.append_nil]
    exact ⟨⟨h.limit_eq, h.frames, .inr hlast, hcut⟩, trivial, hlast⟩

/-- Loading, at whatever address, leaves the display alone. -/
theorem Records.load (h : Records limit all c) (data : Bytes) (address : Int) :
    Records limit all (c.handle (.load data address)) := by
  cases hload : c.board.machine.load data address with
  | error refusal =>
    simp only [Console.handle, Board.load, hload]
    exact h
  | ok machine =>
    have hcut := h.wellFormed.load_of_cut hload
    have hnoticed : c.board.machine.Noticed machine := by
      unfold Machine.load at hload
      split at hload <;> cases hload
      exact .inr ⟨rfl, rfl⟩
    simp only [Console.handle, Board.load, hload]
    refine h.with_board ?_ ?_
    · exact hnoticed
    · exact hcut

/-- An activity without a frame adds none to the record. -/
theorem Records.unrecorded {before : Console} {a : Activity} (h : Records limit all c)
    (hnone : before.recorded? a = none) : Records limit (all ++ (before.recorded? a).toList) c := by
  rw [hnone, Option.toList_none, List.append_nil]
  exact h

/-- Whatever is done, the console goes on to keep the last displays that were recorded. -/
theorem Records.handle (hlimit : 1 ≤ limit) (h : Records limit all c) (a : Activity) :
    Records limit (all ++ (c.recorded? a).toList) (c.handle a) := by
  cases a with
  | step => exact (h.step hlimit).1
  | bareStep =>
    obtain ⟨hnoticed, hcut, -⟩ := h.board_step
    exact (h.with_board hnoticed hcut).unrecorded rfl
  | load data address => exact (h.load data address).unrecorded rfl
  | press key =>
    have hcut := h.wellFormed.handle c.board.config (.press key)
    refine Records.unrecorded (h.with_board ?_ ?_) rfl
    · exact .inr ⟨rfl, rfl⟩
    · exact hcut
  | release key =>
    have hcut := h.wellFormed.handle c.board.config (.release key)
    refine Records.unrecorded (h.with_board ?_ ?_) rfl
    · exact .inr ⟨rfl, rfl⟩
    · exact hcut
  | reset =>
    -- a machine after power-on asks for a refresh, whatever was on the display before
    refine Records.unrecorded (h.with_board ?_ ?_) rfl
    · exact .inl rfl
    · exact (Machine.wellFormed_powerOn _).cut

/-- The record follows any activities. -/
theorem Records.handleAll (hlimit : 1 ≤ limit) (h : Records limit all c)
    (activities : List Activity) :
    Records limit (all ++ c.recordings activities) (c.handleAll activities) := by
  induction activities generalizing c all with
  | nil =>
    rw [recordings, List.append_nil]
    exact h
  | cons a rest ih =>
    rw [recordings, ← List.append_assoc]
    exact ih (h.handle hlimit a)

/-- A new console has no frames. -/
theorem records_powerOn (limit speed : Int) (config : Config) (clock : Clock)
    (random : RandomSource) (journal : Log.Journal) :
    Records limit [] (powerOn limit speed config clock random journal) where
  limit_eq := rfl
  frames := List.drop_nil.symm
  current := .inl rfl
  wellFormed := (Machine.wellFormed_powerOn _).cut

/-- Whatever was done before, the frames are the last ones of all displays that were recorded, at
most as many as the limit. The next step of the console has no fault, and after it the last frame is
the display. -/
theorem frames_follow_display {limit : Int} (hlimit : 1 ≤ limit) (speed : Int) (config : Config)
    (clock : Clock) (random : RandomSource) (journal : Log.Journal) (activities : List Activity) :
    let start := powerOn limit speed config clock random journal
    let c := start.handleAll activities
    let all := start.recordings activities
    c.recorder.frames.toList = all.drop (all.length - limit.toNat) ∧
      c.recorder.frames.size ≤ limit ∧ c.step.2 = none ∧
      c.step.1.recorder.frames.back? = some c.step.1.board.machine.display := by
  intro start c all
  have hstart : Records limit [] start := records_powerOn limit speed config clock random journal
  have hrecords : Records limit all c := hstart.handleAll hlimit activities
  obtain ⟨hnext, hfault, hlast⟩ := hrecords.step hlimit
  refine ⟨hrecords.frames, ?size, hfault, ?last⟩
  case size =>
    rw [← Array.length_toList, hrecords.frames, List.length_drop]
    omega
  case last =>
    have hsome : all ++ (c.recorded? .step).toList ≠ [] := by
      intro hnil
      rw [hnil] at hlast
      cases hlast
    have hpos := List.length_pos_iff.mpr hsome
    rw [← Array.getLast?_toList, hnext.frames, List.getLast?_drop, if_neg (by omega)]
    exact hlast

/-- A recorder of a single frame, where the machine is loaded from the end of memory on, goes on
without the console, and is reset. -/
theorem frames_follow_display_singleFrame :
    (1 : Int) ≤ 1 ∧
      let activities : List Activity :=
        [.step, .load #[0x00, 0xE0, 0x12, 0x00] (-3), .press 5, .bareStep, .reset, .step]
      let start := powerOn 1 defaultSpeed {} (.steady 0 1) {} (.ofVerbosity 0)
      let c := start.handleAll activities
      let all := start.recordings activities
      c.recorder.frames.toList = all.drop (all.length - (1 : Int).toNat) ∧
        c.recorder.frames.size ≤ (1 : Int) ∧ c.step.2 = none ∧
        c.step.1.recorder.frames.back? = some c.step.1.board.machine.display := by
  have hlimit : (1 : Int) ≤ 1 := by decide
  exact ⟨hlimit, frames_follow_display hlimit defaultSpeed {} (.steady 0 1) {} (.ofVerbosity 0) _⟩

end Console

end SuperChip
