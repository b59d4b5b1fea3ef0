import SuperChip.Machine.Machine

/-!
# The frame recorder

A recorder takes a picture of the display whenever the machine asks for a refresh, and keeps the
latest ones up to its limit.
-/

set_option autoImplicit false

namespace SuperChip

/-- The latest frames, the oldest first. -/
structure Recorder where
  limit : Int
  frames : Array Display := #[]

namespace Recorder

/-- How many frames a recorder keeps unless it is told. -/
def defaultLimit : Int := 64

instance : Inhabited Recorder := ⟨{ limit := defaultLimit }⟩

/-- The recorder with one more frame; the oldest goes if there are then more than the limit. -/
def record (r : Recorder) (frame : Display) : Recorder :=
  let frames := r.frames.push frame
  { r with frames := if r.limit < frames.size then frames.extract 1 frames.size else frames }

/-- The frames are those before and the new one, without the oldest if there are too many. -/
theorem toList_record (r : Recorder) (frame : Display) :
    (r.record frame).frames.toList =
      if r.limit < (r.frames.size : Int) + 1 then (r.frames.toList ++ [frame]).drop 1
      else r.frames.toList ++ [frame] := by
  simp only [record, Array.size_push, Int.natCast_add, Int.cast_ofNat_Int]
  split
  · simp [List.take_of_length_le]
  · simp

/-- Takes a frame if the machine asks for a refresh, which is then done. -/
def update (r : Recorder) (m : Machine) : Recorder × Machine :=
  if m.needsRefresh then (r.record m.display, { m with needsRefresh := false }) else (r, m)

/-- The last frames, `n` of them or all. -/
def last (r : Recorder) (n : Nat) : List Display := (r.frames.toList.drop (r.frames.size - n))

end Recorder

end SuperChip
