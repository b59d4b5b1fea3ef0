/-!
# The silent buzzer

A buzzer without sound, which counts how often it was switched.
-/

set_option autoImplicit false

namespace SuperChip

/-- A buzzer. -/
structure Buzzer where
  playing : Bool := false
  /-- How often it went on or off by a setting. -/
  toggles : Nat := 0
  deriving DecidableEq, Repr, Inhabited

namespace Buzzer

/-- The buzzer set on or off. -/
def set (b : Buzzer) (on : Bool) : Buzzer where
  playing := on
  toggles := if on != b.playing then b.toggles + 1 else b.toggles

/-- The buzzer stopped, which does not count. -/
def stop (b : Buzzer) : Buzzer := { b with playing := false }

end Buzzer

end SuperChip
