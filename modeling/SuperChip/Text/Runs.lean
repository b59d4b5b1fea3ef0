/-!
# Runs of code points

A class of characters is given by the lengths of the runs of code points that are in turn outside
and inside it, from zero on.
-/

set_option autoImplicit false

namespace SuperChip.Text

/-- Whether the place `n` lies inside, where the first run is `inside` or not and the others take
turns; past the last run nothing is. -/
def inRuns (inside : Bool) (n : Nat) : List Nat → Bool
  | [] => false
  | run :: rest => if n < run then inside else inRuns (!inside) (n - run) rest

end SuperChip.Text
