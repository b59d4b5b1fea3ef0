/-!
# Conditional assembly

Conditionals nest. Three numbers tell where a line stands: how many conditionals are open, which
level skips up to its `ELSE`, and which skips up to its `ENDIF`; a level of zero is none. Lines are
processed while neither skips. While a level skips, deeper conditionals only count.
-/

set_option autoImplicit false

namespace SuperChip

/-- Where a line stands among the conditionals. -/
structure Conditional where
  /-- How many conditionals are open. -/
  depth : Nat := 0
  /-- The level that skips up to its `ELSE`, or zero. -/
  skipElse : Nat := 0
  /-- The level that skips up to its `ENDIF`, or zero. -/
  skipEndif : Nat := 0
  deriving DecidableEq, Repr, Inhabited

namespace Conditional

/-- Whether lines are processed here. -/
def active (c : Conditional) : Bool := c.skipElse == 0 && c.skipEndif == 0

/-- After an `IFDEF` or `IFNDEF` whose condition is `holds`. -/
def enter (c : Conditional) (holds : Bool) : Conditional :=
  let depth := c.depth + 1
  if c.active && !holds then { c with depth, skipElse := depth } else { c with depth }

/-- After an `ELSE` inside a conditional. -/
def swap (c : Conditional) : Conditional :=
  if c.depth = c.skipElse then { c with skipElse := 0 }
  else if c.active then { c with skipEndif := c.depth }
  else c

/-- After an `ENDIF` inside a conditional. -/
def leave (c : Conditional) : Conditional where
  depth := c.depth - 1
  skipElse := if c.depth = c.skipElse then 0 else c.skipElse
  skipEndif := if c.depth = c.skipEndif then 0 else c.skipEndif

end Conditional

end SuperChip
